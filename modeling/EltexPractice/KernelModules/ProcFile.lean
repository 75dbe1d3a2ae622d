import EltexPractice.Foundations.ReadRounds
import EltexPractice.Foundations.Words

/-!
# The proc file

`write_proc` stores a message of at most 127 bytes, and `read_proc` hands it out. The bytes left in
the round are counted down in the `int` `temp`, which the comparison with `count` and the
subtraction convert to `size_t`; `copy_to_user` always copies from the start of `msg`.

* `Holds.readProc_piece`: what one read returns, and how it moves the countdown.
* `proc_readsBack_iff`: the message is read back, round after round, exactly when no read inside it
  fails and every piece of it, as the sizes cut it, is also its beginning.
-/

namespace EltexPractice.ProcFile

open Rounds

/-- `MSG_SIZE` -/
def msgSize : ℕ := 128

/-- The variables of the module; `msg` points to an array of `MSG_SIZE` bytes. -/
structure Vars where
  len : ℤ
  temp : ℤ
  msg : List UInt8
  length_msg : msg.length = msgSize

/-- Conversion of an `int` to `size_t`. -/
def toSizeT (v : ℤ) : ℕ := (v % 2 ^ 64).toNat

/-- `copy_from_user(msg, buf, n)` that leaves the last `uncopied` bytes out: they are set to 0. -/
def copyFromUser (msg buf : List UInt8) (n uncopied : ℕ) : List UInt8 :=
  buf.take (n - uncopied) ++ List.replicate (n - (buf.take (n - uncopied)).length) 0 ++ msg.drop n

theorem length_copyFromUser {msg buf : List UInt8} {n uncopied : ℕ} (h : n ≤ msg.length) :
    (copyFromUser msg buf n uncopied).length = msg.length := by
  simp only [copyFromUser, List.length_append, List.length_take, List.length_replicate,
    List.length_drop]
  omega

/-- `write_proc`: the return value, `none` for `-EFAULT`. -/
def writeProc (s : Vars) (buf : List UInt8) (uncopied : ℕ) : Option ℕ × Vars :=
  let count := buf.length
  let toCopy := if msgSize ≤ count then msgSize - 1 else count
  have hcopy : toCopy ≤ s.msg.length := by
    rw [s.length_msg]
    simp only [toCopy]
    split <;> omega
  let msg := copyFromUser s.msg buf toCopy uncopied
  have hmsg : msg.length = msgSize := (length_copyFromUser hcopy).trans s.length_msg
  if min toCopy uncopied ≠ 0 then (none, { s with msg := msg, length_msg := hmsg })
  else
    (some count,
      { len := toCopy
        temp := toCopy
        msg := msg.set toCopy 0
        length_msg := List.length_set.trans hmsg })

/-- A call of `read_proc`: the size, and whether `copy_to_user` fails if it has bytes to copy. -/
structure ReadCall where
  count : ℕ
  faults : Bool

/-- `read_proc`: the bytes returned, `none` for `-EFAULT`. -/
def readProc (s : Vars) (c : ReadCall) : Option (List UInt8) × Vars :=
  let count := if toSizeT s.temp < c.count then toSizeT s.temp else c.count
  -- the difference of two `size_t` that does not wrap, as `count` is at most `temp` here
  let s := { s with temp := toInt (toSizeT s.temp - count) }
  if c.faults ∧ count ≠ 0 then (none, s)
  else (some (s.msg.take count), if count = 0 then { s with temp := s.len } else s)

/-- The variables before the `n`-th of a sequence of reads. -/
def varsAt (s : Vars) (calls : ℕ → ReadCall) : ℕ → Vars
  | 0 => s
  | n + 1 => (readProc (varsAt s calls n) (calls n)).2

/-- What the `n`-th read returns. -/
def replies (s : Vars) (calls : ℕ → ReadCall) (n : ℕ) : Option (List UInt8) :=
  (readProc (varsAt s calls n) (calls n)).1

/-! ## One read -/

theorem toSizeT_natCast {n : ℕ} (h : n < 2 ^ 64) : toSizeT n = n := by
  rw [toSizeT, Int.emod_eq_of_lt (Int.natCast_nonneg n) (by omega), Int.toNat_natCast]

/-- The message is stored, and `rest` bytes of it are left in the round. -/
structure Holds (s : Vars) (m : List UInt8) (rest : ℕ) : Prop where
  short : m.length < msgSize
  stored : ∀ n ≤ m.length, s.msg.take n = m.take n
  len_eq : s.len = m.length
  temp_eq : s.temp = rest
  rest_le : rest ≤ m.length

variable {s : Vars} {m : List UInt8} {rest : ℕ}

/-- A message that fits is stored, and the whole of it is left to read. -/
theorem holds_writeProc (s : Vars) (h : m.length ≤ 127) :
    (writeProc s m 0).1 = some m.length ∧ Holds (writeProc s m 0).2 m m.length := by
  have hlt : m.length < msgSize := Nat.lt_succ_of_le h
  have hcopy : (if msgSize ≤ m.length then msgSize - 1 else m.length) = m.length :=
    if_neg (Nat.not_le.2 hlt)
  have hmsg : copyFromUser s.msg m m.length 0 = m ++ s.msg.drop m.length := by
    rw [copyFromUser, Nat.sub_zero, List.take_length, Nat.sub_self, List.replicate_zero,
      List.append_nil]
  simp only [writeProc, hcopy, hmsg, Nat.min_zero, ne_eq, not_true_eq_false, if_false, true_and]
  refine ⟨hlt, fun n hn => ?_, rfl, rfl, le_rfl⟩
  change ((m ++ s.msg.drop m.length).set m.length 0).take n = m.take n
  rw [List.set_append_right _ _ le_rfl, List.take_append_of_le_length hn]

/-- At the end of the message a read returns nothing, and the whole message is left again. -/
theorem Holds.readProc_end (h : Holds s m 0) (c : ReadCall) :
    (readProc s c).1 = some [] ∧ Holds (readProc s c).2 m m.length := by
  have hcount : (if toSizeT s.temp < c.count then toSizeT s.temp else c.count) = 0 := by
    rw [h.temp_eq, toSizeT_natCast (by omega)]
    split <;> omega
  simp only [readProc, hcount, ne_eq, not_true_eq_false, and_false, if_false, if_true]
  exact ⟨rfl, h.short, h.stored, h.len_eq, h.len_eq, le_rfl⟩

/-- Inside the message a read copies its beginning, and the countdown loses the bytes also when the
copy fails. -/
theorem Holds.readProc_piece (h : Holds s m rest) (hrest : 0 < rest) {c : ReadCall}
    (hcount : 0 < c.count) :
    (readProc s c).1 = (if c.faults then none else some (m.take (min c.count rest))) ∧
      Holds (readProc s c).2 m (rest - min c.count rest) := by
  have hshort := h.short
  have hle := h.rest_le
  rw [msgSize] at hshort
  have htemp : toSizeT s.temp = rest := by rw [h.temp_eq, toSizeT_natCast (by omega)]
  have hmin : (if rest < c.count then rest else c.count) = min c.count rest := by
    split <;> omega
  have hne : min c.count rest ≠ 0 := by omega
  have hleft : toInt ((rest : ℤ) - min c.count rest) = ((rest - min c.count rest : ℕ) : ℤ) := by
    rw [toInt_eq_self] <;> omega
  have hnext : Holds { s with temp := ((rest - min c.count rest : ℕ) : ℤ) } m
      (rest - min c.count rest) :=
    ⟨h.short, h.stored, h.len_eq, rfl, by omega⟩
  simp only [readProc, htemp, hmin, hleft, ne_eq, hne, not_false_eq_true, and_true, if_false]
  split
  · exact ⟨rfl, hnext⟩
  · rw [h.stored _ (by omega)]
    exact ⟨rfl, hnext⟩

/-! ## A sequence of reads -/

section

variable {calls : ℕ → ReadCall}

/-- The sizes of the reads. -/
def sizes (calls : ℕ → ReadCall) (n : ℕ) : ℕ := (calls n).count

/-- The countdown is what the sizes have left of the message. -/
theorem holds_varsAt (h : Holds s m m.length) (hpos : ∀ n, 0 < (calls n).count) (n : ℕ) :
    Holds (varsAt s calls n) m (m.length - position m.length (sizes calls) n) := by
  induction n with
  | zero => exact h
  | succ n ih =>
    rcases (position_le m.length (sizes calls) n).lt_or_eq with hlt | heq
    · have hnext := (ih.readProc_piece (by omega) (hpos n)).2
      rw [position_succ_of_lt hlt]
      have hrest : m.length - position m.length (sizes calls) n -
          min (calls n).count (m.length - position m.length (sizes calls) n) =
            m.length - min m.length (position m.length (sizes calls) n + (calls n).count) := by
        omega
      rw [hrest] at hnext
      exact hnext
    · rw [heq, Nat.sub_self] at ih
      rw [position_succ_of_eq heq, Nat.sub_zero]
      exact (ih.readProc_end (calls n)).2

/-- Inside the message, the reply is its beginning. -/
theorem replies_eq (h : Holds s m m.length) (hpos : ∀ n, 0 < (calls n).count) {n : ℕ}
    (hlt : position m.length (sizes calls) n < m.length) :
    replies s calls n =
      if (calls n).faults then none
      else some (m.take (min (calls n).count (m.length - position m.length (sizes calls) n))) :=
  ((holds_varsAt h hpos n).readProc_piece (by omega) (hpos n)).1

theorem pieces (h : Holds s m m.length) (hpos : ∀ n, 0 < (calls n).count) :
    Pieces (replies s calls) m.length (sizes calls) where
  size_pos := hpos
  at_end n hend := by
    have hn := holds_varsAt h hpos n
    rw [hend, Nat.sub_self] at hn
    exact (hn.readProc_end (calls n)).1
  piece n hlt bytes hreply := by
    rw [replies_eq h hpos hlt] at hreply
    split at hreply
    · cases hreply
    · obtain rfl := Option.some.inj hreply
      rw [List.length_take, sizes]
      omega

/-- The read does not fail, and the bytes at its position are also the first ones of the message. -/
def ReadsBeginning (m : List UInt8) (calls : ℕ → ReadCall) (n : ℕ) : Prop :=
  (calls n).faults = false ∧
    (m.drop (position m.length (sizes calls) n)).take (calls n).count =
      m.take (min (calls n).count (m.length - position m.length (sizes calls) n))

theorem replies_eq_iff (h : Holds s m m.length) (hpos : ∀ n, 0 < (calls n).count) {n : ℕ}
    (hlt : position m.length (sizes calls) n < m.length) :
    replies s calls n =
        some ((m.drop (position m.length (sizes calls) n)).take (sizes calls n)) ↔
      ReadsBeginning m calls n := by
  rw [replies_eq h hpos hlt, ReadsBeginning]
  cases (calls n).faults with
  | true => simp
  | false => simp [sizes, @eq_comm _ (m.take _)]

/-- **The message is read back, round after round,** exactly when no read inside it fails and every
piece the sizes cut from it is also its beginning. -/
theorem proc_readsBack_iff (s : Vars) {m : List UInt8} (hm : m.length ≤ 127)
    {calls : ℕ → ReadCall} (hpos : ∀ n, 0 < (calls n).count) :
    ReadsBack (replies (writeProc s m 0).2 calls) m ↔
      ∀ n, position m.length (sizes calls) n < m.length → ReadsBeginning m calls n := by
  have h := (holds_writeProc s hm).2
  rw [(pieces h hpos).readsBack_iff]
  exact forall_congr' fun n => imp_congr_right fun hlt => replies_eq_iff h hpos hlt

/-- Reads that do not fail and have room for the whole message read its beginning. -/
theorem readsBeginning_of_large {m : List UInt8} (hlarge : ∀ n, m.length ≤ (calls n).count)
    (hok : ∀ n, (calls n).faults = false) {n : ℕ}
    (hlt : position m.length (sizes calls) n < m.length) : ReadsBeginning m calls n := by
  have hzero : position m.length (sizes calls) n = 0 := by
    cases n with
    | zero => rfl
    | succ n =>
      have hn := hlarge n
      rw [position] at hlt ⊢
      split at hlt
      · rw [if_pos ‹_›]
      · rw [sizes] at hlt
        omega
  refine ⟨hok n, ?_⟩
  rw [hzero, List.drop_zero, Nat.sub_zero, Nat.min_eq_right (hlarge n), List.take_length,
    List.take_of_length_le (hlarge n)]

end

/-- The variables behind a `kmalloc` that returned zeros. -/
def blank : Vars := ⟨0, 0, List.replicate msgSize 0, List.length_replicate⟩

/-- Reads of a page return `AB` every time. -/
theorem readsBack_pages :
    ReadsBack (replies (writeProc blank [65, 66] 0).2 fun _ => ⟨4096, false⟩) [65, 66] :=
  (proc_readsBack_iff blank (by decide) fun _ => by decide).2 fun _ hlt =>
    readsBeginning_of_large (fun _ => by decide) (fun _ => rfl) hlt

/-- Read one byte at a time, `AB` is read as `AA`; a message whose only read fails is lost. -/
theorem not_readsBack :
    ¬ ReadsBack (replies (writeProc blank [65, 66] 0).2 fun _ => ⟨1, false⟩) [65, 66] ∧
      ¬ ReadsBack (replies (writeProc blank [67] 0).2 fun n => ⟨1, n == 0⟩) [67] := by
  constructor
  · intro hback
    have h := (holds_writeProc blank (m := [65, 66]) (by decide)).2
    have hpos : ∀ _ : ℕ, 0 < (ReadCall.mk 1 false).count := fun _ => Nat.one_pos
    have hsecond := (pieces h hpos).readsBack_iff.1 hback 1 (by decide)
    have hread := (replies_eq_iff h hpos (n := 1) (by decide)).1 hsecond
    exact absurd hread.2 (by decide)
  · intro hback
    have h := (holds_writeProc blank (m := [67]) (by decide)).2
    have hpos : ∀ n : ℕ, 0 < (ReadCall.mk 1 (n == 0)).count := fun _ => Nat.one_pos
    have hfirst := (pieces h hpos).readsBack_iff.1 hback 0 (by decide)
    have hread := (replies_eq_iff h hpos (n := 0) (by decide)).1 hfirst
    exact absurd hread.1 (by decide)

end EltexPractice.ProcFile
