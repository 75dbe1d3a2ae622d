import EltexPractice.Foundations.CString
import EltexPractice.Foundations.ReadRounds

/-!
# The character device

`device_write` clears `msg` and stores at most 79 bytes; `device_read` copies from the offset it is
given up to the first NUL. The last byte of `msg` is 0 from the start and stays 0, which is what
ends the scan. An access outside `msg` gives `none`.

* `deviceRead_eq`: what a read at an offset within `msg` returns.
* `passes`: reads from offset 0 return the stored text, pass after pass, and stay within `msg`.
* `retried_iff`: when the loop of a caller that retries short writes leaves the beginning of its
  bytes on the device. Each retry stores what is left in place of what was stored.
* `reads_inside_iff`: a sequence of calls stays within `msg` exactly when every `pread` does at its
  first access.
-/

namespace EltexPractice.CharDevice

open CString Rounds

/-- `BUF_LEN` -/
def bufLen : ℕ := 80

/-- The array `msg`, which ends with a 0. -/
structure Device where
  msg : List UInt8
  length_msg : msg.length = bufLen
  last : msg[bufLen - 1]? = some 0

/-- The loop of `device_read` with `msg_ptr` at the index `i`. -/
def scan (msg : List UInt8) (i : ℕ) : ℕ → Option (List UInt8)
  | 0 => some []
  | length + 1 => do
    let b ← msg[i]?
    if b = 0 then return []
    let bytes ← scan msg (i + 1) length
    return b :: bytes

/-- `device_read`: the bytes put into the buffer of the user, and `*offset` afterwards. -/
def deviceRead (d : Device) (offset length : ℕ) : Option (List UInt8 × ℕ) := do
  let b ← d.msg[offset]?
  if b = 0 then return ([], 0)
  let bytes ← scan d.msg offset length
  return (bytes, offset + bytes.length)

/-- The loop of `device_write`. -/
def fill (msg : List UInt8) (ind : ℕ) : List UInt8 → List UInt8 × ℕ
  | [] => (msg, ind)
  | b :: buff => if ind < bufLen - 1 then fill (msg.set ind b) (ind + 1) buff else (msg, ind)

/-- The loop writes the bytes that fit in front of the last one. -/
theorem fill_eq (kept buff : List UInt8) (zeros : ℕ) (hlen : kept.length + zeros + 1 = bufLen) :
    fill (kept ++ List.replicate (zeros + 1) 0) kept.length buff =
      (kept ++ buff.take zeros ++ List.replicate (zeros - buff.length + 1) 0,
        kept.length + min zeros buff.length) := by
  induction buff generalizing kept zeros with
  | nil => simp [fill]
  | cons b buff ih =>
    rw [fill]
    rcases zeros with _ | zeros
    · rw [if_neg (by omega)]
      simp
    · have hset : (kept ++ List.replicate (zeros + 1 + 1) 0).set kept.length b =
          kept ++ [b] ++ List.replicate (zeros + 1) 0 := by
        rw [List.set_append_right _ _ le_rfl, Nat.sub_self, List.replicate_succ,
          List.set_cons_zero, List.append_assoc]
        rfl
      have hnext := ih (kept ++ [b]) zeros (by
        rw [List.length_append, List.length_singleton]
        omega)
      rw [List.length_append, List.length_singleton] at hnext
      rw [if_pos (by omega), hset, hnext]
      refine Prod.ext ?_ ?_
      · simp
      · simp only [List.length_cons]
        omega

/-- The bytes of the array after `device_write`. -/
theorem fill_zeros (buff : List UInt8) :
    fill (List.replicate bufLen 0) 0 buff =
      (buff.take 79 ++ List.replicate (79 - buff.length + 1) 0, min 79 buff.length) := by
  have h := fill_eq [] buff 79 rfl
  rw [List.nil_append, List.nil_append, List.length_nil, Nat.zero_add] at h
  exact h

/-- `device_write`, which clears what the device had: the device, and `ind`. -/
def deviceWrite (_ : Device) (buff : List UInt8) : Device × ℕ :=
  ({ msg := (fill (List.replicate bufLen 0) 0 buff).1
     length_msg := by
       rw [fill_zeros, List.length_append, List.length_take, List.length_replicate, bufLen]
       omega
     last := by
       rw [fill_zeros, bufLen, List.getElem?_append_right (by rw [List.length_take]; omega),
         List.getElem?_replicate, List.length_take, if_pos (by omega)] },
    (fill (List.replicate bufLen 0) 0 buff).2)

/-! ## What a read returns -/

namespace Device

/-- The text on the device. -/
def text (d : Device) : List UInt8 := cstr d.msg

variable (d : Device)

/-- The bytes from an offset within the array on end with a 0. -/
theorem zero_mem_drop {i : ℕ} (h : i < bufLen) : 0 ∈ d.msg.drop i := by
  have hlast : (d.msg.drop i)[bufLen - 1 - i]? = some 0 := by
    rw [List.getElem?_drop, Nat.add_sub_cancel' (by omega)]
    exact d.last
  exact List.mem_of_getElem? hlast

theorem length_text_le : d.text.length ≤ 79 := by
  have h0 := d.zero_mem_drop (i := 0) (by decide)
  have hlt := length_cstr_lt (List.drop_zero ▸ h0)
  rw [d.length_msg, bufLen] at hlt
  exact Nat.le_of_lt_succ hlt

/-- The text from an offset within it on. -/
theorem cstr_drop {i : ℕ} (h : i ≤ d.text.length) : cstr (d.msg.drop i) = d.text.drop i := by
  have hsplit : d.text = d.text.take i ++ cstr (d.msg.drop i) := by
    have hnotMem : 0 ∉ d.text.take i := fun h0 =>
      zero_notMem_cstr d.msg (List.mem_of_mem_take h0)
    have htake : d.text.take i = d.msg.take i := by
      obtain ⟨t, ht⟩ := List.takeWhile_prefix (l := d.msg) (· != 0)
      have hcstr : d.msg = d.text ++ t := ht.symm
      rw [hcstr, List.take_append_of_le_length h]
    rw [← cstr_append_of_notMem hnotMem, htake, List.take_append_drop]
    rfl
  have hdrop := congrArg (List.drop i) hsplit
  rw [List.drop_append_of_le_length (by rw [List.length_take]; omega),
    List.drop_of_length_le (i := i) (l := d.text.take i) (by rw [List.length_take]; omega),
    List.nil_append] at hdrop
  exact hdrop.symm

end Device

theorem cstr_cons_zero (rest : List UInt8) : cstr (0 :: rest) = [] := by
  rw [cstr, List.takeWhile_cons, if_neg (by decide)]

theorem cstr_cons {b : UInt8} (h : b ≠ 0) (rest : List UInt8) :
    cstr (b :: rest) = b :: cstr rest := by
  rw [cstr, List.takeWhile_cons, if_pos (bne_iff_ne.2 h)]
  rfl

/-- The scan ends at the NUL, without looking behind it. -/
theorem scan_eq {msg : List UInt8} {i : ℕ} (h : 0 ∈ msg.drop i) (length : ℕ) :
    scan msg i length = some ((cstr (msg.drop i)).take length) := by
  induction length generalizing i with
  | zero => rw [scan, List.take_zero]
  | succ length ih =>
    have hi : i < msg.length := by
      by_contra hle
      rw [List.drop_of_length_le (Nat.le_of_not_lt hle)] at h
      cases h
    rw [List.drop_eq_getElem_cons hi] at h ⊢
    rw [scan, List.getElem?_eq_getElem hi]
    by_cases hb : msg[i] = 0
    · rw [hb, cstr_cons_zero]
      rfl
    · have hrest := ih ((List.mem_cons.1 h).resolve_left fun e => hb e.symm)
      rw [cstr_cons hb, List.take_succ_cons]
      simp only [Option.bind_eq_bind, Option.bind_some, if_neg hb, hrest]
      rfl

/-- **What a read returns** at an offset within the array. -/
theorem deviceRead_eq (d : Device) {offset : ℕ} (h : offset < bufLen) (length : ℕ) :
    deviceRead d offset length =
      if cstr (d.msg.drop offset) = [] then some ([], 0)
      else some ((cstr (d.msg.drop offset)).take length,
        offset + min length (cstr (d.msg.drop offset)).length) := by
  have h0 := d.zero_mem_drop h
  have hlt : offset < d.msg.length := d.length_msg ▸ h
  rw [deviceRead, scan_eq h0, List.drop_eq_getElem_cons hlt, List.getElem?_eq_getElem hlt]
  by_cases hb : d.msg[offset] = 0
  · rw [hb, cstr_cons_zero, if_pos rfl]
    rfl
  · rw [cstr_cons hb, if_neg (List.cons_ne_nil _ _)]
    simp only [Option.bind_eq_bind, Option.bind_some, if_neg hb, List.length_take]
    rfl

/-- Inside the text a read returns the bytes at the offset. -/
theorem deviceRead_inside {d : Device} {offset : ℕ} (h : offset < d.text.length) (length : ℕ) :
    deviceRead d offset length =
      some ((d.text.drop offset).take length, min d.text.length (offset + length)) := by
  have hle := d.length_text_le
  have hne : d.text.drop offset ≠ [] := fun hnil => by
    have := congrArg List.length hnil
    rw [List.length_drop, List.length_nil] at this
    omega
  rw [deviceRead_eq d (by rw [bufLen]; omega), d.cstr_drop h.le, if_neg hne, List.length_drop]
  congr 2
  omega

/-- At the end of the text a read returns nothing and goes back to the beginning. -/
theorem deviceRead_end (d : Device) (length : ℕ) :
    deviceRead d d.text.length length = some ([], 0) := by
  have hle := d.length_text_le
  rw [deviceRead_eq d (by rw [bufLen]; omega), d.cstr_drop le_rfl, List.drop_length, if_pos rfl]

/-- The text after a write. -/
theorem text_deviceWrite (d : Device) (m : List UInt8) :
    (deviceWrite d m).1.text = cstr (m.take 79) := by
  change cstr (fill _ 0 m).1 = _
  rw [fill_zeros, List.replicate_succ]
  exact cstr_append_cons_zero _ _

theorem deviceWrite_snd (d : Device) (m : List UInt8) :
    (deviceWrite d m).2 = min 79 m.length := by
  change (fill _ 0 m).2 = _
  rw [fill_zeros]

/-! ## Passes over the text -/

/-- The offset before the `n`-th of a sequence of reads. -/
def offsetAt (d : Device) (lengths : ℕ → ℕ) : ℕ → Option ℕ
  | 0 => some 0
  | n + 1 => do
    let offset ← offsetAt d lengths n
    let (_, offset) ← deviceRead d offset (lengths n)
    return offset

/-- What the `n`-th read returns. -/
def replies (d : Device) (lengths : ℕ → ℕ) (n : ℕ) : Option (List UInt8) := do
  let offset ← offsetAt d lengths n
  let (bytes, _) ← deviceRead d offset (lengths n)
  return bytes

/-- The offset is the position in the text. -/
theorem offsetAt_eq (d : Device) (lengths : ℕ → ℕ) (n : ℕ) :
    offsetAt d lengths n = some (position d.text.length lengths n) := by
  induction n with
  | zero => rfl
  | succ n ih =>
    rw [offsetAt, ih]
    rcases (position_le d.text.length lengths n).lt_or_eq with hlt | heq
    · simp [deviceRead_inside hlt, position_succ_of_lt hlt]
    · simp [heq, deviceRead_end, position_succ_of_eq heq]

theorem replies_inside {d : Device} {lengths : ℕ → ℕ} {n : ℕ}
    (hlt : position d.text.length lengths n < d.text.length) :
    replies d lengths n =
      some ((d.text.drop (position d.text.length lengths n)).take (lengths n)) := by
  rw [replies, offsetAt_eq]
  simp [deviceRead_inside hlt]

theorem replies_end {d : Device} {lengths : ℕ → ℕ} {n : ℕ}
    (hend : position d.text.length lengths n = d.text.length) : replies d lengths n = some [] := by
  rw [replies, offsetAt_eq, hend]
  simp [deviceRead_end]

theorem pieces (d : Device) {lengths : ℕ → ℕ} (hpos : ∀ n, 0 < lengths n) :
    Pieces (replies d lengths) d.text.length lengths where
  size_pos := hpos
  at_end _ := replies_end
  piece n hlt bytes hreply := by
    rw [replies_inside hlt] at hreply
    obtain rfl := Option.some.inj hreply
    rw [List.length_take, List.length_drop]

/-- **Reads from offset 0 return what was stored, pass after pass.** The read that ends a pass takes
the offset back to 0, the offset is at most 79, and no read looks outside `msg`. -/
theorem passes (d : Device) (m : List UInt8) {lengths : ℕ → ℕ} (hpos : ∀ n, 0 < lengths n) :
    ReadsBack (replies (deviceWrite d m).1 lengths) (cstr (m.take 79)) ∧
      ∀ n, (replies (deviceWrite d m).1 lengths n).isSome ∧
        ∃ offset ≤ 79, offsetAt (deviceWrite d m).1 lengths n = some offset ∧
          (replies (deviceWrite d m).1 lengths n = some [] →
            offsetAt (deviceWrite d m).1 lengths (n + 1) = some 0) := by
  have hpieces := pieces (deviceWrite d m).1 hpos
  have hback := hpieces.readsBack_iff.2 fun _ => replies_inside
  rw [text_deviceWrite] at hback
  refine ⟨hback, fun n => ?_⟩
  have hle := position_le (deviceWrite d m).1.text.length lengths n
  refine ⟨?_, _, hle.trans (Device.length_text_le _), offsetAt_eq _ _ n, fun hnil => ?_⟩
  · rcases hle.lt_or_eq with hlt | heq
    · rw [replies_inside hlt]
      rfl
    · rw [replies_end heq]
      rfl
  · rw [offsetAt_eq, position_succ_of_eq (hpieces.reply_eq_nil_iff.1 hnil)]

/-- The module as it is loaded. -/
def zeroed : Device where
  msg := List.replicate bufLen 0
  length_msg := List.length_replicate
  last := rfl

/-- Three bytes at a time, `hello` is read again and again. -/
theorem passes_threes :
    ReadsBack (replies (deviceWrite zeroed (ascii "hello")).1 fun _ => 3)
        (cstr ((ascii "hello").take 79)) ∧
      ∀ n, (replies (deviceWrite zeroed (ascii "hello")).1 (fun _ => 3) n).isSome ∧
        ∃ offset ≤ 79,
          offsetAt (deviceWrite zeroed (ascii "hello")).1 (fun _ => 3) n = some offset ∧
          (replies (deviceWrite zeroed (ascii "hello")).1 (fun _ => 3) n = some [] →
            offsetAt (deviceWrite zeroed (ascii "hello")).1 (fun _ => 3) (n + 1) = some 0) :=
  passes zeroed (ascii "hello") fun _ => by decide

/-! ## Short writes that are retried -/

/-- The loop of a caller that writes what is left until nothing is. -/
def writeAll (d : Device) (m : List UInt8) : Device :=
  if m = [] then d
  else writeAll (deviceWrite d m).1 (m.drop (deviceWrite d m).2)
termination_by m.length
decreasing_by
  rw [deviceWrite_snd, List.length_drop]
  have := List.length_pos_of_ne_nil ‹_›
  omega

/-- A read of any size returns the beginning of what the caller wrote. -/
def Keeps (d : Device) (m : List UInt8) : Prop :=
  ∀ length, (deviceRead (writeAll d m) 0 length).map (·.1) = some ((m.take 79).take length)

/-- A read at offset 0 returns the text. -/
theorem deviceRead_zero (d : Device) (length : ℕ) :
    (deviceRead d 0 length).map (·.1) = some (d.text.take length) := by
  rcases Nat.eq_zero_or_pos d.text.length with h0 | hpos
  · have hend := deviceRead_end d length
    rw [h0] at hend
    rw [hend, List.length_eq_zero_iff.1 h0, List.take_nil]
    rfl
  · rw [deviceRead_inside hpos, List.drop_zero]
    rfl

theorem keeps_iff {d : Device} {m : List UInt8} : Keeps d m ↔ (writeAll d m).text = m.take 79 := by
  simp only [Keeps, deviceRead_zero, Option.some_inj]
  constructor
  · intro h
    have hall := h 79
    rwa [List.take_of_length_le (Device.length_text_le _),
      List.take_of_length_le (List.length_take_le _ _)] at hall
  · intro h length
    rw [h]

/-- The device keeps the last piece, and the pieces have 79 bytes. -/
theorem text_writeAll (d : Device) {m : List UInt8} (hne : m ≠ []) :
    (writeAll d m).text = cstr (m.drop (79 * ((m.length - 1) / 79))) := by
  obtain ⟨n, hn⟩ : ∃ n, m.length = n := ⟨_, rfl⟩
  have hpos := List.length_pos_of_ne_nil hne
  induction n using Nat.strong_induction_on generalizing d m with
  | _ n ih =>
    rw [writeAll, if_neg hne, deviceWrite_snd]
    rcases Nat.lt_or_ge 79 m.length with hlong | hshort
    · have hlen : (m.drop (min 79 m.length)).length = m.length - 79 := by
        rw [List.length_drop]
        omega
      rw [ih (m.length - 79) (by omega) _ (List.ne_nil_of_length_pos (by omega)) hlen (by omega),
        hlen, List.drop_drop]
      congr 2
      omega
    · rw [List.drop_of_length_le (by omega), writeAll, if_pos rfl, text_deviceWrite,
        List.take_of_length_le hshort, Nat.div_eq_of_lt (by omega), Nat.mul_zero, List.drop_zero]

/-- **Retried short writes** leave the beginning of the bytes on the device exactly when they fit at
once, or are cut into pieces of 79 bytes of which the last equals the first. For no bytes at all the
loop makes no call, and leaves what was there. -/
theorem retried_iff (d : Device) {m : List UInt8} (h0 : 0 ∉ m) :
    Keeps d m ↔ (m = [] → d.text = []) ∧
      (79 < m.length → 79 ∣ m.length ∧ m.drop (m.length - 79) = m.take 79) := by
  rw [keeps_iff]
  rcases eq_or_ne m [] with rfl | hne
  · rw [writeAll, if_pos rfl]
    simp
  have hpos := List.length_pos_of_ne_nil hne
  have htext : (writeAll d m).text = m.drop (79 * ((m.length - 1) / 79)) := by
    rw [text_writeAll d hne, cstr_eq_self fun h => h0 (List.mem_of_mem_drop h)]
  rw [htext, and_iff_right fun h => absurd h hne]
  constructor
  · intro heq hlong
    have hlen := congrArg List.length heq
    rw [List.length_drop, List.length_take] at hlen
    have hlast : m.length - 79 = 79 * ((m.length - 1) / 79) := by omega
    exact ⟨by omega, hlast ▸ heq⟩
  · intro h
    rcases Nat.lt_or_ge 79 m.length with hlong | hshort
    · obtain ⟨hdvd, heq⟩ := h hlong
      have hlast : 79 * ((m.length - 1) / 79) = m.length - 79 := by omega
      rw [hlast, heq]
    · rw [Nat.div_eq_of_lt (by omega), Nat.mul_zero, List.drop_zero, List.take_of_length_le hshort]

/-- The beginning is kept of `hello`, and of 158 equal bytes, which are written in two pieces. -/
theorem keeps_equal : Keeps zeroed (ascii "hello") ∧ Keeps zeroed (List.replicate 158 97) := by
  constructor
  · exact (retried_iff zeroed (by decide)).2
      ⟨fun h => absurd h (by decide), fun h => absurd h (by decide)⟩
  · have hnul : (0 : UInt8) ∉ List.replicate 158 97 := fun h =>
      absurd (List.eq_of_mem_replicate h) (by decide)
    have hne : List.replicate 158 (97 : UInt8) ≠ [] :=
      List.ne_nil_of_length_pos (by rw [List.length_replicate]; omega)
    refine (retried_iff zeroed hnul).2 ⟨fun h => absurd h hne, fun _ => ?_⟩
    rw [List.length_replicate, List.drop_replicate, List.take_replicate]
    exact ⟨by omega, rfl⟩

/-- Of 80 bytes the last one is kept. -/
theorem not_keeps : ¬ Keeps zeroed (List.replicate 80 97) := by
  intro h
  have htext := text_writeAll zeroed (m := List.replicate 80 97) (by decide)
  rw [keeps_iff.1 h, cstr_eq_self (by decide)] at htext
  exact absurd (congrArg List.length htext) (by decide)

/-! ## Reads at any offset -/

/-- A device that is open, and the position of its file. -/
structure OpenFile where
  device : Device
  pos : ℕ

/-- A call on the device: a write, a read at the position of the file, or one at an offset of the
caller's own. The device can also be closed and opened again. -/
inductive Call
  | write (buff : List UInt8)
  | read (length : ℕ)
  | pread (offset length : ℕ)
  | reopen

/-- One call, `none` when it looks outside `msg`. `device_write` leaves the position alone. -/
def step (f : OpenFile) : Call → Option OpenFile
  | .write buff => some { f with device := (deviceWrite f.device buff).1 }
  | .read length => do
    let (_, offset) ← deviceRead f.device f.pos length
    return { f with pos := offset }
  | .pread offset length => do
    let _ ← deviceRead f.device offset length
    return f
  | .reopen => some { f with pos := 0 }

/-- A sequence of calls. -/
def run (f : OpenFile) (calls : List Call) : Option OpenFile := calls.foldlM step f

/-- The first byte a call looks at is inside `msg`. -/
def Call.Starts : Call → Prop
  | .pread offset _ => offset < bufLen
  | _ => True

/-- An offset outside `msg` is followed. -/
theorem deviceRead_outside {d : Device} {offset : ℕ} (h : bufLen ≤ offset) (length : ℕ) :
    deviceRead d offset length = none := by
  rw [deviceRead, List.getElem?_eq_none (d.length_msg.symm ▸ h)]
  rfl

/-- A read that starts inside `msg` stays there, and leaves an offset that is inside. -/
theorem exists_deviceRead (d : Device) {offset : ℕ} (h : offset < bufLen) (length : ℕ) :
    ∃ bytes, ∃ offset' < bufLen, deviceRead d offset length = some (bytes, offset') := by
  have hlt := length_cstr_lt (d.zero_mem_drop h)
  rw [List.length_drop, d.length_msg] at hlt
  rw [deviceRead_eq d h]
  split
  · exact ⟨_, 0, by decide, rfl⟩
  · exact ⟨_, _, by omega, rfl⟩

/-- One call stays inside exactly when it starts inside, and keeps the position inside. -/
theorem step_spec {f : OpenFile} (hpos : f.pos < bufLen) (c : Call) :
    (c.Starts → ∃ f', step f c = some f' ∧ f'.pos < bufLen) ∧
      (¬ c.Starts → step f c = none) := by
  cases c with
  | write buff => exact ⟨fun _ => ⟨_, rfl, hpos⟩, fun h => absurd trivial h⟩
  | read length =>
    obtain ⟨bytes, offset, hoffset, hread⟩ := exists_deviceRead f.device hpos length
    refine ⟨fun _ => ⟨{ f with pos := offset }, ?_, hoffset⟩, fun h => absurd trivial h⟩
    rw [step, hread]
    rfl
  | pread offset length =>
    constructor
    · intro hin
      obtain ⟨bytes, offset', -, hread⟩ := exists_deviceRead f.device hin length
      refine ⟨f, ?_, hpos⟩
      rw [step, hread]
      rfl
    · intro hout
      rw [step, deviceRead_outside (Nat.le_of_not_lt hout)]
      rfl
  | reopen => exact ⟨fun _ => ⟨_, rfl, Nat.succ_pos _⟩, fun h => absurd trivial h⟩

theorem run_iff {f : OpenFile} (hpos : f.pos < bufLen) (calls : List Call) :
    (run f calls).isSome ↔ ∀ c ∈ calls, c.Starts := by
  induction calls generalizing f with
  | nil => simp [run]
  | cons c calls ih =>
    obtain ⟨hin, hout⟩ := step_spec hpos c
    rw [List.forall_mem_cons, run, List.foldlM_cons]
    by_cases hc : c.Starts
    · obtain ⟨f', hstep, hpos'⟩ := hin hc
      rw [hstep, and_iff_right hc]
      exact ih hpos'
    · rw [hout hc]
      simp [hc]

/-- **Every byte that is looked at is inside `msg`** exactly when every `pread` starts there: the
position of the file does by itself. -/
theorem reads_inside_iff (d : Device) (calls : List Call) :
    (run ⟨d, 0⟩ calls).isSome ↔
      ∀ offset length, Call.pread offset length ∈ calls → offset < bufLen := by
  rw [run_iff (f := ⟨d, 0⟩) (Nat.succ_pos _)]
  constructor
  · exact fun h offset length hc => h _ hc
  · intro h c hc
    cases c with
    | pread offset length => exact h offset length hc
    | _ => trivial

/-- One byte is read behind the end of `msg`. -/
theorem not_reads_inside : (run ⟨zeroed, 0⟩ [.write (ascii "hello"), .pread 80 1]).isSome = false :=
  rfl

end EltexPractice.CharDevice
