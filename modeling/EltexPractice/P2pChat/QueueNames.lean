import EltexPractice.P2pChat.Queues
import Mathlib.Data.List.Nodup

/-!
# The names of two chats

`format_queue_names` for base names of any length: an array has room for 127 bytes and the NUL, and
`snprintf` cuts what is longer. The four names of two chats are different exactly when neither base
name is so long that its suffix is cut (`names_nodup_iff`).
-/

namespace EltexPractice.P2pChat

open CString

/-- The base name with its slash. -/
def slashed (base : List UInt8) : List UInt8 :=
  if base.head? = some 47 then base else ascii "/" ++ base

theorem length_le_slashed (base : List UInt8) : base.length ≤ (slashed base).length := by
  rw [slashed]
  split
  · exact Nat.le_refl _
  · rw [List.length_append]
    exact Nat.le_add_left _ _

/-- `format_queue_names`: `q1_name` and `q2_name`. -/
def formatQueueNames (base : List UInt8) : List UInt8 × List UInt8 :=
  if base.head? = some 47 then
    (snprintf nameSize (base ++ ascii "_1"), snprintf nameSize (base ++ ascii "_2"))
  else
    (snprintf nameSize (ascii "/" ++ base ++ ascii "_1"),
      snprintf nameSize (ascii "/" ++ base ++ ascii "_2"))

/-- The names of a base name that leaves room are those of its chat. -/
theorem formatQueueNames_bytes (base : BaseName) :
    formatQueueNames base.bytes = (base.q1Name, base.q2Name) := by
  rw [formatQueueNames, BaseName.q1Name, BaseName.q2Name, BaseName.format, BaseName.format]
  split <;> rfl

theorem formatQueueNames_eq (base : List UInt8) :
    formatQueueNames base =
      ((slashed base ++ ascii "_1").take 127, (slashed base ++ ascii "_2").take 127) := by
  rw [formatQueueNames, slashed]
  split <;> rfl

section

variable {s t : List UInt8} {x y : List UInt8}

/-- With room for the suffix a name is not cut. -/
theorem take_suffix (hx : x.length = 2) (hs : s.length ≤ 125) : (s ++ x).take 127 = s ++ x :=
  List.take_of_length_le (by rw [List.length_append]; omega)

/-- The two suffixes start alike, so one byte of them is not enough. -/
theorem take_suffixes_eq (hs : 125 < s.length) :
    (s ++ ascii "_1").take 127 = (s ++ ascii "_2").take 127 := by
  have h₁ : ascii "_1" = [95, 49] := rfl
  have h₂ : ascii "_2" = [95, 50] := rfl
  rw [List.take_append, List.take_append, h₁, h₂]
  obtain hcut | hcut : 127 - s.length = 1 ∨ 127 - s.length = 0 := by omega
  · rw [hcut]
    rfl
  · rw [hcut]
    rfl

/-- Names that are not cut differ in the base name or in the suffix. -/
theorem names_ne (hx : x.length = 2) (hy : y.length = 2) (hs : s.length ≤ 125)
    (ht : t.length ≤ 125) (hne : s ≠ t ∨ x ≠ y) : (s ++ x).take 127 ≠ (t ++ y).take 127 := by
  rw [take_suffix hx hs, take_suffix hy ht]
  intro heq
  obtain ⟨hst, hxy⟩ := List.append_inj' heq (hx.trans hy.symm)
  exact hne.elim (fun h => h hst) fun h => h hxy

end

/-- The two names of a chat differ exactly when the suffix is not cut. -/
theorem q1_ne_q2_iff (base : List UInt8) :
    (formatQueueNames base).1 ≠ (formatQueueNames base).2 ↔ (slashed base).length ≤ 125 := by
  rw [formatQueueNames_eq]
  constructor
  · intro hne
    by_contra hlong
    exact hne (take_suffixes_eq (Nat.lt_of_not_le hlong))
  · exact fun hle => names_ne rfl rfl hle hle (Or.inr (by decide))

/-- **The four names of two chats are different** exactly when both base names, with their slashes,
have at most 125 bytes. -/
theorem names_nodup_iff {b c : List UInt8} (hne : slashed b ≠ slashed c) :
    [(formatQueueNames b).1, (formatQueueNames b).2, (formatQueueNames c).1,
        (formatQueueNames c).2].Nodup ↔
      (slashed b).length ≤ 125 ∧ (slashed c).length ≤ 125 := by
  have hb := q1_ne_q2_iff b
  have hc := q1_ne_q2_iff c
  rw [← hb, ← hc]
  constructor
  · intro h
    simp only [List.nodup_cons, List.mem_cons, not_or] at h
    exact ⟨h.1.1, h.2.2.1.1⟩
  · rintro ⟨hqb, hqc⟩
    have hlb := hb.1 hqb
    have hlc := hc.1 hqc
    have hother : ∀ {x y : List UInt8}, x.length = 2 → y.length = 2 →
        (slashed b ++ x).take 127 ≠ (slashed c ++ y).take 127 := fun hx hy =>
      names_ne hx hy hlb hlc (Or.inl hne)
    rw [formatQueueNames_eq, formatQueueNames_eq] at *
    simp only [List.nodup_cons, List.mem_cons, List.not_mem_nil, or_false, not_or,
      not_false_eq_true, List.nodup_nil, and_true]
    exact ⟨⟨hqb, hother rfl rfl, hother rfl rfl⟩, ⟨hother rfl rfl, hother rfl rfl⟩, hqc⟩

/-- The names of two short base names. -/
theorem names_nodup_short :
    [(formatQueueNames (ascii "room")).1, (formatQueueNames (ascii "room")).2,
      (formatQueueNames (ascii "/hall")).1, (formatQueueNames (ascii "/hall")).2].Nodup :=
  (names_nodup_iff (by decide)).2 ⟨by decide, by decide⟩

/-- A base name of 126 bytes has only one name. -/
theorem not_names_nodup : slashed (List.replicate 126 97) ≠ slashed (ascii "room") ∧
    ¬ [(formatQueueNames (List.replicate 126 97)).1, (formatQueueNames (List.replicate 126 97)).2,
      (formatQueueNames (ascii "room")).1, (formatQueueNames (ascii "room")).2].Nodup := by
  have hlen : 125 < (slashed (List.replicate 126 97)).length := by
    have hle := length_le_slashed (List.replicate 126 97)
    rw [List.length_replicate] at hle
    omega
  refine ⟨fun heq => ?_, fun h => ?_⟩
  · rw [heq] at hlen
    exact absurd hlen (by decide)
  · have hq := (List.nodup_cons.1 h).1
    exact hq (List.mem_cons.2 (Or.inl (by_contra fun hne =>
      absurd ((q1_ne_q2_iff _).1 hne) (Nat.not_le.2 hlen))))

end EltexPractice.P2pChat
