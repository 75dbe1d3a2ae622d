import EltexPractice.Foundations.ByteMemory
import EltexPractice.Foundations.CString

/-!
# Checked access to buffers

Code that works on several buffers, each with a size. An access outside a buffer, or of a negative
number of bytes, ends the computation, so that a computation with a result has made none
(`Buffers.Fits`). Nothing is accessed for a size of zero.

* `readBytes`, `readValue`, `readStr`, `readStrAt`, `writeAt`, `writeByte`, `memcpy`: the accesses.
* `CheckedM.wp`: the weakest precondition, with one rule for each construct. The rules are
  equivalences, so they also find what is necessary; `isSome_run` is where they are used for that.
-/

namespace EltexPractice

variable {ι : Type} {α β : Type}

/-- Buffers with their sizes and contents. -/
structure Buffers (ι : Type) where
  size : ι → ℕ
  bytes : ι → Bytes

namespace Buffers

/-- An access of `n` bytes at `a` stays within the buffer. -/
def Fits (s : Buffers ι) (b : ι) (a n : ℕ) : Prop := n = 0 ∨ a + n ≤ s.size b

instance (s : Buffers ι) (b : ι) (a n : ℕ) : Decidable (s.Fits b a n) :=
  inferInstanceAs (Decidable (_ ∨ _))

variable [DecidableEq ι]

/-- The buffers after a write. -/
def write (s : Buffers ι) (b : ι) (a : ℕ) (l : List UInt8) : Buffers ι :=
  { s with bytes := Function.update s.bytes b (writeBytes (s.bytes b) a l) }

variable {s : Buffers ι} {b b' : ι} {a n : ℕ} {l : List UInt8}

@[simp] theorem size_write : (s.write b a l).size = s.size := rfl

@[simp] theorem bytes_write_self : (s.write b a l).bytes b = writeBytes (s.bytes b) a l :=
  Function.update_self ..

theorem bytes_write_of_ne (h : b' ≠ b) : (s.write b a l).bytes b' = s.bytes b' :=
  Function.update_of_ne h ..

end Buffers

/-- A computation on buffers, which ends at the first access that is out of bounds. -/
abbrev CheckedM (ι : Type) := StateT (Buffers ι) Option

/-- Read `n` bytes at `a`. -/
def readBytes (b : ι) (a : ℕ) (n : ℤ) : CheckedM ι (List UInt8) := fun s =>
  if 0 ≤ n ∧ s.Fits b a n.toNat then some (bytesAt (s.bytes b) a n.toNat, s) else none

/-- Read a value of `w` bytes. -/
def readValue (b : ι) (w a : ℕ) : CheckedM ι ℕ := do
  return leValue (← readBytes b a w)

/-- Read the string at the start of a buffer, with its NUL. -/
def readStr (b : ι) : CheckedM ι (List UInt8) := fun s =>
  if 0 ∈ bytesAt (s.bytes b) 0 (s.size b) then
    some (CString.cstr (bytesAt (s.bytes b) 0 (s.size b)), s)
  else none

/-- Read the string at `a`, with its NUL. -/
def readStrAt (b : ι) (a : ℕ) : CheckedM ι (List UInt8) := fun s =>
  if 0 ∈ bytesAt (s.bytes b) a (s.size b - a) then
    some (CString.cstr (bytesAt (s.bytes b) a (s.size b - a)), s)
  else none

section

variable [DecidableEq ι]

/-- Write bytes at `a`. -/
def writeAt (b : ι) (a : ℕ) (l : List UInt8) : CheckedM ι Unit := fun s =>
  if s.Fits b a l.length then some ((), s.write b a l) else none

/-- Write the byte with the index `i`. -/
def writeByte (b : ι) (i : ℤ) (v : UInt8) : CheckedM ι Unit :=
  if 0 ≤ i then writeAt b i.toNat [v] else fun _ => none

/-- `memcpy`, from the offset `a` of one buffer to the offset `a'` of another. -/
def memcpy (b' : ι) (a' : ℕ) (b : ι) (a : ℕ) (n : ℤ) : CheckedM ι Unit := do
  writeAt b' a' (← readBytes b a n)

end

namespace CheckedM

/-- The computation has a result, and the result and the buffers satisfy `Q`. -/
def wp (m : CheckedM ι α) (Q : α → Buffers ι → Prop) (s : Buffers ι) : Prop :=
  ∃ out, m.run s = some out ∧ Q out.1 out.2

section

variable {Q : α → Buffers ι → Prop} {s : Buffers ι}

/-- All accesses are within bounds. -/
theorem isSome_run {m : CheckedM ι α} : (m.run s).isSome ↔ wp m (fun _ _ => True) s := by
  simp only [wp, and_true, Option.isSome_iff_exists]

theorem wp_mono {m : CheckedM ι α} {Q' : α → Buffers ι → Prop} (h : wp m Q s)
    (hQ : ∀ a s', Q a s' → Q' a s') : wp m Q' s :=
  h.imp fun _ hout => ⟨hout.1, hQ _ _ hout.2⟩

/-- Where the result is known, it decides. -/
theorem wp_iff_of_eq {m : CheckedM ι α} {r : α} (h : wp m (fun a _ => a = r) s) {P : α → Prop} :
    wp m (fun a _ => P a) s ↔ P r := by
  obtain ⟨out, hout, rfl⟩ := h
  constructor
  · rintro ⟨out', hout', hP⟩
    rw [hout] at hout'
    exact Option.some.inj hout' ▸ hP
  · exact fun hP => ⟨out, hout, hP⟩

theorem wp_pure (a : α) : wp (pure a) Q s ↔ Q a s := by
  simp [wp]

theorem wp_bind (m : CheckedM ι β) (f : β → CheckedM ι α) :
    wp (m >>= f) Q s ↔ wp m (fun b s' => wp (f b) Q s') s := by
  simp only [wp, StateT.run_bind, Option.bind_eq_bind, Option.bind_eq_some_iff]
  constructor
  · rintro ⟨out, ⟨mid, hmid, hout⟩, hQ⟩
    exact ⟨mid, hmid, out, hout, hQ⟩
  · rintro ⟨mid, hmid, out, hout, hQ⟩
    exact ⟨out, ⟨mid, hmid, hout⟩, hQ⟩

theorem wp_ite {P : Prop} [Decidable P] {c c' : CheckedM ι α} :
    wp (if P then c else c') Q s ↔ if P then wp c Q s else wp c' Q s := by
  split <;> rfl

/-- A computation that is one check. -/
theorem wp_check {p : Buffers ι → Prop} [DecidablePred p] {out : Buffers ι → α × Buffers ι} :
    wp (fun s => if p s then some (out s) else none) Q s ↔ p s ∧ Q (out s).1 (out s).2 := by
  by_cases h : p s
  · simp [wp, StateT.run, h]
  · simp [wp, StateT.run, h]

end

section

variable {s : Buffers ι} {b b' : ι} {a a' : ℕ}

theorem wp_readBytes {Q : List UInt8 → Buffers ι → Prop} (n : ℤ) :
    wp (readBytes b a n) Q s ↔
      (0 ≤ n ∧ s.Fits b a n.toNat) ∧ Q (bytesAt (s.bytes b) a n.toNat) s :=
  wp_check (p := fun s => 0 ≤ n ∧ s.Fits b a n.toNat)

theorem wp_readValue {Q : ℕ → Buffers ι → Prop} (w : ℕ) :
    wp (readValue b w a) Q s ↔ s.Fits b a w ∧ Q (leValue (bytesAt (s.bytes b) a w)) s := by
  rw [readValue, wp_bind, wp_readBytes, wp_pure, Int.toNat_natCast,
    and_iff_right (Int.natCast_nonneg w)]

theorem wp_readStr {Q : List UInt8 → Buffers ι → Prop} :
    wp (readStr b) Q s ↔ 0 ∈ bytesAt (s.bytes b) 0 (s.size b) ∧
      Q (CString.cstr (bytesAt (s.bytes b) 0 (s.size b))) s :=
  wp_check

theorem wp_readStrAt {Q : List UInt8 → Buffers ι → Prop} :
    wp (readStrAt b a) Q s ↔ 0 ∈ bytesAt (s.bytes b) a (s.size b - a) ∧
      Q (CString.cstr (bytesAt (s.bytes b) a (s.size b - a))) s :=
  wp_check

variable [DecidableEq ι] {Q : Unit → Buffers ι → Prop}

theorem wp_writeAt (l : List UInt8) :
    wp (writeAt b a l) Q s ↔ s.Fits b a l.length ∧ Q () (s.write b a l) :=
  wp_check

theorem wp_writeByte (i : ℤ) (v : UInt8) :
    wp (writeByte b i v) Q s ↔ 0 ≤ i ∧ i.toNat < s.size b ∧ Q () (s.write b i.toNat [v]) := by
  rw [writeByte]
  split
  · rename_i hi
    rw [wp_writeAt, and_iff_right hi, Buffers.Fits, List.length_singleton, Nat.succ_le_iff,
      or_iff_right Nat.one_ne_zero]
  · rename_i hi
    exact iff_of_false nofun fun h => hi h.1

theorem wp_memcpy (n : ℤ) :
    wp (memcpy b' a' b a n) Q s ↔ (0 ≤ n ∧ s.Fits b a n.toNat) ∧ s.Fits b' a' n.toNat ∧
      Q () (s.write b' a' (bytesAt (s.bytes b) a n.toNat)) := by
  rw [memcpy, wp_bind, wp_readBytes, wp_writeAt, length_bytesAt]

end

end CheckedM

/-- What is read of a buffer that a string was stored in. -/
theorem cstr_bytesAt_writeBytes {m : Bytes} {text : List UInt8} {n : ℕ} (h : text.length < n) :
    0 ∈ bytesAt (writeBytes m 0 (text ++ [0])) 0 n ∧
      CString.cstr (bytesAt (writeBytes m 0 (text ++ [0])) 0 n) = CString.cstr text := by
  obtain ⟨k, rfl⟩ := Nat.exists_eq_add_of_lt h
  have hread := bytesAt_writeBytes m 0 (text ++ [0])
  rw [List.length_append, List.length_singleton] at hread
  rw [show text.length + k + 1 = text.length + 1 + k by omega, bytesAt_add, hread,
    List.append_assoc]
  exact ⟨by simp, CString.cstr_append_cons_zero text _⟩

end EltexPractice
