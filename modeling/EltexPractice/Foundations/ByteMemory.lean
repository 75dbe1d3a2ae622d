import EltexPractice.Foundations.Words
import Mathlib.Data.List.Basic

/-!
# Byte memory

A memory is a byte for every address. Code that works on it is written in the state monad `MemM`,
whose state also keeps the ranges accessed so far, the last one first, so that bounds are
statements about the final state.

* `bytesAt`, `writeBytes`: the bytes of a range, and their exchange; a write is read back
  (`bytesAt_writeBytes`) and leaves the other addresses alone (`writeBytes_of_notMem`).
* `loadBytes`, `load`, `storeBytes`, `store`: the accesses of the code.
* `MemM.wp`: the weakest precondition of a computation, with one rule for each construct.
* `Mem.Within`: every accessed address lies in a set of addresses.
-/

namespace EltexPractice

/-- A byte for every address. -/
abbrev Bytes := ℕ → UInt8

/-- The bytes `m[a], …, m[a + n - 1]`. -/
def bytesAt (m : Bytes) : (a n : ℕ) → List UInt8
  | _, 0 => []
  | a, n + 1 => m a :: bytesAt m (a + 1) n

/-- The bytes `l` put at the address `a`. -/
def writeBytes (m : Bytes) (a : ℕ) (l : List UInt8) : Bytes :=
  fun i => if a ≤ i then (l[i - a]?).getD (m i) else m i

@[simp] theorem length_bytesAt (m : Bytes) (a n : ℕ) : (bytesAt m a n).length = n := by
  induction n generalizing a with
  | zero => rfl
  | succ n ih => rw [bytesAt, List.length_cons, ih]

theorem bytesAt_add (m : Bytes) (a n k : ℕ) :
    bytesAt m a (n + k) = bytesAt m a n ++ bytesAt m (a + n) k := by
  induction n generalizing a with
  | zero => simp [bytesAt]
  | succ n ih =>
    rw [Nat.succ_add, bytesAt, bytesAt, ih, List.cons_append, Nat.add_assoc a 1 n, Nat.add_comm 1 n]

/-- A part of the bytes of a range. -/
theorem bytesAt_slice {m : Bytes} {a n : ℕ} {l : List UInt8} (hl : bytesAt m a n = l) {k j : ℕ}
    (h : k + j ≤ n) : bytesAt m (a + k) j = (l.drop k).take j := by
  obtain ⟨r, rfl⟩ := Nat.exists_eq_add_of_le h
  rw [← hl, Nat.add_assoc, bytesAt_add, bytesAt_add, List.drop_left' (length_bytesAt ..),
    List.take_left' (length_bytesAt ..)]

theorem mem_bytesAt {m : Bytes} {a n : ℕ} {b : UInt8} :
    b ∈ bytesAt m a n ↔ ∃ i, a ≤ i ∧ i < a + n ∧ m i = b := by
  induction n generalizing a with
  | zero =>
    refine iff_of_false List.not_mem_nil ?_
    rintro ⟨i, h₁, h₂, -⟩
    omega
  | succ n ih =>
    rw [bytesAt, List.mem_cons, ih]
    constructor
    · rintro (rfl | ⟨i, h₁, h₂, rfl⟩)
      · exact ⟨a, le_rfl, by omega, rfl⟩
      · exact ⟨i, by omega, by omega, rfl⟩
    · rintro ⟨i, h₁, h₂, rfl⟩
      rcases Nat.eq_or_lt_of_le h₁ with rfl | h
      · exact Or.inl rfl
      · exact Or.inr ⟨i, h, by omega, rfl⟩

/-- The bytes of a range depend on the memory of that range only. -/
theorem bytesAt_congr {m m' : Bytes} {a n : ℕ} (h : ∀ i, a ≤ i → i < a + n → m i = m' i) :
    bytesAt m a n = bytesAt m' a n := by
  induction n generalizing a with
  | zero => rfl
  | succ n ih =>
    rw [bytesAt, bytesAt, h a le_rfl (by omega), ih fun i h₁ h₂ => h i (by omega) (by omega)]

theorem writeBytes_of_notMem {m : Bytes} {a i : ℕ} {l : List UInt8}
    (h : i < a ∨ a + l.length ≤ i) : writeBytes m a l i = m i := by
  unfold writeBytes
  split
  · rw [List.getElem?_eq_none (by omega)]
    rfl
  · rfl

theorem writeBytes_cons (m : Bytes) (a : ℕ) (b : UInt8) (l : List UInt8) :
    writeBytes m a (b :: l) = writeBytes (Function.update m a b) (a + 1) l := by
  funext i
  unfold writeBytes
  rcases lt_trichotomy i a with h | rfl | h
  · rw [if_neg (by omega), if_neg (by omega), Function.update_of_ne (by omega)]
  · rw [if_pos le_rfl, if_neg (by omega), Function.update_self, Nat.sub_self]
    rfl
  · rw [if_pos (by omega), if_pos (by omega), Function.update_of_ne (by omega),
      show i - a = (i - (a + 1)) + 1 by omega, List.getElem?_cons_succ]

/-- Two writes one behind the other are one. -/
theorem writeBytes_append (m : Bytes) (a : ℕ) (l l' : List UInt8) :
    writeBytes m a (l ++ l') = writeBytes (writeBytes m a l) (a + l.length) l' := by
  induction l generalizing m a with
  | nil =>
    have hnil : writeBytes m a [] = m := funext fun i =>
      writeBytes_of_notMem ((Nat.lt_or_ge i a).imp_right id)
    rw [List.nil_append, hnil]
    rfl
  | cons b l ih =>
    rw [List.cons_append, writeBytes_cons, writeBytes_cons, ih, List.length_cons, Nat.add_assoc,
      Nat.add_comm 1]

/-- What was written is read back. -/
@[simp] theorem bytesAt_writeBytes (m : Bytes) (a : ℕ) (l : List UInt8) :
    bytesAt (writeBytes m a l) a l.length = l := by
  induction l generalizing m a with
  | nil => rfl
  | cons b l ih =>
    rw [List.length_cons, bytesAt, writeBytes_cons, ih]
    congr 1
    rw [writeBytes_of_notMem (Or.inl (Nat.lt_succ_self a)), Function.update_self]

/-- A write elsewhere is not read. -/
theorem bytesAt_writeBytes_of_disjoint {m : Bytes} {a b n : ℕ} {l : List UInt8}
    (h : b + n ≤ a ∨ a + l.length ≤ b) : bytesAt (writeBytes m a l) b n = bytesAt m b n :=
  bytesAt_congr fun i h₁ h₂ => writeBytes_of_notMem (by omega)

/-- A field written between others. -/
theorem bytesAt_writeBytes_middle {m : Bytes} {a : ℕ} (head l tail : List UInt8)
    (hhead : bytesAt m a head.length = head)
    (htail : bytesAt m (a + (head.length + l.length)) tail.length = tail) :
    bytesAt (writeBytes m (a + head.length) l) a (head.length + l.length + tail.length) =
      head ++ l ++ tail := by
  rw [bytesAt_add, bytesAt_add, bytesAt_writeBytes,
    bytesAt_writeBytes_of_disjoint (Or.inl le_rfl), hhead,
    bytesAt_writeBytes_of_disjoint (Or.inr (Nat.add_assoc ..).le), htail]

/-- A part of what was written is read back. -/
theorem bytesAt_writeBytes_slice (m : Bytes) (a : ℕ) {k n : ℕ} {l : List UInt8}
    (h : k + n ≤ l.length) : bytesAt (writeBytes m a l) (a + k) n = (l.drop k).take n := by
  exact bytesAt_slice (bytesAt_writeBytes m a l) h

/-- A value stored in `w` bytes is read back. -/
theorem leValue_writeBytes {w v : ℕ} (hv : v < 256 ^ w) (m : Bytes) (a : ℕ) :
    leValue (bytesAt (writeBytes m a (leBytes w v)) a w) = v := by
  have h := bytesAt_writeBytes m a (leBytes w v)
  rw [length_leBytes] at h
  rw [h, leValue_leBytes_of_lt hv]

theorem writeBytes_leBytes_of_notMem {m : Bytes} {a i w v : ℕ} (h : i < a ∨ a + w ≤ i) :
    writeBytes m a (leBytes w v) i = m i :=
  writeBytes_of_notMem (by rwa [length_leBytes])

/-- A buffer after `packet` was received into it: what was there before stays behind it. -/
def received (stale : Bytes) (packet : List UInt8) : Bytes := writeBytes stale 0 packet

theorem received_of_ge (stale : Bytes) {packet : List UInt8} {i : ℕ} (h : packet.length ≤ i) :
    received stale packet i = stale i :=
  writeBytes_of_notMem (Or.inr (by rwa [Nat.zero_add]))

/-- What was received does not depend on what was there before. -/
theorem received_congr (stale stale' : Bytes) {packet : List UInt8} {i : ℕ}
    (h : i < packet.length) : received stale packet i = received stale' packet i := by
  simp only [received, writeBytes, Nat.zero_le, if_true, Nat.sub_zero, List.getElem?_eq_getElem h,
    Option.getD_some]

theorem bytesAt_received (stale : Bytes) {packet : List UInt8} {k n : ℕ}
    (h : k + n ≤ packet.length) : bytesAt (received stale packet) k n = (packet.drop k).take n := by
  have := bytesAt_writeBytes_slice stale 0 h
  rwa [Nat.zero_add] at this

/-! ## Computations on memory -/

/-- A range of addresses. -/
structure Span where
  start : ℕ
  size : ℕ
  deriving DecidableEq

/-- A memory and the ranges accessed so far, the last one first. -/
structure Mem where
  bytes : Bytes
  trace : List Span

/-- A computation on memory. -/
abbrev MemM := StateM Mem

/-- The access of a range. -/
def Mem.touch (s : Mem) (a n : ℕ) : Mem := { s with trace := ⟨a, n⟩ :: s.trace }

@[simp] theorem Mem.bytes_touch (s : Mem) (a n : ℕ) : (s.touch a n).bytes = s.bytes := rfl

/-- The access of a range that puts `l` there. -/
def Mem.write (s : Mem) (a : ℕ) (l : List UInt8) : Mem :=
  ⟨writeBytes s.bytes a l, ⟨a, l.length⟩ :: s.trace⟩

@[simp] theorem Mem.bytes_write (s : Mem) (a : ℕ) (l : List UInt8) :
    (s.write a l).bytes = writeBytes s.bytes a l := rfl

/-- Read `n` bytes. -/
def loadBytes (n a : ℕ) : MemM (List UInt8) := fun s => (bytesAt s.bytes a n, s.touch a n)

/-- Read a value of `w` bytes. -/
def load (w a : ℕ) : MemM ℕ := fun s => (leValue (bytesAt s.bytes a w), s.touch a w)

/-- Write bytes. -/
def storeBytes (a : ℕ) (l : List UInt8) : MemM Unit := fun s => ((), s.write a l)

/-- Write a value of `w` bytes. -/
def store (w a v : ℕ) : MemM Unit := storeBytes a (leBytes w v)

/-! ## Weakest preconditions -/

/-- After `m`, started in `s`, the result and the memory satisfy `Q`. -/
def MemM.wp {α : Type} (m : MemM α) (Q : α → Mem → Prop) (s : Mem) : Prop :=
  Q (m.run s).1 (m.run s).2

namespace MemM

variable {α β : Type} {Q : α → Mem → Prop} {s : Mem}

theorem wp_pure (a : α) : wp (pure a) Q s ↔ Q a s := Iff.rfl

theorem wp_bind (m : MemM β) (f : β → MemM α) :
    wp (m >>= f) Q s ↔ wp m (fun b s' => wp (f b) Q s') s := Iff.rfl

theorem wp_loadBytes {Q : List UInt8 → Mem → Prop} (n a : ℕ) :
    wp (loadBytes n a) Q s ↔ Q (bytesAt s.bytes a n) (s.touch a n) := Iff.rfl

theorem wp_load {Q : ℕ → Mem → Prop} (w a : ℕ) :
    wp (load w a) Q s ↔ Q (leValue (bytesAt s.bytes a w)) (s.touch a w) := Iff.rfl

theorem wp_store {Q : Unit → Mem → Prop} (w a v : ℕ) :
    wp (store w a v) Q s ↔ Q () (s.write a (leBytes w v)) := Iff.rfl

/-- A postcondition may be weakened. -/
theorem wp_mono {m : MemM α} {Q' : α → Mem → Prop} (h : wp m Q s)
    (hQ : ∀ a s', Q a s' → Q' a s') : wp m Q' s := hQ _ _ h

end MemM

/-! ## Bounds -/

/-- Every address accessed so far lies in `R`. -/
def Mem.Within (s : Mem) (R : Set ℕ) : Prop :=
  ∀ sp ∈ s.trace, ∀ a, sp.start ≤ a → a < sp.start + sp.size → a ∈ R

theorem Mem.Within.mono {s : Mem} {R R' : Set ℕ} (h : s.Within R) (hR : ∀ a ∈ R, a ∈ R') :
    s.Within R' :=
  fun sp hsp a h₁ h₂ => hR a (h sp hsp a h₁ h₂)

/-- An access below a bound. -/
theorem Mem.Within.touch {s : Mem} {z a n : ℕ} (h : s.Within {i | i < z}) (hz : a + n ≤ z) :
    (s.touch a n).Within {i | i < z} := by
  intro sp hsp i h₁ h₂
  rcases List.mem_cons.1 hsp with rfl | hsp
  · exact lt_of_lt_of_le h₂ hz
  · exact h sp hsp i h₁ h₂

theorem Mem.Within.write {s : Mem} {z a : ℕ} {l : List UInt8} (h : s.Within {i | i < z})
    (hz : a + l.length ≤ z) : (s.write a l).Within {i | i < z} :=
  h.touch hz

end EltexPractice
