import Mathlib.Algebra.Order.Group.Nat
import Mathlib.Data.List.Basic

/-!
# Entries of lists

Where an entry of a list comes from, when one has been added at its end or replaced; how many
entries have a property; the entries of a list of lists of one length, as slices of what they are
together; and a loop that moves entries towards the start of an array.
-/

namespace EltexPractice

variable {α : Type*} {l : List α} {a b : α} {i j : ℕ}

/-- An entry was there before, or is the one added. -/
theorem cases_of_getElem?_concat (h : (l ++ [a])[i]? = some b) :
    l[i]? = some b ∨ (i = l.length ∧ b = a) := by
  rcases Nat.lt_trichotomy i l.length with hi | hi | hi
  · rw [List.getElem?_append_left hi] at h
    exact Or.inl h
  · rw [hi, List.getElem?_concat_length] at h
    exact Or.inr ⟨hi, (Option.some.inj h).symm⟩
  · rw [List.getElem?_eq_none (by simp; omega)] at h
    cases h

/-- An entry is the new one, or in another place. -/
theorem cases_of_getElem?_set (h : (l.set i a)[j]? = some b) :
    (j = i ∧ b = a) ∨ (j ≠ i ∧ l[j]? = some b) := by
  rcases eq_or_ne j i with rfl | hne
  · have hlt := (List.getElem?_eq_some_iff.1 h).1
    rw [List.length_set] at hlt
    rw [List.getElem?_set_self hlt] at h
    exact Or.inl ⟨rfl, (Option.some.inj h).symm⟩
  · rw [List.getElem?_set_ne hne.symm] at h
    exact Or.inr ⟨hne, h⟩

/-- An entry is replaced by one with the same image. -/
theorem map_set_of_eq {β : Type*} {f : α → β} (h : l[i]? = some b) (hf : f a = f b) :
    (l.set i a).map f = l.map f := by
  have hmap : (l.map f)[i]? = some (f b) := by rw [List.getElem?_map, h, Option.map_some]
  obtain ⟨hlt, heq⟩ := List.getElem?_eq_some_iff.1 hmap
  rw [List.map_set, hf, ← heq]
  exact List.set_getElem_self hlt

/-! ## Entries with a property -/

section Count

variable {p : α → Bool}

/-- What the replacement of an entry does to their number. -/
theorem countP_set_add (h : l[i]? = some a) (b : α) :
    (l.set i b).countP p + (p a).toNat = l.countP p + (p b).toNat := by
  induction l generalizing i with
  | nil => simp at h
  | cons c l ih =>
    cases i with
    | zero =>
      obtain rfl : c = a := by simpa using h
      cases hc : p c <;> cases hb : p b <;> simp [hc, hb]
    | succ i =>
      have hnext := ih (by simpa using h)
      simp only [List.set_cons_succ, List.countP_cons]
      omega

theorem countP_pos_of_getElem? (h : l[i]? = some a) (ha : p a) : 0 < l.countP p :=
  List.countP_pos_iff.2 ⟨a, List.mem_of_getElem? h, ha⟩

/-- Where there is at most one, two are in the same place. -/
theorem eq_of_countP_le_one (h : l.countP p ≤ 1) (hi : l[i]? = some a) (hj : l[j]? = some b)
    (ha : p a) (hb : p b) : i = j := by
  induction l generalizing i j with
  | nil => simp at hi
  | cons c l ih =>
    rw [List.countP_cons] at h
    cases i with
    | zero =>
      obtain rfl : c = a := by simpa using hi
      cases j with
      | zero => rfl
      | succ j =>
        have hpos := countP_pos_of_getElem? (by simpa using hj) hb
        rw [if_pos ha] at h
        omega
    | succ i =>
      have hpos := countP_pos_of_getElem? (by simpa using hi) ha
      cases j with
      | zero =>
        obtain rfl : c = b := by simpa using hj
        rw [if_pos hb] at h
        omega
      | succ j => exact congrArg _ (ih (by omega) (by simpa using hi) (by simpa using hj))

end Count

/-! ## Lists of one length -/

section Slices

variable {L : List (List α)} {n k : ℕ}

theorem length_flatten_of_forall (h : ∀ l ∈ L, l.length = n) :
    L.flatten.length = n * L.length := by
  induction L with
  | nil => rfl
  | cons l L ih =>
    rw [List.flatten_cons, List.length_append, h l List.mem_cons_self,
      ih fun l' hl' => h l' (List.mem_cons_of_mem l hl'), List.length_cons, Nat.mul_succ,
      Nat.add_comm]

/-- An entry is the slice in its place. -/
theorem take_drop_flatten (h : ∀ l ∈ L, l.length = n) (hl : L[k]? = some l) :
    (L.flatten.drop (n * k)).take n = l := by
  induction L generalizing k with
  | nil => cases hl
  | cons first L ih =>
    have hfirst := h first List.mem_cons_self
    cases k with
    | zero =>
      obtain rfl := Option.some.inj hl
      exact List.take_left' hfirst
    | succ k =>
      rw [List.flatten_cons, Nat.mul_succ, Nat.add_comm, ← List.drop_drop, List.drop_left' hfirst]
      exact ih (fun l' hl' => h l' (List.mem_cons_of_mem first hl')) hl

end Slices

/-! ## Entries moved towards the start -/

/-- `for (; k > 0; k--, j++) l[j] = l[j + d];`, which has no result when there is no such entry. -/
def moveDown (d : ℕ) : ℕ → ℕ → List α → Option (List α)
  | 0, _, l => some l
  | k + 1, j, l => l[j + d]?.bind fun a => moveDown d k (j + 1) (l.set j a)

/-- The entries that are moved, between the ones that stay. -/
theorem moveDown_eq {d k : ℕ} (h : j + d + k ≤ l.length) :
    moveDown d k j l = some (l.take j ++ ((l.drop (j + d)).take k ++ l.drop (j + k))) := by
  induction k generalizing j l with
  | zero => simp [moveDown]
  | succ k ih =>
    have hlt : j + d < l.length := by omega
    have htake : (l.set j l[j + d]).take (j + 1) = l.take j ++ [l[j + d]] := by
      rw [List.take_add_one, List.take_set_of_le le_rfl, List.getElem?_set_self (by omega)]
      rfl
    have hlen : j + 1 + d + k ≤ (l.set j l[j + d]).length := by
      rw [List.length_set]
      omega
    rw [moveDown, List.getElem?_eq_getElem hlt, Option.bind_some, ih hlen, htake,
      List.drop_set_of_lt (by omega), List.drop_set_of_lt (by omega),
      List.drop_eq_getElem_cons hlt, List.take_succ_cons, List.append_assoc, List.singleton_append,
      List.cons_append, Nat.add_right_comm j 1 d, Nat.add_right_comm j 1 k, Nat.add_assoc j k 1]

/-- The entries `mid` are taken out of the first part of an array. -/
theorem exists_moveDown (head mid rest stale : List α) :
    ∃ stale', moveDown mid.length rest.length head.length (head ++ (mid ++ (rest ++ stale))) =
      some (head ++ (rest ++ stale')) := by
  rw [moveDown_eq (by simp only [List.length_append]; omega), List.take_left, ← List.drop_drop,
    List.drop_left, List.drop_left, List.take_left]
  exact ⟨_, rfl⟩

end EltexPractice
