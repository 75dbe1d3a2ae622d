import Mathlib.Data.List.Perm.Basic
import Mathlib.Order.Nat

/-!
# Fixed-capacity tables

An array of `cap` slots with a counter, of which only the first `count` slots are in use. The
operations are the loops such tables are handled with: a linear search from slot `0`, an append
at slot `count`, a removal that shifts the later slots down by one, a removal that moves the last
slot into the hole, and an update in place. Every operation keeps `count ≤ cap`, so an index below
`count` is always an index of the array.

Each operation has one lemma about `toList`, the list of the slots in use; users of a table
reason about that list only.
-/

namespace EltexPractice

/-- An array of `cap` slots whose first `count` slots are in use. -/
structure Table (α : Type*) (cap : ℕ) where
  slots : Vector α cap
  count : ℕ
  count_le : count ≤ cap

namespace Table

variable {α : Type*} {cap : ℕ}

/-- The slots in use, in order. -/
def toList (t : Table α cap) : List α := t.slots.toList.take t.count

@[simp] theorem length_toList (t : Table α cap) : t.toList.length = t.count := by
  simp [toList, t.count_le]

theorem length_toList_le (t : Table α cap) : t.toList.length ≤ cap := by
  rw [length_toList]
  exact t.count_le

theorem lt_cap (t : Table α cap) {i : ℕ} (h : i < t.count) : i < cap := h.trans_le t.count_le

theorem getElem_toList (t : Table α cap) (i : ℕ) (h : i < t.toList.length) (hi : i < cap) :
    t.toList[i] = t.slots[i] := by
  simp [toList]

/-- A table with no slot in use; every slot holds `x`. -/
def empty (x : α) : Table α cap := ⟨Vector.replicate cap x, 0, Nat.zero_le _⟩

@[simp] theorem toList_empty (x : α) : (empty x : Table α cap).toList = [] := by
  simp [empty, toList]

/-! ## Linear search -/

/-- `for (i = 0; i < count; i++) if (p(slots[i])) return i;` -/
def search (t : Table α cap) (p : α → Bool) : Option ℕ := t.toList.findIdx? p

theorem search_eq_none {t : Table α cap} {p : α → Bool} :
    t.search p = none ↔ ∀ x ∈ t.toList, p x = false := by
  rw [search, List.findIdx?_eq_none_iff]

theorem lt_count_of_search {t : Table α cap} {p : α → Bool} {i : ℕ} (h : t.search p = some i) :
    i < t.count := by
  obtain ⟨hi, -⟩ := List.findIdx?_eq_some_iff_getElem.1 h
  simpa using hi

theorem search_spec {t : Table α cap} {p : α → Bool} {i : ℕ} (h : t.search p = some i) :
    ∃ hi : i < t.toList.length, p t.toList[i] = true := by
  obtain ⟨hi, hp, -⟩ := List.findIdx?_eq_some_iff_getElem.1 h
  exact ⟨hi, hp⟩

/-! ## Append -/

/-- `slots[count] = x; count++;` -/
def push (t : Table α cap) (x : α) (h : t.count < cap) : Table α cap :=
  ⟨t.slots.set t.count x, t.count + 1, h⟩

@[simp] theorem toList_push (t : Table α cap) (x : α) (h : t.count < cap) :
    (t.push x h).toList = t.toList ++ [x] := by
  apply List.ext_getElem
  · simp [push]
  · intro i h₁ h₂
    have hi : i < t.count + 1 := by simpa [push] using h₁
    rw [getElem_toList _ _ _ (by omega)]
    rcases Nat.lt_succ_iff_lt_or_eq.1 hi with hi | rfl
    · rw [List.getElem_append_left (by simpa using hi), getElem_toList _ _ _ (t.lt_cap hi)]
      simp [push, show t.count ≠ i by omega]
    · simp [push]

/-! ## Update in place -/

/-- `slots[i] = f(slots[i]);` -/
def modify (t : Table α cap) (i : ℕ) (f : α → α) (h : i < t.count) : Table α cap :=
  ⟨t.slots.set i (f t.slots[(⟨i, t.lt_cap h⟩ : Fin cap)]) (t.lt_cap h), t.count, t.count_le⟩

@[simp] theorem toList_modify (t : Table α cap) (i : ℕ) (f : α → α) (h : i < t.count) :
    (t.modify i f h).toList = t.toList.modify i f := by
  apply List.ext_getElem
  · simp [modify]
  · intro j h₁ h₂
    have hj : j < cap := t.lt_cap (by simpa [modify] using h₁)
    rw [getElem_toList _ _ _ hj, List.getElem_modify, getElem_toList _ _ _ hj]
    rcases eq_or_ne i j with rfl | hij
    · simp [modify, Fin.getElem_fin]
    · simp [modify, hij]

/-! ## Removal with the later slots shifted down -/

/-- `for (; k > 0; k--, j++) slots[j] = slots[j + 1];` -/
def shiftLoop (a : Vector α cap) : (k j : ℕ) → j + k < cap → Vector α cap
  | 0, _, _ => a
  | k + 1, j, h =>
    shiftLoop (a.set j a[(⟨j + 1, by omega⟩ : Fin cap)] (by omega)) k (j + 1) (by omega)

theorem getElem_shiftLoop (a : Vector α cap) (k j : ℕ) (h : j + k < cap) (i : ℕ) (hi : i < cap) :
    (shiftLoop a k j h)[i] =
      if hj : j ≤ i ∧ i < j + k then a[(⟨i + 1, by omega⟩ : Fin cap)] else a[i] := by
  induction k generalizing a j with
  | zero => simp only [shiftLoop]; rw [dif_neg (by omega)]
  | succ k ih =>
    rw [shiftLoop, ih]
    rcases eq_or_ne i j with rfl | hij
    · rw [dif_neg (by omega), dif_pos (by omega), Vector.getElem_set_self]
    · rcases em (j ≤ i ∧ i < j + (k + 1)) with hr | hr
      · rw [dif_pos (by omega), dif_pos hr]
        simp only [Fin.getElem_fin]
        rw [Vector.getElem_set_ne _ _ (by omega)]
      · rw [dif_neg (by omega), dif_neg hr, Vector.getElem_set_ne _ _ (by omega)]

/-- `for (j = i; j < count - 1; j++) slots[j] = slots[j + 1]; count--;` -/
def removeShift (t : Table α cap) (i : ℕ) (h : i < t.count) : Table α cap :=
  ⟨shiftLoop t.slots (t.count - 1 - i) i (by have := t.count_le; omega), t.count - 1,
    (Nat.sub_le _ _).trans t.count_le⟩

@[simp] theorem toList_removeShift (t : Table α cap) (i : ℕ) (h : i < t.count) :
    (t.removeShift i h).toList = t.toList.eraseIdx i := by
  have hi : i < t.toList.length := by simpa using h
  apply List.ext_getElem
  · rw [List.length_eraseIdx_of_lt hi]
    simp [removeShift]
  · intro j h₁ h₂
    have hj : j < t.count - 1 := by simpa [removeShift] using h₁
    have hcap := t.count_le
    rw [getElem_toList _ _ _ (by omega), List.getElem_eraseIdx]
    simp only [removeShift, getElem_shiftLoop]
    split
    · simp only [Fin.getElem_fin]
      rw [dif_neg (by omega), getElem_toList _ _ _ (by omega)]
    · rw [dif_pos (by omega), getElem_toList _ _ _ (by omega)]

/-! ## Removal with the last slot moved into the hole -/

/-- `slots[i] = slots[count - 1]; count--;` -/
def removeSwap (t : Table α cap) (i : ℕ) (h : i < t.count) : Table α cap :=
  ⟨t.slots.set i t.slots[(⟨t.count - 1, t.lt_cap (by omega)⟩ : Fin cap)] (t.lt_cap h),
    t.count - 1, (Nat.sub_le _ _).trans t.count_le⟩

theorem toList_removeSwap (t : Table α cap) (i : ℕ) (h : i < t.count)
    (hlast : t.count - 1 < t.toList.length) :
    (t.removeSwap i h).toList = (t.toList.set i t.toList[t.count - 1]).take (t.count - 1) := by
  have hcap := t.count_le
  apply List.ext_getElem
  · simp [removeSwap]
  · intro j h₁ h₂
    have hj : j < t.count - 1 := by simpa [removeSwap] using h₁
    rw [getElem_toList _ _ _ (by omega), List.getElem_take, List.getElem_set]
    split
    · rename_i hij
      subst hij
      rw [getElem_toList _ _ _ (by omega)]
      simp [removeSwap, Fin.getElem_fin]
    · rename_i hij
      rw [getElem_toList _ _ _ (by omega)]
      simp [removeSwap, hij]

/-- Swap-with-last removal is a removal, up to the order of the remaining slots. -/
theorem toList_removeSwap_perm (t : Table α cap) (i : ℕ) (h : i < t.count) :
    (t.removeSwap i h).toList.Perm (t.toList.eraseIdx i) := by
  have hlast : t.count - 1 < t.toList.length := by simp; omega
  have hsplit : t.toList = t.toList.take (t.count - 1) ++ [t.toList[t.count - 1]] := by
    conv_lhs => rw [← List.take_append_drop (t.count - 1) t.toList]
    rw [List.drop_eq_getElem_cons hlast, List.drop_eq_nil_of_le (by simp; omega)]
  have hlen : (t.toList.take (t.count - 1)).length = t.count - 1 := by simp
  rw [toList_removeSwap t i h hlast]
  generalize t.toList[t.count - 1] = x at hsplit ⊢
  generalize t.toList.take (t.count - 1) = l at hsplit hlen
  rw [hsplit, ← hlen]
  rcases Nat.lt_or_ge i l.length with hi | hi
  · rw [List.set_append_left _ _ hi, List.take_left' (List.length_set ..),
      List.eraseIdx_append_of_lt_length hi]
    exact (List.set_perm_cons_eraseIdx hi x).trans (List.perm_append_singleton x _).symm
  · -- the removed slot is the last one
    have hi' : i = l.length := by omega
    rw [hi', List.set_append_right _ _ le_rfl, List.eraseIdx_append_of_length_le le_rfl]
    simp

theorem erase_of_search_eq_none [BEq α] [LawfulBEq α] {t : Table α cap} {x : α}
    (h : t.search (· == x) = none) : t.toList.erase x = t.toList := by
  apply List.erase_of_not_mem
  intro hmem
  simpa using search_eq_none.1 h x hmem

/-- Removing the slot a search for `x` has found. -/
theorem toList_removeSwap_search [BEq α] [LawfulBEq α] {t : Table α cap} {x : α} {i : ℕ}
    (h : t.search (· == x) = some i) :
    (t.removeSwap i (lt_count_of_search h)).toList.Perm (t.toList.erase x) := by
  have hi : t.toList.idxOf x = i := (List.findIdx?_eq_some_iff_findIdx_eq.1 h).2
  rw [List.erase_eq_eraseIdx_of_idxOf hi]
  exact toList_removeSwap_perm t i _

end Table

end EltexPractice
