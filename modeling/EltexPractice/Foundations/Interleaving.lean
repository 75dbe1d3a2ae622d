import Mathlib.Data.List.Basic

/-!
# Interleavings

An interleaving of several sequences is one list whose entries carry the key of the sequence they
come from. `part k l` is the sequence of the key `k`, in its own order; the lemmas take such a list
apart at an entry that is known to be in one of the parts.
-/

namespace EltexPractice

variable {κ α : Type*} [DecidableEq κ]

/-- The entries with the key `k`, in their order. -/
def part (k : κ) (l : List (κ × α)) : List α := (l.filter (·.1 = k)).map (·.2)

@[simp] theorem part_nil (k : κ) : part k ([] : List (κ × α)) = [] := rfl

@[simp] theorem part_cons_self (k : κ) (a : α) (l : List (κ × α)) :
    part k ((k, a) :: l) = a :: part k l := by simp [part]

theorem part_cons_of_ne {k k' : κ} (h : k' ≠ k) (a : α) (l : List (κ × α)) :
    part k ((k', a) :: l) = part k l := by simp [part, h]

@[simp] theorem part_append (k : κ) (l₁ l₂ : List (κ × α)) :
    part k (l₁ ++ l₂) = part k l₁ ++ part k l₂ := by simp [part]

theorem mem_part {k : κ} {a : α} {l : List (κ × α)} : a ∈ part k l ↔ (k, a) ∈ l := by
  simp [part]

/-- The list up to the first entry of a part. -/
theorem exists_of_part_eq_cons {k : κ} {a : α} {as : List α} {l : List (κ × α)}
    (h : part k l = a :: as) :
    ∃ l₁ l₂, l = l₁ ++ (k, a) :: l₂ ∧ part k l₁ = [] ∧ part k l₂ = as := by
  induction l with
  | nil => cases h
  | cons e l ih =>
    obtain ⟨k', a'⟩ := e
    by_cases hk : k' = k
    · subst hk
      rw [part_cons_self] at h
      obtain ⟨rfl, rfl⟩ := List.cons.inj h
      exact ⟨[], l, rfl, rfl, rfl⟩
    · rw [part_cons_of_ne hk] at h
      obtain ⟨l₁, l₂, rfl, h₁, h₂⟩ := ih h
      exact ⟨(k', a') :: l₁, l₂, rfl, by rwa [part_cons_of_ne hk], h₂⟩

/-- One sequence under its own key. -/
@[simp] theorem part_map_self (k : κ) (as : List α) : part k (as.map (Prod.mk k)) = as := by
  induction as with
  | nil => rfl
  | cons a as ih => rw [List.map_cons, part_cons_self, ih]

theorem part_map_of_ne {k k' : κ} (h : k' ≠ k) (as : List α) :
    part k (as.map (Prod.mk k')) = [] := by
  induction as with
  | nil => rfl
  | cons a as ih => rw [List.map_cons, part_cons_of_ne h, ih]

/-- With two keys, a list without one of the parts is the other part. -/
theorem map_snd_of_part_eq_nil {b : Bool} {l : List (Bool × α)} (h : part b l = []) :
    l.map (·.2) = part (!b) l := by
  induction l with
  | nil => rfl
  | cons e l ih =>
    obtain ⟨b', a⟩ := e
    by_cases hb : b' = b
    · subst hb
      rw [part_cons_self] at h
      cases h
    · rw [part_cons_of_ne hb] at h
      obtain rfl : b' = !b := Bool.eq_not.2 hb
      rw [part_cons_self, List.map_cons, ih h]

end EltexPractice
