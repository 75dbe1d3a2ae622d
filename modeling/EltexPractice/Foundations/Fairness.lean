import Mathlib.Order.Nat
import Mathlib.Order.WellFounded

/-!
# Fair schedules

A system whose turns are never refused: `next s a` is the state after the turn `a`, the same state
when `a` has nothing to do in it. A schedule is an infinite sequence of turns.

`exists_rest`: where each turn leaves the state alone or makes a measure smaller, and every state
that is not final has a kind of turns that makes it smaller, a schedule with turns of every kind
again and again brings the system to rest in a final state.
-/

namespace EltexPractice

variable {σ α : Type*}

/-- The state after `n` turns of the schedule. -/
def stateAfter (next : σ → α → σ) (s : σ) (turns : ℕ → α) : ℕ → σ
  | 0 => s
  | n + 1 => next (stateAfter next s turns n) (turns n)

/-- Turns of the kind come again and again. -/
def Recurs (Kind : α → Prop) (turns : ℕ → α) : Prop := ∀ n, ∃ m, n ≤ m ∧ Kind (turns m)

variable {next : σ → α → σ} {s : σ} {turns : ℕ → α}

/-- A property of the initial state that every turn keeps. -/
theorem stateAfter_invariant {I : σ → Prop} (inv : ∀ s a, I s → I (next s a)) (hI : I s) (n : ℕ) :
    I (stateAfter next s turns n) := by
  induction n with
  | zero => exact hI
  | succ n ih => exact inv _ _ ih

section Measure

variable {μ : σ → ℕ} {I : σ → Prop}

/-- Later states are the same, or smaller. -/
theorem stateAfter_eq_or_lt (inv : ∀ s a, I s → I (next s a))
    (idle : ∀ s a, I s → next s a = s ∨ μ (next s a) < μ s) (hI : I s) {n m : ℕ} (h : n ≤ m) :
    stateAfter next s turns m = stateAfter next s turns n ∨
      μ (stateAfter next s turns m) < μ (stateAfter next s turns n) := by
  induction m, h using Nat.le_induction with
  | base => exact Or.inl rfl
  | succ m _ ih =>
    have hm : I (stateAfter next s turns m) := stateAfter_invariant inv hI m
    have hturn := idle _ (turns m) hm
    rcases ih with heq | hlt
    · rw [← heq]
      exact hturn
    · rcases hturn with hsame | hless
      · refine Or.inr ?_
        rw [stateAfter, hsame]
        exact hlt
      · exact Or.inr (lt_trans hless hlt)

/-- **A fair schedule brings the system to rest in a final state.** -/
theorem exists_rest {κ : Type*} {Kind : κ → α → Prop} {Final : σ → Prop}
    (inv : ∀ s a, I s → I (next s a)) (idle : ∀ s a, I s → next s a = s ∨ μ (next s a) < μ s)
    (helps : ∀ s, I s → ¬ Final s → ∃ k, ∀ a, Kind k a → μ (next s a) < μ s)
    (fair : ∀ k, Recurs (Kind k) turns) (hI : I s) :
    ∃ n, Final (stateAfter next s turns n) ∧
      ∀ m, n ≤ m → stateAfter next s turns m = stateAfter next s turns n := by
  -- from a smallest state on nothing changes
  let n := Function.argmin fun n => μ (stateAfter next s turns n)
  have hrest : ∀ m, n ≤ m → stateAfter next s turns m = stateAfter next s turns n := fun m hm =>
    (stateAfter_eq_or_lt inv idle hI hm).resolve_right
      (Function.not_lt_argmin (fun n => μ (stateAfter next s turns n)) m)
  refine ⟨n, by_contra fun hfinal => ?_, hrest⟩
  -- a turn that helps comes, and would change the state
  obtain ⟨k, hk⟩ := helps _ (stateAfter_invariant inv hI n) hfinal
  obtain ⟨m, hm, hkind⟩ := fair k n
  have hsame : next (stateAfter next s turns n) (turns m) = stateAfter next s turns n := by
    rw [← hrest m hm]
    exact (hrest (m + 1) (by omega)).trans (hrest m hm).symm
  have hless := hk _ hkind
  rw [hsame] at hless
  exact lt_irrefl _ hless

end Measure

end EltexPractice
