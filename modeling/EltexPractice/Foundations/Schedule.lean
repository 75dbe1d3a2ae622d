import Mathlib.Data.List.Induction

/-!
# Runs of a system under a schedule

A system is a partial step function `step : σ → α → Option σ`: `step s a` is the state after the
action `a`, or `none` when `a` is not possible in `s`. A schedule is a list of actions, so a
statement about every schedule is a statement about every interleaving of the actions of any
number of parties.

The induction over a run is packaged once (`runFrom_induction`, with the schedule so far in the
motive, and `runFrom_invariant`, without it); a property of every reachable state is then two
small goals, the initial state and one step. `runFrom_map` and `runFrom_relation` do the same for
a simulation of one system by another and for two systems under one schedule.
-/

namespace EltexPractice

variable {σ α : Type*} (step : σ → α → Option σ)

/-- The state after the actions `as`, when each of them is possible in its turn. -/
def runFrom (s : σ) (as : List α) : Option σ := as.foldlM step s

@[simp] theorem runFrom_nil (s : σ) : runFrom step s [] = some s := rfl

@[simp] theorem runFrom_cons (s : σ) (a : α) (as : List α) :
    runFrom step s (a :: as) = (step s a).bind fun t => runFrom step t as := by
  simp [runFrom, List.foldlM_cons]

theorem runFrom_singleton (s : σ) (a : α) : runFrom step s [a] = step s a := by simp

theorem runFrom_append (s : σ) (as bs : List α) :
    runFrom step s (as ++ bs) = (runFrom step s as).bind fun t => runFrom step t bs := by
  simp [runFrom, List.foldlM_append]

variable {step}

theorem runFrom_concat {s u : σ} {as : List α} {a : α} :
    runFrom step s (as ++ [a]) = some u ↔ ∃ t, runFrom step s as = some t ∧ step t a = some u := by
  simp [runFrom_append, Option.bind_eq_some_iff]

/-- **Induction over a run**, for a property of the schedule so far and the state it leads to. -/
theorem runFrom_induction {s₀ : σ} {P : List α → σ → Prop} (init : P [] s₀)
    (next : ∀ as s a s', runFrom step s₀ as = some s → P as s → step s a = some s' →
      P (as ++ [a]) s')
    {as : List α} {s : σ} (h : runFrom step s₀ as = some s) : P as s := by
  induction as using List.reverseRecOn generalizing s with
  | nil =>
    obtain rfl : s₀ = s := by simpa using h
    exact init
  | append_singleton as a ih =>
    obtain ⟨t, ht, hs⟩ := runFrom_concat.1 h
    exact next as t a s ht (ih ht) hs

/-- A property of the initial state that every step keeps holds in every reachable state. -/
theorem runFrom_invariant {P : σ → Prop} (next : ∀ s a s', P s → step s a = some s' → P s')
    {s₀ : σ} (init : P s₀) {as : List α} {s : σ} (h : runFrom step s₀ as = some s) : P s :=
  runFrom_induction (P := fun _ => P) init (fun _ s a s' _ hs => next s a s' hs) h

/-- A run is no longer than a measure that every step makes smaller. -/
theorem length_le_of_decreasing {μ : σ → ℕ} {I : σ → Prop}
    (inv : ∀ s a s', I s → step s a = some s' → I s')
    (decreases : ∀ s a s', I s → step s a = some s' → μ s' < μ s) {s₀ : σ} (hI : I s₀)
    {as : List α} {s : σ} (h : runFrom step s₀ as = some s) : as.length ≤ μ s₀ := by
  have hle := runFrom_induction (P := fun as s => I s ∧ as.length + μ s ≤ μ s₀)
    ⟨hI, by simp⟩ (fun as s a s' _ ih hs => ⟨inv s a s' ih.1 hs, ?_⟩) h
  · exact Nat.le_trans (Nat.le_add_right _ _) hle.2
  · have hlt := decreases s a s' ih.1 hs
    have hle := ih.2
    rw [List.length_append, List.length_singleton]
    omega

/-- Where every step makes a measure smaller, actions of a kind lead to a state in which no action
of this kind is possible. -/
theorem exists_end_of_decreasing {μ : σ → ℕ} {Q : α → Prop}
    (decreases : ∀ s a s', step s a = some s' → μ s' < μ s) (s : σ) :
    ∃ as t, (∀ a ∈ as, Q a) ∧ runFrom step s as = some t ∧ ∀ a, Q a → step t a = none := by
  induction hn : μ s using Nat.strongRecOn generalizing s with
  | ind n ih =>
    by_cases h : ∃ a s', Q a ∧ step s a = some s'
    · obtain ⟨a, s', ha, hs⟩ := h
      obtain ⟨as, t, hall, hrun, hend⟩ := ih (μ s') (hn ▸ decreases s a s' hs) s' rfl
      refine ⟨a :: as, t, ?_, ?_, hend⟩
      · exact List.forall_mem_cons.2 ⟨ha, hall⟩
      · rw [runFrom_cons, hs]
        exact hrun
    · refine ⟨[], s, fun a ha => absurd ha List.not_mem_nil, rfl, fun a ha => ?_⟩
      exact Option.eq_none_iff_forall_ne_some.2 fun s' hs => h ⟨a, s', ha, hs⟩

/-- Some run leads from the one state to the other. -/
def Reaches (step : σ → α → Option σ) (s t : σ) : Prop := ∃ as, runFrom step s as = some t

theorem Reaches.refl (s : σ) : Reaches step s s := ⟨[], runFrom_nil step s⟩

theorem Reaches.head {s t u : σ} {a : α} (h : step s a = some t) (h' : Reaches step t u) :
    Reaches step s u := by
  obtain ⟨as, has⟩ := h'
  refine ⟨a :: as, ?_⟩
  rw [runFrom_cons, h]
  exact has

theorem Reaches.single {s t : σ} {a : α} (h : step s a = some t) : Reaches step s t :=
  .head h (.refl t)

theorem Reaches.trans {s t u : σ} (h : Reaches step s t) (h' : Reaches step t u) :
    Reaches step s u := by
  obtain ⟨as, has⟩ := h
  obtain ⟨bs, hbs⟩ := h'
  refine ⟨as ++ bs, ?_⟩
  rw [runFrom_append, has]
  exact hbs

/-- Each step of a run meets a condition on the state before it. -/
def StepsMeet (step : σ → α → Option σ) (C : σ → α → Prop) (s : σ) : List α → Prop
  | [] => True
  | a :: as => C s a ∧ ∀ t, step s a = some t → StepsMeet step C t as

theorem stepsMeet_of_forall {C : σ → α → Prop} {as : List α} (h : ∀ a ∈ as, ∀ s, C s a) (s : σ) :
    StepsMeet step C s as := by
  induction as generalizing s with
  | nil => trivial
  | cons a as ih =>
    exact ⟨h a List.mem_cons_self s, fun t _ => ih (fun b hb => h b (List.mem_cons_of_mem a hb)) t⟩

theorem StepsMeet.append {C : σ → α → Prop} {s t : σ} {as bs : List α}
    (h : StepsMeet step C s as) (ht : runFrom step s as = some t) (h' : StepsMeet step C t bs) :
    StepsMeet step C s (as ++ bs) := by
  induction as generalizing s with
  | nil =>
    obtain rfl := Option.some.inj ht
    exact h'
  | cons a as ih =>
    rw [runFrom_cons, Option.bind_eq_some_iff] at ht
    obtain ⟨u, hu, ht⟩ := ht
    refine ⟨h.1, fun v hv => ?_⟩
    obtain rfl := Option.some.inj (hu.symm.trans hv)
    exact ih (h.2 u hu) ht

theorem StepsMeet.concat {C : σ → α → Prop} {s t : σ} {as : List α} {a : α}
    (h : StepsMeet step C s as) (ht : runFrom step s as = some t) (ha : C t a) :
    StepsMeet step C s (as ++ [a]) :=
  h.append ht ⟨ha, fun _ _ => trivial⟩

/-- A property that every step that meets the condition keeps. -/
theorem runFrom_invariant_of_meet {C : σ → α → Prop} {P : σ → Prop}
    (next : ∀ s a s', P s → C s a → step s a = some s' → P s') {s₀ : σ} (init : P s₀)
    {as : List α} (hmeet : StepsMeet step C s₀ as) {s : σ} (h : runFrom step s₀ as = some s) :
    P s := by
  induction as generalizing s₀ with
  | nil =>
    obtain rfl := Option.some.inj h
    exact init
  | cons a as ih =>
    rw [runFrom_cons, Option.bind_eq_some_iff] at h
    obtain ⟨t, ht, h⟩ := h
    exact ih (next s₀ a t init hmeet.1 ht) (hmeet.2 t ht) h

/-- When a step keeps a property exactly if it meets the condition, the property holds in every
state of a run exactly if every step meets the condition. -/
theorem stepsMeet_iff {C : σ → α → Prop} {I P : σ → Prop}
    (inv : ∀ s a s', I s → step s a = some s' → I s')
    (next : ∀ s a s', I s → P s → step s a = some s' → (P s' ↔ C s a)) {s₀ : σ} (hI : I s₀)
    (hP : P s₀) {as : List α} {t : σ} (h : runFrom step s₀ as = some t) :
    (∀ bs s, bs <+: as → runFrom step s₀ bs = some s → P s) ↔ StepsMeet step C s₀ as := by
  induction as generalizing s₀ with
  | nil =>
    refine iff_of_true (fun bs s hbs hs => ?_) trivial
    obtain rfl := List.prefix_nil.1 hbs
    obtain rfl := Option.some.inj hs
    exact hP
  | cons a as ih =>
    rw [runFrom_cons, Option.bind_eq_some_iff] at h
    obtain ⟨s₁, hs₁, h⟩ := h
    have hiff := next s₀ a s₁ hI hP hs₁
    constructor
    · intro hall
      have hP₁ : P s₁ := by
        refine hall [a] s₁ (List.prefix_append [a] as) ?_
        rw [runFrom_singleton, hs₁]
      refine ⟨hiff.1 hP₁, fun s hs => ?_⟩
      obtain rfl := Option.some.inj (hs₁.symm.trans hs)
      refine (ih (inv _ _ _ hI hs₁) hP₁ h).1 fun bs u hbs hu => ?_
      refine hall (a :: bs) u ((List.prefix_cons_inj a).2 hbs) ?_
      rw [runFrom_cons, hs₁]
      exact hu
    · rintro ⟨hC, hrest⟩ bs s hbs hs
      rcases bs with - | ⟨b, bs⟩
      · obtain rfl := Option.some.inj hs
        exact hP
      · obtain ⟨rfl, hprefix⟩ := List.cons_prefix_cons.1 hbs
        rw [runFrom_cons, hs₁] at hs
        exact (ih (inv _ _ _ hI hs₁) (hiff.2 hC) h).2 (hrest s₁ hs₁) bs s hprefix hs

/-! ## Two systems -/

section Simulation

variable {τ : Type*} {step' : τ → α → Option τ}

/-- A function of the state that takes every step to a step takes every run to a run. -/
theorem runFrom_map {f : σ → τ} {I : σ → Prop} (inv : ∀ s a s', I s → step s a = some s' → I s')
    (sim : ∀ s a s', I s → step s a = some s' → step' (f s) a = some (f s')) {s₀ : σ} (hI : I s₀)
    {as : List α} {s : σ} (h : runFrom step s₀ as = some s) :
    runFrom step' (f s₀) as = some (f s) := by
  refine And.right (runFrom_induction (P := fun as s => I s ∧ runFrom step' (f s₀) as = some (f s))
    ⟨hI, runFrom_nil step' _⟩ (fun as s a s' _ ih hs => ⟨inv s a s' ih.1 hs, ?_⟩) h)
  exact runFrom_concat.2 ⟨f s, ih.2, sim s a s' ih.1 hs⟩

/-- When every step of the image comes from a step, every run of the image comes from a run. -/
theorem exists_runFrom_of_map {f : σ → τ} {I : σ → Prop}
    (inv : ∀ s a s', I s → step s a = some s' → I s')
    (sim : ∀ s a t', I s → step' (f s) a = some t' → ∃ s', step s a = some s' ∧ f s' = t')
    {s₀ : σ} (hI : I s₀) {as : List α} {t : τ} (h : runFrom step' (f s₀) as = some t) :
    ∃ s, runFrom step s₀ as = some s ∧ f s = t := by
  induction as generalizing s₀ with
  | nil => exact ⟨s₀, runFrom_nil step s₀, Option.some.inj h⟩
  | cons a as ih =>
    rw [runFrom_cons, Option.bind_eq_some_iff] at h
    obtain ⟨t₁, ht₁, h⟩ := h
    obtain ⟨s₁, hs₁, rfl⟩ := sim s₀ a t₁ hI ht₁
    obtain ⟨s, hs, hst⟩ := ih (inv s₀ a s₁ hI hs₁) h
    refine ⟨s, ?_, hst⟩
    rw [runFrom_cons, hs₁]
    exact hs

/-- Two systems under one schedule: a relation of their states that each common step keeps. -/
theorem runFrom_relation {R : σ → τ → Prop}
    (next : ∀ s t a s' t', R s t → step s a = some s' → step' t a = some t' → R s' t')
    {s₀ : σ} {t₀ : τ} (init : R s₀ t₀) {as : List α} {s : σ} {t : τ}
    (h : runFrom step s₀ as = some s) (h' : runFrom step' t₀ as = some t) : R s t := by
  refine runFrom_induction (P := fun as s => ∀ t, runFrom step' t₀ as = some t → R s t)
    (fun t ht => ?_) (fun as s a s' _ ih hs t' ht' => ?_) h t h'
  · obtain rfl := Option.some.inj ht
    exact init
  · obtain ⟨t, ht, hstep⟩ := runFrom_concat.1 ht'
    exact next s t a s' t' (ih t ht) hs hstep

end Simulation

end EltexPractice
