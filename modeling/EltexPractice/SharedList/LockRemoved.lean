import EltexPractice.SharedList.Ledger
import EltexPractice.SharedList.Steps

/-!
# Consumers without the lock

When the producer of task 4 is through, `cleanup_producer_ipc` removes the semaphore, and from then
on nothing keeps two consumers from being in their sections at once. It does no harm: all blocks
are marked as processed and `producer_done` is set, so a consumer only reads. Wherever it is, it is
a known number of steps from leaving its loop, which no step of another party changes
(`consumers_leave`).
-/

namespace EltexPractice.SharedList

open MemM

/-! ## The list at the end -/

/-- The segment when every block of `gs` is processed and the producer is through. -/
structure Frozen (m : Bytes) (gs : List Generated) : Prop where
  first : word m Version.task04.firstBlockOffset = headOffset gs
  linked : ∀ g rest, g :: rest <:+ gs →
    g.offset ≠ 0 ∧ word m g.offset = 0 ∧ word m (g.offset + 8) = headOffset rest
  done : done .task04 m ≠ 0

/-- A processed block, and the list behind it. -/
theorem Linked.holds_of_suffix {m : Bytes} {k : ℕ} {gs rest : List Generated} {g : Generated}
    (h : Linked m k gs) (hk : gs.length ≤ k) (hrest : g :: rest <:+ gs) :
    Holds m g 0 (headOffset rest) := by
  induction gs generalizing k with
  | nil => cases List.suffix_nil.1 hrest
  | cons g' gs ih =>
    rw [List.length_cons] at hk
    rcases List.suffix_cons_iff.1 hrest with heq | hrest
    · obtain ⟨rfl, rfl⟩ := List.cons.inj heq
      have hholds := h.1
      rwa [if_neg (by omega)] at hholds
    · exact ih h.2 (by omega) hrest

/-- When the producer has left `wait_for_processing`. -/
theorem State.Inv.frozen {rand : ℕ → ℕ} {st : State} (h : st.Inv .task04 rand)
    (hfin : st.producer = .finished) : Frozen st.mem.bytes st.generated := by
  obtain ⟨hne, hall⟩ := h.left (Or.inr hfin)
  refine ⟨h.represents.first, fun g rest hrest => ?_, ?_⟩
  · have hlow := (h.represents.tiles.mem (hrest.mem List.mem_cons_self)).1
    have hholds := h.represents.linked.holds_of_suffix hall.ge hrest
    have hfields := Version.task04.fields
    exact ⟨by omega, hholds.numElements, hholds.next⟩
  · rw [(h.stopped hne).1]
    exact Nat.one_ne_zero

/-! ## The way out -/

namespace Point

/-- Whether a consumer is between two passes. -/
def outside : Point → Bool
  | .lock => true
  | .waiting => true
  | .sleeping => true
  | _ => false

/-- Whether a consumer has neither found a block nor decided to wait. -/
def quiet : Point → Bool
  | .count _ => false
  | .readMin _ _ => false
  | .readMax _ _ _ => false
  | .scan _ _ _ _ _ _ _ => false
  | .print _ _ => false
  | .mark _ _ => false
  | .unlock (.processed _) => false
  | .unlock .waits => false
  | _ => true

/-- The steps a consumer outside of its sections takes up to the end of its loop, when it passes
over a list of processed blocks. -/
def stepsToLeave (blocks : ℕ) : Point → ℕ
  | .waiting => 2 * blocks + 7
  | .sleeping => 2 * blocks + 6
  | .lock => 2 * blocks + 5
  | _ => 0

/-- A consumer that is to take `n` more steps over the processed blocks `gs`. -/
def Leaving (gs : List Generated) : Point → ℕ → Prop
  | .waiting, n => n = 2 * gs.length + 7
  | .sleeping, n => n = 2 * gs.length + 6
  | .lock, n => n = 2 * gs.length + 5
  | .first, n => n = 2 * gs.length + 4
  | .search current, n => ∃ rest, rest <:+ gs ∧ current = headOffset rest ∧ n = 2 * rest.length + 3
  | .advance current, n =>
    ∃ g rest, g :: rest <:+ gs ∧ current = g.offset ∧ n = 2 * rest.length + 4
  | .done, n => n = 2
  | .unlock .leaves, n => n = 1
  | .left, n => n = 0
  | _, _ => False

/-- On its way out a consumer finds nothing and does not wait, it is outside of its sections while
it has a whole pass before it, and it has left when no step is to be taken. -/
theorem Leaving.place {gs : List Generated} {p : Point} {n : ℕ} (h : p.Leaving gs n) :
    p.quiet = true ∧ (p.outside = true ↔ 2 * gs.length + 5 ≤ n) ∧ (p = .left ↔ n = 0) := by
  unfold Leaving at h
  split at h
  · exact ⟨rfl, iff_of_true rfl (by omega), iff_of_false nofun (by omega)⟩
  · exact ⟨rfl, iff_of_true rfl (by omega), iff_of_false nofun (by omega)⟩
  · exact ⟨rfl, iff_of_true rfl (by omega), iff_of_false nofun (by omega)⟩
  · exact ⟨rfl, iff_of_false nofun (by omega), iff_of_false nofun (by omega)⟩
  · obtain ⟨rest, hrest, -, rfl⟩ := h
    have hlength := hrest.length_le
    exact ⟨rfl, iff_of_false nofun (by omega), iff_of_false nofun (by omega)⟩
  · obtain ⟨g, rest, hrest, -, rfl⟩ := h
    have hlength := hrest.length_le
    rw [List.length_cons] at hlength
    exact ⟨rfl, iff_of_false nofun (by omega), iff_of_false nofun (by omega)⟩
  · exact ⟨rfl, iff_of_false nofun (by omega), iff_of_false nofun (by omega)⟩
  · exact ⟨rfl, iff_of_false nofun (by omega), iff_of_false nofun (by omega)⟩
  · exact ⟨rfl, iff_of_false nofun (by omega), iff_of_true rfl h⟩
  · exact h.elim

/-- One step between two calls of `semop`: the segment stays, and the way out is shorter. -/
theorem Leaving.access {gs : List Generated} {p : Point} {n : ℕ} {mem : Mem} (c : ℕ)
    (h : p.Leaving gs n) (hfrozen : Frozen mem.bytes gs) (hp : p.inside = true) :
    p.report = [] ∧ (p.access c).wp (fun q mem' =>
      mem'.bytes = mem.bytes ∧ ∃ k, n = k + 1 ∧ q.Leaving gs k) mem := by
  cases p with
  | lock => cases hp
  | unlock pass => cases hp
  | left => cases hp
  | count block => exact h.elim
  | readMin block n => exact h.elim
  | readMax block n min => exact h.elim
  | scan block n k i min max elements => exact h.elim
  | print block r => exact h.elim
  | mark block r => exact h.elim
  | waiting => exact ⟨rfl, rfl, _, h, rfl⟩
  | sleeping => exact ⟨rfl, rfl, _, h, rfl⟩
  | first => exact ⟨rfl, rfl, _, h, gs, List.suffix_rfl, hfrozen.first, rfl⟩
  | search current =>
    obtain ⟨rest, hrest, rfl, rfl⟩ := h
    refine ⟨rfl, ?_⟩
    rw [Point.access]
    cases rest with
    | nil =>
      rw [headOffset, if_pos rfl, wp_pure]
      exact ⟨rfl, 2, rfl, rfl⟩
    | cons g rest =>
      obtain ⟨hpos, hnum, -⟩ := hfrozen.linked g rest hrest
      have hnum : leValue (bytesAt mem.bytes g.offset 8) = 0 := hnum
      rw [headOffset, if_neg hpos, wp_bind, wp_load, hnum, if_neg (lt_irrefl 0), wp_pure]
      exact ⟨rfl, _, by rw [List.length_cons]; omega, g, rest, hrest, rfl, rfl⟩
  | advance current =>
    obtain ⟨g, rest, hrest, rfl, rfl⟩ := h
    obtain ⟨-, -, hnext⟩ := hfrozen.linked g rest hrest
    exact ⟨rfl, rfl, _, rfl, rest, (List.suffix_cons g rest).trans hrest, hnext, rfl⟩
  | done =>
    have hdone : leValue (bytesAt mem.bytes Version.task04.producerDone 4) ≠ 0 := hfrozen.done
    refine ⟨rfl, ?_⟩
    rw [Point.access, wp_bind, wp_load, if_pos hdone, wp_pure]
    exact ⟨rfl, 1, h, rfl⟩

end Point

namespace Interleaved

/-- What a step of a consumer can be. -/
theorem step_consumer_cases {s s' : Interleaved} {c : ℕ} (hs : step s (.consumer c) = some s') :
    ∃ q mem, s'.mem = mem ∧ s'.points = Function.update s.points c q ∧
      s'.reports = s.reports ++ (s.points c).report ∧
      (s.points c = .lock ∧ q = .first ∧ mem = s.mem ∨
        (∃ pass, s.points c = .unlock pass ∧ q = pass.after ∧ mem = s.mem) ∨
        (s.points c).inside = true ∧ ((s.points c).access c).run s.mem = (q, mem)) := by
  by_cases hp : (s.points c).inside = true
  · rw [step_inside rfl hp] at hs
    obtain rfl := Option.some.inj hs
    exact ⟨_, _, rfl, rfl, rfl, Or.inr (Or.inr ⟨hp, rfl⟩)⟩
  · rcases Point.cases_of_not_inside hp with hc | ⟨pass, hc⟩ | hc
    · rw [step, hc] at hs
      rw [hc]
      dsimp only at hs
      split at hs
      · obtain rfl := Option.some.inj hs
        exact ⟨_, _, rfl, rfl, (List.append_nil _).symm, Or.inl ⟨rfl, rfl, rfl⟩⟩
      · cases hs
      · obtain rfl := Option.some.inj hs
        exact ⟨_, _, rfl, rfl, (List.append_nil _).symm, Or.inl ⟨rfl, rfl, rfl⟩⟩
    · rw [step_unlock hc] at hs
      obtain rfl := Option.some.inj hs
      rw [hc]
      exact ⟨_, _, rfl, rfl, (List.append_nil _).symm, Or.inr (Or.inl ⟨pass, rfl, rfl, rfl⟩)⟩
    · rw [step, hc] at hs
      cases hs

/-- A step of a consumer on its way out changes neither the segment nor another consumer, and it
prints nothing about a block. -/
theorem step_leaving {gs : List Generated} {s s' : Interleaved} {c n : ℕ}
    (h : (s.points c).Leaving gs n) (hfrozen : Frozen s.mem.bytes gs)
    (hs : step s (.consumer c) = some s') :
    s'.mem.bytes = s.mem.bytes ∧ s'.reports = s.reports ∧
      (∃ k, n = k + 1 ∧ (s'.points c).Leaving gs k) ∧
      ∀ c', c' ≠ c → s'.points c' = s.points c' := by
  obtain ⟨q, mem, rfl, hpoints, hreports, hcase⟩ := step_consumer_cases hs
  have hother : ∀ c', c' ≠ c → s'.points c' = s.points c' := fun c' hc' => by
    rw [hpoints, Function.update_of_ne hc']
  have hself : s'.points c = q := by
    rw [hpoints, Function.update_self]
  rw [hself]
  rcases hcase with ⟨hc, rfl, hmem⟩ | ⟨pass, hc, rfl, hmem⟩ | ⟨hp, hrun⟩
  · rw [hc] at h hreports
    have hsame : s'.reports = s.reports := hreports.trans (List.append_nil _)
    exact ⟨congrArg Mem.bytes hmem, hsame, ⟨_, h, rfl⟩, hother⟩
  · rw [hc] at h hreports
    have hsame : s'.reports = s.reports := hreports.trans (List.append_nil _)
    cases pass with
    | processed r => exact h.elim
    | waits => exact h.elim
    | leaves => exact ⟨congrArg Mem.bytes hmem, hsame, ⟨0, h, rfl⟩, hother⟩
  · obtain ⟨hreport, hwp⟩ := h.access c hfrozen hp
    rw [wp, hrun] at hwp
    rw [hreport, List.append_nil] at hreports
    exact ⟨hwp.1, hreports, hwp.2, hother⟩

/-! ## Every interleaving -/

/-- The points at which the consumers can be between two sections of `st`. -/
def Between (st : State) (points : ℕ → Point) : Prop :=
  ∀ c, if c ∈ st.left then points c = .left else (points c).outside = true

/-- Every consumer is on its way out, and it has taken as many steps as its way is shorter. -/
structure WayOut (st : State) (points : ℕ → Point) (es : List Event) (s : Interleaved) : Prop where
  memory : s.mem.bytes = st.mem.bytes
  reports : s.reports = st.reports
  leaving : ∀ c, ∃ n, (s.points c).Leaving st.generated n ∧
    n + es.count (.consumer c) = (points c).stepsToLeave st.generated.length

theorem wayOut_start {st : State} {points : ℕ → Point} (h : Between st points) :
    WayOut st points [] (between st points) := by
  refine ⟨rfl, rfl, fun c => ⟨(points c).stepsToLeave st.generated.length, ?_, rfl⟩⟩
  have hc := h c
  change (points c).Leaving _ _
  generalize points c = p at hc ⊢
  split at hc
  · rw [hc]
    rfl
  · cases p <;> first | rfl | cases hc

theorem WayOut.step {st : State} {points : ℕ → Point} {es : List Event} {e : Event}
    {s s' : Interleaved} (h : WayOut st points es s) (hfrozen : Frozen st.mem.bytes st.generated)
    (hs : Interleaved.step s e = some s') : WayOut st points (es ++ [e]) s' := by
  cases e with
  | cleanup =>
    obtain ⟨-, hs⟩ := Option.ite_none_left_eq_some.1 hs
    obtain rfl := Option.some.inj hs
    refine ⟨h.memory, h.reports, fun c => ?_⟩
    obtain ⟨n, hn, hcount⟩ := h.leaving c
    refine ⟨n, hn, ?_⟩
    rw [List.count_append, ← hcount]
    rfl
  | consumer c =>
    obtain ⟨n, hn, hcount⟩ := h.leaving c
    obtain ⟨hmem, hreports, ⟨k, rfl, hk⟩, hother⟩ :=
      step_leaving hn (by rwa [h.memory]) hs
    refine ⟨hmem.trans h.memory, hreports.trans h.reports, fun c' => ?_⟩
    by_cases hc : c' = c
    · subst hc
      refine ⟨k, hk, ?_⟩
      rw [List.count_append, List.count_singleton_self, ← hcount]
      omega
    · obtain ⟨n', hn', hcount'⟩ := h.leaving c'
      refine ⟨n', by rwa [hother c' hc], ?_⟩
      have hne : Event.consumer c ≠ .consumer c' := fun heq => hc (Event.consumer.inj heq).symm
      rw [List.count_append, List.count_singleton, ← hcount']
      simp [hne]

/-- Without the semaphore nobody waits. -/
theorem step_possible {s : Interleaved} {c : ℕ} (hsem : s.semaphore = none)
    (hc : s.points c ≠ .left) : ∃ s', step s (.consumer c) = some s' := by
  by_cases hp : (s.points c).inside = true
  · exact ⟨_, step_inside rfl hp⟩
  · rcases Point.cases_of_not_inside hp with hlock | ⟨pass, hunlock⟩ | hleft
    · refine ⟨s.move c .first s.mem, ?_⟩
      rw [step, hlock, hsem]
    · exact ⟨_, step_unlock hunlock⟩
    · exact absurd hleft hc

end Interleaved

/-- What happens in an interleaving `es` of the steps of the consumers and of
`cleanup_producer_ipc`, from the state `st` on, in which the producer is through. -/
structure ConsumersLeave (st : State) (points : ℕ → Point) (es : List Event) (s : Interleaved) :
    Prop where
  /-- No block is changed. -/
  memory : s.mem.bytes = st.mem.bytes
  /-- No block is reported. -/
  reports : s.reports = st.reports
  /-- No consumer finds a block to report, and none decides to wait. -/
  quiet : ∀ c, (s.points c).quiet = true
  /-- A consumer that was outside of its sections leaves with a fixed number of its own steps, one
  pass over the blocks. -/
  leaves : ∀ c, s.points c = .left ↔
    (points c).stepsToLeave st.generated.length ≤ es.count (.consumer c)
  /-- A consumer that has begun a pass begins no other one. -/
  once : ∀ c es' s', (s.points c).outside = false → runFrom Interleaved.step s es' = some s' →
    (s'.points c).outside = false
  /-- Once the semaphore is removed, no `semop` blocks. -/
  possible : s.semaphore = none → ∀ c, s.points c ≠ .left →
    ∃ s', Interleaved.step s (.consumer c) = some s'

/-- **The consumers leave without the lock**: for any consumers at any points between the sections
that have led to the end of `wait_for_processing`, and every order of their steps with the removal
of the semaphore at any moment. -/
theorem consumers_leave {rand : ℕ → ℕ} {fuel : ℕ} {stale : Bytes} {as : List Action} {st : State}
    (h : runFrom (step .task04 rand fuel) (.init .task04 stale) as = some st)
    (hfin : st.producer = .finished) {points : ℕ → Point}
    (hpoints : Interleaved.Between st points) {es : List Event} {s : Interleaved}
    (hrun : runFrom Interleaved.step (Interleaved.between st points) es = some s) :
    ConsumersLeave st points es s := by
  have hfrozen := (State.inv_of_run h).frozen hfin
  have hway : ∀ {es s}, runFrom Interleaved.step (Interleaved.between st points) es = some s →
      Interleaved.WayOut st points es s := fun hrun =>
    runFrom_induction (Interleaved.wayOut_start hpoints)
      (fun _ _ _ _ _ h hs => h.step hfrozen hs) hrun
  have hs := hway hrun
  constructor
  case memory => exact hs.memory
  case reports => exact hs.reports
  case quiet =>
    intro c
    obtain ⟨n, hn, -⟩ := hs.leaving c
    exact hn.place.1
  case leaves =>
    intro c
    obtain ⟨n, hn, hcount⟩ := hs.leaving c
    rw [hn.place.2.2]
    omega
  case once =>
    intro c es' s' hc hrun'
    have hs' : Interleaved.WayOut st points (es ++ es') s' := by
      apply hway
      rw [runFrom_append, hrun]
      exact hrun'
    obtain ⟨n, hn, hcount⟩ := hs.leaving c
    obtain ⟨n', hn', hcount'⟩ := hs'.leaving c
    rw [List.count_append] at hcount'
    have hlt := mt hn.place.2.1.2 (Bool.eq_false_iff.1 hc)
    exact Bool.eq_false_iff.2 (mt hn'.place.2.1.1 (by omega))
  case possible => exact fun hsem c hc => Interleaved.step_possible hsem hc

/-- 53 blocks are generated and reported by consumer 7; consumers 1 and 2, both asleep when the
semaphore is removed, come to be in their sections at once. -/
theorem consumers_leave_together : ∃ as st s,
    runFrom (step .task04 (fun _ => 10) 114) (.init .task04 fun _ => 0) as = some st ∧
    st.producer = .finished ∧
    runFrom Interleaved.step (Interleaved.between st fun _ => .sleeping)
      [.cleanup, .consumer 1, .consumer 2, .consumer 1, .consumer 2] = some s ∧
    s.points 1 = .first ∧ s.points 2 = .first ∧
    ConsumersLeave st (fun _ => .sleeping)
      [.cleanup, .consumer 1, .consumer 2, .consumer 1, .consumer 2] s := by
  have hledger : (runFrom (Ledger.step fun _ => 10) (Ledger.init .task04)
      (List.replicate 54 .generate ++ List.replicate 53 (.consume 7) ++ [.check])).map
        (fun l => (l.producer, l.left)) = some (.finished, []) := by decide +kernel
  obtain ⟨l, hl, hend⟩ := Option.map_eq_some_iff.1 hledger
  obtain ⟨st, h, rfl⟩ := (run_iff_ledger (show 113 < 114 by decide) fun _ => 0).2 hl
  obtain ⟨hfin, hleft⟩ := Prod.mk.inj hend
  have hpoints : Interleaved.Between st fun _ => .sleeping := fun c => by
    have hleft : st.left = [] := hleft
    rw [hleft, if_neg List.not_mem_nil]
    rfl
  have hrun : runFrom Interleaved.step (Interleaved.between st fun _ => .sleeping)
      [.cleanup, .consumer 1, .consumer 2, .consumer 1, .consumer 2] = some _ := rfl
  exact ⟨_, st, _, h, hfin, hrun, rfl, rfl, consumers_leave h hfin hpoints hrun⟩

end EltexPractice.SharedList
