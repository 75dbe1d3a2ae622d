import EltexPractice.SharedList.System

/-!
# Exactly-once processing

Every block is reported at most once over all consumers, the reports come in the order of the
blocks, each with the block's own elements, minimum and maximum, and nobody leaves before every
block has been reported (`exactly_once`).
-/

namespace EltexPractice.SharedList

variable {v : Version} {rand : ℕ → ℕ} {fuel : ℕ}

@[simp] theorem length_draw (rand : ℕ → ℕ) (k i : ℕ) : (draw rand k i).length = k := by
  induction k generalizing i with
  | zero => rfl
  | succ k ih => rw [draw, List.length_cons, ih]

/-- What has been reported, at one moment. -/
structure ExactlyOnce (v : Version) (rand : ℕ → ℕ) (st : State) : Prop where
  /-- The `k`-th report is about the `k`-th block. -/
  reported : ∀ (i : ℕ) (r : Report), st.reports[i]? = some r →
    ∃ g, st.generated[i]? = some g ∧ r.offset = g.offset ∧ r.count = g.count ∧
      r.elements = g.elements ∧ IsLeast {x | x ∈ g.elements} r.min ∧
      IsGreatest {x | x ∈ g.elements} r.max
  /-- The elements of a block are those the producer drew. -/
  written : ∀ g ∈ st.generated, ∃ d, g.count = 5 + rand d % 11 ∧
    g.elements = draw (fun i => rand (d + 1 + i)) g.count 0
  /-- No block is reported twice. -/
  once : (st.reports.map (·.offset)).Nodup
  /-- A consumer leaves when the producer is done and every block has been reported. -/
  left : ∀ c ∈ st.left, done v st.mem.bytes = 1 ∧ st.reports.length = st.generated.length
  /-- The producer leaves when every block has been reported. -/
  finished : st.producer = .finished → st.reports.length = st.generated.length

/-- The offsets reported are those of the first blocks. -/
theorem State.Inv.map_offset {st : State} (h : st.Inv v rand) :
    st.reports.map (·.offset) = (st.generated.map (·.offset)).take st.reports.length := by
  apply List.ext_getElem?
  intro i
  rw [List.getElem?_take, List.getElem?_map, List.getElem?_map]
  rcases Nat.lt_or_ge i st.reports.length with hi | hi
  · obtain ⟨g, hg, hr⟩ := h.reported i _ (List.getElem?_eq_getElem hi)
    rw [if_pos hi, List.getElem?_eq_getElem hi, hg, Option.map_some, Option.map_some, hr]
    rfl
  · rw [if_neg (by omega), List.getElem?_eq_none hi, Option.map_none]

/-- **Exactly-once processing**, in every state of every run of the two programs. -/
theorem exactly_once {stale : Bytes} {as : List Action} {st : State}
    (h : runFrom (step v rand fuel) (.init v stale) as = some st) : ExactlyOnce v rand st := by
  have hinv := State.inv_of_run h
  refine ⟨fun i r hr => ?_, hinv.written, ?_, fun c hc => ?_, fun hfin => ?_⟩
  · obtain ⟨g, hg, hreport⟩ := hinv.reported i r hr
    have hmem := List.mem_of_getElem? hg
    obtain ⟨d, hcount, helements⟩ := hinv.written g hmem
    have hne : g.elements ≠ [] := by
      rw [← List.length_pos_iff, helements, length_draw]
      omega
    rw [hreport]
    exact ⟨g, hg, rfl, rfl, rfl, isLeast_select hne, isGreatest_select hne⟩
  · rw [hinv.map_offset]
    exact (hinv.represents.tiles.pairwise.imp Nat.ne_of_lt).sublist (List.take_sublist _ _)
  · obtain ⟨hne, hall⟩ := hinv.left (Or.inl (List.ne_nil_of_mem hc))
    exact ⟨(hinv.stopped hne).1, hall⟩
  · exact (hinv.left (Or.inr hfin)).2

/-- A run of the System V program in which a block is generated and reported. -/
theorem exactly_once_sample : ∃ st, runFrom (step .task04 (fun k => 7 * k) 114)
    (.init .task04 fun _ => 0) [.generate, .consume 7] = some st ∧ st.reports.length = 1 ∧
      ExactlyOnce .task04 (fun k => 7 * k) st := by
  have hinit := State.inv_init .task04 (fun k => 7 * k) fun _ => 0
  have hgen := hinit.generate rfl
  have hblock := hinit.generate_room (by rw [← hinit.represents.tiles]; decide)
  obtain ⟨st, hstep, hreport⟩ := hgen.consume_possible 114 (show 7 ∉ [] from List.not_mem_nil)
    (by rw [hblock]; decide)
  have hrun : runFrom (step .task04 (fun k => 7 * k) 114) (.init .task04 fun _ => 0)
      ([.generate] ++ [.consume 7]) = some st :=
    runFrom_concat.2 ⟨_, (runFrom_singleton ..).trans (State.step_generate rfl), hstep⟩
  exact ⟨st, hrun, hreport (by rw [hblock]; decide), exactly_once hrun⟩

end EltexPractice.SharedList
