import EltexPractice.SharedList.System

/-!
# The layout of the segment

The offsets along the list increase strictly up to the end of the list, the blocks tile the
segment from the header to `free_offset`, and every access of a producer or a consumer lies in the
header or in a linked block (`layout`). So every walk ends, and `run_generation_loop` ends with less
than one block unused.
-/

namespace EltexPractice.SharedList

variable {v : Version} {rand : ℕ → ℕ} {fuel : ℕ}

/-- The offsets met when `next_block_offset` is followed up to `0`; `none` when the fuel does not
suffice. -/
def chainFrom (m : Bytes) : (fuel offset : ℕ) → Option (List ℕ)
  | 0, _ => none
  | fuel + 1, offset =>
    if offset = 0 then some []
    else (chainFrom m fuel (word m (offset + 8))).map (offset :: ·)

theorem Linked.chainFrom {m : Bytes} {k fuel : ℕ} {gs : List Generated} (h : Linked m k gs)
    (hpos : ∀ g ∈ gs, 0 < g.offset) (hfuel : gs.length < fuel) :
    chainFrom m fuel (headOffset gs) = some (gs.map (·.offset)) := by
  induction gs generalizing k fuel with
  | nil =>
    obtain ⟨fuel, rfl⟩ := Nat.exists_eq_succ_of_ne_zero (Nat.ne_of_gt hfuel)
    rw [SharedList.chainFrom, headOffset, if_pos rfl, List.map_nil]
  | cons g gs ih =>
    obtain ⟨fuel, rfl⟩ := Nat.exists_eq_succ_of_ne_zero (Nat.ne_of_gt (Nat.zero_lt_of_lt hfuel))
    have hrest := ih h.2 (fun g' hg' => hpos g' (List.mem_cons_of_mem _ hg'))
      (Nat.lt_of_succ_lt_succ hfuel)
    rw [SharedList.chainFrom, headOffset, if_neg (hpos g List.mem_cons_self).ne', h.1.next, hrest,
      Option.map_some, List.map_cons]

/-- The layout, at one moment. -/
structure LayoutLaw (v : Version) (st : State) : Prop where
  /-- The chain from `first_block_offset` ends in `0` and meets the blocks in their order. -/
  chain : ∀ fuel, st.generated.length < fuel →
    chainFrom st.mem.bytes fuel (word st.mem.bytes v.firstBlockOffset) =
      some (st.generated.map (·.offset))
  increasing : (st.generated.map (·.offset)).Pairwise (· < ·)
  /-- The blocks, each as long as it was created, fill the region up to `free_offset`. -/
  tiles : Tiles v.headerSize st.generated (word st.mem.bytes v.freeOffset)
  free_le : word st.mem.bytes v.freeOffset ≤ shmSize
  /-- Every access so far lies in the header or in a linked block. -/
  accesses : st.mem.Within {a | a < shmSize ∧
    (a < v.headerSize ∨ ∃ g ∈ st.generated, g.offset ≤ a ∧ a < g.offset + g.size)}
  blocks : st.generated.length ≤ 113
  /-- A walk over the list ends. -/
  walks : ∀ fuel, 113 < fuel → ((findUnprocessed v fuel).run st.mem).1 ≠ none
  /-- The generation loop leaves less than one block unused. -/
  ended : st.producer ≠ .generating → done v st.mem.bytes = 1 ∧
    shmSize - word st.mem.bytes v.freeOffset < sizeofBlock + 15 * 4

theorem State.Inv.layoutLaw {st : State} (h : st.Inv v rand) : LayoutLaw v st := by
  have hrepr := h.represents
  have hfields := v.fields
  have hfree : word st.mem.bytes v.freeOffset ≤ 4096 := hrepr.free_le
  have hlength := h.length_le
  have hpos : ∀ g ∈ st.generated, 0 < g.offset := fun g hg => by
    have := (hrepr.tiles.mem hg).1
    omega
  constructor
  case chain =>
    intro fuel hfuel
    rw [hrepr.first]
    exact hrepr.linked.chainFrom hpos hfuel
  case increasing => exact hrepr.tiles.pairwise
  case tiles => exact hrepr.tiles
  case free_le => exact hrepr.free_le
  case accesses =>
    refine h.within.mono fun a ha => ?_
    have ha : a < word st.mem.bytes v.freeOffset := ha
    refine ⟨lt_of_lt_of_le ha hrepr.free_le, ?_⟩
    rcases Nat.lt_or_ge a v.headerSize with hlt | hge
    · exact Or.inl hlt
    · exact Or.inr (hrepr.tiles.cover hge ha)
  case blocks => exact hlength
  case walks =>
    intro fuel hfuel
    obtain ⟨-, -, hsome, -⟩ := findUnprocessed_spec fuel hrepr h.within
    exact hsome (by omega)
  case ended =>
    intro hne
    obtain ⟨hdone, hfull⟩ := h.stopped hne
    have hsize : shmSize = 4096 := rfl
    have h16 : sizeofBlock = 16 := rfl
    exact ⟨hdone, by omega⟩

/-! ## The generation loop ends -/

/-- The passes of the producer through `run_generation_loop` in a schedule. -/
def passes (as : List Action) : ℕ := as.count .generate

theorem passes_concat (as : List Action) (a : Action) :
    passes (as ++ [a]) = passes as + if a = .generate then 1 else 0 := by
  rw [passes, List.count_append, List.count_singleton]
  simp [passes]

/-- The passes a state accounts for: one for each block, and one that ended the loop. -/
def State.passes (st : State) : ℕ :=
  st.generated.length + if st.producer = .generating then 0 else 1

theorem State.passes_step {st st' : State} {a : Action} (hs : step v rand fuel st a = some st') :
    st'.passes = st.passes + if a = .generate then 1 else 0 := by
  unfold State.passes
  cases a with
  | generate =>
    rw [step] at hs
    split at hs
    · rename_i hgen
      obtain rfl := Option.some.inj hs
      generalize (runGenerationLoop v rand st.draws st.lastBlockOffset).run st.mem = out
      obtain ⟨r, mem⟩ := out
      cases r with
      | none => simp [State.generate, hgen]
      | some g => simp [State.generate, hgen]
    · cases hs
  | check =>
    rw [step] at hs
    split at hs
    · rename_i hwait
      obtain ⟨hgenerated, hne⟩ := State.frame_check hs
      rw [hgenerated, if_neg hne, hwait]
      rfl
    · cases hs
  | consume consumer =>
    rw [step] at hs
    split at hs
    · cases hs
    · obtain ⟨hgenerated, hproducer⟩ := State.frame_consume hs
      rw [hgenerated, hproducer]
      rfl

/-- While the loop runs, each pass has generated a block. -/
theorem passes_of_run {stale : Bytes} {as : List Action} {st : State}
    (h : runFrom (step v rand fuel) (.init v stale) as = some st) : passes as = st.passes := by
  refine runFrom_induction (P := fun as st => passes as = st.passes) rfl
    (fun as st a st' _ ih hs => ?_) h
  rw [passes_concat, ih, State.passes_step hs]

/-- **The layout of the segment**, in every state of every run of the two programs; the generation
loop makes at most 114 passes. -/
theorem layout {stale : Bytes} {as : List Action} {st : State}
    (h : runFrom (step v rand fuel) (.init v stale) as = some st) :
    LayoutLaw v st ∧ passes as ≤ 114 ∧
      (st.producer = .generating →
        passes as ≤ 113 ∧ ∃ st', step v rand fuel st .generate = some st') := by
  have hlayout := (State.inv_of_run h).layoutLaw
  have hblocks := hlayout.blocks
  have hpasses := passes_of_run h
  rw [State.passes] at hpasses
  refine ⟨hlayout, ?_, fun hgen => ⟨?_, _, State.step_generate hgen⟩⟩
  · split at hpasses <;> omega
  · rw [if_pos hgen] at hpasses
    omega

theorem layout_sample : ∃ st, runFrom (step .task05 (fun k => 7 * k) 114)
    (.init .task05 fun _ => 0) [.generate] = some st ∧ st.generated.length = 1 ∧
      LayoutLaw .task05 st ∧ passes [.generate] ≤ 114 ∧
        (st.producer = .generating → passes [.generate] ≤ 113 ∧
          ∃ st', step .task05 (fun k => 7 * k) 114 st .generate = some st') := by
  have hinit := State.inv_init .task05 (fun k => 7 * k) fun _ => 0
  have hblock := hinit.generate_room (by rw [← hinit.represents.tiles]; decide)
  have hrun : runFrom (step .task05 (fun k => 7 * k) 114) (.init .task05 fun _ => 0)
      [.generate] = some _ := (runFrom_singleton ..).trans (State.step_generate rfl)
  exact ⟨_, hrun, hblock, layout hrun⟩

end EltexPractice.SharedList
