import EltexPractice.SharedList.Ledger

/-!
# The two versions agree

The versions of task 4 and task 5 differ in the size of their headers. So on one stream of `rand`
their ledgers are the same up to a shift of all offsets, until the block that fits behind the
smaller header only; a block is longer than the difference of the headers, so there is at most one
such block (`versions_agree`).
-/

namespace EltexPractice.SharedList

variable {rand : ℕ → ℕ} {fuel d : ℕ}

/-! ## Shifts -/

/-- The block at an offset that is greater by `d`. -/
def Generated.shift (d : ℕ) (g : Generated) : Generated := { g with offset := g.offset + d }

/-- The report about this block. -/
def Report.shift (d : ℕ) (r : Report) : Report := { r with offset := r.offset + d }

theorem reportOf_shift (consumer d : ℕ) (g : Generated) :
    reportOf consumer (g.shift d) = (reportOf consumer g).shift d := rfl

namespace Cursor

def shift (d : ℕ) (c : Cursor) : Cursor := { c with offset := c.offset + d }

theorem block_shift (rand : ℕ → ℕ) (d : ℕ) (c : Cursor) :
    (c.shift d).block rand = (c.block rand).shift d := rfl

theorem next_shift (rand : ℕ → ℕ) (d : ℕ) (c : Cursor) :
    (c.next rand).shift d = (c.shift d).next rand := by
  unfold next shift
  rw [Cursor.mk.injEq]
  exact ⟨rfl, Nat.add_right_comm _ _ _⟩

theorem iterate_next_shift (rand : ℕ → ℕ) (d k : ℕ) (c : Cursor) :
    (next rand)^[k] (c.shift d) = ((next rand)^[k] c).shift d :=
  (Function.Semiconj.iterate_right (next_shift rand d) k c).symm

/-- The sequence of the blocks is shifted. -/
theorem blocks_shift (rand : ℕ → ℕ) (d : ℕ) (c : Cursor) (k : ℕ) :
    blocks rand (c.shift d) k = (blocks rand c k).map (Generated.shift d) := by
  unfold blocks
  rw [List.map_map]
  apply List.map_congr_left
  intro i _
  rw [Function.comp_apply, iterate_next_shift, block_shift]

/-- A shift by less than a block costs at most one of the blocks that fit. -/
theorem length_shift {c : Cursor} {m n : ℕ} (hd : d < 36)
    (hm : ((next rand)^[m] c).offset ≤ shmSize)
    (hm' : shmSize < ((next rand)^[m + 1] c).offset)
    (hn : ((next rand)^[n] c).offset + d ≤ shmSize)
    (hn' : shmSize < ((next rand)^[n + 1] c).offset + d) : n = m ∨ m = n + 1 := by
  have hmono := monotone_offset rand c
  have hblock : ((next rand)^[n + 1] c).offset + 36 ≤ ((next rand)^[n + 2] c).offset := by
    rw [Function.iterate_succ_apply' _ (n + 1)]
    exact offset_lt_next rand _
  have hle : n ≤ m := by
    by_contra hlt
    have hend := hmono (show m + 1 ≤ n by omega)
    dsimp only at hend
    omega
  have hge : m ≤ n + 1 := by
    by_contra hlt
    have hend := hmono (show n + 2 ≤ m by omega)
    dsimp only at hend
    omega
  omega

end Cursor

/-! ## Two ledgers -/

namespace Ledger

/-- The ledger with all offsets greater by `d`. -/
def shift (d : ℕ) (l : Ledger) : Ledger :=
  { l with
    cursor := l.cursor.shift d
    generated := l.generated.map (Generated.shift d)
    reports := l.reports.map (Report.shift d) }

theorem check_shift (d : ℕ) (l : Ledger) : (l.shift d).check = l.check.shift d := by
  unfold check shift
  simp only [List.length_map]

theorem consume_shift (d consumer : ℕ) (l : Ledger) :
    (l.shift d).consume consumer = (l.consume consumer).shift d := by
  have hfound : (l.shift d).generated[(l.shift d).reports.length]? =
      l.generated[l.reports.length]?.map (Generated.shift d) := by
    unfold shift
    simp only [List.length_map, List.getElem?_map]
  unfold consume
  rw [hfound]
  cases l.generated[l.reports.length]? with
  | none =>
    change ite (l.producer = .generating) _ _ = shift d (ite (l.producer = .generating) _ _)
    split <;> rfl
  | some g =>
    unfold shift
    simp only [Option.map_some, List.map_append, List.map_cons, List.map_nil, reportOf_shift]

/-- The producer appends the shifted block, when it fits in both places or in none. -/
theorem generate_shift {l : Ledger}
    (h : shmSize < (l.cursor.next rand).offset + d → shmSize < (l.cursor.next rand).offset) :
    (l.shift d).generate rand = (l.generate rand).shift d := by
  have hoffset : ((l.shift d).cursor.next rand).offset = (l.cursor.next rand).offset + d :=
    congrArg Cursor.offset (Cursor.next_shift rand d l.cursor).symm
  unfold generate
  rw [hoffset]
  by_cases hfull : shmSize < (l.cursor.next rand).offset
  · rw [if_pos hfull, if_pos (by omega)]
    rfl
  · rw [if_neg hfull, if_neg (mt h hfull)]
    unfold shift
    simp only [List.map_append, List.map_cons, List.map_nil, Cursor.next_shift, Cursor.block_shift]

/-- After its loop the producer appends nothing. -/
theorem step_of_stopped {l l' : Ledger} {a : Action} (h : l.producer ≠ .generating)
    (hs : step rand l a = some l') :
    l'.producer ≠ .generating ∧ l'.generated = l.generated := by
  cases a with
  | generate => exact absurd (generate_of_step hs).1 h
  | check =>
    obtain ⟨-, rfl⟩ := check_of_step hs
    exact ⟨l.producer_check_ne, rfl⟩
  | consume consumer =>
    obtain ⟨-, rfl⟩ := consume_of_step hs
    obtain ⟨hgenerated, -, hproducer⟩ := l.frame_consume consumer
    exact ⟨by rwa [hproducer], hgenerated⟩

theorem length_le_step {l l' : Ledger} {a : Action} (hs : step rand l a = some l') :
    l.generated.length ≤ l'.generated.length := by
  cases a with
  | generate =>
    obtain ⟨-, rfl⟩ := generate_of_step hs
    unfold generate
    split
    · exact le_rfl
    · rw [List.length_append]
      exact Nat.le_add_right _ _
  | check =>
    obtain ⟨-, rfl⟩ := check_of_step hs
    exact le_rfl
  | consume consumer =>
    obtain ⟨-, rfl⟩ := consume_of_step hs
    rw [(l.frame_consume consumer).1]

/-- The second ledger is the shifted first one, or its producer has stopped at a block that the
first one has. -/
def Lockstep (d : ℕ) (l l' : Ledger) : Prop :=
  l' = l.shift d ∨ l'.producer ≠ .generating ∧ l'.generated.length < l.generated.length

/-- Equal steps keep the ledgers in lockstep. -/
theorem Lockstep.step {l l' m m' : Ledger} {a : Action} (h : Lockstep d l l')
    (hs : Ledger.step rand l a = some m) (hs' : Ledger.step rand l' a = some m') :
    Lockstep d m m' := by
  rcases h with rfl | ⟨hstopped, hlt⟩
  · cases a with
    | generate =>
      obtain ⟨-, rfl⟩ := generate_of_step hs
      obtain ⟨-, rfl⟩ := generate_of_step hs'
      by_cases hsame : shmSize < (l.cursor.next rand).offset + d →
          shmSize < (l.cursor.next rand).offset
      · exact Or.inl (generate_shift hsame)
      · -- the block fits behind the smaller header only
        rw [Classical.not_imp] at hsame
        have hfull : shmSize < ((l.shift d).cursor.next rand).offset :=
          lt_of_lt_of_eq hsame.1 (congrArg Cursor.offset (Cursor.next_shift rand d l.cursor))
        unfold generate
        rw [if_pos hfull, if_neg hsame.2]
        refine Or.inr ⟨nofun, ?_⟩
        simp [shift]
    | check =>
      obtain ⟨-, rfl⟩ := check_of_step hs
      obtain ⟨-, rfl⟩ := check_of_step hs'
      exact Or.inl (check_shift d l)
    | consume consumer =>
      obtain ⟨-, rfl⟩ := consume_of_step hs
      obtain ⟨-, rfl⟩ := consume_of_step hs'
      exact Or.inl (consume_shift d consumer l)
  · obtain ⟨hstopped', hgenerated⟩ := step_of_stopped hstopped hs'
    have hle := length_le_step hs
    rw [← hgenerated] at hlt
    exact Or.inr ⟨hstopped', hlt.trans_le hle⟩

/-- The same actions are possible. -/
theorem isSome_step_shift (rand : ℕ → ℕ) (d : ℕ) (l : Ledger) (a : Action) :
    (step rand (l.shift d) a).isSome = (step rand l a).isSome := by
  have hproducer : (l.shift d).producer = l.producer := rfl
  have hleft : (l.shift d).left = l.left := rfl
  cases a with
  | generate =>
    rw [step, step, hproducer]
    split <;> rfl
  | check =>
    rw [step, step, hproducer]
    split <;> rfl
  | consume consumer =>
    rw [step, step, hleft]
    split <;> rfl

end Ledger

/-! ## Two runs -/

/-- With enough fuel the ledger tells which sections are possible. -/
theorem State.Inv.isSome_step {v : Version} {st : State} (h : st.Inv v rand) (hfuel : 113 < fuel)
    (a : Action) : (SharedList.step v rand fuel st a).isSome =
      (Ledger.step rand (st.ledger v) a).isSome := by
  rw [Bool.eq_iff_iff, Option.isSome_iff_exists, Option.isSome_iff_exists]
  constructor
  · rintro ⟨st', hs⟩
    exact ⟨_, h.refines hs⟩
  · rintro ⟨l, hl⟩
    obtain ⟨st', hs, -⟩ := h.realizes (h.length_le.trans_lt hfuel) hl
    exact ⟨st', hs⟩

/-- The difference of the header sizes. -/
def headerDifference : ℕ := Version.task05.headerSize - Version.task04.headerSize

section

variable {l l' : Ledger}

theorem start_shift : (⟨0, Version.task05.headerSize⟩ : Cursor) =
    Cursor.shift headerDifference ⟨0, Version.task04.headerSize⟩ := rfl

/-- Blocks with one number are the same. -/
theorem Ledger.Inv.eq_shift (h : l.Inv .task04 rand) (h' : l'.Inv .task05 rand) {i : ℕ}
    {g g' : Generated} (hg : l.generated[i]? = some g) (hg' : l'.generated[i]? = some g') :
    g' = g.shift headerDifference := by
  rw [h.generated] at hg
  rw [h'.generated, start_shift] at hg'
  rw [Cursor.eq_block_of_getElem? hg, Cursor.eq_block_of_getElem? hg', Cursor.iterate_next_shift,
    Cursor.block_shift]

/-- When both producers have stopped, task 5 lacks the last block at most. -/
theorem Ledger.Inv.generated_shift (h : l.Inv .task04 rand) (h' : l'.Inv .task05 rand)
    (hne : l.producer ≠ .generating) (hne' : l'.producer ≠ .generating) :
    l'.generated = l.generated.map (Generated.shift headerDifference) ∨
      ∃ gs last, l.generated = gs ++ [last] ∧
        l'.generated = gs.map (Generated.shift headerDifference) := by
  have hfits := h'.fits
  have hfull := h'.full hne'
  have hgs := h.generated
  have hgs' := h'.generated
  rw [start_shift, Cursor.iterate_next_shift] at hfits hfull
  rw [start_shift, Cursor.blocks_shift] at hgs'
  rcases Cursor.length_shift (by decide) h.fits (h.full hne) hfits hfull with heq | hlt
  · rw [heq, ← hgs] at hgs'
    exact Or.inl hgs'
  · rw [hlt, Cursor.blocks_succ] at hgs
    exact Or.inr ⟨_, _, hgs, hgs'⟩

end

/-- How a state of task 5 is related to a state of task 4, when both programs draw from one stream
of `rand`; `as₄` and `as₅` are the schedules that lead to the states. -/
structure VersionsAgree (rand : ℕ → ℕ) (fuel : ℕ) (as₄ as₅ : List Action) (st₄ st₅ : State) :
    Prop where
  /-- The `i`-th blocks are the same up to the difference of the header sizes. -/
  blocks : ∀ (i : ℕ) (g₄ g₅ : Generated), st₄.generated[i]? = some g₄ →
    st₅.generated[i]? = some g₅ → g₅ = g₄.shift headerDifference
  /-- At the ends of the generation loops the blocks of task 5 are those of task 4, or those of
  task 4 without the last one. -/
  ended : st₄.producer ≠ .generating → st₅.producer ≠ .generating →
    st₅.generated = st₄.generated.map (Generated.shift headerDifference) ∨
      ∃ gs last, st₄.generated = gs ++ [last] ∧
        st₅.generated = gs.map (Generated.shift headerDifference)
  /-- The `i`-th reports are about the same elements. -/
  reports : ∀ (i : ℕ) (r₄ r₅ : Report), st₄.reports[i]? = some r₄ → st₅.reports[i]? = some r₅ →
    r₅ = { r₄.shift headerDifference with consumer := r₅.consumer }
  /-- Under one schedule, while the sequences of the blocks agree, so do the reports of the
  consumers, and the programs are at the same point. -/
  lockstep : as₄ = as₅ → st₅.generated = st₄.generated.map (Generated.shift headerDifference) →
    st₅.reports = st₄.reports.map (Report.shift headerDifference) ∧
      st₅.producer = st₄.producer ∧ st₅.left = st₄.left ∧
      (113 < fuel → ∀ a, (step .task05 rand fuel st₅ a).isSome =
        (step .task04 rand fuel st₄ a).isSome)

/-- **The two versions agree**: any two runs on one stream of `rand`. -/
theorem versions_agree {stale₄ stale₅ : Bytes} {as₄ as₅ : List Action} {st₄ st₅ : State}
    (h₄ : runFrom (step .task04 rand fuel) (.init .task04 stale₄) as₄ = some st₄)
    (h₅ : runFrom (step .task05 rand fuel) (.init .task05 stale₅) as₅ = some st₅) :
    VersionsAgree rand fuel as₄ as₅ st₄ st₅ := by
  have hinv₄ := State.inv_of_run h₄
  have hinv₅ := State.inv_of_run h₅
  have hl₄ := ledger_of_run h₄
  have hl₅ := ledger_of_run h₅
  have hseq₄ := Ledger.inv_of_run hl₄
  have hseq₅ := Ledger.inv_of_run hl₅
  constructor
  case blocks => exact fun i g₄ g₅ hg₄ hg₅ => hseq₄.eq_shift hseq₅ hg₄ hg₅
  case ended => exact fun hne₄ hne₅ => hseq₄.generated_shift hseq₅ hne₄ hne₅
  case reports =>
    intro i r₄ r₅ hr₄ hr₅
    obtain ⟨g₄, hg₄, heq₄⟩ := hinv₄.reported i r₄ hr₄
    obtain ⟨g₅, hg₅, heq₅⟩ := hinv₅.reported i r₅ hr₅
    rw [hseq₄.eq_shift hseq₅ hg₄ hg₅, reportOf_shift] at heq₅
    rw [heq₄, heq₅]
    rfl
  case lockstep =>
    rintro rfl hagree
    have hinit : Ledger.Lockstep headerDifference (Ledger.init .task04) (Ledger.init .task05) :=
      Or.inl rfl
    have hlockstep : Ledger.Lockstep headerDifference (State.ledger .task04 st₄)
        (State.ledger .task05 st₅) := by
      refine runFrom_relation ?_ hinit hl₄ hl₅
      intro l l' a m m' h hs hs'
      exact h.step hs hs'
    rcases hlockstep with heq | ⟨-, hlt⟩
    · refine ⟨congrArg Ledger.reports heq, congrArg Ledger.producer heq,
        congrArg Ledger.left heq, fun hfuel a => ?_⟩
      rw [hinv₅.isSome_step hfuel, hinv₄.isSome_step hfuel, heq, Ledger.isSome_step_shift]
    · have hlt : st₅.generated.length < st₄.generated.length := hlt
      rw [hagree, List.length_map] at hlt
      exact absurd hlt (lt_irrefl _)

/-- Blocks of five elements, which leave four bytes behind the smaller header: task 5 generates one
block less. -/
theorem versions_agree_zero : ∃ st₄ st₅,
    runFrom (step .task04 (fun _ => 0) 114) (.init .task04 fun _ => 0)
      (List.replicate 114 .generate) = some st₄ ∧
    runFrom (step .task05 (fun _ => 0) 114) (.init .task05 fun _ => 1)
      (List.replicate 113 .generate) = some st₅ ∧
    st₄.generated.length = 113 ∧ st₅.generated.length = 112 ∧
    VersionsAgree (fun _ => 0) 114 (List.replicate 114 .generate) (List.replicate 113 .generate)
      st₄ st₅ := by
  have hrun₄ : (runFrom (Ledger.step fun _ => 0) (Ledger.init .task04)
      (List.replicate 114 .generate)).map (·.generated.length) = some 113 := by decide +kernel
  have hrun₅ : (runFrom (Ledger.step fun _ => 0) (Ledger.init .task05)
      (List.replicate 113 .generate)).map (·.generated.length) = some 112 := by decide +kernel
  obtain ⟨l₄, hl₄, hlength₄⟩ := Option.map_eq_some_iff.1 hrun₄
  obtain ⟨l₅, hl₅, hlength₅⟩ := Option.map_eq_some_iff.1 hrun₅
  obtain ⟨st₄, h₄, rfl⟩ := (run_iff_ledger (show 113 < 114 by decide) fun _ => 0).2 hl₄
  obtain ⟨st₅, h₅, rfl⟩ := (run_iff_ledger (show 113 < 114 by decide) fun _ => 1).2 hl₅
  exact ⟨st₄, st₅, h₄, h₅, hlength₄, hlength₅, versions_agree h₄ h₅⟩

end EltexPractice.SharedList
