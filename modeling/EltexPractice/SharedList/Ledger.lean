import EltexPractice.SharedList.System
import Mathlib.Order.Monotone.Basic

/-!
# The ledger

What the producer and the consumers do, without the segment: a ledger keeps the blocks, the
reports, and a cursor, the number of calls of `rand` and the end of the blocks. The blocks are the
first ones of an unlimited sequence that `rand` alone determines (`Cursor.blocks`), and the reports
follow them in order. The system on the segment refines the ledger: every step of it is a step of
the ledger (`State.Inv.refines`), and every step of the ledger is a step of it when the walks have
enough fuel (`State.Inv.realizes`).
-/

namespace EltexPractice.SharedList

variable {v : Version} {rand : ℕ → ℕ} {fuel : ℕ}

/-! ## The sequence of the blocks -/

/-- Where the producer is between two blocks: the calls of `rand` so far and the end of the
blocks. -/
structure Cursor where
  draws : ℕ
  offset : ℕ
  deriving DecidableEq

namespace Cursor

/-- The block the producer draws next. -/
def block (rand : ℕ → ℕ) (c : Cursor) : Generated where
  offset := c.offset
  count := 5 + rand c.draws % 11
  elements := draw (fun i => rand (c.draws + 1 + i)) (5 + rand c.draws % 11) 0

/-- The cursor behind this block. -/
def next (rand : ℕ → ℕ) (c : Cursor) : Cursor where
  draws := c.draws + 1 + (c.block rand).count
  offset := c.offset + (c.block rand).size

/-- The first `k` blocks. -/
def blocks (rand : ℕ → ℕ) (c : Cursor) (k : ℕ) : List Generated :=
  (List.range k).map fun i => ((next rand)^[i] c).block rand

theorem blocks_succ (rand : ℕ → ℕ) (c : Cursor) (k : ℕ) :
    blocks rand c (k + 1) = blocks rand c k ++ [((next rand)^[k] c).block rand] := by
  rw [blocks, List.range_succ, List.map_append]
  rfl

theorem eq_block_of_getElem? {c : Cursor} {k i : ℕ} {g : Generated}
    (h : (blocks rand c k)[i]? = some g) : g = ((next rand)^[i] c).block rand := by
  rw [blocks, List.getElem?_map, Option.map_eq_some_iff] at h
  obtain ⟨j, hj, rfl⟩ := h
  obtain ⟨hlt, rfl⟩ := List.getElem?_eq_some_iff.1 hj
  rw [List.getElem_range]

theorem offset_next (rand : ℕ → ℕ) (c : Cursor) :
    (c.next rand).offset = c.offset + (16 + 4 * (5 + rand c.draws % 11)) := rfl

/-- A block takes at least 36 bytes. -/
theorem offset_lt_next (rand : ℕ → ℕ) (c : Cursor) : c.offset + 36 ≤ (c.next rand).offset := by
  rw [offset_next]
  omega

theorem monotone_offset (rand : ℕ → ℕ) (c : Cursor) :
    Monotone fun k => ((next rand)^[k] c).offset := by
  apply monotone_nat_of_le_succ
  intro k
  rw [Function.iterate_succ_apply']
  exact (Nat.le_add_right _ 36).trans (offset_lt_next rand _)

end Cursor

/-! ## The ledger -/

structure Ledger where
  producer : Producer
  cursor : Cursor
  generated : List Generated
  reports : List Report
  left : List ℕ

namespace Ledger

/-- After `init_producer_ipc`. -/
def init (v : Version) : Ledger where
  producer := .generating
  cursor := ⟨0, v.headerSize⟩
  generated := []
  reports := []
  left := []

/-- The producer appends the block it draws next, or stops because the block does not fit. -/
def generate (rand : ℕ → ℕ) (l : Ledger) : Ledger :=
  if shmSize < (l.cursor.next rand).offset then
    { l with producer := .waiting, cursor := { l.cursor with draws := l.cursor.draws + 1 } }
  else
    { l with
      cursor := l.cursor.next rand
      generated := l.generated ++ [l.cursor.block rand] }

/-- The producer leaves when every block has been reported. -/
def check (l : Ledger) : Ledger :=
  { l with producer := if l.reports.length = l.generated.length then .finished else .waiting }

/-- A consumer reports the first block without a report; without one it leaves when the producer has
stopped. -/
def consume (l : Ledger) (consumer : ℕ) : Ledger :=
  match l.generated[l.reports.length]? with
  | some g => { l with reports := l.reports ++ [reportOf consumer g] }
  | none => if l.producer = .generating then l else { l with left := consumer :: l.left }

/-- One critical section. -/
def step (rand : ℕ → ℕ) (l : Ledger) : Action → Option Ledger
  | .generate => if l.producer = .generating then some (l.generate rand) else none
  | .check => if l.producer = .waiting then some l.check else none
  | .consume consumer => if consumer ∈ l.left then none else some (l.consume consumer)

section

variable {l l' : Ledger} {consumer : ℕ}

theorem generate_of_step (hs : step rand l .generate = some l') :
    l.producer = .generating ∧ l' = l.generate rand := by
  obtain ⟨hgen, hs⟩ := Option.ite_none_right_eq_some.1 hs
  exact ⟨hgen, (Option.some.inj hs).symm⟩

theorem check_of_step (hs : step rand l .check = some l') :
    l.producer = .waiting ∧ l' = l.check := by
  obtain ⟨hwait, hs⟩ := Option.ite_none_right_eq_some.1 hs
  exact ⟨hwait, (Option.some.inj hs).symm⟩

theorem consume_of_step (hs : step rand l (.consume consumer) = some l') :
    consumer ∉ l.left ∧ l' = l.consume consumer := by
  obtain ⟨hc, hs⟩ := Option.ite_none_left_eq_some.1 hs
  exact ⟨hc, (Option.some.inj hs).symm⟩

end

/-- The blocks of a ledger are the first ones of the sequence, as many as fit. -/
structure Inv (v : Version) (rand : ℕ → ℕ) (l : Ledger) : Prop where
  generated : l.generated = Cursor.blocks rand ⟨0, v.headerSize⟩ l.generated.length
  cursor : l.producer = .generating →
    l.cursor = (Cursor.next rand)^[l.generated.length] ⟨0, v.headerSize⟩
  fits : ((Cursor.next rand)^[l.generated.length] ⟨0, v.headerSize⟩).offset ≤ shmSize
  full : l.producer ≠ .generating →
    shmSize < ((Cursor.next rand)^[l.generated.length + 1] ⟨0, v.headerSize⟩).offset

theorem inv_init (v : Version) (rand : ℕ → ℕ) : (init v).Inv v rand where
  generated := rfl
  cursor _ := rfl
  fits := by
    have hfields := v.fields
    change v.headerSize ≤ 4096
    omega
  full h := absurd rfl h

theorem Inv.generate {l : Ledger} (h : l.Inv v rand) (hgen : l.producer = .generating) :
    (l.generate rand).Inv v rand := by
  have hcursor := h.cursor hgen
  have hnext : l.cursor.next rand =
      (Cursor.next rand)^[l.generated.length + 1] ⟨0, v.headerSize⟩ := by
    rw [Function.iterate_succ_apply', ← hcursor]
  unfold Ledger.generate
  split
  · rename_i hfull
    rw [hnext] at hfull
    exact { h with cursor := nofun, full := fun _ => hfull }
  · rename_i hfits
    have hlength : (l.generated ++ [l.cursor.block rand]).length = l.generated.length + 1 :=
      List.length_append
    refine ⟨?_, fun _ => ?_, ?_, fun hne => absurd hgen hne⟩
    · rw [hlength, Cursor.blocks_succ, ← h.generated, ← hcursor]
    · rw [hlength, hnext]
    · rw [hlength, ← hnext]
      exact Nat.not_lt.1 hfits

/-- What the other parties change keeps the blocks. -/
theorem Inv.frame {l l' : Ledger} (h : l.Inv v rand) (hgenerated : l'.generated = l.generated)
    (hcursor : l'.cursor = l.cursor)
    (hproducer : l'.producer = .generating ↔ l.producer = .generating) : l'.Inv v rand where
  generated := by rw [hgenerated]; exact h.generated
  cursor hgen := by rw [hgenerated, hcursor]; exact h.cursor (hproducer.1 hgen)
  fits := by rw [hgenerated]; exact h.fits
  full hne := by rw [hgenerated]; exact h.full (mt hproducer.2 hne)

theorem frame_consume (l : Ledger) (consumer : ℕ) :
    (l.consume consumer).generated = l.generated ∧ (l.consume consumer).cursor = l.cursor ∧
      (l.consume consumer).producer = l.producer := by
  unfold consume
  split
  · exact ⟨rfl, rfl, rfl⟩
  · split <;> exact ⟨rfl, rfl, rfl⟩

theorem producer_check_ne (l : Ledger) : l.check.producer ≠ .generating := by
  unfold check
  split <;> nofun

theorem Inv.step {l l' : Ledger} {a : Action} (h : l.Inv v rand)
    (hs : Ledger.step rand l a = some l') : l'.Inv v rand := by
  cases a with
  | generate =>
    obtain ⟨hgen, rfl⟩ := generate_of_step hs
    exact h.generate hgen
  | check =>
    obtain ⟨hwait, rfl⟩ := check_of_step hs
    have hne : l.producer ≠ .generating := by
      rw [hwait]
      nofun
    exact h.frame rfl rfl (iff_of_false l.producer_check_ne hne)
  | consume consumer =>
    obtain ⟨-, rfl⟩ := consume_of_step hs
    obtain ⟨hgenerated, hcursor, hproducer⟩ := l.frame_consume consumer
    exact h.frame hgenerated hcursor (by rw [hproducer])

theorem inv_of_run {as : List Action} {l : Ledger}
    (h : runFrom (Ledger.step rand) (init v) as = some l) : l.Inv v rand :=
  runFrom_invariant (fun _ _ _ h hs => h.step hs) (inv_init v rand) h

end Ledger

/-! ## The refinement -/

/-- The ledger of a state. -/
def State.ledger (v : Version) (st : State) : Ledger where
  producer := st.producer
  cursor := ⟨st.draws, word st.mem.bytes v.freeOffset⟩
  generated := st.generated
  reports := st.reports
  left := st.left

theorem State.ledger_init (v : Version) (stale : Bytes) :
    (State.init v stale).ledger v = Ledger.init v := by
  have hfree := (State.inv_init v id stale).represents.tiles
  rw [State.ledger, ← hfree]
  rfl

/-- A section that keeps the list keeps `free_offset`. -/
theorem Represents.free_eq {m m' : Bytes} {k k' : ℕ} {gs : List Generated}
    (h : Represents v m k gs) (h' : Represents v m' k' gs) :
    word m' v.freeOffset = word m v.freeOffset :=
  h'.tiles.unique h.tiles

theorem State.Inv.ledger_generate {st : State} (h : st.Inv v rand) :
    (st.generate ((runGenerationLoop v rand st.draws st.lastBlockOffset).run st.mem)).ledger v =
      (st.ledger v).generate rand := by
  have hnone := runGenerationLoop_eq_none rand st.draws st.lastBlockOffset h.represents h.within
  obtain ⟨-, hspec⟩ := runGenerationLoop_spec rand st.draws h.represents h.within h.last
  generalize (runGenerationLoop v rand st.draws st.lastBlockOffset).run st.mem = out at *
  obtain ⟨r, mem⟩ := out
  unfold Ledger.generate
  cases r with
  | none =>
    have hfull : shmSize < ((st.ledger v).cursor.next rand).offset := hnone.1 rfl
    have hfree : word mem.bytes v.freeOffset = word st.mem.bytes v.freeOffset :=
      h.represents.free_eq hspec.1
    rw [if_pos hfull, State.generate, State.ledger, hfree]
    rfl
  | some g =>
    have hfits : ¬ shmSize < ((st.ledger v).cursor.next rand).offset :=
      fun hfull => Option.some_ne_none g (hnone.2 hfull)
    obtain ⟨hrepr, -, hcount, helements⟩ := hspec
    obtain ⟨htiles, hend⟩ := hrepr.tiles.of_concat
    have hoff := htiles.unique h.represents.tiles
    have hblock : g = (st.ledger v).cursor.block rand := by
      obtain ⟨offset, count, elements⟩ := g
      obtain rfl : count = 5 + rand st.draws % 11 := hcount
      rw [Cursor.block, Generated.mk.injEq]
      exact ⟨hoff, rfl, helements⟩
    rw [if_neg hfits, State.generate, State.ledger, ← hend, hoff, hblock]
    rfl

theorem State.Inv.ledger_check {st st' : State} (h : st.Inv v rand)
    (hs : st.check ((waitForProcessing v fuel).run st.mem) = some st') :
    st'.ledger v = (st.ledger v).check := by
  obtain ⟨hbytes, -, -, hall⟩ := waitForProcessing_spec fuel h.represents h.within
  generalize (waitForProcessing v fuel).run st.mem = out at *
  obtain ⟨r, mem⟩ := out
  cases r with
  | none => cases hs
  | some all =>
    obtain rfl := Option.some.inj hs
    have hbytes : mem.bytes = st.mem.bytes := hbytes
    have hall : (if all then Producer.finished else .waiting) =
        if st.reports.length = st.generated.length then .finished else .waiting :=
      if_congr (hall all rfl) rfl rfl
    rw [State.ledger, hbytes, hall]
    rfl

theorem State.Inv.ledger_consume {st st' : State} (h : st.Inv v rand) (consumer : ℕ)
    (hs : st.consume consumer ((runConsumerLoop v fuel consumer).run st.mem) = some st') :
    st'.ledger v = (st.ledger v).consume consumer := by
  obtain ⟨-, -, hfree, -, hpass⟩ := runConsumerLoop_spec fuel consumer h.represents h.within
  generalize (runConsumerLoop v fuel consumer).run st.mem = out at *
  obtain ⟨r, mem⟩ := out
  have hfree : word mem.bytes v.freeOffset = word st.mem.bytes v.freeOffset := hfree
  have hnone : st.reports.length = st.generated.length →
      (st.ledger v).generated[(st.ledger v).reports.length]? = none := fun hk => by
    rw [List.getElem?_eq_none_iff]
    exact hk.ge
  unfold Ledger.consume
  cases r with
  | none => cases hs
  | some pass =>
    have hpass := hpass pass rfl
    cases pass with
    | processed r =>
      obtain rfl := Option.some.inj hs
      obtain ⟨g, hg, rfl, -⟩ := hpass
      have hg : (st.ledger v).generated[(st.ledger v).reports.length]? = some g := hg
      rw [hg, State.ledger, hfree]
      rfl
    | waits =>
      obtain rfl := Option.some.inj hs
      obtain ⟨hk, hdone, -⟩ := hpass
      have hgen : st.producer = .generating := by
        by_contra hne
        exact absurd ((h.stopped hne).1.symm.trans hdone) Nat.one_ne_zero
      rw [hnone hk]
      change _ = ite (st.producer = .generating) _ _
      rw [if_pos hgen, State.ledger, hfree]
      rfl
    | leaves =>
      obtain rfl := Option.some.inj hs
      obtain ⟨hk, hdone, -⟩ := hpass
      have hne : st.producer ≠ .generating := fun hgen => hdone (h.running hgen)
      rw [hnone hk]
      change _ = ite (st.producer = .generating) _ _
      rw [if_neg hne, State.ledger, hfree]
      rfl

/-- Every critical section is a step of the ledger. -/
theorem State.Inv.refines {st st' : State} {a : Action} (h : st.Inv v rand)
    (hs : SharedList.step v rand fuel st a = some st') :
    Ledger.step rand (st.ledger v) a = some (st'.ledger v) := by
  cases a with
  | generate =>
    obtain ⟨hgen, hs⟩ := Option.ite_none_right_eq_some.1 hs
    obtain rfl := Option.some.inj hs
    rw [h.ledger_generate]
    exact if_pos hgen
  | check =>
    obtain ⟨hwait, hs⟩ := Option.ite_none_right_eq_some.1 hs
    rw [h.ledger_check hs]
    exact if_pos hwait
  | consume consumer =>
    obtain ⟨hc, hs⟩ := Option.ite_none_left_eq_some.1 hs
    rw [h.ledger_consume consumer hs]
    exact if_neg hc

/-- With enough fuel every step of the ledger is a critical section. -/
theorem State.Inv.realizes {st : State} {a : Action} {l : Ledger} (h : st.Inv v rand)
    (hfuel : st.generated.length < fuel) (hl : Ledger.step rand (st.ledger v) a = some l) :
    ∃ st', SharedList.step v rand fuel st a = some st' ∧ st'.ledger v = l := by
  have hstep : ∃ st', SharedList.step v rand fuel st a = some st' := by
    cases a with
    | generate =>
      obtain ⟨hgen, -⟩ := Ledger.generate_of_step hl
      exact ⟨_, State.step_generate hgen⟩
    | check =>
      obtain ⟨hwait, -⟩ := Ledger.check_of_step hl
      obtain ⟨-, -, hsome, -⟩ := waitForProcessing_spec fuel h.represents h.within
      have hwait : st.producer = .waiting := hwait
      rw [SharedList.step, if_pos hwait]
      generalize (waitForProcessing v fuel).run st.mem = out at *
      obtain ⟨r, mem⟩ := out
      cases r with
      | none => exact absurd rfl (hsome hfuel)
      | some all => exact ⟨_, rfl⟩
    | consume consumer =>
      obtain ⟨hc, -⟩ := Ledger.consume_of_step hl
      obtain ⟨st', hs, -⟩ := h.consume_possible fuel hc hfuel
      exact ⟨st', hs⟩
  obtain ⟨st', hs⟩ := hstep
  exact ⟨st', hs, Option.some.inj ((h.refines hs).symm.trans hl)⟩

theorem ledger_of_run {stale : Bytes} {as : List Action} {st : State}
    (h : runFrom (step v rand fuel) (.init v stale) as = some st) :
    runFrom (Ledger.step rand) (Ledger.init v) as = some (st.ledger v) := by
  rw [← State.ledger_init v stale]
  exact runFrom_map (f := State.ledger v) (I := State.Inv v rand)
    (fun _ _ _ h hs => h.step hs) (fun _ _ _ h hs => h.refines hs) (State.inv_init v rand stale) h

/-- **The ledger is refined**: with enough fuel the runs of the program are those of the ledger. -/
theorem run_iff_ledger (hfuel : 113 < fuel) (stale : Bytes) {as : List Action} {l : Ledger} :
    (∃ st, runFrom (step v rand fuel) (.init v stale) as = some st ∧ st.ledger v = l) ↔
      runFrom (Ledger.step rand) (Ledger.init v) as = some l := by
  constructor
  · rintro ⟨st, hst, rfl⟩
    exact ledger_of_run hst
  · rw [← State.ledger_init v stale]
    exact exists_runFrom_of_map (I := State.Inv v rand) (fun _ _ _ h hs => h.step hs)
      (fun st _ _ h hl => h.realizes (h.length_le.trans_lt hfuel) hl)
      (State.inv_init v rand stale)

end EltexPractice.SharedList
