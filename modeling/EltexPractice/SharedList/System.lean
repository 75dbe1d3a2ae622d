import EltexPractice.Foundations.Entries
import EltexPractice.Foundations.Schedule
import EltexPractice.SharedList.Consumer
import EltexPractice.SharedList.Producer

/-!
# Producer and consumers

The producer and any number of consumers around one segment. An action is one critical section, so
a schedule is an order in which the semaphore is taken. `State.Inv` says what the segment holds at
every moment: the blocks generated so far, of which as many are processed as reports have been
printed, the `k`-th report about the `k`-th block.
-/

namespace EltexPractice.SharedList

/-- Where the producer is: in `run_generation_loop`, in `wait_for_processing`, or behind it. -/
inductive Producer
  | generating
  | waiting
  | finished
  deriving DecidableEq

structure State where
  mem : Mem
  producer : Producer
  /-- The calls of `rand` so far. -/
  draws : ℕ
  lastBlockOffset : ℕ
  /-- The blocks the producer has printed. -/
  generated : List Generated
  /-- What the consumers have printed, in the order of their sections. -/
  reports : List Report
  /-- The consumers that have left their loop. -/
  left : List ℕ

inductive Action
  /-- The producer takes the semaphore in `run_generation_loop`. -/
  | generate
  /-- The producer takes the semaphore in `wait_for_processing`. -/
  | check
  /-- A consumer takes the semaphore. -/
  | consume (consumer : ℕ)
  deriving DecidableEq

/-- After `init_producer_ipc` on a segment that held `stale`. -/
def State.init (v : Version) (stale : Bytes) : State where
  mem := ((initProducerIpc v).run ⟨stale, []⟩).2
  producer := .generating
  draws := 0
  lastBlockOffset := 0
  generated := []
  reports := []
  left := []

/-- The producer is in its loop after a section that returned `out`. -/
def State.generate (st : State) (out : Option Generated × Mem) : State :=
  match out with
  | (none, mem) => { st with mem, producer := .waiting, draws := st.draws + 1 }
  | (some g, mem) =>
    { st with
      mem
      draws := st.draws + 1 + g.count
      lastBlockOffset := g.offset
      generated := st.generated ++ [g] }

/-- The producer waits after a section that returned `out`, without a result when the fuel did not
suffice. -/
def State.check (st : State) (out : Option Bool × Mem) : Option State :=
  match out with
  | (none, _) => none
  | (some all, mem) => some { st with mem, producer := if all then .finished else .waiting }

/-- A consumer after a section that returned `out`. -/
def State.consume (st : State) (consumer : ℕ) (out : Option Pass × Mem) : Option State :=
  match out with
  | (none, _) => none
  | (some (.processed r), mem) => some { st with mem, reports := st.reports ++ [r] }
  | (some .waits, mem) => some { st with mem }
  | (some .leaves, mem) => some { st with mem, left := consumer :: st.left }

/-- The blocks and the place of the producer are the producer's own. -/
theorem State.frame_consume {st st' : State} {consumer : ℕ} {out : Option Pass × Mem}
    (hs : st.consume consumer out = some st') :
    st'.generated = st.generated ∧ st'.producer = st.producer := by
  obtain ⟨r, mem⟩ := out
  cases r with
  | none => cases hs
  | some pass =>
    cases pass with
    | processed r =>
      obtain rfl := Option.some.inj hs
      exact ⟨rfl, rfl⟩
    | waits =>
      obtain rfl := Option.some.inj hs
      exact ⟨rfl, rfl⟩
    | leaves =>
      obtain rfl := Option.some.inj hs
      exact ⟨rfl, rfl⟩

theorem State.frame_check {st st' : State} {out : Option Bool × Mem}
    (hs : st.check out = some st') :
    st'.generated = st.generated ∧ st'.producer ≠ .generating := by
  obtain ⟨r, mem⟩ := out
  cases r with
  | none => cases hs
  | some all =>
    obtain rfl := Option.some.inj hs
    refine ⟨rfl, ?_⟩
    cases all <;> nofun

/-- One critical section. -/
def step (v : Version) (rand : ℕ → ℕ) (fuel : ℕ) (st : State) : Action → Option State
  | .generate =>
    if st.producer = .generating then
      some (st.generate ((runGenerationLoop v rand st.draws st.lastBlockOffset).run st.mem))
    else none
  | .check =>
    if st.producer = .waiting then st.check ((waitForProcessing v fuel).run st.mem) else none
  | .consume consumer =>
    if consumer ∈ st.left then none
    else st.consume consumer ((runConsumerLoop v fuel consumer).run st.mem)

/-! ## The invariant -/

/-- What holds between two critical sections. -/
structure State.Inv (v : Version) (rand : ℕ → ℕ) (st : State) : Prop where
  represents : Represents v st.mem.bytes st.reports.length st.generated
  within : st.mem.Within {i | i < word st.mem.bytes v.freeOffset}
  last : ∀ g ∈ st.generated.getLast?, g.offset = st.lastBlockOffset
  written : ∀ g ∈ st.generated, ∃ d, g.count = 5 + rand d % 11 ∧
    g.elements = draw (fun i => rand (d + 1 + i)) g.count 0
  reported : ∀ (i : ℕ) (r : Report), st.reports[i]? = some r →
    ∃ g, st.generated[i]? = some g ∧ r = reportOf r.consumer g
  stopped : st.producer ≠ .generating →
    done v st.mem.bytes = 1 ∧ shmSize < word st.mem.bytes v.freeOffset + 76
  running : st.producer = .generating → done v st.mem.bytes = 0
  left : st.left ≠ [] ∨ st.producer = .finished →
    st.producer ≠ .generating ∧ st.reports.length = st.generated.length

variable {v : Version} {rand : ℕ → ℕ} {fuel : ℕ}

theorem State.inv_init (v : Version) (rand : ℕ → ℕ) (stale : Bytes) :
    (State.init v stale).Inv v rand := by
  have hempty : (⟨stale, []⟩ : Mem).Within {i | i < v.headerSize} := nofun
  obtain ⟨hrepr, hdone, hwithin⟩ := initProducerIpc_spec v hempty
  exact {
    represents := hrepr
    within := hwithin
    last := nofun
    written := nofun
    reported := nofun
    stopped := fun h => absurd rfl h
    running := fun _ => hdone
    left := fun h => h.elim (fun h => absurd rfl h) nofun }

theorem State.Inv.generate {st : State} (h : st.Inv v rand) (hgen : st.producer = .generating) :
    (st.generate ((runGenerationLoop v rand st.draws st.lastBlockOffset).run st.mem)).Inv v
      rand := by
  obtain ⟨hwithin, hspec⟩ := runGenerationLoop_spec rand st.draws
    h.represents h.within h.last
  generalize (runGenerationLoop v rand st.draws st.lastBlockOffset).run st.mem = out at *
  obtain ⟨r, mem⟩ := out
  have hleft : st.left = [] := by
    by_contra hne
    exact (h.left (Or.inl hne)).1 hgen
  cases r with
  | none =>
    obtain ⟨hrepr, hdone, hfull⟩ := hspec
    exact { h with
      represents := hrepr
      within := hwithin
      stopped := fun _ => ⟨hdone, hfull⟩
      running := nofun
      left := fun hl => by
        rcases hl with hl | hl
        · exact absurd hleft hl
        · cases hl }
  | some g =>
    obtain ⟨hrepr, hdone, hcount, helements⟩ := hspec
    refine {
      represents := hrepr
      within := hwithin
      last := fun g' hg' => ?_
      written := fun g' hg' => ?_
      reported := fun i r hr => ?_
      stopped := fun hne => absurd hgen hne
      running := fun _ => hdone.trans (h.running hgen)
      left := fun hl => ?_ }
    · obtain rfl : g = g' := by simpa [State.generate] using hg'
      rfl
    · rcases List.mem_append.1 hg' with hg' | hg'
      · exact h.written g' hg'
      · obtain rfl := List.mem_singleton.1 hg'
        exact ⟨st.draws, hcount, helements⟩
    · obtain ⟨g', hg', hr⟩ := h.reported i r hr
      have hlt := (List.getElem?_eq_some_iff.1 hg').1
      exact ⟨g', (List.getElem?_append_left hlt).trans hg', hr⟩
    · rcases hl with hl | hl
      · exact absurd hleft hl
      · rw [State.generate, hgen] at hl
        cases hl

/-- The producer's look at the list. -/
theorem State.Inv.check {st st' : State} (h : st.Inv v rand) (hwait : st.producer = .waiting)
    (hs : st.check ((waitForProcessing v fuel).run st.mem) = some st') : st'.Inv v rand := by
  obtain ⟨hbytes, hwithin, -, hall⟩ := waitForProcessing_spec fuel h.represents h.within
  generalize (waitForProcessing v fuel).run st.mem = out at *
  obtain ⟨r, mem⟩ := out
  cases r with
  | none => cases hs
  | some all =>
    obtain rfl := Option.some.inj hs
    have hbytes : mem.bytes = st.mem.bytes := hbytes
    have hne : (if all then Producer.finished else .waiting) ≠ .generating := by
      split <;> nofun
    refine { h with
      represents := by rw [hbytes]; exact h.represents
      within := by rw [hbytes]; exact hwithin
      stopped := fun _ => ?_
      running := fun hgen => absurd hgen hne
      left := fun hl => ⟨hne, ?_⟩ }
    · rw [hbytes]
      exact h.stopped (by rw [hwait]; nofun)
    · rcases hl with hl | hl
      · exact (h.left (Or.inl hl)).2
      · refine (hall all rfl).1 ?_
        by_contra hfalse
        rw [if_neg hfalse] at hl
        cases hl

/-- A pass of a consumer. -/
theorem State.Inv.consume {st st' : State} (h : st.Inv v rand) (consumer : ℕ)
    (hs : st.consume consumer ((runConsumerLoop v fuel consumer).run st.mem) = some st') :
    st'.Inv v rand := by
  obtain ⟨hwithin, hdone, hfree, -, hpass⟩ :=
    runConsumerLoop_spec fuel consumer h.represents h.within
  generalize (runConsumerLoop v fuel consumer).run st.mem = out at *
  obtain ⟨r, mem⟩ := out
  cases r with
  | none => cases hs
  | some pass =>
    have hpass := hpass pass rfl
    cases pass with
    | processed r =>
      obtain rfl := Option.some.inj hs
      obtain ⟨g, hg, rfl, hrepr⟩ := hpass
      have hlt := (List.getElem?_eq_some_iff.1 hg).1
      refine { h with
        represents := by simpa using hrepr
        within := hwithin
        reported := fun i r hr => ?_
        stopped := fun hne => ?_
        running := fun hgen => hdone.trans (h.running hgen)
        left := fun hl => absurd (h.left hl).2 hlt.ne }
      · rcases cases_of_getElem?_concat hr with hr | ⟨rfl, rfl⟩
        · exact h.reported i r hr
        · exact ⟨g, hg, rfl⟩
      · rw [hdone, hfree]
        exact h.stopped hne
    | waits =>
      obtain rfl := Option.some.inj hs
      have hbytes : mem.bytes = st.mem.bytes := hpass.2.2
      refine { h with
        represents := by rw [hbytes]; exact h.represents
        within := hwithin
        stopped := by rw [hbytes]; exact h.stopped
        running := by rw [hbytes]; exact h.running }
    | leaves =>
      obtain rfl := Option.some.inj hs
      obtain ⟨hk, hset, hbytes⟩ := hpass
      have hbytes : mem.bytes = st.mem.bytes := hbytes
      have hne : st.producer ≠ .generating := fun hgen => hset (h.running hgen)
      refine { h with
        represents := by rw [hbytes]; exact h.represents
        within := hwithin
        stopped := by rw [hbytes]; exact h.stopped
        running := by rw [hbytes]; exact h.running
        left := fun _ => ⟨hne, hk⟩ }

theorem State.Inv.step {st st' : State} {a : Action} (h : st.Inv v rand)
    (hs : SharedList.step v rand fuel st a = some st') : st'.Inv v rand := by
  cases a with
  | generate =>
    rw [SharedList.step] at hs
    split at hs
    · rename_i hgen
      obtain rfl := Option.some.inj hs
      exact h.generate hgen
    · cases hs
  | check =>
    rw [SharedList.step] at hs
    split at hs
    · rename_i hwait
      exact h.check hwait hs
    · cases hs
  | consume consumer =>
    rw [SharedList.step] at hs
    split at hs
    · cases hs
    · exact h.consume consumer hs

theorem State.inv_of_run {stale : Bytes} {as : List Action} {st : State}
    (h : runFrom (SharedList.step v rand fuel) (.init v stale) as = some st) : st.Inv v rand :=
  runFrom_invariant (fun _ _ _ h hs => h.step hs) (State.inv_init v rand stale) h

/-- The segment has room for 113 blocks. -/
theorem State.Inv.length_le {st : State} (h : st.Inv v rand) : st.generated.length ≤ 113 := by
  have hfields := v.fields
  have hfree : word st.mem.bytes v.freeOffset ≤ 4096 := h.represents.free_le
  have hlength := h.represents.tiles.length_le fun g hg => (h.represents.counts g hg).1
  omega

/-! ## Progress -/

theorem State.step_generate {st : State} (hgen : st.producer = .generating) :
    step v rand fuel st .generate =
      some (st.generate ((runGenerationLoop v rand st.draws st.lastBlockOffset).run st.mem)) :=
  if_pos hgen

/-- While a block of any size fits, a pass of the producer appends one. -/
theorem State.Inv.generate_room {st : State} (h : st.Inv v rand)
    (hroom : word st.mem.bytes v.freeOffset + 76 ≤ shmSize) :
    (st.generate ((runGenerationLoop v rand st.draws st.lastBlockOffset).run
      st.mem)).generated.length = st.generated.length + 1 := by
  obtain ⟨-, hspec⟩ := runGenerationLoop_spec rand st.draws
    h.represents h.within h.last
  generalize (runGenerationLoop v rand st.draws st.lastBlockOffset).run st.mem = out at *
  obtain ⟨r, mem⟩ := out
  cases r with
  | none =>
    obtain ⟨hrepr, -, hfull⟩ := hspec
    rw [← h.represents.tiles.unique hrepr.tiles] at hfull
    omega
  | some g => simp [State.generate]

/-- A consumer that has not left can pass, and it reports a block if there is one to report. -/
theorem State.Inv.consume_possible {st : State} (h : st.Inv v rand) (fuel : ℕ) {consumer : ℕ}
    (hc : consumer ∉ st.left) (hfuel : st.generated.length < fuel) :
    ∃ st', SharedList.step v rand fuel st (.consume consumer) = some st' ∧
      (st.reports.length < st.generated.length →
        st'.reports.length = st.reports.length + 1) := by
  obtain ⟨-, -, -, hsome, hpass⟩ :=
    runConsumerLoop_spec fuel consumer h.represents h.within
  rw [SharedList.step, if_neg hc]
  generalize (runConsumerLoop v fuel consumer).run st.mem = out at *
  obtain ⟨r, mem⟩ := out
  cases r with
  | none => exact absurd rfl (hsome hfuel)
  | some pass =>
    have hpass := hpass pass rfl
    cases pass with
    | processed r => exact ⟨_, rfl, fun _ => by simp⟩
    | waits => exact ⟨_, rfl, fun hlt => absurd hpass.1 hlt.ne⟩
    | leaves => exact ⟨_, rfl, fun hlt => absurd hpass.1 hlt.ne⟩

end EltexPractice.SharedList
