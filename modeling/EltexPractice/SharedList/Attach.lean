import EltexPractice.Foundations.Namespace
import EltexPractice.Foundations.Schedule
import EltexPractice.SharedList.Model

/-!
# Attaching to a session of the producer

The names of the shared memory and of the semaphore, and the system calls of `init_producer_ipc`,
`cleanup_producer_ipc` and `connect_consumer_ipc` that use them, in tasks 4 and 5. A producer is
started when the last one has ended or has been killed, at any of its calls; the consumers run
beside it. An object is known by the number of the run of `init_producer_ipc` that has created it.

A consumer looks up the memory and the semaphore in two calls. `attached_iff`: what it has attached
comes from one run exactly if the producers have not removed a memory and then created a semaphore
between the two.

The calls on the semaphore around the header have no effect on the names and are left out, and so
are `shmdt`, `munmap` and `close`. The arguments `ok` say whether a call succeeds.
-/

namespace EltexPractice.SharedList.Session

/-! ## The names -/

/-- What has a name: by the key of `ftok`, or `SHM_NAME` and `SEM_NAME`. -/
inductive Resource
  | memory
  | semaphore
  deriving DecidableEq

/-- What a producer has done to a name. -/
inductive Change
  | removed (r : Resource)
  | created (r : Resource)
  deriving DecidableEq

/-- What a system call of the producer does. -/
inductive Effect
  | keep
  | remove (r : Resource)
  | create (r : Resource)
  /-- `ftruncate` -/
  | resize

/-- Where the producer stands: the next of its system calls. -/
inductive ProducerPc
  /-- `shmget(key, SHM_SIZE, 0666)` -/
  | findMemory
  /-- `shmctl(old_shmid, IPC_RMID, NULL)`, `shm_unlink(SHM_NAME)` -/
  | removeMemory
  /-- `semget(key, 1, 0666)` -/
  | findSemaphore
  /-- `semctl(old_semid, 0, IPC_RMID)`, `sem_unlink(SEM_NAME)` -/
  | removeSemaphore
  /-- `shmget` with `IPC_CREAT`, `shm_open` with `O_CREAT` -/
  | createMemory
  /-- `ftruncate` -/
  | sizeMemory
  /-- `shmat`, `mmap` -/
  | mapMemory
  /-- `semget` with `IPC_CREAT`, `sem_open` with `O_CREAT` -/
  | createSemaphore
  /-- `semctl(*semid, 0, SETVAL, arg)` -/
  | setValue
  /-- `semctl(*semid, 0, IPC_RMID)` after a failure -/
  | undoSemaphore
  /-- `shmctl(*shmid, IPC_RMID, NULL)` after a failure -/
  | undoMemory
  /-- `init_producer_ipc` has returned -/
  | returned (status : ℤ)
  /-- the removal of the memory in `cleanup_producer_ipc` -/
  | cleanupMemory
  | ended
  deriving DecidableEq

/-- The names, the sizes of the memories, the producer, and what the producers have done so far. -/
structure Ipc where
  names : Namespace Resource ℕ
  size : ℕ → ℕ
  run : ℕ
  producer : ProducerPc
  log : List Change

namespace Ipc

def init : Ipc := ⟨fun _ => none, fun _ => 0, 0, .ended, []⟩

/-- The size of a memory that has just been created. -/
def createdSize : Version → ℕ
  | .task04 => shmSize
  | .task05 => 0

/-- A name that is free cannot be removed, and a name that is not free is not created again. -/
def apply (v : Version) (s : Ipc) : Effect → Ipc
  | .keep => s
  | .remove r =>
    match s.names r with
    | none => s
    | some _ => { s with names := s.names.unlink r, log := s.log ++ [.removed r] }
  | .create r =>
    match s.names r with
    | some _ => s
    | none =>
      { s with
        names := s.names.create r s.run
        size := if r = .memory then Function.update s.size s.run (createdSize v) else s.size
        log := s.log ++ [.created r] }
  | .resize => { s with size := Function.update s.size s.run shmSize }

/-- The next call of `init_producer_ipc`. -/
def initProducerIpc (v : Version) (ok : Bool) (s : Ipc) : Option (Effect × ProducerPc) :=
  match v, s.producer with
  | .task04, .findMemory =>
    some (.keep, if (s.names .memory).isSome then .removeMemory else .findSemaphore)
  | .task04, .removeMemory => some (.remove .memory, .findSemaphore)
  | .task04, .findSemaphore =>
    some (.keep, if (s.names .semaphore).isSome then .removeSemaphore else .createMemory)
  | .task04, .removeSemaphore => some (.remove .semaphore, .createMemory)
  | .task04, .createMemory =>
    some (if ok then (.create .memory, .mapMemory) else (.keep, .returned (-1)))
  | .task04, .mapMemory => some (.keep, if ok then .createSemaphore else .undoMemory)
  | .task04, .createSemaphore =>
    some (if ok then (.create .semaphore, .setValue) else (.keep, .undoMemory))
  | .task04, .setValue => some (.keep, if ok then .returned 0 else .undoSemaphore)
  | .task04, .undoSemaphore => some (.remove .semaphore, .undoMemory)
  | .task04, .undoMemory => some (.remove .memory, .returned (-1))
  | .task05, .removeMemory => some (.remove .memory, .removeSemaphore)
  | .task05, .removeSemaphore => some (.remove .semaphore, .createMemory)
  | .task05, .createMemory =>
    some (if ok then (.create .memory, .sizeMemory) else (.keep, .returned (-1)))
  | .task05, .sizeMemory => some (if ok then (.resize, .mapMemory) else (.keep, .returned (-1)))
  | .task05, .mapMemory => some (.keep, if ok then .createSemaphore else .returned (-1))
  | .task05, .createSemaphore =>
    some (if ok then (.create .semaphore, .returned 0) else (.keep, .returned (-1)))
  | _, _ => none

/-- The removals of `cleanup_producer_ipc`. -/
def cleanupProducerIpc (s : Ipc) : Option (Effect × ProducerPc) :=
  match s.producer with
  | .returned 0 => some (.remove .semaphore, .cleanupMemory)
  | .cleanupMemory => some (.remove .memory, .ended)
  | _ => none

/-- The first call of `init_producer_ipc`. -/
def firstCall : Version → ProducerPc
  | .task04 => .findMemory
  | .task05 => .removeMemory

/-- The next call of the producer. -/
def step (v : Version) (s : Ipc) (ok : Bool) : Option Ipc :=
  ((initProducerIpc v ok s).orElse fun _ => cleanupProducerIpc s).map fun (effect, pc) =>
    { s.apply v effect with producer := pc }

/-- A new producer is started. -/
def restart (v : Version) (s : Ipc) : Ipc :=
  { s with run := s.run + 1, producer := firstCall v }

end Ipc

/-! ## The consumers -/

/-- Where `connect_consumer_ipc` stands: the next of its system calls. -/
inductive ConsumerPc
  /-- `shmget`, `shm_open` -/
  | findMemory
  /-- `fstat` -/
  | statMemory
  /-- `shmat`, `mmap` -/
  | mapMemory
  /-- `semget`, `sem_open` -/
  | findSemaphore
  | returned (status : ℤ)
  deriving DecidableEq

/-- A consumer with the memory and the semaphore it has looked up. `seen` is what the producers had
done at the first lookup, `between` what they did from there to the second one. -/
structure Consumer where
  pc : ConsumerPc
  memory : Option ℕ
  shmSize : ℕ
  semaphore : Option ℕ
  seen : ℕ
  between : List Change

namespace Consumer

def init : Consumer := ⟨.findMemory, none, 0, none, 0, []⟩

/-- The next call of `connect_consumer_ipc`. -/
def connectConsumerIpc (v : Version) (s : Ipc) (ok : Bool) (P : Consumer) : Option Consumer :=
  match P.pc with
  | .findMemory =>
    match ok, s.names .memory with
    | true, some k =>
      some { P with
        pc := match v with
          | .task04 => .mapMemory
          | .task05 => .statMemory
        memory := some k
        seen := s.log.length }
    | _, _ => some { P with pc := .returned (-1) }
  | .statMemory =>
    match ok, P.memory with
    | true, some k => some { P with pc := .mapMemory, shmSize := s.size k }
    | _, _ => some { P with pc := .returned (-1) }
  | .mapMemory =>
    -- a mapping of no bytes is refused by `mmap`
    if ok && (v = .task04 || P.shmSize ≠ 0) then some { P with pc := .findSemaphore }
    else some { P with pc := .returned (-1) }
  | .findSemaphore =>
    match ok, s.names .semaphore with
    | true, some j =>
      some { P with pc := .returned 0, semaphore := some j, between := s.log.drop P.seen }
    | _, _ => some { P with pc := .returned (-1) }
  | .returned _ => none

end Consumer

/-- The producer and the consumers. -/
structure State where
  ipc : Ipc
  consumer : ℕ → Consumer

/-- Who does the next call. -/
inductive Action
  | restart
  | producer (ok : Bool)
  | consumer (c : ℕ) (ok : Bool)

namespace State

def init : State := ⟨.init, fun _ => .init⟩

def step (v : Version) (s : State) : Action → Option State
  | .restart => some { s with ipc := s.ipc.restart v }
  | .producer ok => (s.ipc.step v ok).map fun ipc => { s with ipc := ipc }
  | .consumer c ok =>
    ((s.consumer c).connectConsumerIpc v s.ipc ok).map fun P =>
      { s with consumer := Function.update s.consumer c P }

end State

/-! ## What a producer can do to the names -/

/-- How far `init_producer_ipc` has come: the old memory (0) and the old semaphore (1) are still to
be removed, the memory (2) and the semaphore (3) to be created; it creates nothing more (4), and
what it may have to undo is undone (5). -/
def ProducerPc.stage : ProducerPc → ℕ
  | .findMemory => 0
  | .removeMemory => 0
  | .findSemaphore => 1
  | .removeSemaphore => 1
  | .createMemory => 2
  | .sizeMemory => 3
  | .mapMemory => 3
  | .createSemaphore => 3
  | .setValue => 4
  | .undoSemaphore => 4
  | .undoMemory => 4
  | .returned _ => 5
  | .cleanupMemory => 5
  | .ended => 5

/-- What the names of the session are at a stage of the run. -/
structure Stands (names : Namespace Resource ℕ) (run stage : ℕ) : Prop where
  old : stage ≤ 1 → ∀ r k, names r = some k → k < run
  new : 2 ≤ stage → ∀ r k, names r = some k → k = run
  noMemory : stage = 1 ∨ stage = 2 → names .memory = none
  noSemaphore : stage = 2 ∨ stage = 3 → names .semaphore = none
  agree : ∀ k j, names .memory = some k → names .semaphore = some j → j = k

/-- A call of the producer of the run takes the names from one stage to another. -/
inductive Evolves (names : Namespace Resource ℕ) (run stage : ℕ) :
    Namespace Resource ℕ → ℕ → List Change → Prop
  | keep {n : ℕ} (hle : stage ≤ n) (hn : n = stage ∨ 2 ≤ stage ∧ 4 ≤ n) :
      Evolves names run stage names n []
  | memoryFree (hstage : stage = 0) (hfree : names .memory = none) :
      Evolves names run stage names 1 []
  | semaphoreFree (hstage : stage = 1) (hfree : names .semaphore = none) :
      Evolves names run stage names 2 []
  | removeMemory {k n : ℕ} (hk : names .memory = some k)
      (hn : stage = 0 ∧ n = 1 ∨ 4 ≤ stage ∧ n = 5) :
      Evolves names run stage (names.unlink .memory) n [.removed .memory]
  | removeSemaphore {j n : ℕ} (hj : names .semaphore = some j)
      (hn : stage = 1 ∧ n = 2 ∨ 4 ≤ stage ∧ stage ≤ n) :
      Evolves names run stage (names.unlink .semaphore) n [.removed .semaphore]
  | createMemory (hstage : stage = 2) (hfree : names .memory = none) :
      Evolves names run stage (names.create .memory run) 3 [.created .memory]
  | createSemaphore {n : ℕ} (hstage : stage = 3) (hfree : names .semaphore = none) (hn : 4 ≤ n) :
      Evolves names run stage (names.create .semaphore run) n [.created .semaphore]

namespace Ipc

variable {v : Version} {s s' : Ipc}

/-- The names and the stage of the producer. -/
def Stands (s : Ipc) : Prop := Session.Stands s.names s.run s.producer.stage

/-- What is done to the names between two states. -/
def Evolves (s s' : Ipc) : Prop :=
  ∃ changes, Session.Evolves s.names s.run s.producer.stage s'.names s'.producer.stage changes ∧
    s'.run = s.run ∧ s'.log = s.log ++ changes

theorem Evolves.goto {pc : ProducerPc} (hle : s.producer.stage ≤ pc.stage)
    (hpc : pc.stage = s.producer.stage ∨ 2 ≤ s.producer.stage ∧ 4 ≤ pc.stage) :
    s.Evolves { s.apply v .keep with producer := pc } :=
  ⟨[], .keep hle hpc, rfl, (List.append_nil _).symm⟩

theorem Evolves.resize {pc : ProducerPc} (hpc : pc.stage = s.producer.stage) :
    s.Evolves { s.apply v .resize with producer := pc } :=
  ⟨[], .keep hpc.ge (Or.inl hpc), rfl, (List.append_nil _).symm⟩

theorem Evolves.removeMemory {pc : ProducerPc}
    (hpc : s.producer.stage = 0 ∧ pc.stage = 1 ∨ 4 ≤ s.producer.stage ∧ pc.stage = 5)
    (hle : s.producer.stage ≤ pc.stage) :
    s.Evolves { s.apply v (.remove .memory) with producer := pc } := by
  cases hk : s.names .memory with
  | none =>
    simp only [apply, hk]
    refine ⟨[], ?_, rfl, (List.append_nil _).symm⟩
    rcases hpc with ⟨h₀, h₁⟩ | ⟨h₄, h₅⟩
    · simp only [h₁]
      exact .memoryFree h₀ hk
    · have hn : 2 ≤ s.producer.stage ∧ 4 ≤ pc.stage := by omega
      exact .keep hle (Or.inr hn)
  | some k =>
    simp only [apply, hk]
    exact ⟨[.removed .memory], .removeMemory hk hpc, rfl, rfl⟩

theorem Evolves.removeSemaphore {pc : ProducerPc}
    (hpc : s.producer.stage = 1 ∧ pc.stage = 2 ∨ 4 ≤ s.producer.stage ∧
      s.producer.stage ≤ pc.stage) :
    s.Evolves { s.apply v (.remove .semaphore) with producer := pc } := by
  cases hj : s.names .semaphore with
  | none =>
    simp only [apply, hj]
    refine ⟨[], ?_, rfl, (List.append_nil _).symm⟩
    rcases hpc with ⟨h₁, h₂⟩ | ⟨h₄, hle⟩
    · simp only [h₂]
      exact .semaphoreFree h₁ hj
    · have hn : 2 ≤ s.producer.stage ∧ 4 ≤ pc.stage := by omega
      exact .keep hle (Or.inr hn)
  | some j =>
    simp only [apply, hj]
    exact ⟨[.removed .semaphore], .removeSemaphore hj hpc, rfl, rfl⟩

theorem Evolves.createMemory {pc : ProducerPc} (hs : s.Stands) (h₂ : s.producer.stage = 2)
    (h₃ : pc.stage = 3) : s.Evolves { s.apply v (.create .memory) with producer := pc } := by
  have hfree := hs.noMemory (Or.inr h₂)
  simp only [apply, hfree]
  refine ⟨[.created .memory], ?_, rfl, rfl⟩
  simp only [h₃]
  exact .createMemory h₂ hfree

theorem Evolves.createSemaphore {pc : ProducerPc} (hs : s.Stands) (h₃ : s.producer.stage = 3)
    (h₄ : 4 ≤ pc.stage) : s.Evolves { s.apply v (.create .semaphore) with producer := pc } := by
  have hfree := hs.noSemaphore (Or.inr h₃)
  simp only [apply, hfree]
  exact ⟨[.created .semaphore], .createSemaphore h₃ hfree h₄, rfl, rfl⟩

/-- A lookup of the old memory or semaphore. -/
theorem Evolves.find {pc : ProducerPc} (hpc : pc.stage = s.producer.stage ∨
      (s.producer.stage = 0 ∧ pc.stage = 1 ∧ s.names .memory = none) ∨
      (s.producer.stage = 1 ∧ pc.stage = 2 ∧ s.names .semaphore = none)) :
    s.Evolves { s.apply v .keep with producer := pc } := by
  refine ⟨[], ?_, rfl, (List.append_nil _).symm⟩
  rcases hpc with h | ⟨h₀, h₁, hfree⟩ | ⟨h₁, h₂, hfree⟩
  · exact .keep h.ge (Or.inl h)
  · simp only [h₁]
    exact .memoryFree h₀ hfree
  · simp only [h₂]
    exact .semaphoreFree h₁ hfree

theorem Stands.evolves_init {ok : Bool} {effect : Effect} {pc : ProducerPc} (hs : s.Stands)
    (h : s.initProducerIpc v ok = some (effect, pc)) :
    s.Evolves { s.apply v effect with producer := pc } := by
  have hstage : ∀ {p}, s.producer = p → s.producer.stage = p.stage := fun h => by rw [h]
  cases v <;> cases hpc : s.producer <;> have hst := hstage hpc <;>
    simp only [initProducerIpc, hpc, Option.some.injEq, reduceCtorEq] at h
  case task04.findMemory =>
    obtain ⟨rfl, rfl⟩ := Prod.mk.inj h
    cases hk : s.names .memory with
    | none => exact .find (Or.inr (Or.inl ⟨hst, rfl, hk⟩))
    | some k => exact .find (Or.inl hst.symm)
  case task04.findSemaphore =>
    obtain ⟨rfl, rfl⟩ := Prod.mk.inj h
    cases hj : s.names .semaphore with
    | none => exact .find (Or.inr (Or.inr ⟨hst, rfl, hj⟩))
    | some j => exact .find (Or.inl hst.symm)
  case task04.removeMemory | task05.removeMemory =>
    obtain ⟨rfl, rfl⟩ := Prod.mk.inj h
    exact .removeMemory (Or.inl ⟨hst, rfl⟩) (hst.trans_le (by decide))
  case task04.removeSemaphore | task05.removeSemaphore =>
    obtain ⟨rfl, rfl⟩ := Prod.mk.inj h
    exact .removeSemaphore (Or.inl ⟨hst, rfl⟩)
  case task04.undoSemaphore =>
    obtain ⟨rfl, rfl⟩ := Prod.mk.inj h
    exact .removeSemaphore (Or.inr ⟨hst.ge, hst.le⟩)
  case task04.undoMemory =>
    obtain ⟨rfl, rfl⟩ := Prod.mk.inj h
    exact .removeMemory (Or.inr ⟨hst.ge, rfl⟩) (hst.trans_le (by decide))
  -- the calls that may fail
  all_goals cases ok <;> obtain ⟨rfl, rfl⟩ := Prod.mk.inj h
  case task04.createMemory.true | task05.createMemory.true => exact .createMemory hs hst rfl
  case task04.createSemaphore.true | task05.createSemaphore.true =>
    exact .createSemaphore hs hst (by decide)
  case task05.sizeMemory.true => exact .resize hst.symm
  case task04.mapMemory.true | task05.mapMemory.true => exact .goto hst.le (Or.inl hst.symm)
  all_goals
    refine .goto (hst.trans_le (by decide)) (Or.inr ⟨?_, by decide⟩)
    rw [hst]
    decide

theorem evolves_cleanup {effect : Effect} {pc : ProducerPc}
    (h : s.cleanupProducerIpc = some (effect, pc)) :
    s.Evolves { s.apply v effect with producer := pc } := by
  rw [cleanupProducerIpc] at h
  split at h
  · rename_i hpc
    obtain ⟨rfl, rfl⟩ := Prod.mk.inj (Option.some.inj h)
    have hst : s.producer.stage = 5 := by rw [hpc, ProducerPc.stage]
    exact .removeSemaphore (Or.inr ⟨by omega, hst.le⟩)
  · rename_i hpc
    obtain ⟨rfl, rfl⟩ := Prod.mk.inj (Option.some.inj h)
    have hst : s.producer.stage = 5 := by rw [hpc, ProducerPc.stage]
    exact .removeMemory (Or.inr ⟨by omega, rfl⟩) hst.le
  · cases h

/-- **What a call of the producer does**, when the names are what they should be. -/
theorem Stands.evolves {ok : Bool} (hs : s.Stands) (h : s.step v ok = some s') : s.Evolves s' := by
  rw [step, Option.map_eq_some_iff] at h
  obtain ⟨⟨effect, pc⟩, h, rfl⟩ := h
  cases hinit : s.initProducerIpc v ok with
  | none =>
    rw [hinit] at h
    exact evolves_cleanup h
  | some p =>
    rw [hinit] at h
    obtain rfl := Option.some.inj h
    exact hs.evolves_init hinit

end Ipc

/-! ## The names in a run -/

section Stands

variable {names names' : Namespace Resource ℕ} {run stage stage' : ℕ} {changes : List Change}

theorem Stands.evolves (h : Stands names run stage)
    (hs : Evolves names run stage names' stage' changes) : Stands names' run stage' := by
  obtain ⟨hold, hnew, hmemory, hsemaphore, hagree⟩ := h
  cases hs
  case keep hle hn =>
    refine ⟨fun h => hold (by omega), fun h => ?_, fun h => hmemory (by omega),
      fun h => hsemaphore (by omega), hagree⟩
    exact hnew (by omega)
  case memoryFree hstage hfree =>
    exact ⟨fun _ => hold (by omega), by omega, fun _ => hfree, by omega, hagree⟩
  case semaphoreFree hstage hfree =>
    have hnone := hmemory (Or.inl hstage)
    refine ⟨by omega, fun _ r k hk => ?_, fun _ => hnone, fun _ => hfree, hagree⟩
    cases r
    · rw [hnone] at hk
      cases hk
    · rw [hfree] at hk
      cases hk
  case removeMemory k hk hn =>
    refine ⟨fun h r k hr => hold (by omega) r k (Namespace.unlink_eq_some hr),
      fun h r k hr => hnew (by omega) r k (Namespace.unlink_eq_some hr), fun _ => ?_, by omega, ?_⟩
    · exact names.unlink_self .memory
    · rintro k j hk -
      rw [Namespace.unlink_self] at hk
      cases hk
  case removeSemaphore j hj hn =>
    refine ⟨fun h r k hr => hold (by omega) r k (Namespace.unlink_eq_some hr),
      fun h r k hr => ?_, fun h => ?_, fun _ => ?_, ?_⟩
    · rcases hn with ⟨hstage, -⟩ | ⟨hstage, -⟩
      · cases r
        · rw [Namespace.unlink_of_ne _ (by decide), hmemory (Or.inl hstage)] at hr
          cases hr
        · rw [Namespace.unlink_self] at hr
          cases hr
      · exact hnew (by omega) r k (Namespace.unlink_eq_some hr)
    · rw [Namespace.unlink_of_ne _ (by decide)]
      exact hmemory (by omega)
    · exact names.unlink_self .semaphore
    · rintro k j - hj
      rw [Namespace.unlink_self] at hj
      cases hj
  case createMemory hstage hfree =>
    have hnone := hsemaphore (Or.inl hstage)
    refine ⟨by omega, fun _ r k hr => ?_, by omega, fun _ => ?_, ?_⟩
    · rcases Namespace.create_eq_some hr with ⟨-, hk⟩ | hr
      · exact hk
      · exact hnew hstage.ge r k hr
    · rwa [Namespace.create_of_ne _ (by decide)]
    · rintro k j - hj
      rw [Namespace.create_of_ne _ (by decide), hnone] at hj
      cases hj
  case createSemaphore hstage hfree hn =>
    refine ⟨by omega, fun _ r k hr => ?_, by omega, by omega, fun k j hk hj => ?_⟩
    · rcases Namespace.create_eq_some hr with ⟨-, hk⟩ | hr
      · exact hk
      · exact hnew (by omega) r k hr
    · rw [Namespace.create_of_ne _ (by decide)] at hk
      rw [Namespace.create_self] at hj
      exact (Option.some.inj hj).symm.trans (hnew (by omega) .memory k hk).symm

theorem Stands.restart (h : Stands names run stage) {n : ℕ} (hn : n = 0) :
    Stands names (run + 1) n := by
  refine ⟨fun _ r k hk => ?_, by omega, by omega, by omega, h.agree⟩
  rcases le_or_gt stage 1 with hstage | hstage
  · exact (h.old hstage r k hk).trans (Nat.lt_succ_self run)
  · exact (h.new hstage r k hk).trans_lt (Nat.lt_succ_self run)

end Stands

/-! ## Between the two lookups -/

/-- The memory that a consumer has looked up has been replaced, as far as the semaphore goes. -/
def Replaced (changes : List Change) : Prop :=
  [.removed .memory, .created .semaphore].Sublist changes

instance (changes : List Change) : Decidable (Replaced changes) :=
  inferInstanceAs (Decidable (List.Sublist _ changes))

/-- `Replaced`, one change later. -/
theorem replaced_concat {changes : List Change} {c : Change} :
    Replaced (changes ++ [c]) ↔
      Replaced changes ∨ (.removed .memory ∈ changes ∧ c = .created .semaphore) := by
  refine List.sublist_append_iff.trans ⟨?_, ?_⟩
  · rintro ⟨l₁, l₂, hl, h₁, h₂⟩
    rcases List.sublist_singleton.1 h₂ with rfl | rfl
    · rw [List.append_nil] at hl
      rw [← hl] at h₁
      exact Or.inl h₁
    · change [Change.removed .memory] ++ [.created .semaphore] = l₁ ++ [c] at hl
      obtain ⟨hl₁, hc⟩ := List.append_inj' hl rfl
      rw [← hl₁] at h₁
      exact Or.inr ⟨List.singleton_sublist.1 h₁, (List.singleton_inj.1 hc).symm⟩
  · rintro (h | ⟨h, rfl⟩)
    · exact ⟨_, [], (List.append_nil _).symm, h, List.nil_sublist _⟩
    · exact ⟨[_], [_], rfl, List.singleton_sublist.2 h, List.Sublist.refl _⟩

/-- Only the creation of a semaphore can make the difference. -/
theorem replaced_concat_of_ne {changes : List Change} {c : Change} (hc : c ≠ .created .semaphore) :
    Replaced (changes ++ [c]) ↔ Replaced changes := by
  simp [replaced_concat, hc]

/-- The names as they have become since a consumer has looked up the memory of run `k`. -/
structure Since (names : Namespace Resource ℕ) (run stage : ℕ) (changes : List Change) (k : ℕ) :
    Prop where
  le : k ≤ run
  kept : .removed .memory ∉ changes → names .memory = some k
  past : .removed .memory ∈ changes → k = run → 5 ≤ stage
  later : Replaced changes → ∀ j, names .semaphore = some j → k < j
  same : ¬ Replaced changes → ∀ j, names .semaphore = some j → j = k

section Since

variable {names names' : Namespace Resource ℕ} {run stage stage' k : ℕ}
  {changes changes' : List Change}

theorem Since.evolves (h : Since names run stage changes k) (hstands : Stands names run stage)
    (hs : Evolves names run stage names' stage' changes') :
    Since names' run stage' (changes ++ changes') k := by
  obtain ⟨hle, hkept, hpast, hlater, hsame⟩ := h
  cases hs
  case keep hle' hn =>
    rw [List.append_nil]
    exact ⟨hle, hkept, fun h hk => by have := hpast h hk; omega, hlater, hsame⟩
  case memoryFree hstage hfree =>
    rw [List.append_nil]
    exact ⟨hle, hkept, fun h hk => by have := hpast h hk; omega, hlater, hsame⟩
  case semaphoreFree hstage hfree =>
    rw [List.append_nil]
    exact ⟨hle, hkept, fun h hk => by have := hpast h hk; omega, hlater, hsame⟩
  case removeMemory k' hk' hn =>
    have hiff : Replaced (changes ++ [.removed .memory]) ↔ Replaced changes :=
      replaced_concat_of_ne (by decide)
    have hsemaphore : names.unlink .memory .semaphore = names .semaphore :=
      names.unlink_of_ne (by decide)
    refine ⟨hle, fun h => absurd (by simp) h, fun _ hk => ?_, fun h => ?_, fun h => ?_⟩
    · rcases hn with ⟨hstage, -⟩ | ⟨-, hn⟩
      · by_cases hmem : .removed .memory ∈ changes
        · have := hpast hmem hk
          omega
        · have := hstands.old (by omega) _ _ (hkept hmem)
          omega
      · exact hn.ge
    · rw [hsemaphore]
      exact hlater (hiff.1 h)
    · rw [hsemaphore]
      exact hsame fun h' => h (hiff.2 h')
  case removeSemaphore j hj hn =>
    refine ⟨hle, fun h => ?_, fun h hk => ?_, fun _ j hj => ?_, fun _ j hj => ?_⟩
    · rw [Namespace.unlink_of_ne _ (by decide)]
      exact hkept fun h' => h (List.mem_append_left _ h')
    · have := hpast (by simpa using h) hk
      omega
    · rw [Namespace.unlink_self] at hj
      cases hj
    · rw [Namespace.unlink_self] at hj
      cases hj
  case createMemory hstage hfree =>
    have hiff : Replaced (changes ++ [.created .memory]) ↔ Replaced changes :=
      replaced_concat_of_ne (by decide)
    have hsemaphore : names.create .memory run .semaphore = names .semaphore :=
      names.create_of_ne (by decide) run
    refine ⟨hle, fun h => ?_, fun h hk => ?_, fun h => ?_, fun h => ?_⟩
    · have hk := hkept fun h' => h (List.mem_append_left _ h')
      rw [hfree] at hk
      cases hk
    · have := hpast (by simpa using h) hk
      omega
    · rw [hsemaphore]
      exact hlater (hiff.1 h)
    · rw [hsemaphore]
      exact hsame fun h' => h (hiff.2 h')
  case createSemaphore hstage hfree hn =>
    refine ⟨hle, fun h => ?_, fun h hk => ?_, fun h j hj => ?_, fun h j hj => ?_⟩
    · rw [Namespace.create_of_ne _ (by decide)]
      exact hkept fun h' => h (List.mem_append_left _ h')
    · have := hpast (by simpa using h) hk
      omega
    · rw [Namespace.create_self] at hj
      obtain rfl := Option.some.inj hj
      have hmem : .removed .memory ∈ changes :=
        (replaced_concat.1 h).elim (fun h => h.subset (by simp)) And.left
      refine lt_of_le_of_ne hle fun hk => ?_
      have := hpast hmem hk
      omega
    · rw [Namespace.create_self] at hj
      obtain rfl := Option.some.inj hj
      have hk := hkept fun hmem => h (replaced_concat.2 (Or.inr ⟨hmem, rfl⟩))
      exact (hstands.new (by omega) _ _ hk).symm

theorem Since.restart (h : Since names run stage changes k) {n : ℕ} :
    Since names (run + 1) n changes k := by
  refine ⟨h.le.trans (Nat.le_succ run), h.kept, fun _ hk => ?_, h.later, h.same⟩
  have := h.le
  omega

/-- At the lookup of the memory. -/
theorem Stands.since (h : Stands names run stage) (hk : names .memory = some k) :
    Since names run stage [] k := by
  refine ⟨?_, fun _ => hk, by simp, fun hreplaced => by simp [Replaced] at hreplaced,
    fun _ j hj => h.agree k j hk hj⟩
  rcases le_or_gt stage 1 with hstage | hstage
  · exact (h.old hstage _ _ hk).le
  · exact (h.new hstage _ _ hk).le

end Since

/-! ## Runs -/

/-- Between the two lookups. -/
def ConsumerPc.Attaching (pc : ConsumerPc) : Prop :=
  pc = .statMemory ∨ pc = .mapMemory ∨ pc = .findSemaphore

/-- What a consumer has in hand. -/
structure Consumer.Follows (P : Consumer) (s : Ipc) : Prop where
  attaching : P.pc.Attaching → ∃ k, P.memory = some k ∧ P.seen ≤ s.log.length ∧
    Since s.names s.run s.producer.stage (s.log.drop P.seen) k
  attached : P.pc = .returned 0 → ∃ k j, P.memory = some k ∧ P.semaphore = some j ∧
    (Replaced P.between → k < j) ∧ (¬ Replaced P.between → j = k)

section Follows

variable {v : Version} {s s' : Ipc} {P P' : Consumer}

theorem Consumer.Follows.evolves (h : P.Follows s) (hstands : s.Stands) (hs : s.Evolves s') :
    P.Follows s' := by
  refine ⟨fun hpc => ?_, h.attached⟩
  obtain ⟨k, hk, hseen, hsince⟩ := h.attaching hpc
  obtain ⟨changes, hchanges, hrun, hlog⟩ := hs
  refine ⟨k, hk, ?_, ?_⟩
  · rw [hlog, List.length_append]
    exact hseen.trans (Nat.le_add_right _ _)
  · rw [hlog, hrun, List.drop_append_of_le_length hseen]
    exact hsince.evolves hstands hchanges

theorem Consumer.Follows.restart (h : P.Follows s) : P.Follows (s.restart v) := by
  refine ⟨fun hpc => ?_, h.attached⟩
  obtain ⟨k, hk, hseen, hsince⟩ := h.attaching hpc
  exact ⟨k, hk, hseen, hsince.restart⟩

/-- What has failed has nothing in hand. -/
theorem Consumer.follows_failed (P : Consumer) (s : Ipc) :
    Follows { P with pc := .returned (-1) } s :=
  ⟨by simp [ConsumerPc.Attaching], by simp⟩

theorem Consumer.Follows.goto (h : P.Follows s) (hpc : P.pc.Attaching) {pc : ConsumerPc}
    (hpc' : pc.Attaching) (n : ℕ) : Follows { P with pc := pc, shmSize := n } s := by
  refine ⟨fun _ => h.attaching hpc, ?_⟩
  rintro rfl
  simp [ConsumerPc.Attaching] at hpc'

theorem Consumer.Follows.connect {ok : Bool} (h : P.Follows s) (hstands : s.Stands)
    (hs : P.connectConsumerIpc v s ok = some P') : P'.Follows s := by
  unfold Consumer.connectConsumerIpc at hs
  split at hs
  case h_1 hpc =>
    split at hs <;> obtain rfl := Option.some.inj hs
    · rename_i k hk
      refine ⟨fun _ => ⟨k, rfl, le_rfl, ?_⟩, ?_⟩
      · rw [List.drop_length]
        exact hstands.since hk
      · cases v <;> simp
    · exact P.follows_failed s
  case h_2 hpc =>
    split at hs <;> obtain rfl := Option.some.inj hs
    · exact h.goto (Or.inl hpc) (Or.inr (Or.inl rfl)) _
    · exact P.follows_failed s
  case h_3 hpc =>
    split at hs <;> obtain rfl := Option.some.inj hs
    · exact h.goto (Or.inr (Or.inl hpc)) (Or.inr (Or.inr rfl)) _
    · exact P.follows_failed s
  case h_4 hpc =>
    split at hs <;> obtain rfl := Option.some.inj hs
    · rename_i j hj
      obtain ⟨k, hk, -, hsince⟩ := h.attaching (Or.inr (Or.inr hpc))
      refine ⟨by simp [ConsumerPc.Attaching], fun _ => ⟨k, j, hk, rfl, ?_, ?_⟩⟩
      · exact fun hreplaced => hsince.later hreplaced j hj
      · exact fun hnot => hsince.same hnot j hj
    · exact P.follows_failed s
  case h_5 => cases hs

end Follows

namespace State

/-- The names stand as they should, and every consumer follows them. -/
def Inv (s : State) : Prop := s.ipc.Stands ∧ ∀ c, (s.consumer c).Follows s.ipc

theorem inv_init : Inv init := by
  refine ⟨⟨?_, ?_, ?_, ?_, ?_⟩, fun c => ⟨?_, ?_⟩⟩ <;>
    simp [init, Ipc.init, Consumer.init, ConsumerPc.Attaching]

theorem Inv.step {v : Version} {s s' : State} {a : Action} (h : s.Inv)
    (hs : s.step v a = some s') : s'.Inv := by
  obtain ⟨hstands, hfollows⟩ := h
  cases a with
  | restart =>
    obtain rfl := Option.some.inj hs
    have hfirst : (Ipc.firstCall v).stage = 0 := by cases v <;> rfl
    exact ⟨Session.Stands.restart hstands hfirst, fun c => (hfollows c).restart⟩
  | producer ok =>
    obtain ⟨ipc, hipc, rfl⟩ := Option.map_eq_some_iff.1 hs
    have hevolves := hstands.evolves hipc
    refine ⟨?_, fun c => (hfollows c).evolves hstands hevolves⟩
    obtain ⟨changes, hchanges, hrun, -⟩ := hevolves
    rw [Ipc.Stands, hrun]
    exact Session.Stands.evolves hstands hchanges
  | consumer c ok =>
    obtain ⟨P, hP, rfl⟩ := Option.map_eq_some_iff.1 hs
    refine ⟨hstands, fun c' => ?_⟩
    by_cases hc : c' = c
    · subst hc
      simpa using (hfollows c').connect hstands hP
    · simpa [Function.update_of_ne hc] using hfollows c'

theorem inv_of_run {v : Version} {as : List Action} {s : State}
    (h : runFrom (step v) init as = some s) : s.Inv :=
  runFrom_invariant (P := Inv) (fun _ _ _ hI hs => hI.step hs) inv_init h

end State

/-- **What a consumer is attached to.** When `connect_consumer_ipc` has returned 0, the memory and
the semaphore come from one run of `init_producer_ipc` exactly if no memory has been removed, and a
semaphore then created, between its two lookups. -/
theorem attached_iff {v : Version} {as : List Action} {s : State} {c : ℕ}
    (h : runFrom (State.step v) .init as = some s) (hc : (s.consumer c).pc = .returned 0) :
    (s.consumer c).memory = (s.consumer c).semaphore ↔ ¬ Replaced (s.consumer c).between := by
  obtain ⟨k, j, hk, hj, hlater, hsame⟩ := ((State.inv_of_run h).2 c).attached hc
  rw [hk, hj, Option.some.injEq]
  constructor
  · intro heq hreplaced
    exact (hlater hreplaced).ne heq
  · exact fun hnot => (hsame hnot).symm

/-- A new producer and its first calls, which succeed. -/
def newProducer (calls : ℕ) : List Action := .restart :: List.replicate calls (.producer true)

/-- A producer is killed and restarted while a consumer attaches. The new one has removed the old
memory, but not the old semaphore, when the consumer gets to it. -/
def restartHalfway : List Action :=
  newProducer 6 ++ .consumer 0 true :: newProducer 1 ++ List.replicate 3 (.consumer 0 true)

theorem attached_iff_restartHalfway : ∃ s,
    runFrom (State.step .task05) .init restartHalfway = some s ∧
      (s.consumer 0).memory = (s.consumer 0).semaphore := by
  have hrun : (runFrom (State.step .task05) .init restartHalfway).map
      (fun s => ((s.consumer 0).pc, (s.consumer 0).between)) =
      some (.returned 0, [.removed .memory]) := by decide
  obtain ⟨s, hs, hfields⟩ := Option.map_eq_some_iff.1 hrun
  obtain ⟨hpc, hbetween⟩ := Prod.mk.inj hfields
  refine ⟨s, hs, (attached_iff hs hpc).2 ?_⟩
  rw [hbetween]
  decide

/-- A producer is killed, and a new one runs to the end of `init_producer_ipc` between the two
lookups of a consumer. -/
def restartBetween : Version → List Action
  | .task04 => newProducer 6 ++ List.replicate 2 (.consumer 0 true) ++ newProducer 8 ++
      [.consumer 0 true]
  | .task05 => newProducer 6 ++ List.replicate 3 (.consumer 0 true) ++ newProducer 6 ++
      [.consumer 0 true]

/-- A consumer is attached to one session. -/
def AttachLaw (v : Version) : Prop :=
  ∀ as s c, runFrom (State.step v) .init as = some s → (s.consumer c).pc = .returned 0 →
    (s.consumer c).memory = (s.consumer c).semaphore

/-- In `restartBetween`, the memory is that of the first run, and the semaphore that of the
second. -/
theorem not_attachLaw : ¬ AttachLaw .task04 ∧ ¬ AttachLaw .task05 := by
  have hrun : ∀ v, (runFrom (State.step v) .init (restartBetween v)).map
      (fun s => ((s.consumer 0).pc, (s.consumer 0).memory, (s.consumer 0).semaphore)) =
      some (.returned 0, some 1, some 2) := by
    intro v
    cases v <;> decide
  have hnot : ∀ v, ¬ AttachLaw v := by
    intro v hlaw
    obtain ⟨s, hs, hfields⟩ := Option.map_eq_some_iff.1 (hrun v)
    simp only [Prod.mk.injEq] at hfields
    obtain ⟨hpc, hmemory, hsemaphore⟩ := hfields
    have heq := hlaw _ s 0 hs hpc
    rw [hmemory, hsemaphore] at heq
    exact absurd heq (by decide)
  exact ⟨hnot .task04, hnot .task05⟩

end EltexPractice.SharedList.Session
