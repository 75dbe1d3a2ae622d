import EltexPractice.Foundations.CString
import EltexPractice.Foundations.Namespace
import EltexPractice.Foundations.Schedule

/-!
# The queues of a chat

`format_queue_names`, `init_chat_queues` and `cleanup_chat_queues` of task 3, for any number of
processes that are given one base name. A queue is known by its creator; every `mq_open` and
`mq_unlink` is an action of its own, so the actions of the processes interleave call by call. A call
may also be refused for a reason that has nothing to do with the names (no descriptor, no memory, no
permission).

* `Inv`: each name belongs to the process that is between its creation and its removal.
* `queue_ownership`: who removes which queue, and what is left.
-/

namespace EltexPractice.P2pChat

open CString

/-! ## Names -/

/-- A base name that leaves room for the slash and the suffix. -/
structure BaseName where
  bytes : List UInt8
  length_le : bytes.length ≤ 124

/-- `sizeof(session->q1_name)` -/
def nameSize : ℕ := 128

namespace BaseName

variable (base : BaseName)

/-- One of the two names `format_queue_names` writes. -/
def format (suffix : List UInt8) : List UInt8 :=
  if base.bytes.head? = some 47 then snprintf nameSize (base.bytes ++ suffix)
  else snprintf nameSize (ascii "/" ++ base.bytes ++ suffix)

/-- `session->q1_name` -/
def q1Name : List UInt8 := base.format (ascii "_1")

/-- `session->q2_name` -/
def q2Name : List UInt8 := base.format (ascii "_2")

/-- The names are not cut. -/
theorem format_eq {suffix : List UInt8} (h : suffix.length = 2) :
    base.format suffix = (if base.bytes.head? = some 47 then [] else ascii "/") ++
      (base.bytes ++ suffix) := by
  have hlen := base.length_le
  have hslash : (ascii "/").length = 1 := rfl
  rw [format]
  split
  · rw [snprintf_eq_self (by rw [List.length_append, nameSize]; omega), List.nil_append]
  · rw [snprintf_eq_self (by simp only [List.length_append, nameSize]; omega), List.append_assoc]

theorem q1Name_ne_q2Name : base.q1Name ≠ base.q2Name := by
  rw [q1Name, q2Name, base.format_eq rfl, base.format_eq rfl, Ne, List.append_cancel_left_eq,
    List.append_cancel_left_eq]
  decide

end BaseName

/-! ## Processes -/

/-- A message queue: its name and the process that created it. -/
structure Queue where
  name : List UInt8
  creator : ℕ
  deriving DecidableEq

/-- The next call of a process. -/
inductive Pc
  /-- `mq_open(q1_name, O_RDONLY | O_CREAT | O_EXCL)` -/
  | createFirst
  /-- `mq_open(q2_name, O_WRONLY | O_CREAT | O_EXCL)` -/
  | createSecond
  /-- `mq_unlink(q1_name)` after the second creation has failed -/
  | undoFirst
  /-- `mq_open(q1_name, O_WRONLY)` -/
  | openFirst
  /-- `mq_open(q2_name, O_RDONLY)` -/
  | openSecond
  /-- `init_chat_queues` has returned -1. -/
  | failed
  /-- `init_chat_queues` has returned 0. -/
  | ready
  /-- `mq_unlink(q1_name)` in `cleanup_chat_queues` -/
  | unlinkFirst
  /-- `mq_unlink(q2_name)` in `cleanup_chat_queues` -/
  | unlinkSecond
  | done
  deriving DecidableEq

/-- `chat_session_t`, as far as the queues go; `none` is `(mqd_t)-1`. -/
structure Session where
  rxQ : Option Queue
  txQ : Option Queue
  isCreator : Bool
  deriving DecidableEq

structure Proc where
  pc : Pc
  session : Session
  /-- The creator of the `_1` queue that made the first `mq_open` fail with `EEXIST`. -/
  found : Option ℕ
  deriving DecidableEq

/-- The kernel's queues and the processes. -/
structure System where
  mq : Namespace (List UInt8) ℕ
  proc : ℕ → Proc

/-- Neither name exists, and no process has made a call. -/
def System.init : System where
  mq _ := none
  proc _ := ⟨.createFirst, ⟨none, none, false⟩, none⟩

inductive Action
  /-- The process makes its next call. -/
  | call (p : ℕ) (refused : Bool)
  /-- The chat of the process ends, and `cleanup_chat_queues` begins. -/
  | leave (p : ℕ)

/-- The process that makes the step. -/
def Action.proc : Action → ℕ
  | .call p _ => p
  | .leave p => p

namespace System

/-- The process goes on. -/
def setProc (s : System) (p : ℕ) (π : Proc) : System :=
  { s with proc := Function.update s.proc p π }

@[simp] theorem proc_setProc_self (s : System) (p : ℕ) (π : Proc) : (s.setProc p π).proc p = π :=
  Function.update_self ..

/-- The next call of `init_chat_queues` or `cleanup_chat_queues`. -/
def call (base : BaseName) (s : System) (p : ℕ) (refused : Bool) : Option System :=
  let π := s.proc p
  match π.pc with
  | .createFirst =>
    if refused then some (s.setProc p { π with pc := .failed })
    else match s.mq base.q1Name with
      | none => some ({ s with mq := s.mq.create base.q1Name p }.setProc p
          { π with
            pc := .createSecond
            session := { π.session with rxQ := some ⟨base.q1Name, p⟩, isCreator := true } })
      | some c => some (s.setProc p { π with pc := .openFirst, found := some c })
  | .createSecond =>
    if refused ∨ s.mq base.q2Name ≠ none then
      some (s.setProc p { π with pc := .undoFirst, session := { π.session with rxQ := none } })
    else some ({ s with mq := s.mq.create base.q2Name p }.setProc p
      { π with pc := .ready, session := { π.session with txQ := some ⟨base.q2Name, p⟩ } })
  | .undoFirst =>
    some ({ s with mq := s.mq.unlink base.q1Name }.setProc p { π with pc := .failed })
  | .openFirst =>
    match s.mq base.q1Name with
    | some c =>
      if refused then some (s.setProc p { π with pc := .failed })
      else some (s.setProc p
        { π with pc := .openSecond, session := { π.session with txQ := some ⟨base.q1Name, c⟩ } })
    | none => some (s.setProc p { π with pc := .failed })
  | .openSecond =>
    match s.mq base.q2Name with
    | some c =>
      if refused then
        some (s.setProc p { π with pc := .failed, session := { π.session with txQ := none } })
      else some (s.setProc p
        { π with pc := .ready, session := { π.session with rxQ := some ⟨base.q2Name, c⟩ } })
    | none => some (s.setProc p { π with pc := .failed, session := { π.session with txQ := none } })
  | .unlinkFirst =>
    some ({ s with mq := s.mq.unlink base.q1Name }.setProc p { π with pc := .unlinkSecond })
  | .unlinkSecond =>
    some ({ s with mq := s.mq.unlink base.q2Name }.setProc p { π with pc := .done })
  | .failed => none
  | .ready => none
  | .done => none

/-- `cleanup_chat_queues` up to its first `mq_unlink`. -/
def leave (s : System) (p : ℕ) : Option System :=
  let π := s.proc p
  if π.pc = .ready then
    some (s.setProc p
      { π with
        pc := if π.session.isCreator then .unlinkFirst else .done
        session := { π.session with rxQ := none, txQ := none } })
  else none

/-- One action. -/
def step (base : BaseName) (s : System) : Action → Option System
  | .call p refused => s.call base p refused
  | .leave p => s.leave p

end System

/-! ## What a step can do -/

/-- What a call or a `leave` of the process `p` does to the names and to the process. -/
inductive Moves (base : BaseName) (mq : Namespace (List UInt8) ℕ) (p : ℕ) (π : Proc) :
    Namespace (List UInt8) ℕ → Proc → Prop
  | refusedFirst (hpc : π.pc = .createFirst) : Moves base mq p π mq { π with pc := .failed }
  | createFirst (hpc : π.pc = .createFirst) (hfree : mq base.q1Name = none) :
      Moves base mq p π (mq.create base.q1Name p)
        { π with
          pc := .createSecond
          session := { π.session with rxQ := some ⟨base.q1Name, p⟩, isCreator := true } }
  | exists_ {c : ℕ} (hpc : π.pc = .createFirst) (hc : mq base.q1Name = some c) :
      Moves base mq p π mq { π with pc := .openFirst, found := some c }
  | secondFails (hpc : π.pc = .createSecond) :
      Moves base mq p π mq { π with pc := .undoFirst, session := { π.session with rxQ := none } }
  | createSecond (hpc : π.pc = .createSecond) (hfree : mq base.q2Name = none) :
      Moves base mq p π (mq.create base.q2Name p)
        { π with pc := .ready, session := { π.session with txQ := some ⟨base.q2Name, p⟩ } }
  | undoFirst (hpc : π.pc = .undoFirst) :
      Moves base mq p π (mq.unlink base.q1Name) { π with pc := .failed }
  | openFirst {c : ℕ} (hpc : π.pc = .openFirst) (hc : mq base.q1Name = some c) :
      Moves base mq p π mq
        { π with pc := .openSecond, session := { π.session with txQ := some ⟨base.q1Name, c⟩ } }
  | openFails (hpc : π.pc = .openFirst) : Moves base mq p π mq { π with pc := .failed }
  | openSecond {c : ℕ} (hpc : π.pc = .openSecond) (hc : mq base.q2Name = some c) :
      Moves base mq p π mq
        { π with pc := .ready, session := { π.session with rxQ := some ⟨base.q2Name, c⟩ } }
  | secondOpenFails (hpc : π.pc = .openSecond) :
      Moves base mq p π mq { π with pc := .failed, session := { π.session with txQ := none } }
  | unlinkFirst (hpc : π.pc = .unlinkFirst) :
      Moves base mq p π (mq.unlink base.q1Name) { π with pc := .unlinkSecond }
  | unlinkSecond (hpc : π.pc = .unlinkSecond) :
      Moves base mq p π (mq.unlink base.q2Name) { π with pc := .done }
  | leave (hpc : π.pc = .ready) :
      Moves base mq p π mq
        { π with
          pc := if π.session.isCreator then .unlinkFirst else .done
          session := { π.session with rxQ := none, txQ := none } }

theorem moves_of_step {base : BaseName} {s s' : System} {a : Action}
    (h : System.step base s a = some s') :
    ∃ π, Moves base s.mq a.proc (s.proc a.proc) s'.mq π ∧
      s'.proc = Function.update s.proc a.proc π := by
  cases a with
  | leave p =>
    rw [System.step, System.leave] at h
    split at h
    · rename_i hpc
      obtain rfl := Option.some.inj h
      exact ⟨_, .leave hpc, rfl⟩
    · cases h
  | call p refused =>
    simp only [System.step, System.call] at h
    cases hpc : (s.proc p).pc <;> simp only [hpc] at h
    case createFirst =>
      split at h
      · obtain rfl := Option.some.inj h
        exact ⟨_, .refusedFirst hpc, rfl⟩
      · split at h
        · rename_i hfree
          obtain rfl := Option.some.inj h
          exact ⟨_, .createFirst hpc hfree, rfl⟩
        · rename_i c hc
          obtain rfl := Option.some.inj h
          exact ⟨_, .exists_ hpc hc, rfl⟩
    case createSecond =>
      split at h
      · obtain rfl := Option.some.inj h
        exact ⟨_, .secondFails hpc, rfl⟩
      · rename_i hfree
        obtain rfl := Option.some.inj h
        rw [not_or, not_not] at hfree
        exact ⟨_, .createSecond hpc hfree.2, rfl⟩
    case undoFirst =>
      obtain rfl := Option.some.inj h
      exact ⟨_, .undoFirst hpc, rfl⟩
    case openFirst =>
      split at h
      · rename_i c hc
        split at h <;> obtain rfl := Option.some.inj h
        · exact ⟨_, .openFails hpc, rfl⟩
        · exact ⟨_, .openFirst hpc hc, rfl⟩
      · obtain rfl := Option.some.inj h
        exact ⟨_, .openFails hpc, rfl⟩
    case openSecond =>
      split at h
      · rename_i c hc
        split at h <;> obtain rfl := Option.some.inj h
        · exact ⟨_, .secondOpenFails hpc, rfl⟩
        · exact ⟨_, .openSecond hpc hc, rfl⟩
      · obtain rfl := Option.some.inj h
        exact ⟨_, .secondOpenFails hpc, rfl⟩
    case unlinkFirst =>
      obtain rfl := Option.some.inj h
      exact ⟨_, .unlinkFirst hpc, rfl⟩
    case unlinkSecond =>
      obtain rfl := Option.some.inj h
      exact ⟨_, .unlinkSecond hpc, rfl⟩
    all_goals cases h

/-! ## Ownership -/

namespace Proc

/-- Between the creation and the removal of `_1`. -/
def OwnsFirst (π : Proc) : Prop :=
  π.pc = .createSecond ∨ π.pc = .undoFirst ∨ π.pc = .unlinkFirst ∨
    (π.pc = .ready ∧ π.session.isCreator = true)

/-- Between the creation and the removal of `_2`. -/
def OwnsSecond (π : Proc) : Prop :=
  π.pc = .unlinkFirst ∨ π.pc = .unlinkSecond ∨ (π.pc = .ready ∧ π.session.isCreator = true)

/-- `init_chat_queues` has returned 0 with `is_creator = 1`, and the first `mq_unlink` is still to
come. -/
def Creator (π : Proc) : Prop :=
  π.pc = .unlinkFirst ∨ (π.pc = .ready ∧ π.session.isCreator = true)

/-- Between the first exclusive creation and the last `mq_unlink`. -/
def Active (π : Proc) : Prop := π.OwnsFirst ∨ π.OwnsSecond

theorem Creator.ownsFirst {π : Proc} (h : π.Creator) : π.OwnsFirst := by
  rcases h with h | h
  · exact Or.inr (Or.inr (Or.inl h))
  · exact Or.inr (Or.inr (Or.inr h))

/-- What each point says about `is_creator`. -/
def RoleInv (π : Proc) : Prop :=
  (π.OwnsFirst → π.session.isCreator = true) ∧
    ((π.pc = .createFirst ∨ π.pc = .openFirst ∨ π.pc = .openSecond) →
      π.session.isCreator = false)

end Proc

/-- The names belong to the processes that created them. -/
structure Inv (base : BaseName) (s : System) : Prop where
  role : ∀ p, (s.proc p).RoleInv
  first : ∀ p, s.mq base.q1Name = some p ↔ (s.proc p).OwnsFirst
  second : ∀ p, s.mq base.q2Name = some p ↔ (s.proc p).OwnsSecond

section Invariant

variable {base : BaseName}

theorem inv_init (base : BaseName) : Inv base .init where
  role p := by simp [System.init, Proc.RoleInv, Proc.OwnsFirst]
  first p := by simp [System.init, Proc.OwnsFirst]
  second p := by simp [System.init, Proc.OwnsSecond]

/-- A move keeps the role of its process. -/
theorem Moves.role {mq mq' : Namespace (List UInt8) ℕ} {p : ℕ} {π π' : Proc}
    (h : Moves base mq p π mq' π') (hπ : π.RoleInv) : π'.RoleInv := by
  cases h
  case leave hpc => by_cases hcr : π.session.isCreator = true <;>
      simp [Proc.RoleInv, Proc.OwnsFirst, hcr]
  all_goals simp_all [Proc.RoleInv, Proc.OwnsFirst]

section Move

variable {mq mq' : Namespace (List UInt8) ℕ} {p : ℕ} {π π' : Proc}

/-- The name `_1` and the point of the process agree after a move. -/
theorem Moves.first_self (h : Moves base mq p π mq' π') (hrole : π.RoleInv)
    (hπ : mq base.q1Name = some p ↔ π.OwnsFirst) :
    mq' base.q1Name = some p ↔ π'.OwnsFirst := by
  have hne := base.q1Name_ne_q2Name
  cases h
  case leave hpc => by_cases hcr : π.session.isCreator = true <;> simp_all [Proc.OwnsFirst]
  all_goals
    simp_all [Proc.OwnsFirst, Proc.RoleInv, Namespace.create_of_ne, Namespace.unlink_of_ne]

/-- A move does not give the name `_1` to another process, nor take it from one. -/
theorem Moves.first_other (h : Moves base mq p π mq' π')
    (hπ : mq base.q1Name = some p ↔ π.OwnsFirst) {p' : ℕ} (hp : p' ≠ p) :
    mq' base.q1Name = some p' ↔ mq base.q1Name = some p' := by
  have hne := base.q1Name_ne_q2Name
  have hp' : ¬ p = p' := Ne.symm hp
  cases h
  case createFirst hpc hfree => simp [hfree, hp']
  case createSecond hpc hfree => rw [Namespace.create_of_ne _ hne]
  case undoFirst hpc => simp [hπ.2 (Or.inr (Or.inl hpc)), hp']
  case unlinkFirst hpc => simp [hπ.2 (Or.inr (Or.inr (Or.inl hpc))), hp']
  case unlinkSecond hpc => rw [Namespace.unlink_of_ne _ hne]
  all_goals rfl

/-- The name `_2` and the point of the process agree after a move. -/
theorem Moves.second_self (h : Moves base mq p π mq' π') (hrole : π.RoleInv)
    (hπ : mq base.q2Name = some p ↔ π.OwnsSecond) :
    mq' base.q2Name = some p ↔ π'.OwnsSecond := by
  have hne := base.q1Name_ne_q2Name.symm
  cases h
  case leave hpc => by_cases hcr : π.session.isCreator = true <;> simp_all [Proc.OwnsSecond]
  all_goals
    simp_all [Proc.OwnsFirst, Proc.OwnsSecond, Proc.RoleInv, Namespace.create_of_ne,
      Namespace.unlink_of_ne]

/-- A move does not give the name `_2` to another process, nor take it from one. -/
theorem Moves.second_other (h : Moves base mq p π mq' π')
    (hπ : mq base.q2Name = some p ↔ π.OwnsSecond) {p' : ℕ} (hp : p' ≠ p) :
    mq' base.q2Name = some p' ↔ mq base.q2Name = some p' := by
  have hne := base.q1Name_ne_q2Name.symm
  have hp' : ¬ p = p' := Ne.symm hp
  cases h
  case createFirst hpc hfree => rw [Namespace.create_of_ne _ hne]
  case createSecond hpc hfree => simp [hfree, hp']
  case undoFirst hpc => rw [Namespace.unlink_of_ne _ hne]
  case unlinkFirst hpc => rw [Namespace.unlink_of_ne _ hne]
  case unlinkSecond hpc => simp [hπ.2 (Or.inr (Or.inl hpc)), hp']
  all_goals rfl

/-- No call names a third queue. -/
theorem Moves.other_name (h : Moves base mq p π mq' π') {name : List UInt8}
    (h₁ : name ≠ base.q1Name) (h₂ : name ≠ base.q2Name) : mq' name = mq name := by
  cases h
  case createFirst => exact Namespace.create_of_ne _ h₁ _
  case createSecond => exact Namespace.create_of_ne _ h₂ _
  case undoFirst => exact Namespace.unlink_of_ne _ h₁
  case unlinkFirst => exact Namespace.unlink_of_ne _ h₁
  case unlinkSecond => exact Namespace.unlink_of_ne _ h₂
  all_goals rfl

end Move

theorem Inv.step {s s' : System} {a : Action} (h : Inv base s)
    (hs : System.step base s a = some s') : Inv base s' := by
  obtain ⟨π, hmove, hproc⟩ := moves_of_step hs
  have hself : s'.proc a.proc = π := by rw [hproc, Function.update_self]
  have hother : ∀ p, p ≠ a.proc → s'.proc p = s.proc p := fun p hp => by
    rw [hproc, Function.update_of_ne hp]
  refine ⟨fun p => ?_, fun p => ?_, fun p => ?_⟩ <;> by_cases hp : p = a.proc
  · rw [hp, hself]
    exact hmove.role (h.role a.proc)
  · rw [hother p hp]
    exact h.role p
  · rw [hp, hself]
    exact hmove.first_self (h.role a.proc) (h.first a.proc)
  · rw [hother p hp, hmove.first_other (h.first a.proc) hp]
    exact h.first p
  · rw [hp, hself]
    exact hmove.second_self (h.role a.proc) (h.second a.proc)
  · rw [hother p hp, hmove.second_other (h.second a.proc) hp]
    exact h.second p

theorem inv_of_run {as : List Action} {s : System}
    (h : runFrom (System.step base) .init as = some s) : Inv base s :=
  runFrom_invariant (fun _ _ _ hI hs => hI.step hs) (inv_init base) h

/-- A queue that a step removes belongs to the process that makes the step. -/
theorem Inv.removes_own {s s' : System} {a : Action} (h : Inv base s)
    (hs : System.step base s a = some s') {name : List UInt8} {owner : ℕ}
    (howner : s.mq name = some owner) (hgone : s'.mq name ≠ some owner) : owner = a.proc := by
  obtain ⟨π, hmove, -⟩ := moves_of_step hs
  by_contra hne
  by_cases h₁ : name = base.q1Name
  · subst h₁
    exact hgone ((hmove.first_other (h.first a.proc) hne).2 howner)
  by_cases h₂ : name = base.q2Name
  · subst h₂
    exact hgone ((hmove.second_other (h.second a.proc) hne).2 howner)
  exact hgone ((hmove.other_name h₁ h₂).trans howner)

/-- **Ownership of the queues**: a process removes only queues it has created, one process at most
is a successful creator, and no name is left when nobody is between creation and removal. -/
theorem queue_ownership {base : BaseName} {as : List Action} {s : System}
    (h : runFrom (System.step base) .init as = some s) :
    (∀ a s', System.step base s a = some s' → ∀ name owner, s.mq name = some owner →
        s'.mq name ≠ some owner → owner = a.proc) ∧
      (∀ p p', (s.proc p).Creator → (s.proc p').Creator → p = p') ∧
      ((∀ p, ¬ (s.proc p).Active) → s.mq base.q1Name = none ∧ s.mq base.q2Name = none) := by
  have hinv := inv_of_run h
  refine ⟨fun a s' hs name owner => hinv.removes_own hs, fun p p' hp hp' => ?_, fun hidle => ?_⟩
  · have h₁ := (hinv.first p).2 hp.ownsFirst
    have h₂ := (hinv.first p').2 hp'.ownsFirst
    exact Option.some.inj (h₁.symm.trans h₂)
  · constructor
    · rcases hq : s.mq base.q1Name with - | p
      · rfl
      · exact absurd (Or.inl ((hinv.first p).1 hq)) (hidle p)
    · rcases hq : s.mq base.q2Name with - | p
      · rfl
      · exact absurd (Or.inr ((hinv.second p).1 hq)) (hidle p)

/-- A base name. -/
def talk : BaseName := ⟨ascii "/talk", by decide⟩

/-- A creator comes and goes while another process tries to create the queues. -/
def comeAndGo : List Action :=
  [.call 0 false, .call 1 false, .call 0 false, .leave 0, .call 0 false, .call 1 false,
    .call 0 false]

theorem queue_ownership_comeAndGo : ∃ s,
    runFrom (System.step talk) .init comeAndGo = some s ∧
      (∀ a s', System.step talk s a = some s' → ∀ name owner, s.mq name = some owner →
          s'.mq name ≠ some owner → owner = a.proc) ∧
        (∀ p p', (s.proc p).Creator → (s.proc p').Creator → p = p') ∧
        ((∀ p, ¬ (s.proc p).Active) → s.mq talk.q1Name = none ∧ s.mq talk.q2Name = none) := by
  have hrun : (runFrom (System.step talk) .init comeAndGo).isSome = true := by decide
  obtain ⟨s, hs⟩ := Option.isSome_iff_exists.1 hrun
  exact ⟨s, hs, queue_ownership hs⟩

end Invariant

end EltexPractice.P2pChat
