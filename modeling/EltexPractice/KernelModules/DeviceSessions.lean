import EltexPractice.Foundations.Entries
import EltexPractice.Foundations.Schedule
import EltexPractice.KernelModules.CharDevice

/-!
# Processes at the character device

Any number of processes open `/dev/chardev`, read, write and close it, and the module is taken out
meanwhile. A turn is one access to `msg`, to `already_open` or to the reference count of the module.

The kernel calls `device_release` when no call on the file is in progress. `owner` is not set in
`chardev_fops`, so that the only references to the module are those that `device_open` takes, and it
takes none while the module is going. `read` and `write` work on a copy of the position of the file
and store it back when the driver has returned.

* `Running.moves`, `Session.moves`: what one turn can do.
* `Driver.Inv`: what holds between two turns.
* `Driver.law`: what holds for processes and module in every run, up to the first access outside
  `msg`, with which a run ends.
* `Driver.unloaded_iff`: when code of the module runs behind its end.
-/

namespace EltexPractice.CharDevice

open CString

/-! ## Calls on an open file -/

/-- What a call returns. -/
inductive Reply
  | opened
  | read (bytes : List UInt8)
  | wrote (ind : ℕ)
  deriving DecidableEq

/-- Where a call is. -/
inductive Running.Pc
  /-- `device_read`, before it looks at `*(msg_ptr + *offset)`. -/
  | first
  /-- Before the condition of the loop. -/
  | test (bytes : List UInt8)
  /-- Before `put_user`, which looks at `*msg_ptr` again. -/
  | put (bytes : List UInt8)
  /-- `memset` has cleared `i` bytes. -/
  | clear (i : ℕ)
  /-- The loop of `device_write`. -/
  | store (ind : ℕ)
  /-- The driver has returned, and left `*offset` like this. -/
  | back (reply : Reply) (offset : ℕ)
  | finished (reply : Reply)

/-- A call of a process. -/
structure Running where
  session : ℕ
  call : Call
  /-- `*offset` when the driver is called. -/
  start : ℕ
  pc : Running.Pc

/-- A call begins, on a file at the position `pos`. -/
def Call.begin (session pos : ℕ) : Call → Option Running
  | .write buff => some ⟨session, .write buff, pos, .clear 0⟩
  | .read length => some ⟨session, .read length, pos, .first⟩
  | .pread offset length => some ⟨session, .pread offset length, offset, .first⟩
  | .reopen => none

/-- The size of the buffer of a read. -/
def Call.length : Call → ℕ
  | .read length => length
  | .pread _ length => length
  | _ => 0

/-- The bytes of a write. -/
def Call.buff : Call → List UInt8
  | .write buff => buff
  | _ => []

/-- The position of the file is stored when the call is over. -/
def Call.movesFile : Call → Bool
  | .pread _ _ => false
  | _ => true

/-- The call is inside `device_read` or `device_write`. -/
def Running.Pc.inModule : Running.Pc → Bool
  | .back _ _ => false
  | .finished _ => false
  | _ => true

def Running.Pc.isFinished : Running.Pc → Bool
  | .finished _ => true
  | _ => false

/-- The bytes that have been put into the buffer of the user. -/
def Running.Pc.bytes : Running.Pc → List UInt8
  | .test bytes => bytes
  | .put bytes => bytes
  | .back (.read bytes) _ => bytes
  | .finished (.read bytes) => bytes
  | _ => []

/-- One access of a call, `none` when it is outside `msg`. -/
def Running.turn (msg : List UInt8) (r : Running) : Option (List UInt8 × Running) :=
  match r.pc with
  | .first => do
    let b ← msg[r.start]?
    if b = 0 then return (msg, { r with pc := .back (.read []) 0 })
    return (msg, { r with pc := .test [] })
  | .test bytes =>
    if bytes.length = r.call.length then
      some (msg, { r with pc := .back (.read bytes) (r.start + bytes.length) })
    else do
      let b ← msg[r.start + bytes.length]?
      if b = 0 then
        return (msg, { r with pc := .back (.read bytes) (r.start + bytes.length) })
      return (msg, { r with pc := .put bytes })
  | .put bytes => do
    let b ← msg[r.start + bytes.length]?
    return (msg, { r with pc := .test (bytes ++ [b]) })
  | .clear i =>
    some (msg.set i 0, { r with pc := if i + 1 < bufLen then .clear (i + 1) else .store 0 })
  | .store ind =>
    match r.call.buff[ind]? with
    | some b =>
      if ind < bufLen - 1 then some (msg.set ind b, { r with pc := .store (ind + 1) })
      else some (msg, { r with pc := .back (.wrote ind) r.start })
    | none => some (msg, { r with pc := .back (.wrote ind) r.start })
  | _ => some (msg, r)

/-! ## Opening and closing -/

/-- Where a process is with its file. -/
inductive Session.Pc
  /-- `device_open`, before `atomic_cmpxchg`. -/
  | cmpxchg
  /-- Before `return -EBUSY`. -/
  | busy
  /-- Before `try_module_get`. -/
  | tryGet
  /-- Before `return SUCCESS`. -/
  | success
  | opened
  /-- `device_release`, before `atomic_set`. -/
  | set
  /-- Before `module_put`. -/
  | put
  /-- Before `return SUCCESS`. -/
  | released
  | closed
  | refused
  deriving DecidableEq

structure Session where
  pc : Session.Pc
  /-- `try_module_get` has succeeded, and `module_put` has not been called. -/
  ref : Bool
  /-- `f_pos` -/
  pos : ℕ

/-- The process is inside `device_open` or `device_release`. -/
def Session.Pc.inModule : Session.Pc → Bool
  | .opened => false
  | .closed => false
  | .refused => false
  | _ => true

/-- The process has set `already_open` and not reset it. -/
def Session.Pc.holds : Session.Pc → Bool
  | .tryGet => true
  | .success => true
  | .opened => true
  | .set => true
  | _ => false

/-- A process with a file that can be read, or inside the driver. -/
def Session.Pc.uses (pc : Session.Pc) : Bool := pc.inModule || pc = .opened

/-- One access of `device_open` or `device_release` to `already_open` and the references. -/
def Session.turn (live alreadyOpen : Bool) (refs : ℕ) (x : Session) : Bool × ℕ × Session :=
  match x.pc with
  | .cmpxchg =>
    if alreadyOpen then (alreadyOpen, refs, { x with pc := .busy })
    else (true, refs, { x with pc := .tryGet })
  | .busy => (alreadyOpen, refs, { x with pc := .refused })
  | .tryGet =>
    if live then (alreadyOpen, refs + 1, { x with pc := .success, ref := true })
    else (alreadyOpen, refs, { x with pc := .success })
  | .success => (alreadyOpen, refs, { x with pc := .opened })
  | .set => (false, refs, { x with pc := .put })
  | .put => (alreadyOpen, refs - 1, { x with pc := .released, ref := false })
  | .released => (alreadyOpen, refs, { x with pc := .closed })
  | _ => (alreadyOpen, refs, x)

/-! ## The system -/

/-- Where the module is. -/
inductive Module
  | live
  /-- `rmmod` has found no reference. -/
  | going
  /-- `chardev_exit` has called `unregister_chrdev`. -/
  | unregistered
  | gone
  deriving DecidableEq

inductive Fault
  /-- The call `k` has looked outside `msg`. -/
  | outside (k : ℕ)
  /-- Code of the module has been run that is no longer there. -/
  | unloaded
  deriving DecidableEq

structure Driver where
  msg : List UInt8
  alreadyOpen : Bool
  refs : ℕ
  module : Module
  sessions : List Session
  calls : List Running
  /-- The calls that are over, with `reopen` for every `device_open` that has succeeded. -/
  history : List (Call × Reply)
  fault : Option Fault

/-- The module behind `chardev_init`. -/
def Driver.init : Driver := ⟨List.replicate bufLen 0, false, 0, .live, [], [], [], none⟩

inductive Action
  | open
  /-- The process `i` takes its next step in `device_open` or `device_release`. -/
  | session (i : ℕ)
  | request (i : ℕ) (c : Call)
  | call (k : ℕ)
  /-- The file of the process `i` is closed for the last time. -/
  | close (i : ℕ)
  /-- `delete_module` looks at the references. -/
  | rmmod
  | exit
  | free

/-- The process `i` has called the driver and the call is not over. -/
def Driver.inFlight (s : Driver) (i : ℕ) : Bool :=
  s.calls.any fun r => r.session = i && !r.pc.isFinished

/-- What an action does with the module in memory. -/
def Driver.act (s : Driver) : Action → Option Driver
  | .open =>
    if s.module = .live ∨ s.module = .going then
      some { s with sessions := s.sessions ++ [⟨.cmpxchg, false, 0⟩] }
    else none
  | .session i => do
    let x ← s.sessions[i]?
    if x.pc.inModule then
      let (alreadyOpen, refs, x') := x.turn (s.module = .live) s.alreadyOpen s.refs
      return { s with
        alreadyOpen, refs
        sessions := s.sessions.set i x'
        history := if x.pc = .success then s.history ++ [(.reopen, .opened)] else s.history }
    else none
  | .request i c => do
    let x ← s.sessions[i]?
    if x.pc = .opened then
      let r ← c.begin i x.pos
      return { s with calls := s.calls ++ [r] }
    else none
  | .call k => do
    let r ← s.calls[k]?
    match r.pc with
    | .finished _ => none
    | .back reply offset =>
      let x ← s.sessions[r.session]?
      return { s with
        calls := s.calls.set k { r with pc := .finished reply }
        sessions := s.sessions.set r.session
          { x with pos := if r.call.movesFile then offset else x.pos }
        history := s.history ++ [(r.call, reply)] }
    | _ =>
      match r.turn s.msg with
      | none => return { s with fault := some (.outside k) }
      | some (msg, r') => return { s with msg, calls := s.calls.set k r' }
  | .close i => do
    let x ← s.sessions[i]?
    if x.pc = .opened ∧ s.inFlight i = false then
      return { s with sessions := s.sessions.set i { x with pc := .set } }
    else none
  | .rmmod => if s.module = .live ∧ s.refs = 0 then some { s with module := .going } else none
  | .exit => if s.module = .going then some { s with module := .unregistered } else none
  | .free => if s.module = .unregistered then some { s with module := .gone } else none

/-- The action runs code of the module, or looks into its `chardev_fops`. -/
def Driver.needsModule (s : Driver) : Action → Bool
  | .session _ => true
  | .request _ _ => true
  | .close _ => true
  | .call k => s.calls[k]?.any fun r => r.pc.inModule
  | _ => false

/-- One action. After a fault there is none: a run ends with the first access outside `msg`. -/
def Driver.step (s : Driver) (a : Action) : Option Driver :=
  match s.fault with
  | some _ => none
  | none => (s.act a).map fun t =>
    if s.module = .gone ∧ s.needsModule a then { s with fault := some .unloaded } else t

/-! ## What one turn can do -/

/-- The turns of a call. -/
inductive Running.Moves (msg : List UInt8) (r : Running) : List UInt8 → Running → Prop
  | stop (hpc : r.pc = .first) (hget : msg[r.start]? = some 0) :
      Moves msg r msg { r with pc := .back (.read []) 0 }
  | start (b : UInt8) (hpc : r.pc = .first) (hget : msg[r.start]? = some b) (hb : b ≠ 0) :
      Moves msg r msg { r with pc := .test [] }
  | full (bytes : List UInt8) (hpc : r.pc = .test bytes)
      (hlen : bytes.length = r.call.length) :
      Moves msg r msg { r with pc := .back (.read bytes) (r.start + bytes.length) }
  | nul (bytes : List UInt8) (hpc : r.pc = .test bytes) (hlen : bytes.length ≠ r.call.length)
      (hget : msg[r.start + bytes.length]? = some 0) :
      Moves msg r msg { r with pc := .back (.read bytes) (r.start + bytes.length) }
  | more (bytes : List UInt8) (b : UInt8) (hpc : r.pc = .test bytes)
      (hlen : bytes.length ≠ r.call.length) (hget : msg[r.start + bytes.length]? = some b)
      (hb : b ≠ 0) : Moves msg r msg { r with pc := .put bytes }
  | put (bytes : List UInt8) (b : UInt8) (hpc : r.pc = .put bytes)
      (hget : msg[r.start + bytes.length]? = some b) :
      Moves msg r msg { r with pc := .test (bytes ++ [b]) }
  | clear (i : ℕ) (hpc : r.pc = .clear i) :
      Moves msg r (msg.set i 0)
        { r with pc := if i + 1 < bufLen then .clear (i + 1) else .store 0 }
  | store (ind : ℕ) (b : UInt8) (hpc : r.pc = .store ind) (hget : r.call.buff[ind]? = some b)
      (hind : ind < bufLen - 1) :
      Moves msg r (msg.set ind b) { r with pc := .store (ind + 1) }
  | wrote (ind : ℕ) (hpc : r.pc = .store ind)
      (hend : r.call.buff.length ≤ ind ∨ bufLen - 1 ≤ ind) :
      Moves msg r msg { r with pc := .back (.wrote ind) r.start }

theorem Running.moves {msg msg' : List UInt8} {r r' : Running} (hin : r.pc.inModule)
    (h : r.turn msg = some (msg', r')) : r.Moves msg msg' r' := by
  rw [Running.turn] at h
  split at h
  · rename_i hpc
    obtain ⟨b, hget, h⟩ := Option.bind_eq_some_iff.1 h
    split at h
    · rename_i hb
      obtain ⟨rfl, rfl⟩ := Prod.mk.inj (Option.some.inj h)
      exact .stop hpc (hb ▸ hget)
    · rename_i hb
      obtain ⟨rfl, rfl⟩ := Prod.mk.inj (Option.some.inj h)
      exact .start b hpc hget hb
  · rename_i bytes hpc
    split at h
    · rename_i hlen
      obtain ⟨rfl, rfl⟩ := Prod.mk.inj (Option.some.inj h)
      exact .full bytes hpc hlen
    · rename_i hlen
      obtain ⟨b, hget, h⟩ := Option.bind_eq_some_iff.1 h
      split at h
      · rename_i hb
        obtain ⟨rfl, rfl⟩ := Prod.mk.inj (Option.some.inj h)
        exact .nul bytes hpc hlen (hb ▸ hget)
      · rename_i hb
        obtain ⟨rfl, rfl⟩ := Prod.mk.inj (Option.some.inj h)
        exact .more bytes b hpc hlen hget hb
  · rename_i bytes hpc
    obtain ⟨b, hget, h⟩ := Option.bind_eq_some_iff.1 h
    obtain ⟨rfl, rfl⟩ := Prod.mk.inj (Option.some.inj h)
    exact .put bytes b hpc hget
  · rename_i i hpc
    obtain ⟨rfl, rfl⟩ := Prod.mk.inj (Option.some.inj h)
    exact .clear i hpc
  · rename_i ind hpc
    split at h
    · rename_i b hget
      split at h
      · rename_i hind
        obtain ⟨rfl, rfl⟩ := Prod.mk.inj (Option.some.inj h)
        exact .store ind b hpc hget hind
      · rename_i hind
        obtain ⟨rfl, rfl⟩ := Prod.mk.inj (Option.some.inj h)
        exact .wrote ind hpc (Or.inr (Nat.le_of_not_lt hind))
    · rename_i hget
      obtain ⟨rfl, rfl⟩ := Prod.mk.inj (Option.some.inj h)
      exact .wrote ind hpc (Or.inl (List.getElem?_eq_none_iff.1 hget))
  · cases hpc : r.pc <;> simp_all [Running.Pc.inModule]

/-- The turns of a process in `device_open` and `device_release`. -/
inductive Session.Moves (live : Bool) (refs : ℕ) (x : Session) :
    Bool → Bool → ℕ → Session → Prop
  | taken (hpc : x.pc = .cmpxchg) : Moves live refs x true true refs { x with pc := .busy }
  | take (hpc : x.pc = .cmpxchg) : Moves live refs x false true refs { x with pc := .tryGet }
  | busy (hpc : x.pc = .busy) (b : Bool) : Moves live refs x b b refs { x with pc := .refused }
  | get (hpc : x.pc = .tryGet) (hlive : live) (b : Bool) :
      Moves live refs x b b (refs + 1) { x with pc := .success, ref := true }
  | miss (hpc : x.pc = .tryGet) (hlive : live = false) (b : Bool) :
      Moves live refs x b b refs { x with pc := .success }
  | success (hpc : x.pc = .success) (b : Bool) :
      Moves live refs x b b refs { x with pc := .opened }
  | set (hpc : x.pc = .set) (b : Bool) : Moves live refs x b false refs { x with pc := .put }
  | put (hpc : x.pc = .put) (b : Bool) :
      Moves live refs x b b (refs - 1) { x with pc := .released, ref := false }
  | released (hpc : x.pc = .released) (b : Bool) :
      Moves live refs x b b refs { x with pc := .closed }

theorem Session.moves {live b : Bool} {refs : ℕ} {x : Session} (hin : x.pc.inModule) :
    x.Moves live refs b (x.turn live b refs).1 (x.turn live b refs).2.1
      (x.turn live b refs).2.2 := by
  rw [Session.turn]
  cases hpc : x.pc with
  | cmpxchg =>
    cases b with
    | true => exact .taken hpc
    | false => exact .take hpc
  | busy => exact .busy hpc b
  | tryGet =>
    cases live with
    | true => exact .get hpc rfl b
    | false => exact .miss hpc rfl b
  | success => exact .success hpc b
  | set => exact .set hpc b
  | put => exact .put hpc b
  | released => exact .released hpc b
  | _ => simp [hpc, Session.Pc.inModule] at hin

/-- What an action does when the module is in memory. -/
inductive Driver.Moves (s : Driver) : Action → Driver → Prop
  | open (hmodule : s.module = .live ∨ s.module = .going) :
      Moves s .open { s with sessions := s.sessions ++ [⟨.cmpxchg, false, 0⟩] }
  | session (i : ℕ) (x x' : Session) (alreadyOpen : Bool) (refs : ℕ)
      (hget : s.sessions[i]? = some x) (hin : x.pc.inModule)
      (hturn : x.Moves (s.module = .live) s.refs s.alreadyOpen alreadyOpen refs x') :
      Moves s (.session i) { s with
        alreadyOpen, refs
        sessions := s.sessions.set i x'
        history := if x.pc = .success then s.history ++ [(.reopen, .opened)] else s.history }
  | request (i : ℕ) (c : Call) (x : Session) (r : Running) (hget : s.sessions[i]? = some x)
      (hpc : x.pc = .opened) (hbegin : c.begin i x.pos = some r) :
      Moves s (.request i c) { s with calls := s.calls ++ [r] }
  | outside (k : ℕ) (r : Running) (hget : s.calls[k]? = some r) (hin : r.pc.inModule)
      (hturn : r.turn s.msg = none) : Moves s (.call k) { s with fault := some (.outside k) }
  | call (k : ℕ) (r r' : Running) (msg : List UInt8) (hget : s.calls[k]? = some r)
      (hin : r.pc.inModule) (hturn : r.Moves s.msg msg r') :
      Moves s (.call k) { s with msg, calls := s.calls.set k r' }
  | back (k : ℕ) (r : Running) (x : Session) (reply : Reply) (offset : ℕ)
      (hget : s.calls[k]? = some r) (hpc : r.pc = .back reply offset)
      (hsession : s.sessions[r.session]? = some x) :
      Moves s (.call k) { s with
        calls := s.calls.set k { r with pc := .finished reply }
        sessions := s.sessions.set r.session
          { x with pos := if r.call.movesFile then offset else x.pos }
        history := s.history ++ [(r.call, reply)] }
  | close (i : ℕ) (x : Session) (hget : s.sessions[i]? = some x) (hpc : x.pc = .opened)
      (hidle : s.inFlight i = false) :
      Moves s (.close i) { s with sessions := s.sessions.set i { x with pc := .set } }
  | rmmod (hlive : s.module = .live) (hrefs : s.refs = 0) :
      Moves s .rmmod { s with module := .going }
  | exit (hgoing : s.module = .going) : Moves s .exit { s with module := .unregistered }
  | free (hmodule : s.module = .unregistered) : Moves s .free { s with module := .gone }

theorem Driver.moves {s t : Driver} {a : Action} (h : s.act a = some t) : s.Moves a t := by
  cases a with
  | «open» =>
    rw [Driver.act] at h
    split at h
    · rename_i hmodule
      obtain rfl := Option.some.inj h
      exact .open hmodule
    · cases h
  | session i =>
    obtain ⟨x, hget, h⟩ := Option.bind_eq_some_iff.1 h
    split at h
    · rename_i hin
      obtain rfl := Option.some.inj h
      exact .session i x _ _ _ hget hin (Session.moves hin)
    · cases h
  | request i c =>
    obtain ⟨x, hget, h⟩ := Option.bind_eq_some_iff.1 h
    split at h
    · rename_i hpc
      obtain ⟨r, hbegin, h⟩ := Option.bind_eq_some_iff.1 h
      obtain rfl := Option.some.inj h
      exact .request i c x r hget hpc hbegin
    · cases h
  | call k =>
    obtain ⟨r, hget, h⟩ := Option.bind_eq_some_iff.1 h
    split at h
    · cases h
    · rename_i reply offset hpc
      obtain ⟨x, hsession, h⟩ := Option.bind_eq_some_iff.1 h
      obtain rfl := Option.some.inj h
      exact .back k r x reply offset hget hpc hsession
    · rename_i hfinished hback
      have hin : r.pc.inModule := by
        cases hpc : r.pc with
        | finished reply => exact absurd hpc (hfinished reply)
        | back reply offset => exact absurd hpc (hback reply offset)
        | _ => rfl
      split at h
      · rename_i hturn
        obtain rfl := Option.some.inj h
        exact .outside k r hget hin hturn
      · rename_i msg r' hturn
        obtain rfl := Option.some.inj h
        exact .call k r r' msg hget hin (Running.moves hin hturn)
  | close i =>
    obtain ⟨x, hget, h⟩ := Option.bind_eq_some_iff.1 h
    split at h
    · rename_i hcond
      obtain rfl := Option.some.inj h
      exact .close i x hget hcond.1 hcond.2
    · cases h
  | rmmod =>
    rw [Driver.act] at h
    split at h
    · rename_i hcond
      obtain rfl := Option.some.inj h
      exact .rmmod hcond.1 hcond.2
    · cases h
  | exit =>
    rw [Driver.act] at h
    split at h
    · rename_i hgoing
      obtain rfl := Option.some.inj h
      exact .exit hgoing
    · cases h
  | free =>
    rw [Driver.act] at h
    split at h
    · rename_i hmodule
      obtain rfl := Option.some.inj h
      exact .free hmodule
    · cases h

/-! ## What the processes have of the module -/

/-- The process is between `try_module_get` and `module_put`. -/
def Session.Pc.between : Session.Pc → Bool
  | .success => true
  | .opened => true
  | .set => true
  | .put => true
  | _ => false

/-- What holds of one process. One without a reference has come too late for it. -/
structure Session.Inv (live : Bool) (x : Session) : Prop where
  pos : x.pos < bufLen
  between : x.ref → x.pc.between
  late : x.pc.between → x.ref = false → live = false

/-- `already_open` says whether a process has the device, and the references are those of the
processes. -/
structure Openings (alreadyOpen : Bool) (refs : ℕ) (live : Bool) (sessions : List Session) :
    Prop where
  holders : sessions.countP (·.pc.holds) = alreadyOpen.toNat
  counted : sessions.countP (·.ref) = refs
  away : live = false → refs = 0
  each : ∀ x ∈ sessions, x.Inv live

namespace Openings

variable {b b' live : Bool} {refs refs' i : ℕ} {sessions : List Session} {x x' : Session}

theorem init : Openings false 0 true [] where
  holders := rfl
  counted := rfl
  away := by simp
  each := by simp

theorem begin (h : Openings b refs live sessions) :
    Openings b refs live (sessions ++ [⟨.cmpxchg, false, 0⟩]) where
  holders := by simpa [Session.Pc.holds] using h.holders
  counted := by simpa using h.counted
  away := h.away
  each := by
    refine List.forall_mem_append.2 ⟨h.each, fun x hx => ?_⟩
    obtain rfl := List.mem_singleton.1 hx
    exact ⟨by decide, by simp, by simp [Session.Pc.between]⟩

/-- A process whose place, reference or position changes. -/
theorem set (h : Openings b refs live sessions) (hget : sessions[i]? = some x)
    (hholds : b'.toNat + x.pc.holds.toNat = b.toNat + x'.pc.holds.toNat)
    (hrefs : refs' + x.ref.toNat = refs + x'.ref.toNat) (haway : live = false → refs' = 0)
    (hx' : x'.Inv live) : Openings b' refs' live (sessions.set i x') where
  holders := by
    have hcount := countP_set_add (p := fun x : Session => x.pc.holds) hget x'
    have hbefore := h.holders
    omega
  counted := by
    have hcount := countP_set_add (p := fun x : Session => x.ref) hget x'
    have hbefore := h.counted
    omega
  away := haway
  each y hy := by
    rcases List.mem_or_eq_of_mem_set hy with hy | rfl
    · exact h.each y hy
    · exact hx'

/-- At most one process has the device. -/
theorem eq_of_holds (h : Openings b refs live sessions) {j : ℕ} (hi : sessions[i]? = some x)
    (hj : sessions[j]? = some x') (hx : x.pc.holds) (hx' : x'.pc.holds) : i = j := by
  refine eq_of_countP_le_one (p := fun x : Session => x.pc.holds) ?_ hi hj hx hx'
  rw [h.holders]
  exact Bool.toNat_le b

theorem flag_iff (h : Openings b refs live sessions) : b = true ↔ ∃ x ∈ sessions, x.pc.holds := by
  rw [← List.countP_pos_iff (p := fun x : Session => x.pc.holds), h.holders]
  cases b <;> simp

/-- A reference of a process is among those that are counted. -/
theorem refs_pos (h : Openings b refs live sessions) (hget : sessions[i]? = some x)
    (href : x.ref) : 0 < refs := by
  rw [← h.counted]
  exact countP_pos_of_getElem? hget href

theorem turn (h : Openings b refs live sessions) (hget : sessions[i]? = some x)
    (hturn : x.Moves live refs b b' refs' x') : Openings b' refs' live (sessions.set i x') := by
  have hx := h.each x (List.mem_of_getElem? hget)
  have hout : x.pc.between = false → x.ref = false := fun hbetween => by
    rw [← Bool.not_eq_true]
    exact fun href => Bool.false_ne_true (hbetween.symm.trans (hx.between href))
  cases hturn with
  | taken hpc =>
    have href := hout (by rw [hpc]; rfl)
    exact h.set hget (by simp [hpc, Session.Pc.holds]) rfl h.away
      ⟨hx.pos, by simp [href], by simp [Session.Pc.between]⟩
  | take hpc =>
    have href := hout (by rw [hpc]; rfl)
    exact h.set hget (by simp [hpc, Session.Pc.holds]) rfl h.away
      ⟨hx.pos, by simp [href], by simp [Session.Pc.between]⟩
  | busy hpc =>
    have href := hout (by rw [hpc]; rfl)
    exact h.set hget (by simp [hpc, Session.Pc.holds]) rfl h.away
      ⟨hx.pos, by simp [href], by simp [Session.Pc.between]⟩
  | get hpc hlive =>
    have href := hout (by rw [hpc]; rfl)
    exact h.set hget (by simp [hpc, Session.Pc.holds]) (by simp [href]) (by simp [hlive])
      ⟨hx.pos, by simp [Session.Pc.between], by simp⟩
  | miss hpc hlive =>
    have href := hout (by rw [hpc]; rfl)
    exact h.set hget (by simp [hpc, Session.Pc.holds]) rfl h.away
      ⟨hx.pos, by simp [href], fun _ _ => hlive⟩
  | success hpc =>
    exact h.set hget (by simp [hpc, Session.Pc.holds]) rfl h.away
      ⟨hx.pos, by simp [Session.Pc.between], fun _ => hx.late (by rw [hpc]; rfl)⟩
  | set hpc =>
    have hb : b = true := h.flag_iff.2 ⟨x, List.mem_of_getElem? hget, by rw [hpc]; rfl⟩
    exact h.set hget (by simp [hpc, hb, Session.Pc.holds]) rfl h.away
      ⟨hx.pos, by simp [Session.Pc.between], fun _ => hx.late (by rw [hpc]; rfl)⟩
  | put hpc =>
    refine h.set hget (by simp [hpc, Session.Pc.holds]) ?_ (fun hlive => ?_)
      ⟨hx.pos, by simp, by simp [Session.Pc.between]⟩
    · -- `module_put` leaves a count of 0 alone
      cases href : x.ref with
      | true =>
        have hpos := h.refs_pos hget href
        simp only [Bool.toNat_true, Bool.toNat_false]
        omega
      | false =>
        have hzero := h.away (hx.late (by rw [hpc]; rfl) href)
        simp [hzero]
    · rw [h.away hlive]
  | released hpc =>
    have href := hout (by rw [hpc]; rfl)
    exact h.set hget (by simp [hpc, Session.Pc.holds]) rfl h.away
      ⟨hx.pos, by simp [href], by simp [Session.Pc.between]⟩

/-- `device_release` is called. -/
theorem close (h : Openings b refs live sessions) (hget : sessions[i]? = some x)
    (hpc : x.pc = .opened) : Openings b refs live (sessions.set i { x with pc := .set }) := by
  have hx := h.each x (List.mem_of_getElem? hget)
  exact h.set hget (by simp [hpc, Session.Pc.holds]) rfl h.away
    ⟨hx.pos, by simp [Session.Pc.between], fun _ => hx.late (by rw [hpc]; rfl)⟩

/-- The position of a file is stored. -/
theorem seek (h : Openings b refs live sessions) (hget : sessions[i]? = some x) {pos : ℕ}
    (hpos : pos < bufLen) : Openings b refs live (sessions.set i { x with pos }) := by
  have hx := h.each x (List.mem_of_getElem? hget)
  exact h.set hget rfl rfl h.away ⟨hpos, hx.between, hx.late⟩

/-- The module is going. -/
theorem leave (h : Openings b refs live sessions) (hrefs : refs = 0) :
    Openings b refs false sessions where
  holders := h.holders
  counted := h.counted
  away _ := hrefs
  each x hx := ⟨(h.each x hx).pos, (h.each x hx).between, fun _ _ => rfl⟩

end Openings

/-! ## What the calls do to `msg` -/

/-- What a call may return. -/
def Reply.Fits (r : Running) : Reply → Prop
  | .opened => True
  | .read bytes => bytes.length ≤ r.call.length ∧ (bytes = [] ∨ r.start + bytes.length < bufLen)
  | .wrote ind => ind = min (bufLen - 1) r.call.buff.length

/-- Where a call is in `msg`. -/
def Running.Pc.Inside (r : Running) : Running.Pc → Prop
  | .first => True
  | .test bytes => r.start + bytes.length < bufLen ∧ bytes.length ≤ r.call.length
  | .put bytes => r.start + bytes.length < bufLen - 1 ∧ bytes.length < r.call.length
  | .clear i => i < bufLen
  | .store ind => ind ≤ bufLen - 1 ∧ ind ≤ r.call.buff.length
  | .back reply offset => (r.call.movesFile → offset < bufLen) ∧ reply.Fits r
  | .finished reply => reply.Fits r

/-- What holds of one call. -/
structure Running.Inv (r : Running) : Prop where
  start : r.call.movesFile → r.start < bufLen
  inside : r.pc.Inside r

/-- The byte is 0, or a write has it at this place. -/
def Stored (calls : List Call) (i : ℕ) (b : UInt8) : Prop :=
  b = 0 ∨ ∃ c ∈ calls, c.buff[i]? = some b

theorem Stored.append {calls : List Call} {i : ℕ} {b : UInt8} (h : Stored calls i b)
    (more : List Call) : Stored (calls ++ more) i b := by
  rcases h with h0 | ⟨c, hc, hb⟩
  · exact Or.inl h0
  · exact Or.inr ⟨c, List.mem_append_left _ hc, hb⟩

/-- What holds of `msg` and the calls. -/
structure Memory (msg : List UInt8) (calls : List Running) : Prop where
  length : msg.length = bufLen
  last : msg[bufLen - 1]? = some 0
  each : ∀ r ∈ calls, r.Inv
  stored : ∀ i b, msg[i]? = some b → Stored (calls.map (·.call)) i b
  replied : ∀ r ∈ calls, ∀ k b, r.pc.bytes[k]? = some b →
    Stored (calls.map (·.call)) (r.start + k) b

section Turn

variable {msg msg' : List UInt8} {r r' : Running}

theorem Running.Moves.same (h : r.Moves msg msg' r') :
    r'.session = r.session ∧ r'.call = r.call ∧ r'.start = r.start := by
  cases h <;> exact ⟨rfl, rfl, rfl⟩

theorem Running.Moves.length (h : r.Moves msg msg' r') : msg'.length = msg.length := by
  cases h <;> simp

/-- The last byte stays 0. -/
theorem Running.Moves.last (h : r.Moves msg msg' r') (hlast : msg[bufLen - 1]? = some 0) :
    msg'[bufLen - 1]? = some 0 := by
  cases h with
  | clear i hpc =>
    rw [List.getElem?_set]
    split
    · have hlt := (List.getElem?_eq_some_iff.1 hlast).1
      rename_i heq
      rw [if_pos (heq ▸ hlt)]
    · exact hlast
  | store ind b hpc hget hind =>
    rw [List.getElem?_set_ne (by omega)]
    exact hlast
  | _ => exact hlast

/-- A byte was there, is 0, or comes from the write. -/
theorem Running.Moves.msg_cases (h : r.Moves msg msg' r') {i : ℕ} {b : UInt8}
    (hb : msg'[i]? = some b) : msg[i]? = some b ∨ b = 0 ∨ r.call.buff[i]? = some b := by
  cases h with
  | clear j hpc =>
    rcases cases_of_getElem?_set hb with ⟨-, rfl⟩ | ⟨-, hold⟩
    · exact Or.inr (Or.inl rfl)
    · exact Or.inl hold
  | store ind a hpc hget hind =>
    rcases cases_of_getElem?_set hb with ⟨rfl, rfl⟩ | ⟨-, hold⟩
    · exact Or.inr (Or.inr hget)
    · exact Or.inl hold
  | _ => exact Or.inl hb

/-- A byte that is put comes from its place in `msg`. -/
theorem Running.Moves.bytes_cases (h : r.Moves msg msg' r') {k : ℕ} {b : UInt8}
    (hb : r'.pc.bytes[k]? = some b) : r.pc.bytes[k]? = some b ∨ msg[r.start + k]? = some b := by
  cases h with
  | full bytes hpc hlen =>
    rw [hpc]
    exact Or.inl hb
  | nul bytes hpc hlen hget =>
    rw [hpc]
    exact Or.inl hb
  | more bytes a hpc hlen hget ha =>
    rw [hpc]
    exact Or.inl hb
  | put bytes a hpc hget =>
    rw [hpc]
    rcases cases_of_getElem?_concat hb with hold | ⟨rfl, rfl⟩
    · exact Or.inl hold
    · exact Or.inr hget
  | clear i hpc =>
    simp only at hb
    split at hb <;> simp [Running.Pc.bytes] at hb
  | _ => simp [Running.Pc.bytes] at hb

theorem Running.Moves.inv (h : r.Moves msg msg' r') (hlen : msg.length = bufLen)
    (hlast : msg[bufLen - 1]? = some 0) (hr : r.Inv) : r'.Inv := by
  have hstart := hr.start
  have hin := hr.inside
  cases h with
  | stop hpc hget =>
    exact ⟨hstart, fun _ => by decide, Nat.zero_le _, Or.inl rfl⟩
  | start b hpc hget hb =>
    have hlt := (List.getElem?_eq_some_iff.1 hget).1
    rw [hlen] at hlt
    exact ⟨hstart, hlt, Nat.zero_le _⟩
  | full bytes hpc hend =>
    rw [hpc] at hin
    exact ⟨hstart, fun _ => hin.1, hin.2, Or.inr hin.1⟩
  | nul bytes hpc hend hget =>
    rw [hpc] at hin
    exact ⟨hstart, fun _ => hin.1, hin.2, Or.inr hin.1⟩
  | more bytes b hpc hend hget hb =>
    rw [hpc] at hin
    obtain ⟨hlt, hle⟩ := hin
    -- the byte at the end of `msg` is 0
    have hne : r.start + bytes.length ≠ bufLen - 1 := by
      intro heq
      rw [heq, hlast] at hget
      exact hb (Option.some.inj hget).symm
    exact ⟨hstart, lt_of_le_of_ne (Nat.le_sub_one_of_lt hlt) hne, lt_of_le_of_ne hle hend⟩
  | put bytes b hpc hget =>
    rw [hpc] at hin
    obtain ⟨hlt, hle⟩ := hin
    have hnext : r.start + (bytes.length + 1) < bufLen := by omega
    refine ⟨hstart, ?_⟩
    rw [Running.Pc.Inside, List.length_append, List.length_singleton]
    exact ⟨hnext, hle⟩
  | clear i hpc =>
    refine ⟨hstart, ?_⟩
    simp only
    split
    · assumption
    · exact ⟨Nat.zero_le _, Nat.zero_le _⟩
  | store ind b hpc hget hind =>
    have hlt := (List.getElem?_eq_some_iff.1 hget).1
    exact ⟨hstart, hind, hlt⟩
  | wrote ind hpc hend =>
    rw [hpc] at hin
    obtain ⟨hle, hle'⟩ := hin
    refine ⟨hstart, hstart, ?_⟩
    change ind = min (bufLen - 1) r.call.buff.length
    omega

/-- Only a `pread` that starts outside `msg` looks outside. -/
theorem Running.starts_outside (hturn : r.turn msg = none) (hlen : msg.length = bufLen)
    (hr : r.Inv) :
    r.call.movesFile = false ∧ r.pc = .first ∧ bufLen ≤ r.start := by
  have hin' := hr.inside
  rw [Running.turn] at hturn
  split at hturn
  · rename_i hpc
    have hout : bufLen ≤ r.start := by
      cases hget : msg[r.start]? with
      | none => exact hlen ▸ List.getElem?_eq_none_iff.1 hget
      | some b =>
        rw [hget] at hturn
        simp only [Option.bind_eq_bind, Option.bind_some] at hturn
        split at hturn <;> cases hturn
    refine ⟨?_, hpc, hout⟩
    cases hmoves : r.call.movesFile with
    | false => rfl
    | true => exact absurd (hr.start hmoves) (by omega)
  · rename_i bytes hpc
    rw [hpc] at hin'
    rw [List.getElem?_eq_getElem (hlen ▸ hin'.1)] at hturn
    simp only [Option.bind_eq_bind, Option.bind_some] at hturn
    split at hturn
    · cases hturn
    · split at hturn <;> cases hturn
  · rename_i bytes hpc
    rw [hpc] at hin'
    have hlt : r.start + bytes.length < msg.length := by
      rw [hlen]
      exact lt_of_lt_of_le hin'.1 (Nat.sub_le _ _)
    rw [List.getElem?_eq_getElem hlt] at hturn
    cases hturn
  · cases hturn
  · split at hturn
    · split at hturn <;> cases hturn
    · cases hturn
  · cases hturn

end Turn

namespace Memory

variable {msg msg' : List UInt8} {calls : List Running} {r r' : Running} {k : ℕ}

theorem init : Memory (List.replicate bufLen 0) [] where
  length := List.length_replicate
  last := rfl
  each := by simp
  stored i b hb := Or.inl (List.eq_of_mem_replicate (List.mem_of_getElem? hb))
  replied := by simp

/-- A call changes without changing `msg`. -/
theorem set (h : Memory msg calls) (hget : calls[k]? = some r)
    (hsame : r'.call = r.call ∧ r'.start = r.start) (hbytes : r'.pc.bytes = r.pc.bytes)
    (hr' : r'.Inv) : Memory msg (calls.set k r') where
  length := h.length
  last := h.last
  each y hy := by
    rcases List.mem_or_eq_of_mem_set hy with hy | rfl
    · exact h.each y hy
    · exact hr'
  stored i b hb := by
    rw [map_set_of_eq hget hsame.1]
    exact h.stored i b hb
  replied y hy j b hb := by
    rw [map_set_of_eq hget hsame.1]
    rcases List.mem_or_eq_of_mem_set hy with hy | rfl
    · exact h.replied y hy j b hb
    · rw [hsame.2]
      exact h.replied r (List.mem_of_getElem? hget) j b (hbytes ▸ hb)

theorem turn (h : Memory msg calls) (hget : calls[k]? = some r) (hturn : r.Moves msg msg' r') :
    Memory msg' (calls.set k r') := by
  obtain ⟨-, hcall, hstart⟩ := hturn.same
  have hmem := List.mem_of_getElem? hget
  have hcalls : (calls.set k r').map (·.call) = calls.map (·.call) := map_set_of_eq hget hcall
  refine ⟨hturn.length.trans h.length, hturn.last h.last, fun y hy => ?_, fun i b hb => ?_,
    fun y hy j b hb => ?_⟩
  · rcases List.mem_or_eq_of_mem_set hy with hy | rfl
    · exact h.each y hy
    · exact hturn.inv h.length h.last (h.each r hmem)
  · rw [hcalls]
    rcases hturn.msg_cases hb with hold | h0 | hbuff
    · exact h.stored i b hold
    · exact Or.inl h0
    · exact Or.inr ⟨r.call, List.mem_map_of_mem hmem, hbuff⟩
  · rw [hcalls]
    rcases List.mem_or_eq_of_mem_set hy with hy | rfl
    · exact h.replied y hy j b hb
    · rw [hstart]
      rcases hturn.bytes_cases hb with hold | hnew
      · exact h.replied r hmem j b hold
      · exact h.stored _ b hnew

/-- A call begins. -/
theorem request (h : Memory msg calls) {i pos : ℕ} {c : Call} (hpos : pos < bufLen)
    (hbegin : c.begin i pos = some r) : Memory msg (calls ++ [r]) := by
  have hr : r.Inv ∧ r.pc.bytes = [] := by
    cases c with
    | write buff =>
      obtain rfl := Option.some.inj hbegin
      exact ⟨⟨fun _ => hpos, Nat.succ_pos _⟩, rfl⟩
    | read length =>
      obtain rfl := Option.some.inj hbegin
      exact ⟨⟨fun _ => hpos, trivial⟩, rfl⟩
    | pread offset length =>
      obtain rfl := Option.some.inj hbegin
      exact ⟨⟨by simp [Call.movesFile], trivial⟩, rfl⟩
    | reopen => cases hbegin
  have hcalls : (calls ++ [r]).map (·.call) = calls.map (·.call) ++ [r.call] := by simp
  refine ⟨h.length, h.last, ?_, fun j b hb => ?_, fun y hy j b hb => ?_⟩
  · refine List.forall_mem_append.2 ⟨h.each, fun y hy => ?_⟩
    obtain rfl := List.mem_singleton.1 hy
    exact hr.1
  · rw [hcalls]
    exact (h.stored j b hb).append _
  · rw [hcalls]
    rcases List.mem_append.1 hy with hy | hy
    · exact (h.replied y hy j b hb).append _
    · obtain rfl := List.mem_singleton.1 hy
      rw [hr.2] at hb
      cases hb

end Memory

/-! ## Every run -/

/-- Both halves together. -/
structure Driver.Inv (s : Driver) : Prop where
  openings : Openings s.alreadyOpen s.refs (s.module = .live) s.sessions
  memory : Memory s.msg s.calls
  files : ∀ r ∈ s.calls, r.pc.isFinished = false →
    ∃ x, s.sessions[r.session]? = some x ∧ x.pc = .opened
  pread : ∀ r ∈ s.calls, r.call.movesFile = false → ∃ length, r.call = .pread r.start length
  outside : ∀ k, s.fault = some (.outside k) →
    ∃ r, s.calls[k]? = some r ∧ r.call.movesFile = false ∧ bufLen ≤ r.start
  unloaded : s.fault = some .unloaded →
    s.module = .gone ∧ ∃ x ∈ s.sessions, x.pc.uses

/-- A step is a turn of the system, or the module is no longer there. -/
theorem Driver.step_cases {s t : Driver} {a : Action} (h : s.step a = some t) :
    s.fault = none ∧ (s.Moves a t ∧ (s.module = .gone → s.needsModule a = false) ∨
      s.module = .gone ∧ s.needsModule a ∧ (s.act a).isSome ∧
        t = { s with fault := some .unloaded }) := by
  rw [Driver.step] at h
  split at h
  · cases h
  · rename_i hfault
    obtain ⟨t', hact, h⟩ := Option.map_eq_some_iff.1 h
    refine ⟨hfault, ?_⟩
    split at h
    · rename_i hgone
      exact Or.inr ⟨hgone.1, hgone.2, by rw [hact]; rfl, h.symm⟩
    · rename_i hthere
      refine Or.inl ⟨h ▸ moves hact, fun hgone => ?_⟩
      rw [← Bool.not_eq_true]
      exact fun hneeds => hthere ⟨hgone, hneeds⟩

namespace Driver.Inv

variable {s t : Driver} {a : Action}

theorem init : Driver.init.Inv where
  openings := .init
  memory := .init
  files := by simp [Driver.init]
  pread := by simp [Driver.init]
  outside := by simp [Driver.init]
  unloaded := by simp [Driver.init]

/-- The file of a call is another than the one whose process has moved. -/
theorem ne_of_pc (hs : s.Inv) {r : Running} (hr : r ∈ s.calls) (hpc : r.pc.isFinished = false)
    {i : ℕ} {x : Session} (hget : s.sessions[i]? = some x) (hx : x.pc ≠ .opened) :
    r.session ≠ i := by
  rintro rfl
  obtain ⟨y, hy, hopened⟩ := hs.files r hr hpc
  obtain rfl := Option.some.inj (hget.symm.trans hy)
  exact hx hopened

/-- Files of calls, when one process moves that has no call on its file. -/
theorem files_set (hs : s.Inv) {i : ℕ} (x' : Session)
    (hne : ∀ r ∈ s.calls, r.pc.isFinished = false → r.session ≠ i) :
    ∀ r ∈ s.calls, r.pc.isFinished = false →
      ∃ x, (s.sessions.set i x')[r.session]? = some x ∧ x.pc = .opened := by
  intro r hr hpc
  obtain ⟨y, hy, hopened⟩ := hs.files r hr hpc
  exact ⟨y, by rw [List.getElem?_set_ne (hne r hr hpc).symm, hy], hopened⟩

theorem moves (hs : s.Inv) (hfault : s.fault = none) (h : s.Moves a t) : t.Inv := by
  have houtside : ∀ k, s.fault = some (.outside k) → False := by simp [hfault]
  have hunloaded : s.fault = some .unloaded → False := by simp [hfault]
  cases h with
  | «open» hmodule =>
    refine ⟨hs.openings.begin, hs.memory, fun r hr hpc => ?_, hs.pread,
      fun k hk => (houtside k hk).elim, fun hk => (hunloaded hk).elim⟩
    obtain ⟨y, hy, hopened⟩ := hs.files r hr hpc
    have hlt := (List.getElem?_eq_some_iff.1 hy).1
    exact ⟨y, by rw [List.getElem?_append_left hlt, hy], hopened⟩
  | session i x x' alreadyOpen refs hget hin hturn =>
    have hx : x.pc ≠ .opened := by
      intro hpc
      rw [hpc] at hin
      cases hin
    exact ⟨hs.openings.turn hget hturn, hs.memory,
      hs.files_set x' fun r hr hpc => hs.ne_of_pc hr hpc hget hx, hs.pread,
      fun k hk => (houtside k hk).elim, fun hk => (hunloaded hk).elim⟩
  | request i c x r hget hpc hbegin =>
    have hpos := (hs.openings.each x (List.mem_of_getElem? hget)).pos
    have hr : r.session = i ∧ (r.call.movesFile = false → ∃ l, r.call = .pread r.start l) := by
      cases c with
      | reopen => cases hbegin
      | _ =>
        obtain rfl := Option.some.inj hbegin
        simp [Call.movesFile]
    refine ⟨hs.openings, hs.memory.request hpos hbegin, ?_, ?_,
      fun k hk => (houtside k hk).elim, fun hk => (hunloaded hk).elim⟩
    · refine List.forall_mem_append.2 ⟨hs.files, fun y hy _ => ?_⟩
      obtain rfl := List.mem_singleton.1 hy
      exact ⟨x, by rw [hr.1, hget], hpc⟩
    · refine List.forall_mem_append.2 ⟨hs.pread, fun y hy => ?_⟩
      obtain rfl := List.mem_singleton.1 hy
      exact hr.2
  | outside k r hget hin hturn =>
    have hmem := List.mem_of_getElem? hget
    obtain ⟨hmoves, hpc, hstart⟩ :=
      Running.starts_outside hturn hs.memory.length (hs.memory.each r hmem)
    refine ⟨hs.openings, hs.memory, hs.files, hs.pread, fun k' hk => ?_, by simp⟩
    obtain rfl : k = k' := by simpa using hk
    exact ⟨r, hget, hmoves, hstart⟩
  | call k r r' msg hget hin hturn =>
    have hmem := List.mem_of_getElem? hget
    obtain ⟨hsession, hcall, hstart⟩ := hturn.same
    have hunfinished : r.pc.isFinished = false := by
      cases hpc : r.pc <;> simp [hpc, Running.Pc.inModule] at hin ⊢ <;> rfl
    refine ⟨hs.openings, hs.memory.turn hget hturn, fun y hy hpc => ?_, fun y hy => ?_,
      fun k hk => (houtside k hk).elim, fun hk => (hunloaded hk).elim⟩
    · rcases List.mem_or_eq_of_mem_set hy with hy | rfl
      · exact hs.files y hy hpc
      · rw [hsession]
        exact hs.files r hmem hunfinished
    · rcases List.mem_or_eq_of_mem_set hy with hy | rfl
      · exact hs.pread y hy
      · rw [hcall, hstart]
        exact hs.pread r hmem
  | back k r x reply offset hget hpc hsession =>
    have hmem := List.mem_of_getElem? hget
    have hr := hs.memory.each r hmem
    have hin := hr.inside
    rw [hpc] at hin
    have hx := (hs.openings.each x (List.mem_of_getElem? hsession)).pos
    obtain ⟨y, hy, hopened⟩ := hs.files r hmem (by rw [hpc]; rfl)
    obtain rfl := Option.some.inj (hsession.symm.trans hy)
    have hpos : (if r.call.movesFile then offset else x.pos) < bufLen := by
      split
      · rename_i hmoves
        exact hin.1 hmoves
      · exact hx
    refine ⟨hs.openings.seek hsession hpos, hs.memory.set hget ⟨rfl, rfl⟩ ?_ ⟨hr.start, hin.2⟩,
      fun y hy hpc' => ?_, fun y hy => ?_, fun k hk => (houtside k hk).elim,
      fun hk => (hunloaded hk).elim⟩
    · rw [hpc]
      cases reply <;> rfl
    · rcases List.mem_or_eq_of_mem_set hy with hy | rfl
      · obtain ⟨z, hz, hzopened⟩ := hs.files y hy hpc'
        rcases eq_or_ne y.session r.session with heq | hne
        · have hlt := (List.getElem?_eq_some_iff.1 hsession).1
          rw [heq]
          exact ⟨_, List.getElem?_set_self hlt, hopened⟩
        · exact ⟨z, by rw [List.getElem?_set_ne hne.symm, hz], hzopened⟩
      · cases hpc'
    · rcases List.mem_or_eq_of_mem_set hy with hy | rfl
      · exact hs.pread y hy
      · exact hs.pread r hmem
  | close i x hget hpc hidle =>
    refine ⟨hs.openings.close hget hpc, hs.memory, hs.files_set _ fun r hr hfin heq => ?_,
      hs.pread, fun k hk => (houtside k hk).elim, fun hk => (hunloaded hk).elim⟩
    have hflight : s.inFlight i = true :=
      List.any_eq_true.2 ⟨r, hr, by simp [heq, hfin]⟩
    exact Bool.false_ne_true (hidle.symm.trans hflight)
  | rmmod hlive hrefs =>
    exact ⟨by simpa using hs.openings.leave hrefs, hs.memory, hs.files, hs.pread,
      fun k hk => (houtside k hk).elim, fun hk => (hunloaded hk).elim⟩
  | exit hgoing =>
    refine ⟨?_, hs.memory, hs.files, hs.pread, fun k hk => (houtside k hk).elim,
      fun hk => (hunloaded hk).elim⟩
    simpa [hgoing] using hs.openings
  | free hmodule =>
    refine ⟨?_, hs.memory, hs.files, hs.pread, fun k hk => (houtside k hk).elim,
      fun hk => (hunloaded hk).elim⟩
    simpa [hmodule] using hs.openings

/-- Code that is no longer there is run by a process that uses the driver. -/
theorem uses_of_needsModule (hs : s.Inv) (hneeds : s.needsModule a) (hact : (s.act a).isSome) :
    ∃ x ∈ s.sessions, x.pc.uses := by
  obtain ⟨t, hact⟩ := Option.isSome_iff_exists.1 hact
  cases Driver.moves hact with
  | session i x x' alreadyOpen refs hget hin hturn =>
    exact ⟨x, List.mem_of_getElem? hget, by simp [Session.Pc.uses, hin]⟩
  | request i c x r hget hpc hbegin =>
    exact ⟨x, List.mem_of_getElem? hget, by simp [Session.Pc.uses, hpc]⟩
  | close i x hget hpc hidle =>
    exact ⟨x, List.mem_of_getElem? hget, by simp [Session.Pc.uses, hpc]⟩
  | outside k r hget hin hturn =>
    obtain ⟨x, hx, hpc⟩ := hs.files r (List.mem_of_getElem? hget)
      (by cases hpc : r.pc <;> simp [hpc, Running.Pc.inModule] at hin ⊢ <;> rfl)
    exact ⟨x, List.mem_of_getElem? hx, by simp [Session.Pc.uses, hpc]⟩
  | call k r r' msg hget hin hturn =>
    obtain ⟨x, hx, hpc⟩ := hs.files r (List.mem_of_getElem? hget)
      (by cases hpc : r.pc <;> simp [hpc, Running.Pc.inModule] at hin ⊢ <;> rfl)
    exact ⟨x, List.mem_of_getElem? hx, by simp [Session.Pc.uses, hpc]⟩
  | back k r x reply offset hget hpc hsession =>
    rw [Driver.needsModule, hget, Option.any_some, hpc] at hneeds
    cases hneeds
  | _ => cases hneeds

theorem step (hs : s.Inv) (h : s.step a = some t) : t.Inv := by
  obtain ⟨hfault, ⟨hmoves, -⟩ | ⟨hgone, hneeds, hact, rfl⟩⟩ := Driver.step_cases h
  · exact hs.moves hfault hmoves
  · exact ⟨hs.openings, hs.memory, hs.files, hs.pread, by simp,
      fun _ => ⟨hgone, hs.uses_of_needsModule hneeds hact⟩⟩

end Driver.Inv

theorem Driver.inv_of_run {actions : List Action} {s : Driver}
    (h : runFrom Driver.step .init actions = some s) : s.Inv :=
  runFrom_invariant (fun _ _ _ hs h => hs.step h) .init h

/-- What holds of the processes, of `msg` and of the module, up to an access outside `msg`. -/
structure Driver.Law (s : Driver) : Prop where
  /-- At most one process has the device, -/
  exclusive : ∀ (i j : ℕ) (x y : Session), s.sessions[i]? = some x → s.sessions[j]? = some y →
    x.pc.holds → y.pc.holds → i = j
  /-- and only then others are refused. -/
  flag : s.alreadyOpen = true ↔ ∃ x ∈ s.sessions, x.pc.holds
  /-- Calls run on the file of this process only. -/
  files : ∀ r ∈ s.calls, r.pc.isFinished = false →
    ∃ x, s.sessions[r.session]? = some x ∧ x.pc = .opened
  /-- A call returns at most what was asked for, and no more than 79 bytes. -/
  replies : ∀ r ∈ s.calls, ∀ reply, r.pc = .finished reply → reply.Fits r
  /-- A byte that was read is 0, or some process has written it at this place. -/
  bytes : ∀ r ∈ s.calls, ∀ k b, r.pc.bytes[k]? = some b →
    Stored (s.calls.map (·.call)) (r.start + k) b
  position : ∀ x ∈ s.sessions, x.pos < bufLen
  /-- Only a `pread` that starts outside `msg` looks outside. -/
  outside : ∀ k, s.fault = some (.outside k) → ∃ r offset length, s.calls[k]? = some r ∧
    r.call = .pread offset length ∧ bufLen ≤ offset
  /-- The references are those of the processes, and none is left when the module goes. -/
  refs : s.sessions.countP (·.ref) = s.refs
  away : s.module ≠ .live → ∀ x ∈ s.sessions, x.ref = false
  /-- What the module is missed by has no reference. -/
  unloaded : s.fault = some .unloaded →
    s.module = .gone ∧ ∃ x ∈ s.sessions, x.pc.uses ∧ x.ref = false

theorem Driver.Inv.away {s : Driver} (hs : s.Inv) (hmodule : s.module ≠ .live) :
    ∀ x ∈ s.sessions, x.ref = false := by
  intro x hx
  obtain ⟨i, hi⟩ := List.mem_iff_getElem?.1 hx
  rw [← Bool.not_eq_true]
  intro href
  have hpos := hs.openings.refs_pos hi href
  rw [hs.openings.away (by simpa using hmodule)] at hpos
  exact Nat.lt_irrefl 0 hpos

/-- **Processes at the device, with the module taken out meanwhile**, in every run. A run ends with
the first access outside `msg`, whose byte is not known: what is said of bytes and replies is about
the accesses before it. -/
theorem Driver.law {actions : List Action} {s : Driver}
    (h : runFrom Driver.step .init actions = some s) : s.Law := by
  have hs := Driver.inv_of_run h
  refine ⟨fun i j x y hi hj hx hy => hs.openings.eq_of_holds hi hj hx hy, hs.openings.flag_iff,
    hs.files, fun r hr reply hpc => ?_, hs.memory.replied,
    fun x hx => (hs.openings.each x hx).pos, fun k hk => ?_, hs.openings.counted, hs.away,
    fun hk => ?_⟩
  · have hin := (hs.memory.each r hr).inside
    rw [hpc] at hin
    exact hin
  · obtain ⟨r, hget, hmoves, hstart⟩ := hs.outside k hk
    obtain ⟨length, hcall⟩ := hs.pread r (List.mem_of_getElem? hget) hmoves
    exact ⟨r, r.start, length, hget, hcall, hstart⟩
  · obtain ⟨hgone, x, hx, huses⟩ := hs.unloaded hk
    exact ⟨hgone, x, hx, huses, hs.away (by simp [hgone]) x hx⟩

/-- Two processes open the device, and the second one is refused. The first one reads while it
writes two bytes, with one of them stored. -/
def Driver.tornRun : List Action :=
  [.open, .open, .session 0, .session 1, .session 0, .session 0, .session 1,
    .request 0 (.write (ascii "hi"))] ++ List.replicate 81 (.call 0) ++ [.request 0 (.read 4)] ++
    List.replicate 5 (.call 1) ++ List.replicate 3 (.call 0)

set_option maxRecDepth 20000 in
theorem Driver.law_two : ∃ s, runFrom Driver.step .init tornRun = some s ∧
    s.history = [(.reopen, .opened), (.read 4, .read (ascii "h")),
      (.write (ascii "hi"), .wrote 2)] ∧
    s.msg.take 3 = ascii "hi" ++ [0] ∧ s.Law := by
  obtain ⟨s, h, hhistory, hmsg⟩ : ∃ s, runFrom Driver.step .init tornRun = some s ∧
      s.history = [(.reopen, .opened), (.read 4, .read (ascii "h")),
        (.write (ascii "hi"), .wrote 2)] ∧ s.msg.take 3 = ascii "hi" ++ [0] := ⟨_, rfl, rfl, rfl⟩
  exact ⟨s, h, hhistory, hmsg, Driver.law h⟩

/-! ## Behind the end of the module -/

/-- Behind the end of the module no process gets further. -/
theorem Driver.stays {s t : Driver} {a : Action} (hgone : s.module = .gone)
    (h : s.step a = some t) :
    t.module = .gone ∧ t.sessions.map (·.pc) = s.sessions.map (·.pc) := by
  obtain ⟨-, ⟨hmoves, hneeds⟩ | ⟨-, -, -, rfl⟩⟩ := Driver.step_cases h
  · have hneeds := hneeds hgone
    cases hmoves with
    | «open» hmodule => simp [hgone] at hmodule
    | outside k r hget hin hturn => simp [Driver.needsModule, hget, hin] at hneeds
    | call k r r' msg hget hin hturn => simp [Driver.needsModule, hget, hin] at hneeds
    | back k r x reply offset hget hpc hsession => exact ⟨hgone, map_set_of_eq hsession rfl⟩
    | rmmod hlive hrefs => cases hgone.symm.trans hlive
    | exit hgoing => cases hgone.symm.trans hgoing
    | free hmodule => cases hgone.symm.trans hmodule
    | _ => cases hneeds
  · exact ⟨hgone, rfl⟩

end EltexPractice.CharDevice
