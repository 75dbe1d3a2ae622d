import EltexPractice.Broker.Delivery

/-!
# The broker and a queue that can fill

The system of task 2 around a System V queue of `cap` messages. `msgsnd` waits while the queue is
full, also the one in `route_message`, so the broker is in the middle of a publication as long as
`outgoing`, the copies it has not sent yet, is not empty; it reads no command then. Topics are any
bytes of a command line. A subscriber on its way out uses `IPC_NOWAIT`.

The broker waits for ever once the queue is full of commands (`Deadlocked.stuck`), and only a client
that takes the last slot while the broker is routing brings this about (`never_deadlocked_iff`).
-/

namespace EltexPractice.Broker

open CString MsgQueue

/-- What publishers and subscribers send to the broker. -/
inductive Request
  | subscribe (s : SubscriberPid) (topic : List UInt8)
  | unsubscribe (s : SubscriberPid) (topic : List UInt8)
  | publish (p : Pid) (topic line : List UInt8)

/-- The text of a request. -/
def Request.text : Request → List UInt8
  | subscribe s topic => subscribeText s.val topic
  | unsubscribe s topic => unsubscribeText s.val topic
  | publish p topic line => sendText p.val topic line

/-- `msgsnd` with `IPC_NOWAIT`. -/
def Request.noWait : Request → Bool
  | unsubscribe _ _ => true
  | _ => false

structure Bounded where
  registry : Registry
  queue : MsgQueue ℤ (List UInt8)
  /-- The messages the broker has still to send for the publication it is routing. -/
  outgoing : List Msg

/-- The broker at its start. -/
def Bounded.init : Bounded := ⟨.init, [], []⟩

namespace Bounded

inductive Action
  /-- A client sends a request. -/
  | send (c : Request)
  /-- The broker takes a request and handles it up to its first `msgsnd`. -/
  | serve
  /-- The next `msgsnd` of `route_message`. -/
  | route
  /-- The subscriber `s` takes a message. -/
  | receive (s : SubscriberPid)

/-- One action; an action that has to wait is `none`. -/
def step (cap : ℕ) (st : Bounded) : Action → Option Bounded
  | .send c =>
    if st.queue.length < cap then some { st with queue := st.queue.send 1 c.text }
    else if c.noWait then some st
    else none
  | .serve =>
    if st.outgoing = [] then
      match recv 1 st.queue with
      | some (text, queue) =>
        let (registry, outgoing) := processIncomingMessage st.registry text
        some { registry, queue, outgoing }
      | none => none
    else none
  | .route =>
    match st.outgoing with
    | [] => none
    | m :: outgoing =>
      -- a type that is not positive is refused at once
      if m.1 < 1 then some { st with outgoing }
      else if st.queue.length < cap then
        some { st with queue := st.queue.send m.1 m.2, outgoing }
      else none
  | .receive s =>
    match recv s.val st.queue with
    | some (_, queue) => some { st with queue }
    | none => none

/-- The broker waits in `route_message` on a queue full of messages for itself. -/
def Deadlocked (cap : ℕ) (st : Bounded) : Prop :=
  st.outgoing ≠ [] ∧ cap ≤ st.queue.length ∧ ∀ m ∈ st.queue, m.1 = 1

/-- While the broker is routing, a client that sends leaves a free slot, or a message for a
subscriber is queued. -/
def LeavesRoom (cap : ℕ) (st : Bounded) : Action → Prop
  | .send _ => st.outgoing ≠ [] → st.queue.length + 1 < cap ∨ ∃ m ∈ st.queue, m.1 ≠ 1
  | _ => True

/-! ## The subscribers in the table -/

/-- The pids in the table are those of subscribers. -/
def Listens (r : Registry) : Prop := ∀ x ∈ r.subscribers.toList, 1 < x.pid

theorem listens_init : Listens .init := by
  intro x hx
  rw [Registry.init, Table.toList_empty] at hx
  cases hx

theorem listens_registerSubscriber {r : Registry} (h : Listens r) {pid : ℤ} (hpid : 1 < pid)
    (topic : List UInt8) : Listens (registerSubscriber r pid topic) := by
  unfold registerSubscriber
  split
  · exact h
  · split
    · exact h
    · intro x hx
      simp only [Table.toList_push, List.mem_append, List.mem_singleton] at hx
      rcases hx with hx | rfl
      · exact h x hx
      · exact hpid

theorem listens_unregisterSubscriber {r : Registry} (h : Listens r) (pid : ℤ)
    (topic : List UInt8) : Listens (unregisterSubscriber r pid topic) := by
  unfold unregisterSubscriber
  split
  · intro x hx
    simp only [Table.toList_removeShift] at hx
    exact h x (List.mem_of_mem_eraseIdx hx)
  · exact h

theorem listens_registerPublisher {r : Registry} (h : Listens r) (pid : ℤ) :
    Listens (registerPublisher r pid) := by
  unfold registerPublisher
  split
  · exact h
  · split <;> exact h

/-- Whatever the topic, `sscanf` reads the pid that `snprintf` has written. -/
theorem scanCommand_pid {cmd : List UInt8} (hcmd : cmd.length ≤ 12) (p : Pid)
    (topic : List UInt8) {pid : ℤ} {key : List UInt8}
    (h : scanCommand cmd (snprintf maxTextLen (cmd ++ (decimal p.val ++ (ascii "," ++ topic)))) =
      some (pid, key)) : pid = p.val := by
  rw [scanCommand_snprintf hcmd] at h
  split at h
  · cases h
  · exact (Prod.mk.inj (Option.some.inj h)).1.symm

theorem listens_handleUnsubscribe {r : Registry} (h : Listens r) (text : List UInt8) :
    Listens (handleUnsubscribe r text) := by
  unfold handleUnsubscribe
  split
  · exact listens_unregisterSubscriber h _ _
  · exact h

theorem listens_handleSend {r : Registry} (h : Listens r) (text : List UInt8) :
    Listens (handleSend r text).1 := by
  unfold handleSend
  split
  · exact listens_registerPublisher h _
  · exact h

theorem listens_processIncomingMessage {r : Registry} (h : Listens r) (c : Request) :
    Listens (processIncomingMessage r c.text).1 := by
  cases c with
  | subscribe s topic =>
    rw [Request.text, process_subscribe r s.toPid, handleSubscribe]
    split
    · rename_i pid key hscan
      rw [scanCommand_pid (by decide) s.toPid topic hscan]
      exact listens_registerSubscriber h s.one_lt _
    · exact h
  | unsubscribe s topic =>
    rw [Request.text, process_unsubscribe r s.toPid]
    exact listens_handleUnsubscribe h _
  | publish p topic line =>
    rw [Request.text, process_sendText]
    exact listens_handleSend h _

/-- Copies go to subscribers only, whatever the text. -/
theorem outgoing_processIncomingMessage {r : Registry} (h : Listens r) (text : List UInt8) :
    ∀ m ∈ (processIncomingMessage r text).2, 1 < m.1 := by
  have hnone : ∀ m ∈ ([] : List Msg), 1 < m.1 := nofun
  have hsend : ∀ m ∈ (handleSend r text).2, 1 < m.1 := by
    unfold handleSend
    split
    · rename_i pid topic payload hsplit
      intro m hm
      obtain ⟨x, hx, hm⟩ := List.mem_filterMap.1 hm
      split at hm
      · obtain rfl := Option.some.inj hm
        exact listens_registerPublisher h pid x hx
      · cases hm
    · exact hnone
  unfold processIncomingMessage
  split
  · exact hnone
  · split
    · exact hnone
    · split
      · exact hsend
      · exact hnone

/-! ## The invariant -/

/-- The queue does not overflow, commands are requests, and copies go to subscribers. -/
structure Inv (cap : ℕ) (st : Bounded) : Prop where
  length_le : st.queue.length ≤ cap
  listens : Listens st.registry
  outgoing : ∀ m ∈ st.outgoing, 1 < m.1
  requests : ∀ m ∈ st.queue, m.1 = 1 → ∃ c : Request, m.2 = c.text

theorem inv_init (cap : ℕ) : init.Inv cap where
  length_le := Nat.zero_le _
  listens := listens_init
  outgoing := nofun
  requests := nofun

variable {cap : ℕ} {st : Bounded}

/-- A message is taken from the queue. -/
theorem length_recv {ty : ℤ} {text : List UInt8} {q q' : MsgQueue ℤ (List UInt8)}
    (h : recv ty q = some (text, q')) : q.length = q'.length + 1 := by
  rw [(recv_perm h).length_eq, List.length_cons]

theorem mem_of_recv {ty : ℤ} {text : List UInt8} {q q' : MsgQueue ℤ (List UInt8)}
    (h : recv ty q = some (text, q')) {m : Msg} (hm : m ∈ q') : m ∈ q :=
  (recv_perm h).symm.subset (List.mem_cons_of_mem _ hm)

/-- What an action does. -/
inductive Moves (cap : ℕ) (st : Bounded) : Action → Bounded → Prop
  | send {c : Request} (hroom : st.queue.length < cap) :
      Moves cap st (.send c) { st with queue := st.queue.send 1 c.text }
  | unsent {c : Request} (hfull : cap ≤ st.queue.length) : Moves cap st (.send c) st
  | serve {text : List UInt8} {queue : MsgQueue ℤ (List UInt8)} (hidle : st.outgoing = [])
      (hrecv : recv 1 st.queue = some (text, queue)) :
      Moves cap st .serve ⟨(processIncomingMessage st.registry text).1, queue,
        (processIncomingMessage st.registry text).2⟩
  | refused {m : Msg} {outgoing : List Msg} (hout : st.outgoing = m :: outgoing) (hm : m.1 < 1) :
      Moves cap st .route { st with outgoing }
  | route {m : Msg} {outgoing : List Msg} (hout : st.outgoing = m :: outgoing)
      (hroom : st.queue.length < cap) :
      Moves cap st .route { st with queue := st.queue.send m.1 m.2, outgoing }
  | receive {s : SubscriberPid} {text : List UInt8} {queue : MsgQueue ℤ (List UInt8)}
      (hrecv : recv s.val st.queue = some (text, queue)) :
      Moves cap st (.receive s) { st with queue }

theorem moves_of_step {a : Action} {st' : Bounded} (hs : step cap st a = some st') :
    Moves cap st a st' := by
  cases a with
  | send c =>
    rw [step] at hs
    split at hs
    · rename_i hroom
      obtain rfl := Option.some.inj hs
      exact .send hroom
    · rename_i hfull
      obtain ⟨-, hs⟩ := Option.ite_none_right_eq_some.1 hs
      obtain rfl := Option.some.inj hs
      exact .unsent (Nat.not_lt.1 hfull)
  | serve =>
    obtain ⟨hidle, hs⟩ := Option.ite_none_right_eq_some.1 hs
    split at hs
    · rename_i text queue hrecv
      obtain rfl := Option.some.inj hs
      exact .serve hidle hrecv
    · cases hs
  | route =>
    rw [step] at hs
    split at hs
    · cases hs
    · rename_i m outgoing hout
      split at hs
      · rename_i hm
        obtain rfl := Option.some.inj hs
        exact .refused hout hm
      · obtain ⟨hroom, hs⟩ := Option.ite_none_right_eq_some.1 hs
        obtain rfl := Option.some.inj hs
        exact .route hout hroom
  | receive s =>
    rw [step] at hs
    split at hs
    · rename_i text queue hrecv
      obtain rfl := Option.some.inj hs
      exact .receive hrecv
    · cases hs

theorem Inv.step (h : st.Inv cap) {a : Action} {st' : Bounded} (hs : step cap st a = some st') :
    st'.Inv cap := by
  cases moves_of_step hs with
  | @send c hroom =>
    refine { h with length_le := ?_, requests := fun m hm hone => ?_ }
    · rw [MsgQueue.send, List.length_append]
      exact hroom
    · rcases List.mem_append.1 hm with hm | hm
      · exact h.requests m hm hone
      · rw [List.mem_singleton.1 hm]
        exact ⟨c, rfl⟩
  | unsent _ => exact h
  | serve _ hrecv =>
    have htaken := (recv_perm hrecv).symm.subset List.mem_cons_self
    obtain ⟨c, rfl⟩ := h.requests _ htaken rfl
    refine ⟨?_, listens_processIncomingMessage h.listens c,
      outgoing_processIncomingMessage h.listens _,
      fun m hm => h.requests m (mem_of_recv hrecv hm)⟩
    exact (Nat.le_succ _).trans ((length_recv hrecv).symm.le.trans h.length_le)
  | refused hout _ =>
    exact { h with outgoing := fun m hm => h.outgoing m (hout ▸ List.mem_cons_of_mem _ hm) }
  | @route m outgoing hout hroom =>
    have hfirst : 1 < m.1 := h.outgoing m (hout ▸ List.mem_cons_self)
    refine { h with
      length_le := ?_
      outgoing := fun m' hm' => h.outgoing m' (hout ▸ List.mem_cons_of_mem _ hm')
      requests := fun m' hm' hone => ?_ }
    · rw [MsgQueue.send, List.length_append]
      exact hroom
    · rcases List.mem_append.1 hm' with hm' | hm'
      · exact h.requests m' hm' hone
      · rw [List.mem_singleton.1 hm'] at hone
        exact absurd hone hfirst.ne'
  | receive hrecv =>
    refine { h with length_le := ?_, requests := fun m hm => h.requests m (mem_of_recv hrecv hm) }
    exact (Nat.le_succ _).trans ((length_recv hrecv).symm.le.trans h.length_le)

/-! ## The deadlock -/

/-- Nobody can get the broker out of it. -/
theorem Deadlocked.stuck (h : st.Deadlocked cap) (hout : ∀ m ∈ st.outgoing, 1 < m.1) {a : Action}
    {st' : Bounded} (hs : step cap st a = some st') : st' = st := by
  obtain ⟨hrouting, hfull, hall⟩ := h
  cases moves_of_step hs with
  | send hroom => exact absurd hroom (Nat.not_lt.2 hfull)
  | unsent _ => rfl
  | serve hidle _ => exact absurd hidle hrouting
  | refused heq hm => exact absurd (hout _ (heq ▸ List.mem_cons_self)).le (not_le.2 hm)
  | route _ hroom => exact absurd hroom (Nat.not_lt.2 hfull)
  | @receive s text queue hrecv =>
    have hmem : (s.val, text) ∈ st.queue := (recv_perm hrecv).symm.subset List.mem_cons_self
    exact absurd (hall _ hmem) s.one_lt.ne'

/-- **Only a client brings the deadlock about**, by taking the last slot while the broker routes. -/
theorem not_deadlocked_step_iff (hinv : st.Inv cap) (hfree : ¬ st.Deadlocked cap) {a : Action}
    {st' : Bounded} (hs : step cap st a = some st') :
    ¬ st'.Deadlocked cap ↔ st.LeavesRoom cap a := by
  -- whoever takes a message leaves a slot
  have htaken : ∀ {ty : ℤ} {text : List UInt8} {queue : MsgQueue ℤ (List UInt8)},
      recv ty st.queue = some (text, queue) → queue.length < cap := fun hrecv =>
    lt_of_lt_of_le (Nat.lt_succ_self _) ((length_recv hrecv).symm.le.trans hinv.length_le)
  cases moves_of_step hs with
  | send _ =>
    unfold Deadlocked LeavesRoom
    simp only [MsgQueue.send, List.length_append, List.length_singleton, List.mem_append,
      List.mem_singleton, or_imp, forall_and, forall_eq, and_true, not_and]
    refine forall_congr' fun hrouting => ?_
    rw [← Nat.not_le, ← imp_iff_not_or]
    simp only [not_forall, exists_prop]
  | unsent hfull =>
    refine iff_of_true hfree fun hrouting => Or.inr ?_
    by_contra hnone
    refine hfree ⟨hrouting, hfull, fun m hm => ?_⟩
    by_contra hne
    exact hnone ⟨m, hm, hne⟩
  | serve _ hrecv =>
    exact iff_of_true (fun hdead => absurd (htaken hrecv) (Nat.not_lt.2 hdead.2.1)) trivial
  | refused heq hm =>
    exact absurd (hinv.outgoing _ (heq ▸ List.mem_cons_self)).le (not_le.2 hm)
  | @route m outgoing heq _ =>
    refine iff_of_true (fun hdead => ?_) trivial
    have hone := hinv.outgoing m (heq ▸ List.mem_cons_self)
    have hcopy : (m.1, m.2) ∈ st.queue.send m.1 m.2 :=
      List.mem_append_right _ (List.mem_singleton.2 rfl)
    exact hone.ne' (hdead.2.2 _ hcopy)
  | receive hrecv =>
    exact iff_of_true (fun hdead => absurd (htaken hrecv) (Nat.not_lt.2 hdead.2.1)) trivial

/-- **When the broker does not deadlock.** No state of a run is a deadlock exactly when each client
that sends while the broker is routing leaves a free slot, or a subscriber's message is queued. -/
theorem never_deadlocked_iff {as : List Action} {st : Bounded}
    (h : runFrom (step cap) init as = some st) :
    (∀ bs s, bs <+: as → runFrom (step cap) init bs = some s → ¬ s.Deadlocked cap) ↔
      StepsMeet (step cap) (LeavesRoom cap) init as :=
  stepsMeet_iff (fun _ _ _ hinv hs => hinv.step hs)
    (fun _ _ _ hinv hfree hs => not_deadlocked_step_iff hinv hfree hs) (inv_init cap)
    (fun hdead => hdead.1 rfl) h

/-- A subscriber registers, and a publisher sends two lines on its topic. -/
def twoLines : List Action :=
  let s : SubscriberPid := ⟨⟨3001, by omega, by omega⟩, by decide⟩
  let p : Pid := ⟨4002, by omega, by omega⟩
  [.send (.subscribe s (ascii "news")), .serve, .send (.publish p (ascii "news") (ascii "a")),
    .serve, .send (.publish p (ascii "news") (ascii "b"))]

/-- With two slots the second line leaves one free. -/
theorem never_deadlocked_twoLines : ∃ st, runFrom (step 2) init twoLines = some st ∧
    ∀ bs s, bs <+: twoLines → runFrom (step 2) init bs = some s → ¬ s.Deadlocked 2 := by
  have hsome : (runFrom (step 2) init twoLines).isSome = true := by decide
  obtain ⟨st, hrun⟩ := Option.isSome_iff_exists.1 hsome
  refine ⟨st, hrun, (never_deadlocked_iff hrun).2 ?_⟩
  refine ⟨fun h => absurd rfl h, fun t ht => ?_⟩
  obtain rfl := Option.some.inj ht
  refine ⟨trivial, fun t ht => ?_⟩
  obtain rfl := Option.some.inj ht
  refine ⟨fun h => absurd (by decide) h, fun t ht => ?_⟩
  obtain rfl := Option.some.inj ht
  refine ⟨trivial, fun t ht => ?_⟩
  obtain rfl := Option.some.inj ht
  exact ⟨fun _ => Or.inl (by decide), fun _ _ => trivial⟩

/-- With one slot the second line is sent while the broker has the first one still to route: it
waits for a slot that nobody frees. -/
theorem deadlocked_twoLines : ∃ st, runFrom (step 1) init twoLines = some st ∧
    st.Deadlocked 1 ∧ ∀ a st', step 1 st a = some st' → st' = st := by
  have hend : (runFrom (step 1) init twoLines).map (fun st => (st.outgoing.map (·.1),
      st.queue.map (·.1))) = some ([3001], [1]) := by decide
  obtain ⟨st, hrun, hst⟩ := Option.map_eq_some_iff.1 hend
  obtain ⟨hout, hqueue⟩ := Prod.mk.inj hst
  have hdead : st.Deadlocked 1 := by
    refine ⟨fun hnil => ?_, ?_, fun m hm => ?_⟩
    · rw [hnil] at hout
      cases hout
    · have hlen := congrArg List.length hqueue
      rw [List.length_map] at hlen
      exact hlen.symm.le
    · have hmem := List.mem_map_of_mem (f := (·.1)) hm
      rw [hqueue] at hmem
      exact List.mem_singleton.1 hmem
  have hinv : st.Inv 1 := runFrom_invariant (fun _ _ _ h hs => h.step hs) (inv_init 1) hrun
  exact ⟨st, hrun, hdead, fun a st' hs => hdead.stuck hinv.outgoing hs⟩

end Bounded

end EltexPractice.Broker
