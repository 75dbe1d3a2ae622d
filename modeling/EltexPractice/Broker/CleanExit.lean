import EltexPractice.Broker.Backpressure

/-!
# What a subscriber leaves in the table

`run_subscriber` from its first subscription to its return, for any number of subscribers, around
the broker and the bounded queue of `Broker/Backpressure.lean`. A SIGINT ends the loop; the
unsubscriptions that follow are sent with `IPC_NOWAIT`, so that a full queue does not hold the
subscriber up, and one that finds no room is skipped.

`settled` is the subscriber table once the broker has processed what is queued. Only a client that
sends changes it, and `entry_of_ended` reads off what a subscriber leaves behind: entries for
topics none of whose unsubscriptions was queued.
-/

namespace EltexPractice.Broker

open CString MsgQueue

/-- A topic of the command line without white space that fits the broker's array. -/
structure ShortTopic where
  bytes : List UInt8
  no_nul : 0 ∉ bytes
  no_space : ∀ b ∈ bytes, isspace b = false
  length_le : bytes.length ≤ 63
  deriving DecidableEq

/-- The bytes of a concrete topic, checked one by one. -/
theorem no_space_of_all {bytes : List UInt8} (h : bytes.all (fun b => !isspace b) = true) :
    ∀ b ∈ bytes, isspace b = false := by
  simpa using h

theorem SubscriberPid.eq_of_val {s s' : SubscriberPid} (h : s.val = s'.val) : s = s' := by
  obtain ⟨⟨_, _, _⟩, _⟩ := s
  obtain ⟨⟨_, _, _⟩, _⟩ := s'
  subst h
  rfl

/-- Where a subscriber is in `run_subscriber`. -/
inductive Phase
  /-- It has not started; a pid is not used again. -/
  | idle
  /-- It subscribes, `rest` still to be sent. -/
  | subscribing (topics rest : List ShortTopic) (shutdownFlag : Bool)
  /-- It is in the `msgrcv` of its loop. -/
  | waiting (topics : List ShortTopic) (shutdownFlag : Bool)
  /-- It unsubscribes, `rest` still to be tried; with none left it has returned. `queued` are the
  topics whose unsubscription found room. -/
  | leaving (topics rest queued : List ShortTopic)
  /-- A `msgsnd` of a subscription was interrupted: `exit(EXIT_FAILURE)`. -/
  | failed
  deriving DecidableEq

/-- The broker with its queue, and the subscribers. -/
structure Clients where
  broker : Bounded
  phase : SubscriberPid → Phase

namespace Clients

/-- A fresh broker; nobody has started. -/
def init : Clients := ⟨.init, fun _ => .idle⟩

inductive Action
  /-- The subscriber `s` starts with its topics and installs its handler. -/
  | start (s : SubscriberPid) (topics : List ShortTopic)
  /-- `s` sends its next subscription. -/
  | subscribe (s : SubscriberPid)
  /-- `s` has sent its subscriptions and tests `shutdown_flag`. -/
  | enter (s : SubscriberPid)
  /-- SIGINT reaches `s`, in a call that blocks or outside. -/
  | interrupt (s : SubscriberPid) (inCall : Bool)
  /-- `s` takes a message and tests `shutdown_flag`. -/
  | receive (s : SubscriberPid)
  /-- `s` tries its next unsubscription. -/
  | unsubscribe (s : SubscriberPid)
  /-- A publisher sends a line. -/
  | publish (p : Pid) (topic line : List UInt8)
  /-- The broker takes a request. -/
  | serve
  /-- The broker goes on routing. -/
  | route

/-- The loop test `!shutdown_flag`. -/
def loopTest (topics : List ShortTopic) (shutdownFlag : Bool) : Phase :=
  if shutdownFlag then .leaving topics topics [] else .waiting topics false

/-- `s` moves on, and the broker's side becomes `broker`. -/
def goTo (st : Clients) (broker : Bounded) (s : SubscriberPid) (p : Phase) : Clients where
  broker
  phase := Function.update st.phase s p

/-- What SIGINT does to `s`: a blocked call fails with `EINTR`, otherwise the flag is all. -/
def interrupted (cap : ℕ) (st : Clients) (s : SubscriberPid) (inCall : Bool) : Option Phase :=
  match st.phase s with
  | .subscribing topics rest _ =>
    if inCall then if rest ≠ [] ∧ cap ≤ st.broker.queue.length then some .failed else none
    else some (.subscribing topics rest true)
  | .waiting topics _ =>
    if inCall then
      if mailbox s.val st.broker.queue = [] then some (.leaving topics topics []) else none
    else some (.waiting topics true)
  | _ => none

/-- One action; `none` when it has to wait or is not next. -/
def step (cap : ℕ) (st : Clients) : Action → Option Clients
  | .start s topics =>
    match st.phase s with
    | .idle => some (st.goTo st.broker s (.subscribing topics topics false))
    | _ => none
  | .subscribe s =>
    match st.phase s with
    | .subscribing topics (t :: rest) flag =>
      (Bounded.step cap st.broker (.send (.subscribe s t.bytes))).map fun broker =>
        st.goTo broker s (.subscribing topics rest flag)
    | _ => none
  | .enter s =>
    match st.phase s with
    | .subscribing topics [] flag => some (st.goTo st.broker s (loopTest topics flag))
    | _ => none
  | .interrupt s inCall => (interrupted cap st s inCall).map (st.goTo st.broker s)
  | .receive s =>
    match st.phase s with
    | .waiting topics flag =>
      (Bounded.step cap st.broker (.receive s)).map fun broker =>
        st.goTo broker s (loopTest topics flag)
    | _ => none
  | .unsubscribe s =>
    match st.phase s with
    | .leaving topics (t :: rest) queued =>
      -- with `IPC_NOWAIT` the call returns in any case
      let queued := if st.broker.queue.length < cap then t :: queued else queued
      (Bounded.step cap st.broker (.send (.unsubscribe s t.bytes))).map fun broker =>
        st.goTo broker s (.leaving topics rest queued)
    | _ => none
  | .publish p topic line =>
    (Bounded.step cap st.broker (.send (.publish p topic line))).map fun broker =>
      { st with broker }
  | .serve => (Bounded.step cap st.broker .serve).map fun broker => { st with broker }
  | .route => (Bounded.step cap st.broker .route).map fun broker => { st with broker }

end Clients

/-! ## What a request does to the table -/

theorem ShortTopic.topicKey_eq (t : ShortTopic) {cmd : List UInt8} (hcmd : cmd.length ≤ 12)
    (p : Pid) : topicKey cmd p t.bytes = t.bytes := by
  rw [topicKey_of_no_space hcmd p t.no_space, List.take_of_length_le t.length_le]

/-- The table behind a subscription. -/
theorem table_subscribe (r : Registry) (p : Pid) (t : ShortTopic) :
    (processIncomingMessage r (subscribeText p.val t.bytes)).1.table =
      if t.bytes = [] then r.table
      else OrderedSet.insert maxSubscribers r.table (p.val, t.bytes) := by
  have hscan := @scanCommand_snprintf (ascii "subscribe,") (by decide) p t.bytes
  rw [t.topicKey_eq (by decide) p] at hscan
  rw [process_subscribe, handleSubscribe, subscribeText, hscan]
  by_cases ht : t.bytes = []
  · rw [if_pos ht, if_pos ht]
  · rw [if_neg ht, if_neg ht]
    exact table_registerSubscriber r p.val t.no_nul t.length_le

/-- The table behind an unsubscription. -/
theorem table_unsubscribe {r : Registry} (hr : r.table.Nodup) (p : Pid) (t : ShortTopic) :
    (processIncomingMessage r (unsubscribeText p.val t.bytes)).1.table =
      if t.bytes = [] then r.table else OrderedSet.remove r.table (p.val, t.bytes) := by
  have hscan := @scanCommand_snprintf (ascii "unsubscribe,") (by decide) p t.bytes
  rw [t.topicKey_eq (by decide) p] at hscan
  rw [process_unsubscribe, handleUnsubscribe, unsubscribeText, hscan]
  by_cases ht : t.bytes = []
  · rw [if_pos ht, if_pos ht]
  · rw [if_neg ht, if_neg ht]
    exact (table_unregisterSubscriber r p.val t.bytes).trans (OrderedSet.erase_eq_remove hr _)

/-- A publication leaves the table alone. -/
theorem table_publish (r : Registry) (p : Pid) (topic line : List UInt8) :
    (processIncomingMessage r (sendText p.val topic line)).1.table = r.table := by
  rw [process_sendText]
  exact table_handleSend r _

/-! ## The table once the queue is served -/

/-- The tables once the broker has processed the texts that are queued for it. -/
def Bounded.served (b : Bounded) : Registry := processAll b.registry (mailbox 1 b.queue)

/-- The subscriber table then. -/
def Bounded.settled (b : Bounded) : List (ℤ × List UInt8) := b.served.table

namespace Bounded

variable {cap : ℕ} {b b' : Bounded}

/-- What is queued now is served last. -/
theorem settled_send (hs : step cap b (.send c) = some b') :
    b'.settled = if b.queue.length < cap then (processIncomingMessage b.served c.text).1.table
      else b.settled := by
  cases moves_of_step hs with
  | send hroom =>
    rw [if_pos hroom, settled, served, mailbox_send, if_pos rfl, processAll_append]
    rfl
  | unsent hfull => rw [if_neg (Nat.not_lt.2 hfull)]

/-- Nothing else changes the table to come. -/
theorem settled_of_step (hinv : b.Inv cap) {a : Action} (ha : ∀ c, a ≠ .send c)
    (hs : step cap b a = some b') : b'.settled = b.settled := by
  cases moves_of_step hs with
  | send _ => exact absurd rfl (ha _)
  | unsent _ => rfl
  | serve _ hrecv =>
    rw [settled, settled, served, served, (recv_spec hrecv).1]
    rfl
  | refused _ _ => rfl
  | @route m outgoing hout _ =>
    have hcopy : 1 < m.1 := hinv.outgoing m (hout ▸ List.mem_cons_self)
    rw [settled, settled, served, served, mailbox_send, if_neg hcopy.ne', List.append_nil]
  | @receive s text queue hrecv =>
    rw [settled, settled, served, served, (recv_spec hrecv).2 1 s.one_lt.ne]

/-- With nothing queued for the broker its table is settled. -/
theorem settled_eq (h : mailbox 1 b.queue = []) : b.settled = b.registry.table := by
  rw [settled, served, h]
  rfl

end Bounded

/-! ## The entries of a subscriber -/

/-- The topics a subscriber can have an entry for, once the queue is served. -/
def Phase.MayHold (topic : List UInt8) : Phase → Prop
  | idle => False
  | subscribing topics _ _ | waiting topics _ => ∃ t ∈ topics, t.bytes = topic
  | leaving topics _ queued => ∃ t ∈ topics, t.bytes = topic ∧ t ∉ queued
  | failed => True

/-- What is still to be sent belongs to the topics of the command line. -/
def Phase.Ok : Phase → Prop
  | subscribing topics rest _ => rest ⊆ topics
  | _ => True

namespace Clients

/-- Each entry to come belongs to a subscriber that may hold it. -/
structure Inv (cap : ℕ) (st : Clients) : Prop where
  broker : st.broker.Inv cap
  nodup : st.broker.settled.Nodup
  ne_nil : ∀ key ∈ st.broker.settled, key.2 ≠ []
  phases : ∀ s, (st.phase s).Ok
  entries : ∀ (s : SubscriberPid) (topic : List UInt8), (s.val, topic) ∈ st.broker.settled →
    (st.phase s).MayHold topic

theorem inv_init (cap : ℕ) : init.Inv cap := by
  have htable : Registry.init.table = [] := by simp [Registry.init, Registry.table]
  have hnone : init.broker.settled = [] :=
    (Bounded.settled_eq (b := .init) (mailbox_nil 1)).trans htable
  refine ⟨Bounded.inv_init cap, ?_, ?_, fun _ => trivial, ?_⟩
  · rw [hnone]
    exact List.nodup_nil
  · rw [hnone]
    exact fun _ hkey => absurd hkey List.not_mem_nil
  · rw [hnone]
    exact fun _ _ hmem => absurd hmem List.not_mem_nil

variable {cap : ℕ} {st : Clients} {s : SubscriberPid}

theorem phase_goTo_self (st : Clients) (broker : Bounded) (s : SubscriberPid) (p : Phase) :
    (st.goTo broker s p).phase s = p :=
  Function.update_self ..

theorem phase_goTo_of_ne (st : Clients) (broker : Bounded) {s s' : SubscriberPid} (h : s' ≠ s)
    (p : Phase) : (st.goTo broker s p).phase s' = st.phase s' :=
  Function.update_of_ne h ..

/-- A step of `s` adds entries of `s` only. -/
theorem Inv.goTo (h : st.Inv cap) {p : Phase} {broker : Bounded} (hbroker : broker.Inv cap)
    (hnodup : broker.settled.Nodup) (hne : ∀ key ∈ broker.settled, key.2 ≠ [])
    (hothers : ∀ key ∈ broker.settled, key.1 ≠ s.val → key ∈ st.broker.settled) (hok : p.Ok)
    (hentries : ∀ topic, (s.val, topic) ∈ broker.settled → p.MayHold topic) :
    (st.goTo broker s p).Inv cap where
  broker := hbroker
  nodup := hnodup
  ne_nil := hne
  phases s' := by
    by_cases hs : s' = s
    · subst hs
      rw [phase_goTo_self]
      exact hok
    · rw [phase_goTo_of_ne _ _ hs]
      exact h.phases s'
  entries s' topic hmem := by
    by_cases hs : s' = s
    · subst hs
      rw [phase_goTo_self]
      exact hentries topic hmem
    · rw [phase_goTo_of_ne _ _ hs]
      exact h.entries s' topic (hothers _ hmem fun hval => hs (SubscriberPid.eq_of_val hval))

/-- A step of `s` that leaves the table to come as it is. -/
theorem Inv.move (h : st.Inv cap) {p : Phase} {broker : Bounded} (hbroker : broker.Inv cap)
    (hsettled : broker.settled = st.broker.settled) (hok : p.Ok)
    (hkeeps : ∀ topic, (st.phase s).MayHold topic → p.MayHold topic) :
    (st.goTo broker s p).Inv cap :=
  h.goTo hbroker (hsettled ▸ h.nodup) (hsettled ▸ h.ne_nil) (fun _ hkey _ => hsettled ▸ hkey) hok
    fun topic hmem => hkeeps topic (h.entries s topic (hsettled ▸ hmem))

/-- A step of the broker or of a publisher. -/
theorem Inv.serve (h : st.Inv cap) {broker : Bounded} (hbroker : broker.Inv cap)
    (hsettled : broker.settled = st.broker.settled) : { st with broker }.Inv cap where
  broker := hbroker
  nodup := hsettled ▸ h.nodup
  ne_nil := hsettled ▸ h.ne_nil
  phases := h.phases
  entries s topic hmem := h.entries s topic (hsettled ▸ hmem)

/-- A subscription that is queued. -/
theorem Inv.subscribe (h : st.Inv cap) {topics rest : List ShortTopic} {t : ShortTopic}
    {flag : Bool} (hphase : st.phase s = .subscribing topics (t :: rest) flag) {broker : Bounded}
    (hs : Bounded.step cap st.broker (.send (.subscribe s t.bytes)) = some broker) :
    (st.goTo broker s (.subscribing topics rest flag)).Inv cap := by
  have hsub : t :: rest ⊆ topics := by
    have hok := h.phases s
    rwa [hphase] at hok
  have hrest : rest ⊆ topics := fun u hu => hsub (List.mem_cons_of_mem _ hu)
  have hold : ∀ topic, (s.val, topic) ∈ st.broker.settled →
      (Phase.subscribing topics rest flag).MayHold topic := fun topic hmem => by
    have hmay := h.entries s topic hmem
    rwa [hphase] at hmay
  have hsettled := Bounded.settled_send hs
  rw [Request.text, table_subscribe st.broker.served s.toPid t] at hsettled
  -- without room, or for the empty topic, nothing is registered
  by_cases hquiet : broker.settled = st.broker.settled
  · refine h.goTo (h.broker.step hs) (hquiet ▸ h.nodup) (hquiet ▸ h.ne_nil)
      (fun _ hkey _ => hquiet ▸ hkey) hrest fun topic hmem => hold topic (hquiet ▸ hmem)
  · have hinsert : t.bytes ≠ [] ∧ broker.settled =
        OrderedSet.insert maxSubscribers st.broker.settled (s.val, t.bytes) := by
      split at hsettled
      · split at hsettled
        · exact absurd hsettled hquiet
        · exact ⟨‹_›, hsettled⟩
      · exact absurd hsettled hquiet
    obtain ⟨hne, hinsert⟩ := hinsert
    have hmem : ∀ key ∈ broker.settled, key ∈ st.broker.settled ∨ key = (s.val, t.bytes) :=
      fun key hkey => OrderedSet.mem_of_mem_insert (hinsert ▸ hkey)
    refine h.goTo (h.broker.step hs) ?_ ?_ ?_ hrest ?_
    · rw [hinsert]
      exact OrderedSet.nodup_insert h.nodup _
    · intro key hkey
      rcases hmem key hkey with hkey | rfl
      · exact h.ne_nil key hkey
      · exact hne
    · intro key hkey hpid
      exact (hmem key hkey).resolve_right fun heq => hpid (congrArg Prod.fst heq)
    · intro topic hkey
      rcases hmem _ hkey with hkey | heq
      · exact hold topic hkey
      · exact ⟨t, hsub List.mem_cons_self, (congrArg Prod.snd heq).symm⟩

/-- An unsubscription that is queued takes the entry away; one that is refused changes nothing. -/
theorem Inv.unsubscribe (h : st.Inv cap) {topics rest queued : List ShortTopic} {t : ShortTopic}
    (hphase : st.phase s = .leaving topics (t :: rest) queued) {broker : Bounded}
    (hs : Bounded.step cap st.broker (.send (.unsubscribe s t.bytes)) = some broker) :
    (st.goTo broker s (.leaving topics rest
      (if st.broker.queue.length < cap then t :: queued else queued))).Inv cap := by
  have hold : ∀ topic, (s.val, topic) ∈ st.broker.settled →
      ∃ u ∈ topics, u.bytes = topic ∧ u ∉ queued := fun topic hmem => by
    have hmay := h.entries s topic hmem
    rwa [hphase] at hmay
  have hsettled := Bounded.settled_send hs
  rw [Request.text, table_unsubscribe h.nodup s.toPid t] at hsettled
  split at hsettled
  · rename_i hroom
    rw [if_pos hroom]
    have hmem : ∀ key ∈ broker.settled,
        key ∈ st.broker.settled ∧ (key.2 = t.bytes → key.1 ≠ s.val) := by
      intro key hkey
      split at hsettled
      · rename_i hnil
        rw [hsettled] at hkey
        exact ⟨hkey, fun heq => absurd (heq.trans hnil) (h.ne_nil key hkey)⟩
      · rw [hsettled] at hkey
        obtain ⟨hkey, hne⟩ := OrderedSet.mem_remove.1 hkey
        exact ⟨hkey, fun htopic hpid => hne (Prod.ext hpid htopic)⟩
    have hnodup : broker.settled.Nodup := by
      rw [hsettled]
      split
      · exact h.nodup
      · exact OrderedSet.nodup_remove h.nodup _
    refine h.goTo (h.broker.step hs) hnodup (fun key hkey => h.ne_nil key (hmem key hkey).1)
      (fun key hkey _ => (hmem key hkey).1) trivial fun topic hkey => ?_
    obtain ⟨hkey, hother⟩ := hmem _ hkey
    obtain ⟨u, hu, rfl, hqueued⟩ := hold topic hkey
    refine ⟨u, hu, rfl, fun hmem => ?_⟩
    rcases List.mem_cons.1 hmem with rfl | hmem
    · exact hother rfl rfl
    · exact hqueued hmem
  · rename_i hfull
    rw [if_neg hfull]
    refine h.move (h.broker.step hs) hsettled trivial fun topic hmay => ?_
    rwa [hphase] at hmay

theorem ok_loopTest (topics : List ShortTopic) (flag : Bool) : (loopTest topics flag).Ok := by
  rw [loopTest]
  split <;> trivial

/-- The loop test takes no topic away. -/
theorem mayHold_loopTest {topics : List ShortTopic} {topic : List UInt8}
    (h : ∃ t ∈ topics, t.bytes = topic) (flag : Bool) : (loopTest topics flag).MayHold topic := by
  obtain ⟨t, ht, rfl⟩ := h
  rw [loopTest]
  split
  · exact ⟨t, ht, rfl, List.not_mem_nil⟩
  · exact ⟨t, ht, rfl⟩

/-- A signal sends nothing. -/
theorem Inv.interrupt (h : st.Inv cap) {inCall : Bool} {p : Phase}
    (hs : interrupted cap st s inCall = some p) : (st.goTo st.broker s p).Inv cap := by
  rw [interrupted] at hs
  split at hs
  · rename_i topics rest flag hphase
    split at hs
    · obtain ⟨-, hs⟩ := Option.ite_none_right_eq_some.1 hs
      obtain rfl := Option.some.inj hs
      exact h.move h.broker rfl trivial fun _ _ => trivial
    · obtain rfl := Option.some.inj hs
      have hok := h.phases s
      rw [hphase] at hok
      refine h.move h.broker rfl hok fun topic hmay => ?_
      rwa [hphase] at hmay
  · rename_i topics flag hphase
    split at hs
    · obtain ⟨-, hs⟩ := Option.ite_none_right_eq_some.1 hs
      obtain rfl := Option.some.inj hs
      refine h.move h.broker rfl trivial fun topic hmay => ?_
      rw [hphase] at hmay
      exact mayHold_loopTest hmay true
    · obtain rfl := Option.some.inj hs
      refine h.move h.broker rfl trivial fun topic hmay => ?_
      rwa [hphase] at hmay
  · cases hs

theorem Inv.step (h : st.Inv cap) {a : Action} {st' : Clients} (hs : step cap st a = some st') :
    st'.Inv cap := by
  cases a with
  | start s topics =>
    rw [Clients.step] at hs
    split at hs
    · rename_i hphase
      obtain rfl := Option.some.inj hs
      refine h.move h.broker rfl (List.Subset.refl _) fun topic hmay => ?_
      rw [hphase] at hmay
      exact hmay.elim
    · cases hs
  | subscribe s =>
    rw [Clients.step] at hs
    split at hs
    · rename_i topics t rest flag hphase
      obtain ⟨broker, hsend, rfl⟩ := Option.map_eq_some_iff.1 hs
      exact h.subscribe hphase hsend
    · cases hs
  | enter s =>
    rw [Clients.step] at hs
    split at hs
    · rename_i topics flag hphase
      obtain rfl := Option.some.inj hs
      refine h.move h.broker rfl (ok_loopTest _ _) fun topic hmay => ?_
      rw [hphase] at hmay
      exact mayHold_loopTest hmay flag
    · cases hs
  | interrupt s inCall =>
    obtain ⟨p, hp, rfl⟩ := Option.map_eq_some_iff.1 hs
    exact h.interrupt hp
  | receive s =>
    rw [Clients.step] at hs
    split at hs
    · rename_i topics flag hphase
      obtain ⟨broker, hrecv, rfl⟩ := Option.map_eq_some_iff.1 hs
      have hsettled := Bounded.settled_of_step h.broker (fun _ => Bounded.Action.noConfusion) hrecv
      refine h.move (h.broker.step hrecv) hsettled (ok_loopTest _ _) fun topic hmay => ?_
      rw [hphase] at hmay
      exact mayHold_loopTest hmay flag
    · cases hs
  | unsubscribe s =>
    rw [Clients.step] at hs
    split at hs
    · rename_i topics t rest queued hphase
      obtain ⟨broker, hsend, rfl⟩ := Option.map_eq_some_iff.1 hs
      exact h.unsubscribe hphase hsend
    · cases hs
  | publish p topic line =>
    obtain ⟨broker, hsend, rfl⟩ := Option.map_eq_some_iff.1 hs
    refine h.serve (h.broker.step hsend) ?_
    rw [Bounded.settled_send hsend, Request.text, table_publish]
    exact ite_self _
  | serve =>
    obtain ⟨broker, hserve, rfl⟩ := Option.map_eq_some_iff.1 hs
    refine h.serve (h.broker.step hserve) ?_
    exact Bounded.settled_of_step h.broker (fun _ => Bounded.Action.noConfusion) hserve
  | route =>
    obtain ⟨broker, hroute, rfl⟩ := Option.map_eq_some_iff.1 hs
    refine h.serve (h.broker.step hroute) ?_
    exact Bounded.settled_of_step h.broker (fun _ => Bounded.Action.noConfusion) hroute

/-! ## After the exit -/

/-- **What a subscriber leaves behind.** Once `s` has left its loop on a SIGINT and returned, and
the broker has processed every text queued for it, an entry of `s` is for one of its topics whose
unsubscriptions all found the queue full. With every topic's unsubscription queued there is none. -/
theorem entry_of_ended {as : List Action} (h : runFrom (step cap) init as = some st)
    {topics queued : List ShortTopic} (hended : st.phase s = .leaving topics [] queued)
    (hserved : mailbox 1 st.broker.queue = []) :
    (∀ topic, (s.val, topic) ∈ st.broker.registry.table →
        ∃ t ∈ topics, t.bytes = topic ∧ t ∉ queued) ∧
      (topics ⊆ queued → ∀ topic, (s.val, topic) ∉ st.broker.registry.table) := by
  have hinv : st.Inv cap :=
    runFrom_invariant (fun _ _ _ hinv hs => hinv.step hs) (inv_init cap) h
  have hentry : ∀ topic, (s.val, topic) ∈ st.broker.registry.table →
      ∃ t ∈ topics, t.bytes = topic ∧ t ∉ queued := fun topic hmem => by
    have hmay := hinv.entries s topic (Bounded.settled_eq hserved ▸ hmem)
    rwa [hended] at hmay
  refine ⟨hentry, fun hall topic hmem => ?_⟩
  obtain ⟨t, ht, -, hqueued⟩ := hentry topic hmem
  exact hqueued (hall ht)

/-- A subscriber of `news`. -/
def reader : SubscriberPid := ⟨⟨3101, by omega, by omega⟩, by decide⟩

/-- The topic `news`. -/
def news : ShortTopic := ⟨ascii "news", by decide, no_space_of_all (by decide), by decide⟩

/-- The subscriber registers; it gets a SIGINT while a line on another topic is queued, and the
broker takes that line once the subscriber has returned. -/
def interruptedRun : List Action :=
  [.start reader [news], .subscribe reader, .serve, .enter reader,
    .publish ⟨4102, by omega, by omega⟩ (ascii "x") (ascii "a"), .interrupt reader true,
    .unsubscribe reader, .serve]

/-- With two slots the unsubscription is queued behind the line, and the broker processes it. -/
theorem entry_of_ended_reader : ∃ st,
    runFrom (step 2) init (interruptedRun ++ [.serve]) = some st ∧
    st.phase reader = .leaving [news] [] [news] ∧
    ∀ topic, (reader.val, topic) ∉ st.broker.registry.table := by
  have hend : (runFrom (step 2) init (interruptedRun ++ [.serve])).map (fun st =>
      (st.phase reader, mailbox 1 st.broker.queue)) = some (.leaving [news] [] [news], []) := by
    decide
  obtain ⟨st, hrun, hst⟩ := Option.map_eq_some_iff.1 hend
  obtain ⟨hphase, hserved⟩ := Prod.mk.inj hst
  exact ⟨st, hrun, hphase, (entry_of_ended hrun hphase hserved).2 (List.Subset.refl _)⟩

/-- With one slot the line takes it: the unsubscription is skipped, and the entry is still there. -/
theorem not_entry_free : ¬ ∀ (cap : ℕ) (as : List Action) (st : Clients) (s : SubscriberPid)
    (topics queued : List ShortTopic), runFrom (step cap) init as = some st →
    st.phase s = .leaving topics [] queued → mailbox 1 st.broker.queue = [] →
    ∀ topic, (s.val, topic) ∉ st.broker.registry.table := by
  intro hall
  have hend : (runFrom (step 1) init interruptedRun).map (fun st =>
      (st.phase reader, mailbox 1 st.broker.queue, st.broker.registry.table)) =
      some (.leaving [news] [] [], [], [(3101, ascii "news")]) := by decide
  obtain ⟨st, hrun, hst⟩ := Option.map_eq_some_iff.1 hend
  obtain ⟨hphase, hrest⟩ := Prod.mk.inj hst
  obtain ⟨hserved, htable⟩ := Prod.mk.inj hrest
  refine hall 1 _ st reader [news] [] hrun hphase hserved (ascii "news") ?_
  rw [htable]
  exact List.mem_singleton.2 rfl

end Clients

end EltexPractice.Broker
