import EltexPractice.Broker.TopicKeys
import EltexPractice.Foundations.Schedule

/-!
# Delivery through the broker's queue

The whole system of task 2: any number of publishers and subscribers and the broker, around one
System V queue that carries the commands (type `1`) and every mailbox (type: the subscriber's pid).
An action is one `msgsnd` of a publisher or a subscriber, one turn of the broker's loop (`msgrcv`
and `process_incoming_message`) or one `msgrcv` of a subscriber, so a schedule is an interleaving.

The state carries two ghost fields: `sent`, the commands in the order of their `msgsnd`, and
`tables`, the subscriber table at each turn of the broker. `State.Inv` relates queue, table and
mailboxes to them; `delivery` reads the delivery law off it.
-/

namespace EltexPractice.Broker

open CString MsgQueue

/-! ## Commands -/

/-- A topic that fits the broker's array. -/
structure Topic extends PlainTopic where
  length_le : bytes.length ≤ 63
  deriving DecidableEq

/-- A line of a publisher: what `fgets` leaves in `line[256]` without its newline, not empty. -/
structure Line where
  bytes : List UInt8
  ne_nil : bytes ≠ []
  length_le : bytes.length ≤ 255
  clean : 0 ∉ bytes ∧ 10 ∉ bytes

/-- The pid of a subscriber; type `1` is the broker's. -/
structure SubscriberPid extends Pid where
  one_lt : 1 < val
  deriving DecidableEq

/-- A line published on a topic. -/
structure Publication where
  publisher : Pid
  topic : Topic
  line : Line

/-- What publishers and subscribers send to the broker. -/
inductive Command
  | subscribe (s : SubscriberPid) (t : Topic)
  | unsubscribe (s : SubscriberPid) (t : Topic)
  | publish (e : Publication)

namespace Command

/-- The text of a command, as `run_subscriber` and `run_publisher` build it. -/
def text : Command → List UInt8
  | subscribe s t => subscribeText s.val t.bytes
  | unsubscribe s t => unsubscribeText s.val t.bytes
  | publish e => sendText e.publisher.val e.topic.bytes e.line.bytes

/-- What a command does to the subscriber table. -/
def apply (table : List (ℤ × List UInt8)) : Command → List (ℤ × List UInt8)
  | subscribe s t => OrderedSet.insert maxSubscribers table (s.val, t.bytes)
  | unsubscribe s t => OrderedSet.remove table (s.val, t.bytes)
  | publish _ => table

/-- The publication a command delivers to `s` when the broker processes it at `table`. -/
def deliver (table : List (ℤ × List UInt8)) (s : ℤ) : Command → Option Publication
  | publish e => if (s, e.topic.bytes) ∈ table then some e else none
  | _ => none

end Command

/-- The text under which a publication is delivered. -/
def Publication.text (e : Publication) : List UInt8 := routedText e.topic.bytes e.line.bytes

theorem Topic.zero_notMem (t : Topic) : 0 ∉ t.bytes := fun h => (t.clean 0 h).1 rfl

theorem Topic.take_eq (t : Topic) : t.bytes.take 63 = t.bytes := List.take_of_length_le t.length_le

/-- A publication of a topic and a line that fit is read back whole. -/
theorem splitSend_publish (e : Publication) :
    splitSend (Command.publish e).text =
      some (e.publisher.val, e.topic.bytes, e.line.bytes) := by
  have hp := e.publisher.length_decimal_le
  have hhead := length_sendHead e.publisher
  have ht := e.topic.length_le
  have hl := e.line.length_le
  rw [Command.text, splitSend_sendText _ e.topic.toPlainTopic _ (by simp only [maxTextLen]; omega),
    e.topic.take_eq, List.take_of_length_le (by simp only [lineRoom, maxTextLen]; omega)]

theorem snprintf_publication (e : Publication) :
    snprintf maxTextLen (routedText e.topic.bytes e.line.bytes) = e.text := by
  have ht := e.topic.length_le
  have hl := e.line.length_le
  refine snprintf_eq_self ?_
  rw [length_routedText]
  simp only [maxTextLen]
  omega

/-- **The broker's turn on a command**: the table follows `apply`, and each mailbox gets what
`deliver` says. -/
theorem process_command {r : Registry} (hr : r.table.Nodup) (c : Command) :
    (processIncomingMessage r c.text).1.table = c.apply r.table ∧
      ∀ s, mailbox s (processIncomingMessage r c.text).2 =
        ((c.deliver r.table s).map (·.text)).toList := by
  cases c with
  | subscribe s t =>
    rw [Command.text, process_subscribeText r s.toPid t.toPlainTopic, t.take_eq]
    exact ⟨table_registerSubscriber r s.val t.zero_notMem t.length_le, fun _ => rfl⟩
  | unsubscribe s t =>
    rw [Command.text, process_unsubscribeText r s.toPid t.toPlainTopic, t.take_eq]
    refine ⟨?_, fun _ => rfl⟩
    rw [table_unregisterSubscriber, OrderedSet.erase_eq_remove hr]
    rfl
  | publish e =>
    have hsplit := splitSend_publish e
    rw [Command.text] at hsplit ⊢
    rw [process_sendText, handleSend, hsplit]
    refine ⟨table_registerPublisher r _, fun s => ?_⟩
    simp only
    rw [mailbox_routeMessage (by simpa using hr), table_registerPublisher,
      snprintf_publication, Command.deliver]
    split <;> rfl

/-! ## The system -/

structure State where
  registry : Registry
  queue : MsgQueue ℤ (List UInt8)
  received : ℤ → List (List UInt8)
  /-- Ghost: the commands sent so far. -/
  sent : List Command
  /-- Ghost: the subscriber table at each turn of the broker. -/
  tables : List (List (ℤ × List UInt8))

/-- An empty queue and a fresh broker. -/
def State.init : State := ⟨.init, [], fun _ => [], [], []⟩

inductive Action
  /-- A publisher or a subscriber calls `msgsnd`. -/
  | send (c : Command)
  /-- The broker calls `msgrcv` and `process_incoming_message`. -/
  | broker
  /-- The subscriber `s` calls `msgrcv`. -/
  | receive (s : SubscriberPid)

/-- One action; a `msgrcv` that finds no message of its type is not possible yet. -/
def step (st : State) : Action → Option State
  | .send c => some { st with queue := st.queue.send 1 c.text, sent := st.sent ++ [c] }
  | .broker =>
    match recv 1 st.queue with
    | none => none
    | some (msgText, queue) =>
      let out := processIncomingMessage st.registry msgText
      some { st with
        registry := out.1
        queue := out.2.foldl (fun q m => q.send m.1 m.2) queue
        tables := st.tables ++ [st.registry.table] }
  | .receive s =>
    match recv s.val st.queue with
    | none => none
    | some (msgText, queue) =>
      some { st with
        queue
        received := Function.update st.received s.val (st.received s.val ++ [msgText]) }

/-- The commands the broker has processed, each with the table it met. -/
def State.processed (st : State) : List (Command × List (ℤ × List UInt8)) :=
  (st.sent.take st.tables.length).zip st.tables

/-- The commands still queued for the broker. -/
def State.pending (st : State) : List Command := st.sent.drop st.tables.length

/-- The publications processed while `s` was subscribed to their topic. -/
def State.deliveries (st : State) (s : ℤ) : List Publication :=
  st.processed.filterMap fun e => e.1.deliver e.2 s

theorem foldl_send (q : MsgQueue ℤ (List UInt8)) (msgs : List Msg) :
    msgs.foldl (fun q m => q.send m.1 m.2) q = q ++ msgs := by
  induction msgs generalizing q with
  | nil => simp
  | cons m msgs ih => rw [List.foldl_cons, ih, MsgQueue.send, List.append_assoc]; rfl

/-! ## The invariant -/

/-- What holds at every moment: the commands queued for the broker are those it has not processed,
in the order they were sent, and each subscriber has read or is about to read exactly its
deliveries. -/
structure State.Inv (st : State) : Prop where
  nodup : st.registry.table.Nodup
  pids : ∀ key ∈ st.registry.table, 1 < key.1
  turns : st.tables.length ≤ st.sent.length
  commands : mailbox 1 st.queue = st.pending.map (·.text)
  mail : ∀ s : SubscriberPid,
    st.received s.val ++ mailbox s.val st.queue = (st.deliveries s.val).map (·.text)

theorem State.inv_init : State.init.Inv where
  nodup := Registry.inv_init.nodup
  pids := by simp [State.init, Registry.init, Registry.table]
  turns := le_rfl
  commands := rfl
  mail _ := rfl

theorem Command.nodup_apply {table : List (ℤ × List UInt8)} (h : table.Nodup) (c : Command) :
    (c.apply table).Nodup := by
  cases c with
  | subscribe s t => exact OrderedSet.nodup_insert h _
  | unsubscribe s t => exact OrderedSet.nodup_remove h _
  | publish e => exact h

theorem Command.pids_apply {table : List (ℤ × List UInt8)} (h : ∀ key ∈ table, 1 < key.1)
    (c : Command) : ∀ key ∈ c.apply table, 1 < key.1 := by
  intro key hkey
  cases c with
  | subscribe s t =>
    obtain hmem | rfl := OrderedSet.mem_of_mem_insert hkey
    · exact h key hmem
    · exact s.one_lt
  | unsubscribe s t => exact h key (OrderedSet.mem_remove.1 hkey).1
  | publish e => exact h key hkey

/-- Nothing is ever delivered to the broker's own type. -/
theorem Command.deliver_one {table : List (ℤ × List UInt8)} (h : ∀ key ∈ table, 1 < key.1)
    (c : Command) : c.deliver table 1 = none := by
  cases c with
  | subscribe s t => rfl
  | unsubscribe s t => rfl
  | publish e => exact if_neg fun hmem => absurd (h _ hmem) (lt_irrefl _)

theorem SubscriberPid.ne_one (s : SubscriberPid) : s.val ≠ 1 := s.one_lt.ne'

theorem State.sent_eq (st : State) : st.sent = st.sent.take st.tables.length ++ st.pending :=
  (List.take_append_drop _ _).symm

/-- A `msgsnd` of a command: the broker has one more command to process. -/
theorem State.Inv.send {st : State} (h : st.Inv) (c : Command) :
    { st with queue := st.queue.send 1 c.text, sent := st.sent ++ [c] : State }.Inv where
  nodup := h.nodup
  pids := h.pids
  turns := by
    have := h.turns
    simp only [List.length_append, List.length_singleton]
    omega
  commands := by
    rw [mailbox_send, if_pos rfl, h.commands]
    simp only [State.pending, List.drop_append_of_le_length h.turns, List.map_append,
      List.map_cons, List.map_nil]
  mail s := by
    rw [mailbox_send, if_neg s.ne_one.symm, List.append_nil, h.mail]
    simp only [State.deliveries, State.processed, List.take_append_of_le_length h.turns]

/-- A turn of the broker: the first pending command is processed at the present table. -/
theorem State.Inv.broker {st : State} (h : st.Inv) {msgText : List UInt8}
    {queue : MsgQueue ℤ (List UInt8)} (hrecv : recv 1 st.queue = some (msgText, queue)) :
    ∃ c rest, st.pending = c :: rest ∧ c.text = msgText ∧
      { st with
        registry := (processIncomingMessage st.registry msgText).1
        queue := queue ++ (processIncomingMessage st.registry msgText).2
        tables := st.tables ++ [st.registry.table] : State }.Inv := by
  obtain ⟨hone, hothers⟩ := recv_spec hrecv
  rw [h.commands] at hone
  obtain ⟨c, rest, hpend, hc, hrest⟩ := List.map_eq_cons_iff.1 hone
  refine ⟨c, rest, hpend, hc, ?_⟩
  subst hc
  obtain ⟨htable, hmsgs⟩ := process_command h.nodup c
  have hsent := st.sent_eq
  rw [hpend] at hsent
  have hlen : (st.sent.take st.tables.length).length = st.tables.length :=
    List.length_take_of_le h.turns
  have hcut : st.sent = (st.sent.take st.tables.length ++ [c]) ++ rest := by simpa using hsent
  have htake : st.sent.take (st.tables.length + 1) = st.sent.take st.tables.length ++ [c] := by
    conv_lhs => rw [hcut]
    exact List.take_left' (by simp [hlen])
  have hdrop : st.sent.drop (st.tables.length + 1) = rest := by
    conv_lhs => rw [hcut]
    exact List.drop_left' (by simp [hlen])
  constructor
  · rw [htable]
    exact c.nodup_apply h.nodup
  · rw [htable]
    exact c.pids_apply h.pids
  · have := congrArg List.length hsent
    simp only [List.length_append, List.length_cons, List.length_nil, hlen] at this ⊢
    omega
  · rw [mailbox_append, hmsgs, c.deliver_one h.pids, ← hrest]
    simp [State.pending, hdrop]
  · intro s
    rw [mailbox_append, hmsgs, ← hothers s.val s.ne_one, ← List.append_assoc, h.mail]
    simp only [State.deliveries, State.processed, List.length_append, List.length_singleton, htake]
    rw [List.zip_append hlen, List.filterMap_append, List.map_append, List.zip_cons_cons,
      List.filterMap_cons]
    cases c.deliver st.registry.table s.val <;> rfl

/-- A `msgrcv` of a subscriber moves the head of its mailbox to what it has received. -/
theorem State.Inv.receive {st : State} (h : st.Inv) {s : SubscriberPid} {msgText : List UInt8}
    {queue : MsgQueue ℤ (List UInt8)} (hrecv : recv s.val st.queue = some (msgText, queue)) :
    { st with
      queue
      received := Function.update st.received s.val (st.received s.val ++ [msgText]) :
        State }.Inv := by
  obtain ⟨hself, hothers⟩ := recv_spec hrecv
  refine ⟨h.nodup, h.pids, h.turns, ?_, fun s' => ?_⟩
  · rw [← hothers 1 s.ne_one.symm]
    exact h.commands
  · change Function.update st.received s.val (st.received s.val ++ [msgText]) s'.val ++
      mailbox s'.val queue = (st.deliveries s'.val).map (·.text)
    rw [← h.mail s']
    rcases eq_or_ne s'.val s.val with heq | hne
    · rw [heq, Function.update_self, hself, List.append_assoc, List.singleton_append]
    · rw [Function.update_of_ne hne, hothers s'.val hne]

/-- Every action keeps the invariant. -/
theorem State.Inv.step {st st' : State} {a : Action} (h : st.Inv) (hs : step st a = some st') :
    st'.Inv := by
  cases a with
  | send c =>
    obtain rfl := Option.some.inj hs
    exact h.send c
  | broker =>
    rw [Broker.step] at hs
    split at hs
    · cases hs
    · rename_i msgText queue hrecv
      obtain rfl := Option.some.inj hs
      obtain ⟨c, rest, -, -, hinv⟩ := h.broker hrecv
      simpa only [foldl_send] using hinv
  | receive s =>
    rw [Broker.step] at hs
    split at hs
    · cases hs
    · rename_i msgText queue hrecv
      obtain rfl := Option.some.inj hs
      exact h.receive hrecv

theorem State.inv_of_run {as : List Action} {st : State}
    (h : runFrom Broker.step .init as = some st) : st.Inv :=
  runFrom_invariant (fun _ _ _ h hs => h.step hs) State.inv_init h

/-! ## Subscriptions and the table -/

/-- After the commands `cs`, `s` is subscribed to `t`: there is a subscription since which `s` has
not unsubscribed. -/
def SubscribedAfter (s : SubscriberPid) (t : Topic) (cs : List Command) : Prop :=
  ∃ before after, cs = before ++ .subscribe s t :: after ∧ .unsubscribe s t ∉ after

theorem not_subscribedAfter_nil (s : SubscriberPid) (t : Topic) : ¬ SubscribedAfter s t [] := by
  rintro ⟨before, after, h, -⟩
  simp at h

theorem subscribedAfter_concat {s : SubscriberPid} {t : Topic} {cs : List Command} {c : Command} :
    SubscribedAfter s t (cs ++ [c]) ↔
      c = .subscribe s t ∨ (SubscribedAfter s t cs ∧ c ≠ .unsubscribe s t) := by
  constructor
  · rintro ⟨before, after, h, hafter⟩
    rcases List.eq_nil_or_concat after with rfl | ⟨after, c', rfl⟩
    · obtain ⟨-, h⟩ := List.append_inj' h rfl
      exact Or.inl (List.singleton_inj.1 h)
    · rw [List.concat_eq_append, ← List.cons_append, ← List.append_assoc] at h
      obtain ⟨rfl, hlast⟩ := List.append_inj' h rfl
      obtain rfl := List.singleton_inj.1 hlast
      simp only [List.concat_eq_append, List.mem_append, List.mem_singleton, not_or] at hafter
      exact Or.inr ⟨⟨before, after, rfl, hafter.1⟩, fun e => hafter.2 e.symm⟩
  · rintro (rfl | ⟨⟨before, after, rfl, hafter⟩, hc⟩)
    · exact ⟨cs, [], rfl, List.not_mem_nil⟩
    · refine ⟨before, after ++ [c], by simp, ?_⟩
      simp only [List.mem_append, List.mem_singleton, not_or]
      exact ⟨hafter, fun e => hc e.symm⟩

theorem key_inj {s s' : SubscriberPid} {t t' : Topic} :
    (s.val, t.bytes) = (s'.val, t'.bytes) ↔ s = s' ∧ t = t' := by
  obtain ⟨⟨s, _, _⟩, _⟩ := s
  obtain ⟨⟨s', _, _⟩, _⟩ := s'
  obtain ⟨⟨t, _, _⟩, _⟩ := t
  obtain ⟨⟨t', _, _⟩, _⟩ := t'
  simp

/-- While the table has room, one command keeps it equal to the set of subscriptions. -/
theorem mem_apply {table : List (ℤ × List UInt8)} (hroom : table.length < maxSubscribers)
    {cs : List Command} (h : ∀ (s : SubscriberPid) (t : Topic),
      (s.val, t.bytes) ∈ table ↔ SubscribedAfter s t cs) (c : Command) (s : SubscriberPid)
    (t : Topic) : (s.val, t.bytes) ∈ c.apply table ↔ SubscribedAfter s t (cs ++ [c]) := by
  rw [subscribedAfter_concat, ← h]
  cases c with
  | subscribe s' t' =>
    rw [Command.apply, OrderedSet.mem_insert_of_lt hroom, key_inj]
    simp only [Command.subscribe.injEq, ne_eq, reduceCtorEq, not_false_eq_true, and_true]
    rw [eq_comm (a := s), eq_comm (a := t), or_comm]
  | unsubscribe s' t' =>
    rw [Command.apply, OrderedSet.mem_remove, Ne, key_inj]
    simp only [reduceCtorEq, false_or, ne_eq, Command.unsubscribe.injEq]
    rw [eq_comm (a := s), eq_comm (a := t)]
  | publish e => simp [Command.apply]

/-- The subscriber table never holds 128 entries during the run of `as`. -/
def NeverFull (as : List Action) : Prop :=
  ∀ as' st, as' <+: as → runFrom step .init as' = some st →
    st.registry.table.length < maxSubscribers

theorem NeverFull.of_prefix {as as' : List Action} (h : NeverFull as) (hp : as' <+: as) :
    NeverFull as' :=
  fun as'' st hp' => h as'' st (hp'.trans hp)

/-- Every table the broker has met, and the present one, is the set of subscriptions. -/
structure State.TableInv (st : State) : Prop where
  met : ∀ i (hi : i < st.tables.length) (s : SubscriberPid) (t : Topic),
    (s.val, t.bytes) ∈ st.tables[i] ↔ SubscribedAfter s t (st.sent.take i)
  now : ∀ (s : SubscriberPid) (t : Topic),
    (s.val, t.bytes) ∈ st.registry.table ↔ SubscribedAfter s t (st.sent.take st.tables.length)

theorem State.TableInv.step {st st' : State} {a : Action} (hst : st.Inv) (h : st.TableInv)
    (hroom : st.registry.table.length < maxSubscribers) (hs : Broker.step st a = some st') :
    st'.TableInv := by
  cases a with
  | send c =>
    obtain rfl := Option.some.inj hs
    have htake : ∀ i ≤ st.tables.length, (st.sent ++ [c]).take i = st.sent.take i := fun i hi =>
      List.take_append_of_le_length (hi.trans hst.turns)
    refine ⟨fun i hi => ?_, ?_⟩
    · rw [htake i (Nat.le_of_lt hi)]
      exact h.met i hi
    · rw [htake _ le_rfl]
      exact h.now
  | broker =>
    rw [Broker.step] at hs
    split at hs
    · cases hs
    · rename_i msgText queue hrecv
      obtain rfl := Option.some.inj hs
      obtain ⟨c, rest, hpend, rfl, -⟩ := hst.broker hrecv
      have htake : st.sent.take (st.tables.length + 1) =
          st.sent.take st.tables.length ++ [c] := by
        have hlt : st.tables.length < st.sent.length := by
          have := congrArg List.length hpend
          simp only [State.pending, List.length_drop, List.length_cons] at this
          omega
        rw [List.take_add_one, List.getElem?_eq_getElem hlt]
        have hc := List.drop_eq_getElem_cons hlt
        rw [← State.pending, hpend] at hc
        rw [← (List.cons.inj hc).1]
        rfl
      refine ⟨fun i hi => ?_, fun s t => ?_⟩
      · simp only [List.length_append, List.length_singleton] at hi
        rcases Nat.lt_succ_iff_lt_or_eq.1 hi with hlt | rfl
        · rw [List.getElem_append_left hlt]
          exact h.met i hlt
        · rw [List.getElem_append_right le_rfl]
          simp only [Nat.sub_self, List.getElem_singleton]
          exact h.now
      · rw [List.length_append, List.length_singleton, htake, (process_command hst.nodup c).1]
        exact mem_apply hroom h.now c s t
  | receive s =>
    rw [Broker.step] at hs
    split at hs
    · cases hs
    · obtain rfl := Option.some.inj hs
      exact ⟨h.met, h.now⟩

theorem State.tableInv_of_run {as : List Action} {st : State}
    (h : runFrom Broker.step .init as = some st) (hroom : NeverFull as) : st.TableInv := by
  refine runFrom_induction (P := fun as st => NeverFull as → st.TableInv) (fun _ => ?_)
    (fun as st a st' hrun ih hs hroom => ?_) h hroom
  · refine ⟨fun i hi => absurd hi (Nat.not_lt_zero i), fun s t => ?_⟩
    simp [State.init, Registry.init, Registry.table, not_subscribedAfter_nil]
  · exact (ih (hroom.of_prefix (List.prefix_append _ _))).step (State.inv_of_run hrun)
      (hroom as st (List.prefix_append _ _) hrun) hs

/-! ## The delivery law -/

/-- The lines `p` publishes on `t`, among the commands `cs`. -/
def published (p : Pid) (t : Topic) (cs : List Command) : List Publication :=
  cs.filterMap fun
    | .publish e => if e.publisher = p ∧ e.topic = t then some e else none
    | _ => none

/-- The delivery law of the broker, in one state. -/
structure State.DeliveryLaw (st : State) : Prop where
  /-- What `s` has received and what is queued for it are the publications processed while it was
  in the table with their topic, each once, in the order they were processed. -/
  exact : ∀ s : SubscriberPid, st.received s.val ++ mailbox s.val st.queue =
    (st.deliveries s.val).map (·.text)
  /-- The table the broker meets at its `i`-th turn is the set of the subscriptions so far. -/
  table : ∀ i (hi : i < st.processed.length) (s : SubscriberPid) (t : Topic),
    (s.val, t.bytes) ∈ st.processed[i].2 ↔
      SubscribedAfter s t ((st.processed.take i).map (·.1))
  /-- The commands are processed in the order they were sent; the others are still queued. -/
  sent : st.sent = st.processed.map (·.1) ++ st.pending ∧
    mailbox 1 st.queue = st.pending.map (·.text)
  /-- The lines of `p` on `t` that reach `s` are lines of `p` on `t`, without duplication or
  reordering. -/
  ordered : ∀ (s : SubscriberPid) (p : Pid) (t : Topic),
    ((st.deliveries s.val).filter fun e => e.publisher = p ∧ e.topic = t).Sublist
      (published p t st.sent)
  /-- Without loss: if `s` was in the table whenever a line of `p` on `t` was processed, it gets
  all of them. -/
  lossless : ∀ (s : SubscriberPid) (p : Pid) (t : Topic),
    (∀ x ∈ st.processed, ∀ e, x.1 = .publish e → e.publisher = p → e.topic = t →
      (s.val, t.bytes) ∈ x.2) →
    ((st.deliveries s.val).filter fun e => e.publisher = p ∧ e.topic = t) ++
      published p t st.pending = published p t st.sent
  /-- Nothing of a topic `s` is not subscribed to reaches `s`. -/
  only : ∀ s : SubscriberPid, ∀ e ∈ st.deliveries s.val,
    ∃ i, ∃ hi : i < st.processed.length, st.processed[i].1 = .publish e ∧
      SubscribedAfter s e.topic ((st.processed.take i).map (·.1))

theorem State.length_processed {st : State} (h : st.Inv) :
    st.processed.length = st.tables.length := by
  have := h.turns
  simp only [State.processed, List.length_zip, List.length_take]
  omega

theorem State.map_processed {st : State} (h : st.Inv) :
    st.processed.map (·.1) = st.sent.take st.tables.length :=
  List.map_fst_zip (by rw [List.length_take_of_le h.turns])

/-- The deliveries of the lines of `p` on `t`, as a filter of the processed commands. -/
theorem State.filter_deliveries (st : State) (s : ℤ) (p : Pid) (t : Topic) :
    (st.deliveries s).filter (fun e => e.publisher = p ∧ e.topic = t) =
      published p t ((st.processed.filter fun x => (x.1.deliver x.2 s).isSome).map (·.1)) := by
  rw [State.deliveries, published, List.filter_filterMap, List.filterMap_map,
    List.filterMap_filter]
  refine List.filterMap_congr fun x _ => ?_
  obtain ⟨c, table⟩ := x
  cases c with
  | subscribe s' t' => rfl
  | unsubscribe s' t' => rfl
  | publish e =>
    simp only [Command.deliver, Function.comp_apply]
    split
    · simp [Option.filter_some]
    · rfl

theorem published_append (p : Pid) (t : Topic) (cs cs' : List Command) :
    published p t (cs ++ cs') = published p t cs ++ published p t cs' := List.filterMap_append

theorem Command.length_apply_le (table : List (ℤ × List UInt8)) (c : Command) :
    (c.apply table).length ≤ table.length + 1 := by
  cases c with
  | subscribe s t =>
    rw [Command.apply, OrderedSet.insert]
    split
    · exact Nat.le_succ _
    · rw [List.length_append, List.length_singleton]
  | unsubscribe s t => exact (OrderedSet.length_remove_le _ _).trans (Nat.le_succ _)
  | publish e => exact Nat.le_succ _

/-- The table grows by at most one entry for each action, so a short run never fills it. -/
theorem neverFull_of_length {as : List Action} (h : as.length < maxSubscribers) : NeverFull as := by
  intro as' st hp hrun
  refine lt_of_le_of_lt ?_ (hp.length_le.trans_lt h)
  refine runFrom_induction (P := fun as st => st.registry.table.length ≤ as.length) ?_
    (fun as st a st' hrun ih hs => ?_) hrun
  · simp [State.init, Registry.init, Registry.table]
  · rw [List.length_append, List.length_singleton]
    cases a with
    | send c =>
      obtain rfl := Option.some.inj hs
      exact ih.trans (Nat.le_succ _)
    | broker =>
      rw [step] at hs
      split at hs
      · cases hs
      · rename_i msgText queue hrecv
        obtain rfl := Option.some.inj hs
        obtain ⟨c, rest, -, rfl, -⟩ := (State.inv_of_run hrun).broker hrecv
        simp only [(process_command (State.inv_of_run hrun).nodup c).1]
        exact (c.length_apply_le _).trans (Nat.add_le_add_right ih 1)
    | receive s =>
      rw [step] at hs
      split at hs
      · cases hs
      · obtain rfl := Option.some.inj hs
        exact ih.trans (Nat.le_succ _)

/-- **Delivery through the broker**, in every state of every run in which the subscriber table
keeps room. -/
theorem delivery {as : List Action} {st : State} (h : runFrom step .init as = some st)
    (hroom : NeverFull as) : st.DeliveryLaw := by
  have hinv := State.inv_of_run h
  have htab := State.tableInv_of_run h hroom
  have hlen := State.length_processed hinv
  have hmap := State.map_processed hinv
  have hsent : st.sent = st.processed.map (·.1) ++ st.pending := by
    rw [hmap]
    exact st.sent_eq
  have htable : ∀ i (hi : i < st.processed.length) (s : SubscriberPid) (t : Topic),
      (s.val, t.bytes) ∈ st.processed[i].2 ↔
        SubscribedAfter s t ((st.processed.take i).map (·.1)) := fun i hi s t => by
    rw [List.map_take, hmap, List.take_take, Nat.min_eq_left (by omega)]
    simp only [State.processed, List.getElem_zip]
    exact htab.met i (by omega) s t
  refine ⟨hinv.mail, htable, ⟨hsent, hinv.commands⟩, fun s p t => ?_, fun s p t hall => ?_,
    fun s e he => ?_⟩
  · rw [st.filter_deliveries, hsent, published_append]
    exact ((List.filter_sublist.map _).filterMap _).trans (List.sublist_append_left _ _)
  · rw [st.filter_deliveries, hsent, published_append]
    congr 1
    -- the processed commands that deliver nothing to `s` are no lines of `p` on `t`
    simp only [published, List.filterMap_map, List.filterMap_filter]
    refine List.filterMap_congr fun x hx => ?_
    obtain ⟨c, table⟩ := x
    cases c with
    | subscribe s' t' => simp
    | unsubscribe s' t' => simp
    | publish e =>
      by_cases hpt : e.publisher = p ∧ e.topic = t
      · have hmem := hall _ hx e rfl hpt.1 hpt.2
        rw [← hpt.2] at hmem
        simp [Command.deliver, hmem]
      · simp [hpt]
  · obtain ⟨x, hx, hdel⟩ := List.mem_filterMap.1 he
    obtain ⟨i, hi, rfl⟩ := List.getElem_of_mem hx
    refine ⟨i, hi, ?_⟩
    generalize hc : st.processed[i].1 = c at hdel
    cases c with
    | subscribe s' t' => cases hdel
    | unsubscribe s' t' => cases hdel
    | publish e' =>
      rw [Command.deliver] at hdel
      split at hdel
      · rename_i hmem
        obtain rfl := Option.some.inj hdel
        exact ⟨rfl, (htable i hi s e'.topic).1 hmem⟩
      · cases hdel

/-- A subscriber registers, a publisher sends a line on its topic and one on another, and the
subscriber reads. -/
def sampleRun : List Action :=
  let s : SubscriberPid := ⟨⟨1001, by omega, by omega⟩, by decide⟩
  let p : Pid := ⟨2002, by omega, by omega⟩
  let t : Topic := ⟨⟨ascii "news", by decide, clean_of_all rfl⟩, by decide⟩
  let t' : Topic := ⟨⟨ascii "sport", by decide, clean_of_all rfl⟩, by decide⟩
  let line : Line := ⟨ascii "hello", by decide, by decide, by decide⟩
  [.send (.subscribe s t), .send (.publish ⟨p, t, line⟩), .broker, .send (.publish ⟨p, t', line⟩),
    .broker, .receive s, .broker]

theorem delivery_sampleRun : ∃ st, runFrom step .init sampleRun = some st ∧
    st.received 1001 = [ascii "[news]: hello"] ∧ st.queue = [] ∧ st.DeliveryLaw := by
  have hend : (runFrom step .init sampleRun).map (fun st => (st.received 1001, st.queue)) =
      some ([ascii "[news]: hello"], []) := by decide
  obtain ⟨st, hrun, hst⟩ := Option.map_eq_some_iff.1 hend
  obtain ⟨hreceived, hqueue⟩ := Prod.mk.inj hst
  exact ⟨st, hrun, hreceived, hqueue, delivery hrun (neverFull_of_length (by decide))⟩

end EltexPractice.Broker
