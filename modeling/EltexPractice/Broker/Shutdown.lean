import EltexPractice.Broker.Commands
import EltexPractice.Foundations.Schedule
import EltexPractice.Foundations.Sessions

/-!
# The shutdown of the broker

`notify_clients` sends `SIGINT` to the pids of both tables, with whatever was registered.

* `notifyClients_pos_iff`: the pids of the texts are not looked at. All signalled pids name single
  processes after each text of a history exactly when each text that is registered has a positive
  pid.
* `signalled_iff`: nothing takes a publisher out of its table, so the 128 places go to the first
  128 publishers, also when they have exited.
-/

namespace EltexPractice.Broker

open CString Sessions

/-- `notify_clients`: the pids it passes to `kill`. -/
def notifyClients (r : Registry) : List ℤ :=
  r.subscribers.toList.map (·.pid) ++ r.publishers.toList

theorem notifyClients_eq (r : Registry) :
    notifyClients r = r.table.map (·.1) ++ r.publishers.toList := by
  rw [notifyClients, Registry.table, List.map_map]
  rfl

/-! ## The pids of arbitrary texts -/

/-- Each pid that is signalled names one process. -/
def SignalsProcesses (r : Registry) : Prop := ∀ pid ∈ notifyClients r, 0 < pid

/-- A pid that the text makes the broker register is positive. -/
def NamesProcess (r : Registry) (text : Text) : Prop :=
  if (ascii "subscribe,").isPrefixOf text.bytes then
    ∀ key, scanCommand (ascii "subscribe,") text.bytes = some key →
      0 < key.1 ∨ maxSubscribers ≤ r.subscribers.count
  else if (ascii "unsubscribe,").isPrefixOf text.bytes then True
  else if (ascii "send,").isPrefixOf text.bytes then
    ∀ fields, splitSend text.bytes = some fields → 0 < fields.1 ∨ maxPublishers ≤ r.publishers.count
  else True

/-- The turn of the broker on a text. -/
def handle (r : Registry) (text : Text) : Option Registry :=
  some (processIncomingMessage r text.bytes).1

theorem runFrom_handle (r : Registry) (texts : List Text) :
    runFrom handle r texts = some (processAll r (texts.map (·.bytes))) := by
  induction texts generalizing r with
  | nil => rfl
  | cons text texts ih =>
    rw [runFrom_cons]
    exact ih _

theorem signalsProcesses_iff {r : Registry} : SignalsProcesses r ↔
    (∀ key ∈ r.table, 0 < key.1) ∧ ∀ pid ∈ r.publishers.toList, 0 < pid := by
  rw [SignalsProcesses, notifyClients_eq, List.forall_mem_append, List.forall_mem_map]

section

variable {r : Registry} (h : SignalsProcesses r)

include h

theorem signalsProcesses_registerSubscriber {pid : ℤ} {topic : List UInt8} (hnul : 0 ∉ topic)
    (hlen : topic.length ≤ 63) : SignalsProcesses (registerSubscriber r pid topic) ↔
      0 < pid ∨ maxSubscribers ≤ r.subscribers.count := by
  obtain ⟨hsub, hpub⟩ := signalsProcesses_iff.1 h
  rw [signalsProcesses_iff, table_registerSubscriber r pid hnul hlen,
    publishers_registerSubscriber, and_iff_left hpub, OrderedSet.forall_mem_insert hsub,
    length_table]

theorem signalsProcesses_unregisterSubscriber (pid : ℤ) (topic : List UInt8) :
    SignalsProcesses (unregisterSubscriber r pid topic) := by
  obtain ⟨hsub, hpub⟩ := signalsProcesses_iff.1 h
  rw [signalsProcesses_iff, table_unregisterSubscriber, publishers_unregisterSubscriber]
  exact ⟨fun key hkey => hsub key (List.mem_of_mem_erase hkey), hpub⟩

theorem signalsProcesses_registerPublisher {pid : ℤ} :
    SignalsProcesses (registerPublisher r pid) ↔
      0 < pid ∨ maxPublishers ≤ r.publishers.count := by
  obtain ⟨hsub, hpub⟩ := signalsProcesses_iff.1 h
  rw [signalsProcesses_iff, table_registerPublisher, publishers_registerPublisher,
    and_iff_right hsub, OrderedSet.forall_mem_insert hpub, Table.length_toList]

/-- **One text** leaves only pids of processes exactly if those it registers are such. -/
theorem signalsProcesses_step (text : Text) :
    SignalsProcesses (processIncomingMessage r text.bytes).1 ↔ NamesProcess r text := by
  rw [processIncomingMessage, NamesProcess]
  by_cases hsubscribe : (ascii "subscribe,").isPrefixOf text.bytes
  · rw [if_pos hsubscribe, if_pos hsubscribe, handleSubscribe]
    cases hscan : scanCommand (ascii "subscribe,") text.bytes with
    | none => exact iff_of_true h fun _ hk => absurd hk.symm (Option.some_ne_none _)
    | some key =>
      obtain ⟨-, hlen, hnul⟩ := scanCommand_topic text.no_nul hscan
      refine (signalsProcesses_registerSubscriber h hnul hlen).trans ?_
      exact ⟨fun hkey k hk => Option.some.inj hk ▸ hkey, fun hall => hall key rfl⟩
  · rw [if_neg hsubscribe, if_neg hsubscribe]
    by_cases hunsubscribe : (ascii "unsubscribe,").isPrefixOf text.bytes
    · rw [if_pos hunsubscribe, if_pos hunsubscribe, handleUnsubscribe]
      refine iff_of_true ?_ trivial
      cases scanCommand (ascii "unsubscribe,") text.bytes with
      | none => exact h
      | some key => exact signalsProcesses_unregisterSubscriber h key.1 key.2
    · rw [if_neg hunsubscribe, if_neg hunsubscribe]
      by_cases hsend : (ascii "send,").isPrefixOf text.bytes
      · rw [if_pos hsend, if_pos hsend, handleSend]
        cases hsplit : splitSend text.bytes with
        | none => exact iff_of_true h fun _ hk => absurd hk.symm (Option.some_ne_none _)
        | some fields =>
          refine (signalsProcesses_registerPublisher h).trans ?_
          exact ⟨fun hpid f hf => Option.some.inj hf ▸ hpid, fun hall => hall fields rfl⟩
      · rw [if_neg hsend, if_neg hsend]
        exact iff_of_true h trivial

end

theorem signalsProcesses_init : SignalsProcesses .init := by
  rw [signalsProcesses_iff]
  simp [Registry.init, Registry.table]

/-- **Which processes are signalled.** All pids passed to `kill` after each part of a history are
positive exactly when each text that registers one has a positive one. -/
theorem notifyClients_pos_iff (texts : List Text) :
    (∀ past, past <+: texts →
        ∀ pid ∈ notifyClients (processAll .init (past.map (·.bytes))), 0 < pid) ↔
      StepsMeet handle NamesProcess .init texts := by
  have h := stepsMeet_iff (C := NamesProcess) (I := fun _ => True) (P := SignalsProcesses)
    (fun _ _ _ _ _ => trivial)
    (fun r text r' _ hr hs => by
      obtain rfl := Option.some.inj hs
      exact signalsProcesses_step hr text) trivial signalsProcesses_init
    (runFrom_handle .init texts)
  refine Iff.trans ⟨fun hall past r hpast hr => ?_, fun hall past hpast => ?_⟩ h
  · rw [runFrom_handle] at hr
    obtain rfl := Option.some.inj hr
    exact hall past hpast
  · exact hall past _ hpast (runFrom_handle .init past)

/-- After a subscription with the pid `-1`, all processes are signalled. -/
theorem not_notifyClients_pos : ¬ ∀ texts : List Text,
    ∀ pid ∈ notifyClients (processAll .init (texts.map (·.bytes))), 0 < pid := by
  intro hall
  have hsignals : notifyClients (processAll .init [ascii "subscribe,-1,t"]) = [-1] := by decide
  have hpos := hall [⟨ascii "subscribe,-1,t", by decide, by decide⟩] (-1)
    (hsignals ▸ List.mem_singleton.2 rfl)
  exact absurd hpos (by decide)

/-! ## Publishers that come and go -/

/-- The pids of the publications that the broker reads from a text. -/
def publications (text : List UInt8) : List ℤ :=
  if (ascii "subscribe,").isPrefixOf text then []
  else if (ascii "unsubscribe,").isPrefixOf text then []
  else if (ascii "send,").isPrefixOf text then (splitSend text).toList.map (·.1)
  else []

/-- The broker, the publishers that run, and the texts for the broker in its queue. -/
structure Service where
  running : List Pid
  queue : List (List UInt8)
  registry : Registry
  /-- The pids of the publications the broker has processed. -/
  published : List ℤ

namespace Service

/-- The broker at its start. -/
def init : Service := ⟨[], [], .init, []⟩

inductive Action
  /-- A publisher starts. -/
  | start (p : Pid)
  /-- A publisher sends a line on its topic. -/
  | publish (p : Pid) (topic line : List UInt8)
  /-- A publisher exits; what it has sent stays in the queue. -/
  | exit (p : Pid)
  /-- A text of anybody else. -/
  | other (text : List UInt8)
  /-- The broker takes a text and handles it. -/
  | serve

/-- One action; at most 128 publishers run at a time. -/
def step (s : Service) : Action → Option Service
  | .start p =>
    if p ∉ s.running ∧ s.running.length < 128 then some { s with running := p :: s.running }
    else none
  | .publish p topic line =>
    if p ∈ s.running then some { s with queue := s.queue ++ [sendText p.val topic line] }
    else none
  | .exit p => if p ∈ s.running then some { s with running := s.running.erase p } else none
  | .other text => some { s with queue := s.queue ++ [text] }
  | .serve =>
    match s.queue with
    | [] => none
    | text :: queue => some
      { s with
        queue
        registry := (processIncomingMessage s.registry text).1
        published := s.published ++ publications text }

/-- The publications as events of the publishers. -/
def history (s : Service) : List (Event ℤ) := s.published.map .message

end Service

/-- A text adds the pid of its publication to the publisher table. -/
theorem publishers_of_text (r : Registry) (text : List UInt8) :
    (processIncomingMessage r text).1.publishers.toList =
      (publications text).foldl (OrderedSet.insert maxPublishers) r.publishers.toList := by
  rw [processIncomingMessage, publications]
  split
  · rw [handleSubscribe]
    split
    · rw [publishers_registerSubscriber]
      rfl
    · rfl
  · split
    · rw [handleUnsubscribe]
      split
      · rw [publishers_unregisterSubscriber]
        rfl
      · rfl
    · split
      · rw [handleSend]
        split
        · rename_i hsplit
          rw [hsplit]
          exact publishers_registerPublisher r _
        · rename_i hsplit
          rw [hsplit]
          rfl
      · rfl

namespace Service

variable {s : Service}

/-- The publisher table holds the first 128 publishers. -/
theorem publishers_eq {as : List Action} (h : runFrom step init as = some s) :
    s.registry.publishers.toList = served maxPublishers s.history := by
  refine runFrom_invariant (P := fun s => s.registry.publishers.toList =
    served maxPublishers s.history) (fun s a s' hs hstep => ?_) (Table.toList_empty _) h
  cases a with
  | start p =>
    obtain ⟨-, hstep⟩ := Option.ite_none_right_eq_some.1 hstep
    obtain rfl := Option.some.inj hstep
    exact hs
  | publish p topic line =>
    obtain ⟨-, hstep⟩ := Option.ite_none_right_eq_some.1 hstep
    obtain rfl := Option.some.inj hstep
    exact hs
  | exit p =>
    obtain ⟨-, hstep⟩ := Option.ite_none_right_eq_some.1 hstep
    obtain rfl := Option.some.inj hstep
    exact hs
  | other text =>
    obtain rfl := Option.some.inj hstep
    exact hs
  | serve =>
    rw [step] at hstep
    split at hstep
    · cases hstep
    · rename_i text queue _
      obtain rfl := Option.some.inj hstep
      dsimp only [history]
      rw [publishers_of_text, hs, history, List.map_append]
      generalize List.map Event.message s.published = past
      induction publications text generalizing past with
      | nil => rw [List.map_nil, List.append_nil, List.foldl_nil]
      | cons pid pids ih =>
        rw [List.foldl_cons, ← served_concat_message, ih, List.map_cons, List.append_assoc]
        rfl

/-- The different publishers of a list of publications. -/
theorem senders_map_message (l : List ℤ) : senders (l.map .message) = l.eraseDups := by
  rw [senders, List.filterMap_map]
  exact congrArg List.eraseDups (List.filterMap_some ..)

/-- A publisher with a publication that the broker has processed is signalled when fewer than 128
others had published before its first one, or when its pid is also subscribed. -/
theorem signalled_iff {as : List Action} (h : runFrom step init as = some s) {p : Pid}
    (hpub : p.val ∈ s.published) :
    p.val ∈ notifyClients s.registry ↔
      (s.published.takeWhile (· ≠ p.val)).eraseDups.length < 128 ∨
        p.val ∈ s.registry.table.map (·.1) := by
  have hmem : Event.message p.val ∈ s.history := List.mem_map_of_mem hpub
  have hbefore : s.history.takeWhile (· ≠ .message p.val) =
      (s.published.takeWhile (· ≠ p.val)).map .message := by
    rw [history, List.takeWhile_map]
    congr 2
    funext pid
    simp
  rw [notifyClients_eq, List.mem_append, publishers_eq h, mem_served_iff hmem, hbefore,
    senders_map_message, or_comm]
  rfl

/-- **When the shutdown reaches the publishers**: each running one that was served, exactly when
each of them is among the first 128 that published, or is also subscribed. -/
theorem shutdown_reaches_iff {as : List Action} (h : runFrom step init as = some s) :
    (∀ p ∈ s.running, p.val ∈ s.published → p.val ∈ notifyClients s.registry) ↔
      ∀ p ∈ s.running, p.val ∈ s.published →
        (s.published.takeWhile (· ≠ p.val)).eraseDups.length < 128 ∨
          p.val ∈ s.registry.table.map (·.1) :=
  forall₃_congr fun _ _ hpub => signalled_iff h hpub

/-! ### More than 128 publishers, one after the other -/

theorem publisher_pos (k : ℕ) : (0 : ℤ) < 1000 + (k % 1000 : ℕ) := by omega

theorem publisher_lt (k : ℕ) : (1000 + (k % 1000 : ℕ) : ℤ) < 2 ^ 31 := by omega

/-- The `k`-th publisher. -/
def publisher (k : ℕ) : Pid := ⟨1000 + (k % 1000 : ℕ), publisher_pos k, publisher_lt k⟩

theorem publisher_val {k : ℕ} (hk : k < 1000) : (publisher k).val = 1000 + k := by
  change (1000 + (k % 1000 : ℕ) : ℤ) = _
  rw [Nat.mod_eq_of_lt hk]

/-- The pids of the first `n` publishers. -/
def pids (n : ℕ) : List ℤ := (List.range n).map fun k : ℕ => 1000 + (k : ℤ)

/-- The `k`-th publisher starts and publishes `x` on `t`, and the broker processes it. -/
def visit (k : ℕ) : List Action :=
  [.start (publisher k), .publish (publisher k) (ascii "t") (ascii "x"), .serve]

/-- The first `n` publishers do so and exit, one after the other. -/
def visits : ℕ → List Action
  | 0 => []
  | n + 1 => visits n ++ (visit n ++ [.exit (publisher n)])

/-- The broker after a visit. -/
theorem run_visit (r : Registry) (published : List ℤ) (k : ℕ) :
    ∃ r', runFrom step ⟨[], [], r, published⟩ (visit k) =
        some ⟨[publisher k], [], r', published ++ [(publisher k).val]⟩ ∧ r'.table = r.table := by
  have hp := (publisher k).length_decimal_le
  have hhead := length_sendHead (publisher k)
  have hsplit := splitSend_sendText (publisher k) ⟨ascii "t", by decide, clean_of_all rfl⟩
    (ascii "x")
    (by rw [hhead]; simp only [show (ascii "t").length = 1 from rfl, maxTextLen]; omega)
  have hpublications : publications (sendText (publisher k).val (ascii "t") (ascii "x")) =
      [(publisher k).val] := by
    obtain ⟨rest, hrest⟩ := sendText_prefix (publisher k).val (ascii "t") (ascii "x")
    have hdispatch : publications (sendText (publisher k).val (ascii "t") (ascii "x")) =
        (splitSend (sendText (publisher k).val (ascii "t") (ascii "x"))).toList.map (·.1) := by
      rw [hrest]
      rfl
    rw [hdispatch, hsplit]
    rfl
  refine ⟨(processIncomingMessage r (sendText (publisher k).val (ascii "t") (ascii "x"))).1, ?_,
    ?_⟩
  · simp only [visit, runFrom_cons, runFrom_nil, step, List.not_mem_nil, not_false_eq_true,
      List.length_nil, Nat.zero_lt_succ, and_self, if_true, Option.bind_some, List.mem_singleton,
      List.nil_append, hpublications]
  · rw [process_sendText, table_handleSend]

theorem run_visits {n : ℕ} (hn : n ≤ 1000) :
    ∃ r, runFrom step init (visits n) = some ⟨[], [], r, pids n⟩ ∧
      r.table = [] := by
  induction n with
  | zero => exact ⟨.init, rfl, by simp [Registry.init, Registry.table]⟩
  | succ n ih =>
    obtain ⟨r, hrun, htable⟩ := ih (by omega)
    obtain ⟨r', hvisit, htable'⟩ := run_visit r (pids n) n
    refine ⟨r', ?_, htable'.trans htable⟩
    rw [visits, runFrom_append, hrun, Option.bind_some, runFrom_append, hvisit, Option.bind_some,
      runFrom_singleton, publisher_val (by omega)]
    simp [step, pids, List.range_succ]

/-- A publisher that starts and publishes is reached. -/
theorem shutdown_reaches_visit : ∃ s, runFrom step init (visit 0) = some s ∧
    ∀ p ∈ s.running, p.val ∈ s.published → p.val ∈ notifyClients s.registry := by
  obtain ⟨r, hrun, -⟩ := run_visit .init [] 0
  refine ⟨_, hrun, (shutdown_reaches_iff hrun).2 fun p hp _ => Or.inl ?_⟩
  obtain rfl := List.mem_singleton.1 hp
  rw [List.nil_append, List.takeWhile_cons_of_neg (by simp)]
  decide

/-- After 128 publishers have come and gone, the next one publishes and is not signalled. -/
theorem not_shutdown_reaches : ∃ s, runFrom step init (visits 128 ++ visit 128) = some s ∧
    publisher 128 ∈ s.running ∧ (publisher 128).val ∈ s.published ∧
      (publisher 128).val ∉ notifyClients s.registry := by
  obtain ⟨r, hrun, htable⟩ := run_visits (show 128 ≤ 1000 by decide)
  obtain ⟨r', hvisit, htable'⟩ := run_visit r (pids 128) 128
  have hboth : runFrom step init (visits 128 ++ visit 128) =
      some ⟨[publisher 128], [], r', pids 128 ++ [(publisher 128).val]⟩ := by
    rw [runFrom_append, hrun, Option.bind_some]
    exact hvisit
  have hpub : (publisher 128).val ∈ pids 128 ++ [(publisher 128).val] :=
    List.mem_append_right _ (List.mem_singleton.2 rfl)
  refine ⟨_, hboth, List.mem_singleton.2 rfl, hpub, fun hmem => ?_⟩
  have hothers : ∀ pid ∈ pids 128, decide (pid ≠ (publisher 128).val) = true := by
    intro pid hpid
    obtain ⟨k, hk, rfl⟩ := List.mem_map.1 hpid
    have hlt := List.mem_range.1 hk
    rw [publisher_val (by decide), decide_eq_true_iff]
    omega
  have hdistinct : (pids 128).Nodup := List.nodup_range.map fun a b hab => by
    have : 1000 + (a : ℤ) = 1000 + (b : ℤ) := hab
    omega
  rcases (signalled_iff hboth hpub).1 hmem with hearly | hsub
  · dsimp only at hearly
    rw [List.takeWhile_append_of_pos hothers, List.takeWhile_cons_of_neg (by simp),
      List.append_nil, eraseDups_eq_self hdistinct, pids, List.length_map, List.length_range]
      at hearly
    exact absurd hearly (by decide)
  · rw [htable', htable] at hsub
    cases hsub

end Service

end EltexPractice.Broker
