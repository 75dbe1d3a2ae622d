import EltexPractice.Broker.Registry
import EltexPractice.Foundations.OrderedSet

/-!
# The broker's tables are bounded ordered sets

The subscriber table of `broker.c` is an array with a counter, a capacity check made before the
duplicate scan, a compaction loop on removal and bounded copies of the topics. This module proves
that, over any history of texts, well-formed or not, it is the fold of `tableStep`: an ordered set
of pairs (pid, topic) with at most 128 elements.

* `table_registerSubscriber`, `table_unregisterSubscriber`: what one command does to the table.
* `table_processIncomingMessage`: one text is one `tableStep`.
* `registry_refines`: the history, the bounds on both tables, and the publisher table.
-/

namespace EltexPractice.Broker

open CString

/-- A text the queue can carry: no NUL before the terminating one, which is in the buffer too. -/
structure Text where
  bytes : List UInt8
  no_nul : 0 ∉ bytes
  length_lt : bytes.length < maxTextLen

/-! ## The table operations -/

theorem Subscriber.is_iff {pid : ℤ} {topic : List UInt8} {x : Subscriber} :
    x.is pid topic = true ↔ x.key = (pid, topic) := by
  simp [Subscriber.is, Subscriber.key]

theorem mem_table {r : Registry} {pid : ℤ} {topic : List UInt8} :
    (pid, topic) ∈ r.table ↔ ∃ x ∈ r.subscribers.toList, x.is pid topic = true := by
  simp [Registry.table, Subscriber.is_iff]

@[simp] theorem length_table (r : Registry) : r.table.length = r.subscribers.count := by
  simp [Registry.table]

theorem table_registerSubscriber (r : Registry) (pid : ℤ) {topic : List UInt8} (h : 0 ∉ topic)
    (hlen : topic.length ≤ 63) :
    (registerSubscriber r pid topic).table =
      OrderedSet.insert maxSubscribers r.table (pid, topic) := by
  rw [registerSubscriber]
  split
  · rename_i hfull
    rw [OrderedSet.insert_of_full _ (by simpa using hfull)]
  · rename_i hroom
    split
    · rename_i i hi
      obtain ⟨hlt, hmatch⟩ := Table.search_spec hi
      rw [OrderedSet.insert_of_mem (mem_table.2 ⟨_, List.getElem_mem hlt, hmatch⟩)]
    · rename_i hnone
      have hmem : (pid, topic) ∉ r.table := fun hm => by
        obtain ⟨x, hx, hmatch⟩ := mem_table.1 hm
        rw [Table.search_eq_none.1 hnone x hx] at hmatch
        cases hmatch
      rw [OrderedSet.insert_of_notMem hmem (by simpa using hroom)]
      -- the copied topic reads back whole, since it fits the array
      have hslot : ∀ dst : List UInt8, dst.length = 64 →
          cstr ((strncpy dst topic 63).set 63 0) = topic := fun dst hdst => by
        rw [cstr_set_strncpy (by omega) h, List.take_of_length_le hlen]
      simp only [Registry.table, Table.toList_push, List.map_append, List.map_cons, List.map_nil,
        Subscriber.key]
      rw [hslot _ (Subscriber.topic_length _)]

theorem table_unregisterSubscriber (r : Registry) (pid : ℤ) (topic : List UInt8) :
    (unregisterSubscriber r pid topic).table = r.table.erase (pid, topic) := by
  have herase : r.table.erase (pid, topic) =
      (r.subscribers.toList.eraseP (·.is pid topic)).map (·.key) := by
    rw [Registry.table, List.erase_eq_eraseP', List.eraseP_map]
    rfl
  rw [herase, List.eraseP_eq_eraseIdx, unregisterSubscriber]
  split
  · rename_i i hi
    rw [Table.search] at hi
    simp only [hi, Registry.table, Table.toList_removeShift]
  · rename_i hnone
    rw [Table.search] at hnone
    simp only [hnone, Registry.table]

theorem publishers_registerPublisher (r : Registry) (pid : ℤ) :
    (registerPublisher r pid).publishers.toList =
      OrderedSet.insert maxPublishers r.publishers.toList pid := by
  rw [registerPublisher]
  split
  · rename_i hfull
    rw [OrderedSet.insert_of_full _ (by simpa using hfull)]
  · rename_i hroom
    split
    · rename_i i hi
      obtain ⟨hlt, hmatch⟩ := Table.search_spec hi
      have hmem := List.getElem_mem hlt
      rw [beq_iff_eq.1 hmatch] at hmem
      rw [OrderedSet.insert_of_mem hmem]
    · rename_i hnone
      have hmem : pid ∉ r.publishers.toList := fun hm => by
        simpa using Table.search_eq_none.1 hnone pid hm
      rw [OrderedSet.insert_of_notMem hmem (by simpa using hroom), Table.toList_push]

@[simp] theorem subscribers_registerPublisher (r : Registry) (pid : ℤ) :
    (registerPublisher r pid).subscribers = r.subscribers := by
  rw [registerPublisher]
  split
  · rfl
  · split <;> rfl

@[simp] theorem table_registerPublisher (r : Registry) (pid : ℤ) :
    (registerPublisher r pid).table = r.table := by
  simp [Registry.table]

@[simp] theorem publishers_registerSubscriber (r : Registry) (pid : ℤ) (topic : List UInt8) :
    (registerSubscriber r pid topic).publishers = r.publishers := by
  rw [registerSubscriber]
  split
  · rfl
  · split <;> rfl

@[simp] theorem publishers_unregisterSubscriber (r : Registry) (pid : ℤ) (topic : List UInt8) :
    (unregisterSubscriber r pid topic).publishers = r.publishers := by
  rw [unregisterSubscriber]
  split <;> rfl

/-! ## One text -/

/-- What `sscanf` reads as a topic is a non-empty string of at most 63 bytes. -/
theorem scanCommand_topic {cmd text topic : List UInt8} {pid : ℤ} (hnul : 0 ∉ text)
    (h : scanCommand cmd text = some (pid, topic)) :
    topic ≠ [] ∧ topic.length ≤ 63 ∧ 0 ∉ topic := by
  simp only [scanCommand, Option.bind_eq_bind, Option.bind_eq_some_iff, Option.pure_def,
    Option.some.injEq, Prod.mk.injEq, Prod.exists] at h
  obtain ⟨s₁, h₁, pid', s₂, h₂, s₃, h₃, topic', s₄, h₄, -, rfl⟩ := h
  obtain ⟨hne, hlen, hmem⟩ := scanStr_spec h₄
  refine ⟨hne, hlen, fun h0 => hnul ?_⟩
  exact scanLit_subset h₁ (scanInt_subset h₂ (scanLit_subset h₃ (hmem 0 h0)))

/-- The specification of one text, on the table as a list of pairs. -/
def tableStep (t : List (ℤ × List UInt8)) (text : List UInt8) : List (ℤ × List UInt8) :=
  if (ascii "subscribe,").isPrefixOf text then
    match scanCommand (ascii "subscribe,") text with
    | some key => OrderedSet.insert maxSubscribers t key
    | none => t
  else if (ascii "unsubscribe,").isPrefixOf text then
    match scanCommand (ascii "unsubscribe,") text with
    | some key => OrderedSet.remove t key
    | none => t
  else t

/-- What the registry keeps: two bounded ordered sets, with topics that fit. -/
structure Registry.Inv (r : Registry) : Prop where
  nodup : r.table.Nodup
  topics : ∀ key ∈ r.table, 1 ≤ key.2.length ∧ key.2.length ≤ 63
  publishers_nodup : r.publishers.toList.Nodup

theorem Registry.inv_init : Registry.init.Inv where
  nodup := by simp [Registry.init, Registry.table]
  topics := by simp [Registry.init, Registry.table]
  publishers_nodup := by simp [Registry.init]

theorem table_handleSend (r : Registry) (text : List UInt8) :
    (handleSend r text).1.table = r.table := by
  rw [handleSend]
  split
  · exact table_registerPublisher _ _
  · rfl

theorem publishers_handleSend (r : Registry) (text : List UInt8) :
    (handleSend r text).1.publishers.toList = r.publishers.toList ∨
      ∃ pid, (handleSend r text).1.publishers.toList =
        OrderedSet.insert maxPublishers r.publishers.toList pid := by
  rw [handleSend]
  split
  · exact Or.inr ⟨_, publishers_registerPublisher _ _⟩
  · exact Or.inl rfl

/-- **One text is one step of the specification.** -/
theorem table_processIncomingMessage {r : Registry} (hr : r.Inv) {text : List UInt8}
    (hnul : 0 ∉ text) : (processIncomingMessage r text).1.table = tableStep r.table text := by
  rw [processIncomingMessage, tableStep]
  split
  · rw [handleSubscribe]
    split
    · rename_i pid topic hscan
      obtain ⟨-, hlen, h0⟩ := scanCommand_topic hnul hscan
      simp only [hscan]
      exact table_registerSubscriber r pid h0 hlen
    · rename_i hscan
      simp only [hscan]
  · split
    · rw [handleUnsubscribe]
      split
      · rename_i pid topic hscan
        simp only [hscan]
        rw [table_unregisterSubscriber, OrderedSet.erase_eq_remove hr.nodup]
      · rename_i hscan
        simp only [hscan]
    · split
      · exact table_handleSend r text
      · rfl

/-- The publisher table is left alone or gains one pid. -/
theorem publishers_processIncomingMessage (r : Registry) (text : List UInt8) :
    (processIncomingMessage r text).1.publishers.toList = r.publishers.toList ∨
      ∃ pid, (processIncomingMessage r text).1.publishers.toList =
        OrderedSet.insert maxPublishers r.publishers.toList pid := by
  rw [processIncomingMessage]
  split
  · rw [handleSubscribe]
    split <;> simp
  · split
    · rw [handleUnsubscribe]
      split <;> simp
    · split
      · exact publishers_handleSend r text
      · exact Or.inl rfl

theorem prefix_publishers (r : Registry) (text : List UInt8) :
    r.publishers.toList <+: (processIncomingMessage r text).1.publishers.toList := by
  obtain h | ⟨pid, h⟩ := publishers_processIncomingMessage r text
  · exact h ▸ List.prefix_refl _
  · rw [h]
    exact OrderedSet.prefix_insert maxPublishers r.publishers.toList pid

theorem tableStep_topics {t : List (ℤ × List UInt8)}
    (ht : ∀ key ∈ t, 1 ≤ key.2.length ∧ key.2.length ≤ 63) {text : List UInt8} (hnul : 0 ∉ text) :
    ∀ key ∈ tableStep t text, 1 ≤ key.2.length ∧ key.2.length ≤ 63 := by
  intro key hkey
  rw [tableStep] at hkey
  split at hkey
  · split at hkey
    · rename_i key' hscan
      obtain hk | rfl := OrderedSet.mem_of_mem_insert hkey
      · exact ht key hk
      · obtain ⟨hne, hlen, -⟩ := scanCommand_topic hnul hscan
        exact ⟨List.length_pos_iff.2 hne, hlen⟩
    · exact ht key hkey
  · split at hkey
    · split at hkey
      · exact ht key (OrderedSet.mem_remove.1 hkey).1
      · exact ht key hkey
    · exact ht key hkey

theorem tableStep_nodup {t : List (ℤ × List UInt8)} (ht : t.Nodup) (text : List UInt8) :
    (tableStep t text).Nodup := by
  rw [tableStep]
  split
  · split
    · exact OrderedSet.nodup_insert ht _
    · exact ht
  · split
    · split
      · exact OrderedSet.nodup_remove ht _
      · exact ht
    · exact ht

/-- One text keeps the invariant. -/
theorem Registry.Inv.next {r : Registry} (hr : r.Inv) {text : List UInt8} (hnul : 0 ∉ text) :
    (processIncomingMessage r text).1.Inv where
  nodup := by
    rw [table_processIncomingMessage hr hnul]
    exact tableStep_nodup hr.nodup text
  topics := by
    rw [table_processIncomingMessage hr hnul]
    exact tableStep_topics hr.topics hnul
  publishers_nodup := by
    obtain h | ⟨pid, h⟩ := publishers_processIncomingMessage r text <;> rw [h]
    · exact hr.publishers_nodup
    · exact OrderedSet.nodup_insert hr.publishers_nodup pid

/-! ## Every history of texts -/

/-- From a registry with the invariant, a history of texts is the fold of the specification, and
keeps the invariant. -/
theorem processAll_refines {r : Registry} (hr : r.Inv) (texts : List Text) :
    (processAll r (texts.map (·.bytes))).Inv ∧
      (processAll r (texts.map (·.bytes))).table =
        (texts.map (·.bytes)).foldl tableStep r.table ∧
      r.publishers.toList <+: (processAll r (texts.map (·.bytes))).publishers.toList := by
  induction texts generalizing r with
  | nil => exact ⟨hr, rfl, List.prefix_refl _⟩
  | cons text texts ih =>
    obtain ⟨hinv, htable, hpub⟩ := ih (hr.next text.no_nul)
    simp only [List.map_cons, List.foldl_cons, processAll] at *
    rw [table_processIncomingMessage hr text.no_nul] at htable
    exact ⟨hinv, htable, (prefix_publishers r text.bytes).trans hpub⟩

theorem processAll_append (r : Registry) (as bs : List (List UInt8)) :
    processAll r (as ++ bs) = processAll (processAll r as) bs :=
  List.foldl_append

/-- **The broker's registry over every history of texts**, well-formed or not: the subscriber
table is the fold of `tableStep` and stays an ordered set of at most 128 pairs with topics of 1 to
63 bytes; the publisher table is a set of at most 128 pids that only grows. -/
theorem registry_refines (texts : List Text) :
    let r := processAll .init (texts.map (·.bytes))
    r.table = (texts.map (·.bytes)).foldl tableStep [] ∧
      r.table.Nodup ∧ r.table.length ≤ 128 ∧
      (∀ key ∈ r.table, 1 ≤ key.2.length ∧ key.2.length ≤ 63) ∧
      r.publishers.toList.Nodup ∧ r.publishers.toList.length ≤ 128 ∧
      ∀ later : List Text, r.publishers.toList <+:
        (processAll .init ((texts ++ later).map (·.bytes))).publishers.toList := by
  obtain ⟨hinv, htable, -⟩ := processAll_refines Registry.inv_init texts
  refine ⟨?_, hinv.nodup, ?_, hinv.topics, hinv.publishers_nodup, Table.length_toList_le _,
    fun later => ?_⟩
  · rw [htable]
    simp [Registry.init, Registry.table]
  · rw [length_table]
    exact Table.count_le _
  · rw [List.map_append, processAll_append]
    exact (processAll_refines hinv later).2.2

end EltexPractice.Broker
