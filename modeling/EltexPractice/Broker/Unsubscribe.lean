import EltexPractice.Broker.Commands

/-!
# Unsubscribing

`run_subscriber` builds two texts for each topic, `subscribe,<pid>,<topic>` and
`unsubscribe,<pid>,<topic>`, in buffers of one size. The buffer leaves the second two bytes less for
the topic, so its key can be shorter. `unsubscribe_undoes_iff`: the unsubscription takes back the
subscription exactly when the white space in front of the topic and its key fit the second text.
-/

namespace EltexPractice.Broker

open CString

/-- A topic of the command line. -/
structure TopicArg where
  bytes : List UInt8
  ne_nil : bytes ≠ []
  no_nul : 0 ∉ bytes

theorem TopicArg.zero_notMem_text (t : TopicArg) (p : Pid) {cmd : List UInt8} (hcmd : 0 ∉ cmd) :
    0 ∉ snprintf maxTextLen (cmd ++ (decimal p.val ++ (ascii "," ++ t.bytes))) := by
  intro h
  have hmem := List.mem_of_mem_take h
  simp only [List.mem_append] at hmem
  obtain h | h | h | h := hmem
  · exact hcmd h
  · exact p.zero_notMem h
  · exact absurd h (by decide)
  · exact t.no_nul h

/-! ## The keys of the two texts -/

/-- The unsubscription holds the white space in front of the topic and its key. -/
def KeyFits (p : Pid) (t : TopicArg) : Prop :=
  (leadingSpace t.bytes).length + min 63 (firstWord t.bytes).length ≤
    topicRoom (ascii "unsubscribe,") p

instance (p : Pid) (t : TopicArg) : Decidable (KeyFits p t) :=
  inferInstanceAs (Decidable (_ ≤ _))

theorem topicRoom_unsubscribe (p : Pid) :
    topicRoom (ascii "unsubscribe,") p + (decimal p.val).length = 498 := by
  have hp := p.length_decimal_le
  rw [topicRoom, show maxTextLen - 1 = 511 from rfl,
    show (ascii "unsubscribe,").length = 12 from rfl]
  omega

theorem topicRoom_subscribe (p : Pid) :
    topicRoom (ascii "subscribe,") p = topicRoom (ascii "unsubscribe,") p + 2 := by
  have hp := p.length_decimal_le
  simp only [topicRoom, show maxTextLen - 1 = 511 from rfl,
    show (ascii "subscribe,").length = 10 from rfl,
    show (ascii "unsubscribe,").length = 12 from rfl]
  omega

/-- The unsubscription names the key of the subscription exactly when it holds it. -/
theorem topicKey_unsubscribe_iff (p : Pid) (t : TopicArg)
    (h : topicKey (ascii "subscribe,") p t.bytes ≠ []) :
    topicKey (ascii "unsubscribe,") p t.bytes = topicKey (ascii "subscribe,") p t.bytes ↔
      KeyFits p t := by
  rw [topicKey, Ne, List.take_eq_nil_iff, not_or, ← List.length_eq_zero_iff] at h
  rw [topicKey, topicKey, List.take_eq_take_iff, KeyFits]
  rw [topicRoom_subscribe] at h ⊢
  omega

/-- The key the broker decodes from a subscription. -/
theorem key_of_subscribeText {p : Pid} {t : TopicArg} {key : List UInt8}
    (h : scanCommand (ascii "subscribe,") (subscribeText p.val t.bytes) = some (p.val, key)) :
    topicKey (ascii "subscribe,") p t.bytes = key ∧ key ≠ [] := by
  rw [subscribeText, scanCommand_snprintf (by decide)] at h
  split at h
  · cases h
  · rename_i hne
    obtain rfl := (Prod.mk.inj (Option.some.inj h)).2
    exact ⟨rfl, hne⟩

/-! ## The broker's step on an unsubscription -/

/-- An unsubscription removes the entry it names, and no other. -/
theorem removes_unsubscribe_iff {r : Registry} (hr : r.Inv) {p : Pid} (t : TopicArg)
    {key : List UInt8} (hne : key ≠ []) (hmem : (p.val, key) ∈ r.table) :
    OrderedSet.Removes (p.val, key) r.table
        (processIncomingMessage r (unsubscribeText p.val t.bytes)).1.table ↔
      topicKey (ascii "unsubscribe,") p t.bytes = key := by
  rw [process_unsubscribe, handleUnsubscribe, unsubscribeText, scanCommand_snprintf (by decide)]
  by_cases hkey : topicKey (ascii "unsubscribe,") p t.bytes = []
  · rw [if_pos hkey, hkey]
    exact iff_of_false (fun h => h.ne rfl) (Ne.symm hne)
  · rw [if_neg hkey]
    dsimp only
    rw [table_unregisterSubscriber, OrderedSet.removes_erase_iff hr.nodup hmem, Prod.mk.injEq,
      and_iff_right rfl]

/-- The unsubscription from a topic takes back the subscription: the entry is gone, and the others
stand in the same order. -/
def Undoes (r : Registry) (p : Pid) (t : TopicArg) (key : List UInt8) : Prop :=
  let r' := (processIncomingMessage r (subscribeText p.val t.bytes)).1
  OrderedSet.Removes (p.val, key) r'.table
    (processIncomingMessage r' (unsubscribeText p.val t.bytes)).1.table

theorem undoes_iff {r : Registry} (hr : r.Inv) {p : Pid} {t : TopicArg} {key : List UInt8}
    (hkey : scanCommand (ascii "subscribe,") (subscribeText p.val t.bytes) = some (p.val, key))
    (hmem : (p.val, key) ∈ (processIncomingMessage r (subscribeText p.val t.bytes)).1.table) :
    Undoes r p t key ↔ topicKey (ascii "unsubscribe,") p t.bytes = key :=
  removes_unsubscribe_iff (hr.next (t.zero_notMem_text p (by decide))) t
    (key_of_subscribeText hkey).2 hmem

/-- **Unsubscribing.** In any state of the tables and for any topic whose subscription the broker
has read and entered, the unsubscription that follows removes exactly this entry if and only if the
white space in front of the topic and its key fit the second text. -/
theorem unsubscribe_undoes_iff {r : Registry} (hr : r.Inv) (p : Pid) (t : TopicArg)
    {key : List UInt8}
    (hkey : scanCommand (ascii "subscribe,") (subscribeText p.val t.bytes) = some (p.val, key))
    (hmem : (p.val, key) ∈ (processIncomingMessage r (subscribeText p.val t.bytes)).1.table) :
    Undoes r p t key ↔ KeyFits p t := by
  obtain ⟨rfl, hne⟩ := key_of_subscribeText hkey
  rw [undoes_iff hr hkey hmem, topicKey_unsubscribe_iff p t hne]

/-- A subscription to the topic `t` and its unsubscription. -/
theorem unsubscribe_undoes_sample : Undoes .init ⟨7, by decide, by decide⟩
    ⟨ascii "t", by decide, by decide⟩ (ascii "t") :=
  (unsubscribe_undoes_iff Registry.inv_init ⟨7, by decide, by decide⟩
    ⟨ascii "t", by decide, by decide⟩ (by decide) (by decide)).2 (by decide)

theorem paddedTopic_no_nul : 0 ∉ List.replicate 492 (32 : UInt8) ++ ascii "abc" := by
  rw [List.mem_append, List.mem_replicate, not_or]
  exact ⟨fun h => absurd h.2 (by decide), by decide⟩

/-- A topic behind so much white space that the unsubscription holds only its first letter. -/
def paddedTopic : TopicArg where
  bytes := List.replicate 492 32 ++ ascii "abc"
  ne_nil := List.append_ne_nil_of_right_ne_nil _ (List.cons_ne_nil _ _)
  no_nul := paddedTopic_no_nul

theorem leadingSpace_paddedTopic : leadingSpace paddedTopic.bytes = List.replicate 492 32 := by
  rw [leadingSpace, paddedTopic, List.takeWhile_append_of_pos fun b hb => by
    rw [List.eq_of_mem_replicate hb]; rfl]
  exact List.append_nil _

theorem firstWord_paddedTopic : firstWord paddedTopic.bytes = ascii "abc" := by
  rw [firstWord, paddedTopic, List.dropWhile_append_of_pos fun b hb => by
    rw [List.eq_of_mem_replicate hb]; rfl]
  rfl

/-- The unsubscription from `abc` behind 492 blanks names `a`. -/
theorem not_undoes : ¬ ∀ (r : Registry) (p : Pid) (t : TopicArg) (key : List UInt8), r.Inv →
    scanCommand (ascii "subscribe,") (subscribeText p.val t.bytes) = some (p.val, key) →
    (p.val, key) ∈ (processIncomingMessage r (subscribeText p.val t.bytes)).1.table →
    Undoes r p t key := by
  intro hall
  let p : Pid := ⟨12345, by decide, by decide⟩
  have hroom := topicRoom_unsubscribe p
  have hdigits : (decimal p.val).length = 5 := by decide
  have hroom' := topicRoom_subscribe p
  have hsub : topicKey (ascii "subscribe,") p paddedTopic.bytes = ascii "abc" := by
    rw [topicKey, leadingSpace_paddedTopic, firstWord_paddedTopic, List.length_replicate,
      show min 63 (topicRoom (ascii "subscribe,") p - 492) = 3 by omega]
    rfl
  have hunsub : topicKey (ascii "unsubscribe,") p paddedTopic.bytes = ascii "a" := by
    rw [topicKey, leadingSpace_paddedTopic, firstWord_paddedTopic, List.length_replicate,
      show min 63 (topicRoom (ascii "unsubscribe,") p - 492) = 1 by omega]
    rfl
  have hkey : scanCommand (ascii "subscribe,") (subscribeText p.val paddedTopic.bytes) =
      some (p.val, ascii "abc") := by
    rw [subscribeText, scanCommand_snprintf (by decide), hsub, if_neg (by decide)]
  have hmem : (p.val, ascii "abc") ∈
      (processIncomingMessage .init (subscribeText p.val paddedTopic.bytes)).1.table := by
    rw [process_subscribe, handleSubscribe, hkey]
    dsimp only
    rw [table_registerSubscriber _ _ (by decide) (by decide)]
    decide
  have hundoes := hall .init p paddedTopic (ascii "abc") Registry.inv_init hkey hmem
  rw [undoes_iff Registry.inv_init hkey hmem, hunsub] at hundoes
  exact absurd hundoes (by decide)

end EltexPractice.Broker
