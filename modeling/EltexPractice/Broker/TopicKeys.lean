import EltexPractice.Broker.Commands
import EltexPractice.Foundations.Mailbox

/-!
# Topic keys from the command line to the mailbox

A topic reaches the broker through two decoders, `sscanf("%63s")` on a subscription and comma
splitting with a cut at 63 bytes on a publication. For topics without commas and white space the
two keys are the first 63 bytes of the topics, so a publication is delivered exactly when these
agree and its third comma fits the buffer (`delivered_eq`).

* `routed_eq`: what `route_message` sends, read off the table.
* `mailbox_routeMessage`: a subscriber gets one copy when its pair is in the table.
-/

namespace EltexPractice.Broker

open CString

/-! ## Routing -/

/-- The text of a routed publication. -/
def routedText (topic payload : List UInt8) : List UInt8 :=
  ascii "[" ++ topic ++ ascii "]: " ++ payload

theorem length_routedText (topic payload : List UInt8) :
    (routedText topic payload).length = 4 + topic.length + payload.length := by
  simp only [routedText, List.length_append, show (ascii "[").length = 1 from rfl,
    show (ascii "]: ").length = 3 from rfl]
  omega

theorem routed_eq (r : Registry) (topic payload : List UInt8) :
    routeMessage r topic payload = (r.table.filter fun key => key.2 = topic).map
      fun key => (key.1, snprintf maxTextLen (routedText topic payload)) := by
  rw [routeMessage, Registry.table]
  induction r.subscribers.toList with
  | nil => rfl
  | cons x xs ih =>
    rw [List.filterMap_cons, List.map_cons, List.filter_cons]
    by_cases hx : cstr x.topic = topic
    · have hkey : decide (x.key.2 = topic) = true := decide_eq_true hx
      rw [if_pos hx, hkey, if_pos rfl, List.map_cons, ← ih]
      rfl
    · have hkey : decide (x.key.2 = topic) = false := decide_eq_false hx
      rw [if_neg hx, hkey, if_neg (by decide), ← ih]

/-- **One copy for each entry**: the texts a publication puts into the mailbox of `s`. -/
theorem mailbox_routeMessage {r : Registry} (hr : r.table.Nodup) (topic payload : List UInt8)
    (s : ℤ) : MsgQueue.mailbox s (routeMessage r topic payload) =
      if (s, topic) ∈ r.table then [snprintf maxTextLen (routedText topic payload)] else [] := by
  have hone : ((r.table.filter fun key => key.2 = topic).filter fun key => key.1 = s) =
      r.table.filter (· = (s, topic)) := by
    rw [List.filter_filter]
    refine List.filter_congr fun key _ => ?_
    rw [Bool.eq_iff_iff]
    simp [Prod.ext_iff]
  rw [routed_eq, MsgQueue.mailbox, List.filter_map, List.map_map]
  change List.map _ ((r.table.filter fun key => key.2 = topic).filter fun key => key.1 = s) = _
  rw [hone, List.filter_eq]
  split
  · rename_i hmem
    rw [List.count_eq_one_of_mem hr hmem]
    rfl
  · rename_i hmem
    rw [List.count_eq_zero_of_not_mem hmem]
    rfl

/-! ## From the command line to the mailbox -/

/-- What an empty broker sends to `s` on the publication of `line` by `p` on `t₂`, after the
subscription of `s` to `t₁`. -/
def delivered (s : ℤ) (t₁ : List UInt8) (p : ℤ) (t₂ line : List UInt8) : List (List UInt8) :=
  let r := (processIncomingMessage .init (subscribeText s t₁)).1
  MsgQueue.mailbox s (processIncomingMessage r (sendText p t₂ line)).2

theorem table_after_subscribe (s : Pid) (t : PlainTopic) :
    (processIncomingMessage .init (subscribeText s.val t.bytes)).1.table =
      [(s.val, t.bytes.take 63)] := by
  have h0 : 0 ∉ t.bytes.take 63 := fun h => (t.clean 0 (List.mem_of_mem_take h)).1 rfl
  have hempty : Registry.init.table = [] := by simp [Registry.init, Registry.table]
  rw [process_subscribeText, table_registerSubscriber _ _ h0 (List.length_take_le _ _), hempty]
  rfl

/-- **Topic keys agree on their first 63 bytes.** For topics without commas and white space, of
any length, a publication on `t₂` reaches a subscriber of `t₁` if and only if the topics agree on
their first 63 bytes and the publication fits the buffer up to its third comma; then it is
delivered once, under these 63 bytes, with the part of the line that fits. -/
theorem delivered_eq (s p : Pid) (t₁ t₂ : PlainTopic) (line : List UInt8) :
    delivered s.val t₁.bytes p.val t₂.bytes line =
      if t₁.bytes.take 63 = t₂.bytes.take 63 ∧
          (sendHead p).length + t₂.bytes.length + 1 < maxTextLen then
        [routedText (t₂.bytes.take 63) (line.take (lineRoom p t₂))]
      else [] := by
  have htable := table_after_subscribe s t₁
  rw [delivered, process_sendText, handleSend]
  generalize (processIncomingMessage .init (subscribeText s.val t₁.bytes)).1 = r at htable
  by_cases hfit : (sendHead p).length + t₂.bytes.length + 1 < maxTextLen
  · rw [splitSend_sendText p t₂ line hfit]
    have hlen : (routedText (t₂.bytes.take 63) (line.take (lineRoom p t₂))).length <
        maxTextLen := by
      have hroom := List.length_take_le (lineRoom p t₂) line
      have htopic := List.length_take_le' 63 t₂.bytes
      have hhead := length_sendHead p
      rw [length_routedText]
      simp only [lineRoom] at *
      omega
    have hnodup : (registerPublisher r p.val).table.Nodup := by simp [htable]
    simp only
    rw [mailbox_routeMessage hnodup, snprintf_eq_self hlen, table_registerPublisher, htable]
    simp only [List.mem_singleton, Prod.mk.injEq, true_and, hfit, and_true, eq_comm]
  · rw [splitSend_sendText_cut p t₂ line (by omega), if_neg fun h => hfit h.2]
    rfl

/-- The law one would expect of every topic: delivered exactly on the same topic, unchanged. -/
def TopicKeysAgree (s : ℤ) (t₁ : List UInt8) (p : ℤ) (t₂ line : List UInt8) : Prop :=
  (delivered s t₁ p t₂ line ≠ [] ↔ t₁ = t₂) ∧
    ∀ text ∈ delivered s t₁ p t₂ line, text = routedText t₂ line

instance (s : ℤ) (t₁ : List UInt8) (p : ℤ) (t₂ line : List UInt8) :
    Decidable (TopicKeysAgree s t₁ p t₂ line) :=
  inferInstanceAs (Decidable (_ ∧ _))

/-- The law fails beyond 63 bytes, where the key cuts the topic, and for topics with white space
or commas, where the two decoders read different keys. -/
theorem not_topicKeysAgree :
    ¬ TopicKeysAgree 10007 (List.replicate 63 65 ++ ascii "1") 20003
        (List.replicate 63 65 ++ ascii "2") (ascii "hi") ∧
      ¬ TopicKeysAgree 10007 (ascii "a b") 20003 (ascii "a b") (ascii "hi") ∧
      ¬ TopicKeysAgree 10007 (ascii "a,b") 20003 (ascii "a,b") (ascii "hi") := by
  decide

end EltexPractice.Broker
