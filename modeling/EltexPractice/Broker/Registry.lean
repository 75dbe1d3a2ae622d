import EltexPractice.Foundations.CString
import EltexPractice.Foundations.Table

/-!
# The broker of the System V queue

`broker.c`: the two static tables (subscribers and publishers), the handlers of the three commands
`subscribe,<pid>,<topic>`, `unsubscribe,<pid>,<topic>` and `send,<pid>,<topic>,<line>`, and the
dispatcher `processIncomingMessage`. A text is a C string; the `msgsnd` calls of one command are
the list of messages (`mtype`, text) it returns, in order.
-/

namespace EltexPractice.Broker

open CString

/-- `MAX_TEXT_LEN` -/
def maxTextLen : ℕ := 512

/-- `MAX_SUBSCRIBERS` -/
def maxSubscribers : ℕ := 128

/-- `MAX_PUBLISHERS` -/
def maxPublishers : ℕ := 128

/-- A message of the queue: its `mtype` and the string in `mtext`. -/
abbrev Msg := ℤ × List UInt8

/-- An entry of the subscriber table; `topic` is the whole array `char topic[64]`. -/
structure Subscriber where
  pid : ℤ
  topic : List UInt8
  topic_length : topic.length = 64

/-- The static tables of the broker. -/
structure Registry where
  subscribers : Table Subscriber maxSubscribers
  publishers : Table ℤ maxPublishers

/-- The tables at start: all zero. -/
def Registry.init : Registry where
  subscribers := .empty ⟨0, List.replicate 64 0, List.length_replicate⟩
  publishers := .empty 0

/-- The pair an entry stands for. -/
def Subscriber.key (x : Subscriber) : ℤ × List UInt8 := (x.pid, cstr x.topic)

/-- The subscriber table as a list of pairs (pid, topic). -/
def Registry.table (r : Registry) : List (ℤ × List UInt8) := r.subscribers.toList.map (·.key)

/-! ## The tables -/

/-- The comparison of the three loops over the subscriber table. -/
def Subscriber.is (pid : ℤ) (topic : List UInt8) (x : Subscriber) : Bool :=
  x.pid == pid && cstr x.topic == topic

def registerSubscriber (r : Registry) (pid : ℤ) (topic : List UInt8) : Registry :=
  if h : maxSubscribers ≤ r.subscribers.count then r
  else match r.subscribers.search (·.is pid topic) with
    | some _ => r
    | none =>
      let slot := r.subscribers.slots[r.subscribers.count]
      { r with
        subscribers := r.subscribers.push
          { pid
            topic := (strncpy slot.topic topic 63).set 63 0
            topic_length := by
              rw [List.length_set, length_strncpy _ (by rw [slot.topic_length]; decide),
                slot.topic_length] }
          (Nat.lt_of_not_le h) }

def unregisterSubscriber (r : Registry) (pid : ℤ) (topic : List UInt8) : Registry :=
  match h : r.subscribers.search (·.is pid topic) with
  | some i => { r with subscribers := r.subscribers.removeShift i (Table.lt_count_of_search h) }
  | none => r

def registerPublisher (r : Registry) (pid : ℤ) : Registry :=
  if h : maxPublishers ≤ r.publishers.count then r
  else match r.publishers.search (· == pid) with
    | some _ => r
    | none => { r with publishers := r.publishers.push pid (Nat.lt_of_not_le h) }

/-- One `msgsnd` for each entry with the topic, in table order. -/
def routeMessage (r : Registry) (topic payload : List UInt8) : List Msg :=
  let mtext := snprintf maxTextLen (ascii "[" ++ topic ++ ascii "]: " ++ payload)
  r.subscribers.toList.filterMap fun x =>
    if cstr x.topic = topic then some (x.pid, mtext) else none

/-! ## The commands -/

/-- `sscanf(msg_text, "<cmd>%d,%63s", &pid, topic) == 2` -/
def scanCommand (cmd msgText : List UInt8) : Option (ℤ × List UInt8) := do
  let s ← scanLit cmd msgText
  let (pid, s) ← scanInt s
  let s ← scanLit (ascii ",") s
  let (topic, _) ← scanStr 63 s
  return (pid, topic)

def handleSubscribe (r : Registry) (msgText : List UInt8) : Registry :=
  match scanCommand (ascii "subscribe,") msgText with
  | some (subPid, topic) => registerSubscriber r subPid topic
  | none => r

def handleUnsubscribe (r : Registry) (msgText : List UInt8) : Registry :=
  match scanCommand (ascii "unsubscribe,") msgText with
  | some (unsubPid, topic) => unregisterSubscriber r unsubPid topic
  | none => r

/-- The fields of a `send` command, as `handle_send` cuts them: the publisher, the topic (cut to
63 bytes) and the payload; `none` with fewer than three commas. -/
def splitSend (msgText : List UInt8) : Option (ℤ × List UInt8 × List UInt8) := do
  let comma1 ← strchr msgText 44
  let comma2 ← strchr (comma1.drop 1) 44
  let comma3 ← strchr (comma2.drop 1) 44
  -- `comma3 - (comma2 + 1)`
  let topicLen := (comma2.drop 1).length - comma3.length
  let topicLen := if topicLen > 63 then 63 else topicLen
  return (atoi (comma1.drop 1), (comma2.drop 1).take topicLen, comma3.drop 1)

def handleSend (r : Registry) (msgText : List UInt8) : Registry × List Msg :=
  match splitSend msgText with
  | some (pubPid, topic, payload) =>
    let r := registerPublisher r pubPid
    (r, routeMessage r topic payload)
  | none => (r, [])

/-- The dispatcher: the tables after the text, and the messages it makes the broker send. -/
def processIncomingMessage (r : Registry) (msgText : List UInt8) : Registry × List Msg :=
  if (ascii "subscribe,").isPrefixOf msgText then (handleSubscribe r msgText, [])
  else if (ascii "unsubscribe,").isPrefixOf msgText then (handleUnsubscribe r msgText, [])
  else if (ascii "send,").isPrefixOf msgText then handleSend r msgText
  else (r, [])

/-- The tables after a sequence of texts. -/
def processAll (r : Registry) (texts : List (List UInt8)) : Registry :=
  texts.foldl (fun r text => (processIncomingMessage r text).1) r

end EltexPractice.Broker
