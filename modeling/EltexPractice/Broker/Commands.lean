import EltexPractice.Broker.RegistrySpec

/-!
# The commands of publishers and subscribers

The texts `publisher.c` and `subscriber.c` build with `snprintf`, and what the broker's two
decoders (`sscanf` for the subscriptions, comma splitting for the publications) read back from
them. For topics without commas and white space both decoders read the first 63 bytes of the topic
(`scanCommand_text`, `splitSend_sendText`), whatever its length; a publication whose third comma
does not fit the 512-byte buffer is dropped (`splitSend_sendText_cut`).
-/

namespace EltexPractice.Broker

open CString

/-- The text `run_subscriber` sends for a topic. -/
def subscribeText (pid : ℤ) (topic : List UInt8) : List UInt8 :=
  snprintf maxTextLen (ascii "subscribe," ++ (decimal pid ++ (ascii "," ++ topic)))

/-- The text `run_subscriber` sends for a topic on its way out. -/
def unsubscribeText (pid : ℤ) (topic : List UInt8) : List UInt8 :=
  snprintf maxTextLen (ascii "unsubscribe," ++ (decimal pid ++ (ascii "," ++ topic)))

/-- The text `run_publisher` sends for a line. -/
def sendText (pid : ℤ) (topic line : List UInt8) : List UInt8 :=
  snprintf maxTextLen
    (ascii "send," ++ (decimal pid ++ (ascii "," ++ (topic ++ (ascii "," ++ line)))))

/-- A `pid_t` of a process. -/
structure Pid where
  val : ℤ
  pos : 0 < val
  lt : val < 2 ^ 31
  deriving DecidableEq

/-- A topic of the command line without commas and white space. -/
structure PlainTopic where
  bytes : List UInt8
  ne_nil : bytes ≠ []
  clean : ∀ b ∈ bytes, b ≠ 0 ∧ b ≠ 44 ∧ isspace b = false
  deriving DecidableEq

/-- The bytes of a concrete topic, checked one by one. -/
theorem clean_of_all {bytes : List UInt8}
    (h : bytes.all (fun b => b ≠ 0 ∧ b ≠ 44 ∧ isspace b = false) = true) :
    ∀ b ∈ bytes, b ≠ 0 ∧ b ≠ 44 ∧ isspace b = false := by
  simpa using h

theorem Pid.length_decimal_le (p : Pid) : (decimal p.val).length ≤ 11 :=
  CString.length_decimal_le (by have := p.pos; have := p.lt; omega)

theorem Pid.zero_notMem (p : Pid) : 0 ∉ decimal p.val := notMem_decimal (by decide) (by decide)

theorem Pid.comma_notMem (p : Pid) : 44 ∉ decimal p.val := notMem_decimal (by decide) (by decide)

theorem numberEnds_comma (rest : List UInt8) : NumberEnds (ascii "," ++ rest) := by
  intro b hb
  obtain rfl : (44 : UInt8) = b := by simpa [ascii] using hb
  rfl

/-! ## Subscriptions -/

/-- The bytes the buffer has for a topic behind a command and a pid. -/
def topicRoom (cmd : List UInt8) (p : Pid) : ℕ :=
  maxTextLen - 1 - cmd.length - (decimal p.val).length - 1

/-- The buffer cuts only the end of a topic. -/
theorem snprintf_topic (cmd topic : List UInt8) (hcmd : cmd.length ≤ 12) (p : Pid) :
    snprintf maxTextLen (cmd ++ (decimal p.val ++ (ascii "," ++ topic))) =
      cmd ++ (decimal p.val ++ (ascii "," ++ topic.take (topicRoom cmd p))) := by
  have hp := p.length_decimal_le
  have hcomma : (ascii ",").length = 1 := rfl
  rw [snprintf, topicRoom, show maxTextLen - 1 = 511 from rfl, List.take_append, List.take_append,
    List.take_append, List.take_of_length_le (by omega), List.take_of_length_le (by omega),
    List.take_of_length_le (by omega), hcomma]

/-- The key of a topic: its first word, as far as the buffer and `%63s` let it through. -/
def topicKey (cmd : List UInt8) (p : Pid) (topic : List UInt8) : List UInt8 :=
  (firstWord topic).take (min 63 (topicRoom cmd p - (leadingSpace topic).length))

/-- What `sscanf` reads back from a subscription to any topic. -/
theorem scanCommand_snprintf {cmd : List UInt8} (hcmd : cmd.length ≤ 12) (p : Pid)
    (topic : List UInt8) :
    scanCommand cmd (snprintf maxTextLen (cmd ++ (decimal p.val ++ (ascii "," ++ topic)))) =
      if topicKey cmd p topic = [] then none else some (p.val, topicKey cmd p topic) := by
  have hpos := p.pos
  have hint := scanInt_decimal (n := p.val) (numberEnds_comma (topic.take (topicRoom cmd p)))
    (by omega) p.lt
  have hword := scanStr_eq 63 (topic.take (topicRoom cmd p))
  rw [firstWord_take, List.take_take, ← topicKey] at hword
  rw [snprintf_topic cmd topic hcmd, scanCommand, scanLit_append]
  simp only [hint, scanLit_append, Option.bind_eq_bind, Option.bind_some, Option.pure_def]
  by_cases hkey : topicKey cmd p topic = []
  · rw [if_pos hkey, Option.map_eq_none_iff] at hword
    rw [if_pos hkey, hword, Option.bind_none]
  · rw [if_neg hkey, Option.map_eq_some_iff] at hword
    obtain ⟨w, hscan, hw⟩ := hword
    rw [if_neg hkey, hscan, Option.bind_some, hw]

/-- The buffer leaves more of a topic without white space than the 63 bytes of its key. -/
theorem topicKey_of_no_space {cmd topic : List UInt8} (hcmd : cmd.length ≤ 12) (p : Pid)
    (hclean : ∀ b ∈ topic, isspace b = false) : topicKey cmd p topic = topic.take 63 := by
  have hroom : 63 ≤ topicRoom cmd p := by
    have hp := p.length_decimal_le
    rw [topicRoom, show maxTextLen - 1 = 511 from rfl]
    omega
  rw [topicKey, leadingSpace_of_no_space hclean, firstWord_of_no_space hclean, List.length_nil,
    Nat.sub_zero, Nat.min_eq_left hroom]

theorem topicKey_plain {cmd : List UInt8} (hcmd : cmd.length ≤ 12) (p : Pid) (t : PlainTopic) :
    topicKey cmd p t.bytes = t.bytes.take 63 :=
  topicKey_of_no_space hcmd p fun b hb => (t.clean b hb).2.2

/-- The key both decoders of a subscription read: the pid and the first 63 bytes of the topic. -/
theorem scanCommand_text (cmd : List UInt8) (hcmd : cmd.length ≤ 12) (p : Pid) (t : PlainTopic) :
    scanCommand cmd (snprintf maxTextLen (cmd ++ (decimal p.val ++ (ascii "," ++ t.bytes)))) =
      some (p.val, t.bytes.take 63) := by
  have hne : t.bytes.take 63 ≠ [] := by
    rw [Ne, List.take_eq_nil_iff, not_or]
    exact ⟨by decide, t.ne_nil⟩
  rw [scanCommand_snprintf hcmd, topicKey_plain hcmd, if_neg hne]

/-! ## Publications -/

/-- The bytes of a publication before its topic. -/
def sendHead (p : Pid) : List UInt8 := ascii "send," ++ (decimal p.val ++ ascii ",")

theorem length_sendHead (p : Pid) : (sendHead p).length = 6 + (decimal p.val).length := by
  simp only [sendHead, List.length_append, show (ascii "send,").length = 5 from rfl,
    show (ascii ",").length = 1 from rfl]
  omega

/-- A comma does not belong to a number. -/
theorem endsNumber_comma : EndsNumber 44 := ⟨rfl, rfl, by decide, by decide⟩

/-- Comma splitting, by the commas. -/
theorem splitSend_fields {second third : List UInt8} (h₂ : 44 ∉ second) (h₃ : 44 ∉ third)
    (rest : List UInt8) :
    splitSend (ascii "send," ++ (second ++ 44 :: (third ++ 44 :: rest))) =
      some (atoi second, third.take 63, rest) := by
  have hc₁ : strchr (ascii "send," ++ (second ++ 44 :: (third ++ 44 :: rest))) 44 =
      some (44 :: (second ++ 44 :: (third ++ 44 :: rest))) :=
    strchr_append (a := ascii "send") (by decide) _
  have hc₂ := strchr_append h₂ (third ++ 44 :: rest)
  have hc₃ := strchr_append h₃ rest
  simp only [splitSend, hc₁, hc₂, hc₃, atoi_append endsNumber_comma, Option.bind_eq_bind,
    Option.bind_some, Option.pure_def, List.drop_succ_cons, List.drop_zero, List.length_append,
    List.length_cons, Nat.add_sub_cancel]
  congr 3
  split
  · rw [List.take_append_of_le_length (by omega)]
  · rw [List.take_append_of_le_length (by omega), List.take_length,
      List.take_of_length_le (by omega)]

/-- Fewer than three commas: the publication is dropped. -/
theorem splitSend_eq_none {tail : List UInt8} (h : tail.count 44 < 2) :
    splitSend (ascii "send," ++ tail) = none := by
  have hc₁ : strchr (ascii "send," ++ tail) 44 = some (44 :: tail) :=
    strchr_append (a := ascii "send") (by decide) _
  by_cases hsecond : 44 ∈ tail
  · obtain ⟨second, rest, rfl, h₂⟩ := List.eq_append_cons_of_mem hsecond
    have hrest : 44 ∉ rest := fun hmem => by
      have hpos := List.count_pos_iff.2 hmem
      rw [List.count_append, List.count_cons_self] at h
      omega
    simp only [splitSend, hc₁, strchr_append h₂ rest, strchr_eq_none hrest, Option.bind_eq_bind,
      Option.bind_some, Option.bind_none, List.drop_succ_cons, List.drop_zero]
  · simp only [splitSend, hc₁, strchr_eq_none hsecond, Option.bind_eq_bind, Option.bind_some,
      Option.bind_none, List.drop_succ_cons, List.drop_zero]

theorem Pid.atoi_decimal (p : Pid) : atoi (decimal p.val) = p.val := by
  have hpos := p.pos
  have h := CString.atoi_decimal (n := p.val) (show NumberEnds [] from nofun) (by omega) p.lt
  rwa [List.append_nil] at h

/-- A publication by its fields. -/
theorem sendHead_append (p : Pid) (rest : List UInt8) :
    sendHead p ++ rest = ascii "send," ++ (decimal p.val ++ 44 :: rest) := by
  simp [sendHead, ascii]

/-- Comma splitting reads back the pid, the first 63 bytes of the topic and the payload. -/
theorem splitSend_append (p : Pid) {topic : List UInt8} (hcomma : 44 ∉ topic)
    (payload : List UInt8) :
    splitSend (sendHead p ++ (topic ++ 44 :: payload)) =
      some (p.val, topic.take 63, payload) := by
  rw [sendHead_append, splitSend_fields p.comma_notMem hcomma, p.atoi_decimal]

/-- The room `snprintf` leaves for the line of a publication. -/
def lineRoom (p : Pid) (t : PlainTopic) : ℕ :=
  maxTextLen - 1 - ((sendHead p).length + t.bytes.length + 1)

theorem sendText_eq (p : Pid) (topic line : List UInt8) :
    sendText p.val topic line = (sendHead p ++ (topic ++ 44 :: line)).take (maxTextLen - 1) := by
  simp [sendText, sendHead, snprintf, ascii]

/-- What the broker reads back from a publication: the line is cut to what fits the buffer. -/
theorem splitSend_sendText (p : Pid) (t : PlainTopic) (line : List UInt8)
    (hfit : (sendHead p).length + t.bytes.length + 1 < maxTextLen) :
    splitSend (sendText p.val t.bytes line) =
      some (p.val, t.bytes.take 63, line.take (lineRoom p t)) := by
  have htext : sendText p.val t.bytes line =
      sendHead p ++ (t.bytes ++ 44 :: line.take (lineRoom p t)) := by
    obtain ⟨k, hk⟩ : ∃ k, maxTextLen - 1 - (sendHead p).length - t.bytes.length = k + 1 :=
      ⟨_, (Nat.succ_pred_eq_of_pos (by omega)).symm⟩
    rw [sendText_eq, List.take_append, List.take_append, List.take_of_length_le (by omega),
      List.take_of_length_le (by omega), hk, List.take_succ_cons,
      show lineRoom p t = k by rw [lineRoom]; omega]
  rw [htext, splitSend_append p fun h => (t.clean 44 h).2.1 rfl]

/-- A publication whose third comma does not fit the buffer is dropped. -/
theorem splitSend_sendText_cut (p : Pid) (t : PlainTopic) (line : List UInt8)
    (hcut : maxTextLen ≤ (sendHead p).length + t.bytes.length + 1) :
    splitSend (sendText p.val t.bytes line) = none := by
  have hp := p.length_decimal_le
  have hhead := length_sendHead p
  have htext : sendText p.val t.bytes line =
      sendHead p ++ t.bytes.take (maxTextLen - 1 - (sendHead p).length) := by
    rw [sendText_eq, List.take_append, List.take_append_of_le_length (by omega),
      List.take_of_length_le (by simp only [maxTextLen]; omega)]
  have hcomma : 44 ∉ t.bytes.take (maxTextLen - 1 - (sendHead p).length) := fun h =>
    (t.clean 44 (List.mem_of_mem_take h)).2.1 rfl
  rw [htext, sendHead_append]
  refine splitSend_eq_none ?_
  rw [List.count_append, List.count_cons_self, List.count_eq_zero.2 p.comma_notMem,
    List.count_eq_zero.2 hcomma]
  decide

/-! ## The broker's step on each command -/

theorem isPrefixOf_append (a b : List UInt8) : a.isPrefixOf (a ++ b) = true := by
  rw [List.isPrefixOf_iff_prefix]
  exact List.prefix_append a b

/-- A subscription goes to its handler, whatever the topic. -/
theorem process_subscribe (r : Registry) (p : Pid) (topic : List UInt8) :
    processIncomingMessage r (subscribeText p.val topic) =
      (handleSubscribe r (subscribeText p.val topic), []) := by
  have hpre : (ascii "subscribe,").isPrefixOf (subscribeText p.val topic) = true := by
    rw [subscribeText, snprintf_topic _ _ (by decide), isPrefixOf_append]
  rw [processIncomingMessage, if_pos hpre]

/-- An unsubscription goes to its handler, whatever the topic. -/
theorem process_unsubscribe (r : Registry) (p : Pid) (topic : List UInt8) :
    processIncomingMessage r (unsubscribeText p.val topic) =
      (handleUnsubscribe r (unsubscribeText p.val topic), []) := by
  have htext := snprintf_topic (ascii "unsubscribe,") topic (by decide) p
  have hpre : (ascii "unsubscribe,").isPrefixOf (unsubscribeText p.val topic) = true := by
    rw [unsubscribeText, htext, isPrefixOf_append]
  have hnot : (ascii "subscribe,").isPrefixOf (unsubscribeText p.val topic) = false := by
    rw [unsubscribeText, htext]
    rfl
  rw [processIncomingMessage, hnot, if_neg (by decide), if_pos hpre]

theorem process_subscribeText (r : Registry) (p : Pid) (t : PlainTopic) :
    processIncomingMessage r (subscribeText p.val t.bytes) =
      (registerSubscriber r p.val (t.bytes.take 63), []) := by
  have hscan := scanCommand_text (ascii "subscribe,") (by decide) p t
  rw [process_subscribe, handleSubscribe, subscribeText, hscan]

theorem process_unsubscribeText (r : Registry) (p : Pid) (t : PlainTopic) :
    processIncomingMessage r (unsubscribeText p.val t.bytes) =
      (unregisterSubscriber r p.val (t.bytes.take 63), []) := by
  have hscan := scanCommand_text (ascii "unsubscribe,") (by decide) p t
  rw [process_unsubscribe, handleUnsubscribe, unsubscribeText, hscan]

theorem sendText_prefix (pid : ℤ) (topic line : List UInt8) :
    ∃ rest, sendText pid topic line = ascii "send," ++ rest := by
  refine ⟨(decimal pid ++ (ascii "," ++ (topic ++ (ascii "," ++ line)))).take 506, ?_⟩
  rw [sendText, snprintf, List.take_append, List.take_of_length_le (by decide)]
  rfl

/-- A publication goes to the `send` handler. -/
theorem process_sendText (r : Registry) (p : Pid) (topic line : List UInt8) :
    processIncomingMessage r (sendText p.val topic line) =
      handleSend r (sendText p.val topic line) := by
  obtain ⟨rest, hrest⟩ := sendText_prefix p.val topic line
  rw [hrest, processIncomingMessage, isPrefixOf_append]
  rfl

end EltexPractice.Broker
