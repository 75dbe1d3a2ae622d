import EltexPractice.Broker.TopicKeys

/-!
# A publication step

What `handle_send` does with any text that begins with `send,`, in any state of the tables
(`handleSend_spec`): the text is cut at its commas, whatever stands between them, the number in its
second field is inserted into the table of publishers, and one copy goes to each entry with the
topic. A copy is shorter than the text and fits the buffer.
-/

namespace EltexPractice.Broker

open CString

/-- A text cut at the commas behind its command. -/
theorem exists_fields {tail : List UInt8} (h : 2 ≤ tail.count 44) :
    ∃ second third rest, tail = second ++ 44 :: (third ++ 44 :: rest) ∧
      44 ∉ second ∧ 44 ∉ third := by
  have hpos : 0 < tail.count 44 := by omega
  obtain ⟨second, tail', rfl, h₂⟩ := List.eq_append_cons_of_mem (List.count_pos_iff.1 hpos)
  have hpos' : 0 < tail'.count 44 := by
    rw [List.count_append, List.count_cons_self, List.count_eq_zero.2 h₂] at h
    omega
  obtain ⟨third, rest, rfl, h₃⟩ := List.eq_append_cons_of_mem (List.count_pos_iff.1 hpos')
  exact ⟨second, third, rest, rfl, h₂, h₃⟩

/-- The text determines its fields. -/
theorem fields_unique {second second' tail tail' : List UInt8} (h : 44 ∉ second)
    (h' : 44 ∉ second') (heq : second ++ 44 :: tail = second' ++ 44 :: tail') :
    second = second' ∧ tail = tail' := by
  have hcut : strchr (second ++ 44 :: tail) 44 = strchr (second' ++ 44 :: tail') 44 := by rw [heq]
  rw [strchr_append h, strchr_append h'] at hcut
  obtain rfl : tail = tail' := by simpa using hcut
  exact ⟨List.append_cancel_right heq, rfl⟩

/-- A copy is not cut. -/
theorem snprintf_routedText {second third rest : List UInt8}
    (h : (ascii "send," ++ (second ++ 44 :: (third ++ 44 :: rest))).length < maxTextLen) :
    snprintf maxTextLen (routedText (third.take 63) rest) = routedText (third.take 63) rest := by
  refine snprintf_eq_self ?_
  have htake := List.length_take_le' 63 third
  simp only [List.length_append, List.length_cons, show (ascii "send,").length = 5 from rfl] at h
  rw [length_routedText]
  omega

/-- **A publication step.** With fewer than three commas nothing happens. Otherwise the number in
the second field is inserted into the table of publishers, the subscribers stay, and each entry
with the first 63 bytes of the third field as its topic gets one whole copy, in table order. -/
theorem handleSend_spec (r : Registry) (text : Text)
    (h : (ascii "send,").isPrefixOf text.bytes = true) :
    (text.bytes.count 44 < 3 → handleSend r text.bytes = (r, [])) ∧
      (3 ≤ text.bytes.count 44 → ∃ second third rest,
        text.bytes = ascii "send," ++ (second ++ 44 :: (third ++ 44 :: rest)) ∧
        44 ∉ second ∧ 44 ∉ third ∧
        let out := handleSend r text.bytes
        out.1 = registerPublisher r (atoi second) ∧
        out.1.publishers.toList =
          OrderedSet.insert maxPublishers r.publishers.toList (atoi second) ∧
        out.1.subscribers = r.subscribers ∧
        out.2 = (r.table.filter fun key => key.2 = third.take 63).map fun key =>
          (key.1, ascii "[" ++ third.take 63 ++ ascii "]: " ++ rest)) := by
  obtain ⟨tail, htail⟩ := List.isPrefixOf_iff_prefix.1 h
  have hcount : text.bytes.count 44 = tail.count 44 + 1 := by
    rw [← htail, List.count_append, show (ascii "send,").count 44 = 1 from rfl, Nat.add_comm]
  constructor
  · intro hfew
    have hsplit : splitSend text.bytes = none := by
      rw [← htail]
      exact splitSend_eq_none (by omega)
    rw [handleSend, hsplit]
  · intro hthree
    obtain ⟨second, third, rest, rfl, h₂, h₃⟩ := exists_fields (show 2 ≤ tail.count 44 by omega)
    refine ⟨second, third, rest, htail.symm, h₂, h₃, ?_⟩
    have hfit := text.length_lt
    rw [← htail] at hfit ⊢
    rw [handleSend, splitSend_fields h₂ h₃]
    refine ⟨rfl, publishers_registerPublisher r _, subscribers_registerPublisher r _, ?_⟩
    dsimp only
    rw [routed_eq, table_registerPublisher, snprintf_routedText hfit]
    rfl

/-- Two of three subscribers have the topic, and the line has a comma. -/
theorem handleSend_sample :
    let r := processAll .init [ascii "subscribe,7,news", ascii "subscribe,8,sport",
      ascii "subscribe,5,news", ascii "send,4,,"]
    let out := handleSend r (ascii "send,9,news,a,b")
    (ascii "send,").isPrefixOf (ascii "send,9,news,a,b") = true ∧
      out.1.publishers.toList = [4, 9] ∧ out.1.subscribers = r.subscribers ∧
      out.2 = [(7, ascii "[news]: a,b"), (5, ascii "[news]: a,b")] := by
  intro r out
  obtain ⟨second, third, rest, htext, h₂, h₃, -, hpublishers, hsubscribers, hmessages⟩ :=
    (handleSend_spec r ⟨ascii "send,9,news,a,b", by decide, by decide⟩ rfl).2 (by decide)
  have hcut : ascii "send,9,news,a,b" =
      ascii "send," ++ (ascii "9" ++ 44 :: (ascii "news" ++ 44 :: ascii "a,b")) := rfl
  obtain ⟨rfl, htail⟩ :=
    fields_unique (by decide) h₂ (List.append_cancel_left (hcut.symm.trans htext))
  obtain ⟨rfl, rfl⟩ := fields_unique (by decide) h₃ htail
  exact ⟨rfl, hpublishers, hsubscribers, hmessages⟩

end EltexPractice.Broker
