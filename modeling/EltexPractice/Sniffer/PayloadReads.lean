import EltexPractice.Foundations.CheckedMemory
import EltexPractice.Sniffer.Bounds
import EltexPractice.Sniffer.ChatLog

/-!
# What the logger reads of a payload

`process_and_log_packet` and `print_payload` on the payload that `parse_udp_packet` reports, every
access checked against its length. A payload of the size of a chat packet is cast to one, and the
strings of the cast are printed up to their NUL, wherever it is.

* `wp_processAndLogPacket`: when the logger stays within the payload, and that it then writes what
  its model on the capture buffer writes.
* `payload_read_iff`: the captured frames with which it does.
-/

namespace EltexPractice.Sniffer.Checked

open CString CheckedM

/-- What the functions read. -/
inductive Region
  | payload
  deriving DecidableEq

/-- The bytes behind `pkt->payload`. -/
def payloadBuffer (buffer : Bytes) (pkt : ParsedPacket) : Buffers Region where
  size _ :=
    match pkt.payload with
    | some _ => pkt.payloadLen.toNat
    | none => 0
  bytes _ i := buffer (pkt.payload.getD 0 + i)

/-! ## The functions on the payload -/

/-- The first loop of `print_payload`, from the index `i` on with `n` bytes to go. -/
def asciiPart (i : ℕ) : ℕ → CheckedM Region (List UInt8)
  | 0 => return []
  | n + 1 => do
    let c ← readBytes .payload i 1
    let rest ← asciiPart (i + 1) n
    return c.map shownByte ++ rest

/-- The second loop. -/
def hexPart (len i : ℕ) : ℕ → CheckedM Region (List UInt8)
  | 0 => return []
  | n + 1 => do
    let c ← readBytes .payload i 1
    let rest ← hexPart len (i + 1) n
    return (c.flatMap hex2 ++ ascii " " ++
      if (i + 1) % 16 = 0 ∧ i + 1 < len then ascii "\n         " else []) ++ rest

/-- `print_payload` -/
def printPayload (len : ℕ) : CheckedM Region (List UInt8) := do
  let shown ← asciiPart 0 len
  let hex ← hexPart len 0 len
  return ascii "Payload (" ++ decimal len ++ ascii " bytes):\n  ASCII: " ++ shown ++
    ascii "\n  HEX:   " ++ hex ++ ascii "\n"

/-- The line with the text, for `MSG_CHAT`. -/
def messageLine (type : ℤ) : CheckedM Region (List UInt8) :=
  if type = 2 then do
    let text ← readStrAt .payload 40
    return utf8 "    Сообщение:    \"" ++ text ++ ascii "\"\n"
  else return []

/-- The lines about a chat packet. -/
def logChat : CheckedM Region (List UInt8) := do
  let pid ← readValue .payload 4 4
  let nickname ← readStrAt .payload 8
  let type ← readValue .payload 4 0
  let message ← messageLine (toInt type)
  return utf8 "  [Перехвачено событие чата (Задание 6)]\n" ++
    utf8 "    PID процесса: " ++ decimal (toInt pid) ++ ascii "\n" ++
    utf8 "    Никнейм:      " ++ nickname ++ ascii "\n" ++
    utf8 "    Тип события:  " ++ typeStr (toInt type) ++ ascii "\n" ++ message

/-- The lines about the payload. -/
def payloadLines (pkt : ParsedPacket) (choice : ℤ) : CheckedM Region (List UInt8) :=
  if choice = 1 ∧ pkt.payloadLen = 552 then logChat
  else if 0 < pkt.payloadLen ∧ pkt.payload.isSome then printPayload pkt.payloadLen.toNat
  else return utf8 "  Payload: Пустой UDP-сегмент\n"

/-- `process_and_log_packet` -/
def processAndLogPacket (pkt : ParsedPacket) (elapsed : List UInt8) (choice : ℤ) :
    CheckedM Region (List UInt8) := do
  let lines ← payloadLines pkt choice
  return logHeader pkt elapsed ++ lines ++ logFooter

/-- The strings of a payload that is cast to a chat packet end in it: the text of a message, and
otherwise the nickname or what follows it. -/
def StringsEnd (payload : List UInt8) : Prop :=
  if toInt (leValue (payload.take 4)) = 2 then 0 ∈ payload.drop 40 else 0 ∈ payload.drop 8

/-! ## The loops -/

section

variable {s : Buffers Region} {Q : List UInt8 → Buffers Region → Prop}

theorem wp_readByte {i : ℕ} (h : i < s.size .payload) :
    wp (readBytes .payload i 1) Q s ↔ Q [s.bytes .payload i] s := by
  rw [wp_readBytes]
  exact and_iff_right ⟨by decide, Or.inr h⟩

/-- The first loop shows a byte after the other. -/
theorem wp_asciiPart {i n : ℕ} (h : i + n ≤ s.size .payload) :
    wp (asciiPart i n) Q s ↔ Q ((bytesAt (s.bytes .payload) i n).map shownByte) s := by
  induction n generalizing i Q with
  | zero => rw [asciiPart, wp_pure, bytesAt, List.map_nil]
  | succ n ih =>
    rw [asciiPart, wp_bind, wp_readByte (by omega), wp_bind, ih (by omega), wp_pure, bytesAt]
    rfl

theorem wp_hexPart {len i n : ℕ} (h : i + n ≤ s.size .payload) :
    wp (hexPart len i n) Q s ↔
      Q (((bytesAt (s.bytes .payload) i n).zipIdx i).flatMap fun (b, k) =>
        hex2 b ++ ascii " " ++
          if (k + 1) % 16 = 0 ∧ k + 1 < len then ascii "\n         " else []) s := by
  induction n generalizing i Q with
  | zero => rw [hexPart, wp_pure, bytesAt, List.zipIdx_nil, List.flatMap_nil]
  | succ n ih =>
    rw [hexPart, wp_bind, wp_readByte (by omega), wp_bind, ih (by omega), wp_pure, bytesAt,
      List.zipIdx_cons, List.flatMap_cons]
    rfl

/-- `print_payload` reads the payload and nothing else. -/
theorem wp_printPayload {n : ℕ} (h : n = s.size .payload) :
    wp (printPayload n) Q s ↔ Q (Sniffer.printPayload (bytesAt (s.bytes .payload) 0 n)) s := by
  rw [printPayload, wp_bind, wp_asciiPart (by omega), wp_bind, wp_hexPart (by omega), wp_pure,
    Sniffer.printPayload, length_bytesAt]

end

/-! ## The cast -/

section

variable {buffer : Bytes} {pkt : ParsedPacket} {offset : ℕ}

theorem bytesAt_payloadBuffer (hpayload : pkt.payload = some offset) (a n : ℕ) :
    bytesAt ((payloadBuffer buffer pkt).bytes .payload) a n = bytesAt buffer (offset + a) n := by
  induction n generalizing a with
  | zero => rfl
  | succ n ih =>
    rw [bytesAt, bytesAt, ih, payloadBuffer, hpayload]
    rfl

theorem size_payloadBuffer (hpayload : pkt.payload = some offset) :
    (payloadBuffer buffer pkt).size .payload = pkt.payloadLen.toNat := by
  rw [payloadBuffer, hpayload]

theorem drop_bytesAt {m : Bytes} {a n k : ℕ} (h : k ≤ n) :
    (bytesAt m a n).drop k = bytesAt m (a + k) (n - k) := by
  rw [bytesAt_slice (rfl : bytesAt m a n = _) (j := n - k) (by omega)]
  exact (List.take_of_length_le (by rw [List.length_drop, length_bytesAt])).symm

/-- A string that ends in the payload is the one the capture buffer has there. -/
theorem printedString_of_mem {a n : ℕ} (h0 : 0 ∈ bytesAt buffer a n) (hn : a + n ≤ bufferSize) :
    printedString buffer a = cstr (bytesAt buffer a n) := by
  obtain ⟨r, hr⟩ := Nat.exists_eq_add_of_le (show n ≤ bufferSize - a by omega)
  rw [printedString, hr, bytesAt_add, cstr_append_of_mem h0]

/-- The strings end in the payload. -/
theorem stringsEnd_iff : StringsEnd (bytesAt buffer offset 552) ↔
    0 ∈ bytesAt buffer (offset + 8) 544 ∧
      (toInt (leValue (bytesAt buffer offset 4)) = 2 → 0 ∈ bytesAt buffer (offset + 40) 512) := by
  have htype : (bytesAt buffer offset 552).take 4 = bytesAt buffer offset 4 :=
    (bytesAt_slice (rfl : bytesAt buffer offset 552 = _) (k := 0) (j := 4) (by decide)).symm
  have hlater : 0 ∈ bytesAt buffer (offset + 40) 512 → 0 ∈ bytesAt buffer (offset + 8) 544 := by
    intro h
    obtain ⟨i, h₁, h₂, h0⟩ := mem_bytesAt.1 h
    exact mem_bytesAt.2 ⟨i, by omega, by omega, h0⟩
  rw [StringsEnd, htype, drop_bytesAt (by decide), drop_bytesAt (by decide)]
  split
  · rename_i h2
    exact ⟨fun h => ⟨hlater h, fun _ => h⟩, fun h => h.2 h2⟩
  · rename_i h2
    exact ⟨fun h => ⟨h, fun h2' => absurd h2' h2⟩, fun h => h.1⟩

/-- **The cast is read within the payload** exactly when the strings end in it. -/
theorem wp_logChat (hpayload : pkt.payload = some offset) (hlen : pkt.payloadLen = 552)
    (hroom : offset + 552 ≤ bufferSize) {P : List UInt8 → Prop} :
    wp logChat (fun out _ => P out) (payloadBuffer buffer pkt) ↔
      StringsEnd (bytesAt buffer offset 552) ∧ P (Sniffer.logChat buffer offset) := by
  have hsize : (payloadBuffer buffer pkt).size .payload = 552 := by
    rw [size_payloadBuffer hpayload, hlen]
    rfl
  have hfits : ∀ a, a + 4 ≤ 552 → (payloadBuffer buffer pkt).Fits .payload a 4 := fun a ha =>
    Or.inr (hsize ▸ ha)
  have hstring : ∀ {a n Q}, a + n = 552 → (wp (readStrAt .payload a) Q (payloadBuffer buffer pkt) ↔
      0 ∈ bytesAt buffer (offset + a) n ∧
        Q (cstr (bytesAt buffer (offset + a) n)) (payloadBuffer buffer pkt)) := by
    intro a n Q h
    rw [wp_readStrAt, hsize, bytesAt_payloadBuffer hpayload, show 552 - a = n by omega]
  have htype : bytesAt ((payloadBuffer buffer pkt).bytes .payload) 0 4 = bytesAt buffer offset 4 :=
    bytesAt_payloadBuffer hpayload 0 4
  rw [logChat, wp_bind, wp_readValue, and_iff_right (hfits 4 (by decide)), wp_bind,
    hstring (n := 544) (by decide), wp_bind, wp_readValue, and_iff_right (hfits 0 (by decide)),
    wp_bind, messageLine, htype, bytesAt_payloadBuffer hpayload 4 4, wp_ite, stringsEnd_iff,
    and_assoc]
  refine and_congr_right fun h8 => ?_
  rw [Sniffer.logChat, printedString_of_mem h8 (by omega)]
  by_cases h2 : toInt (leValue (bytesAt buffer offset 4)) = 2
  · rw [if_pos h2, wp_bind, hstring (n := 512) (by decide), wp_pure, wp_pure, h2]
    simp only [forall_const, if_true]
    refine and_congr_right fun h40 => ?_
    rw [printedString_of_mem h40 (by omega)]
  · rw [if_neg h2, wp_pure, wp_pure]
    simp only [h2, false_imp_iff, true_and, if_false]

end

/-! ## The logger -/

/-- The logger stays within the payload exactly when the strings of a packet it casts end there, and
then writes what its model on the capture buffer writes. -/
theorem wp_processAndLogPacket {buffer : Bytes} {pkt : ParsedPacket}
    (hwithin : pkt.PayloadWithin bufferSize) (elapsed : List UInt8) (choice : ℤ)
    {P : List UInt8 → Prop} :
    wp (processAndLogPacket pkt elapsed choice) (fun out _ => P out) (payloadBuffer buffer pkt) ↔
      (∀ payload, pkt.payloadBytes buffer = some payload → choice = 1 → pkt.payloadLen = 552 →
        StringsEnd payload) ∧ P (Sniffer.processAndLogPacket buffer pkt elapsed choice) := by
  rw [processAndLogPacket, wp_bind, payloadLines, Sniffer.processAndLogPacket]
  simp only [wp_pure]
  rcases hwithin with ⟨hnone, hzero⟩ | ⟨offset, hsome, hpos, hle⟩
  · have hnot : ¬ (choice = 1 ∧ pkt.payloadLen = 552) := fun h => by omega
    have hempty : ¬ (0 < pkt.payloadLen ∧ pkt.payload.isSome) := fun h => by omega
    rw [if_neg hnot, if_neg hempty, wp_pure, hnone]
    refine (and_iff_right fun payload hbytes => ?_).symm
    rw [ParsedPacket.payloadBytes, hnone] at hbytes
    cases hbytes
  · have hbytes : pkt.payloadBytes buffer =
        some (bytesAt buffer offset pkt.payloadLen.toNat) := by
      rw [ParsedPacket.payloadBytes, hsome]
      rfl
    rw [hbytes]
    by_cases hcast : choice = 1 ∧ pkt.payloadLen = 552
    · have hcondition : (∀ payload, some (bytesAt buffer offset pkt.payloadLen.toNat) =
          some payload → choice = 1 → pkt.payloadLen = 552 → StringsEnd payload) ↔
            StringsEnd (bytesAt buffer offset 552) := by
        simp [hcast]
      rw [if_pos hcast, wp_logChat hsome hcast.2 (by omega), hcondition, hsome]
      simp only [if_pos hcast]
    · rw [if_neg hcast, if_pos ⟨hpos, by rw [hsome]; rfl⟩,
        wp_printPayload (size_payloadBuffer hsome).symm, bytesAt_payloadBuffer hsome, Nat.add_zero,
        hsome]
      simp only [if_neg hcast, if_pos hpos]
      exact (and_iff_right fun _ _ hchoice hlen => absurd ⟨hchoice, hlen⟩ hcast).symm

/-- The capture buffer with a frame that was received into it. -/
def capture (stale : Bytes) (frame : List UInt8) : Bytes := received stale (frame.take bufferSize)

/-- The payload that is reported lies in the capture buffer. -/
theorem payloadWithin_of_parsed {stale : Bytes} {frame : List UInt8} {pkt₀ pkt : ParsedPacket}
    (h : parsed (capture stale frame) (frame.take bufferSize).length pkt₀ = (true, pkt)) :
    pkt.PayloadWithin bufferSize := by
  have hbounds : InBounds (frame.take bufferSize).length
      ((parseUdpPacket (frame.take bufferSize).length pkt₀).run ⟨capture stale frame, []⟩).1
      ((parseUdpPacket (frame.take bufferSize).length pkt₀).run ⟨capture stale frame, []⟩).2 :=
    wp_parseUdpPacket_inBounds (s := ⟨capture stale frame, []⟩) nofun pkt₀
  have hle : (frame.take bufferSize).length ≤ bufferSize := List.length_take_le _ _
  rw [parsed] at h
  rw [h] at hbounds
  rcases hbounds.2 rfl with hnone | ⟨offset, hsome, hpos, hroom⟩
  · exact Or.inl hnone
  · dsimp only at hroom
    exact Or.inr ⟨offset, hsome, hpos, by omega⟩

/-- **The logger reads only bytes of the payload** exactly when the strings of a packet it casts end
in it. -/
theorem payload_read_iff (stale : Bytes) (frame : List UInt8) (pkt₀ : ParsedPacket)
    (elapsed : List UInt8) (choice : ℤ) {pkt : ParsedPacket}
    (h : parsed (capture stale frame) (frame.take bufferSize).length pkt₀ = (true, pkt)) :
    ((processAndLogPacket pkt elapsed choice).run
        (payloadBuffer (capture stale frame) pkt)).isSome ↔
      ∀ payload, pkt.payloadBytes (capture stale frame) = some payload → choice = 1 →
        pkt.payloadLen = 552 → StringsEnd payload := by
  rw [isSome_run, wp_processAndLogPacket (payloadWithin_of_parsed h) elapsed choice
    (P := fun _ => True), and_true]

/-! ## A chat packet filled with one byte -/

/-- The bytes of a message that are all the same behind its type. -/
def filled (fill : UInt8) : List UInt8 := [2, 0, 0, 0] ++ List.replicate 548 fill

theorem length_filled (fill : UInt8) : (filled fill).length = 552 := by
  rw [filled, List.length_append, List.length_replicate]
  rfl

theorem stringsEnd_filled (fill : UInt8) : StringsEnd (filled fill) ↔ fill = 0 := by
  have htype : toInt (leValue ((filled fill).take 4)) = 2 := by
    have hvalue : leValue ((filled fill).take 4) = 2 := rfl
    rw [hvalue]
    exact toInt_eq_self (by decide) (by decide)
  have hdrop : (filled fill).drop 40 = List.replicate 512 fill := by
    rw [filled, List.drop_append, List.drop_replicate]
    rfl
  rw [StringsEnd, if_pos htype, hdrop, List.mem_replicate]
  exact ⟨fun h => h.2.symm, fun h => ⟨by decide, h.symm⟩⟩

/-- A datagram with such a message. -/
def filledDatagram (fill : UInt8) : Datagram where
  tos := 0
  identification := 0
  dontFragment := false
  ttl := 64
  headerChecksum := 0
  srcIp := Vector.replicate 4 10
  destIp := Vector.replicate 4 255
  options := []
  srcPort := 9999
  destPort := 8888
  udpChecksum := 0
  payload := filled fill
  options_dvd := Nat.dvd_zero 4
  options_le := Nat.zero_le 40
  fits := by
    rw [length_filled]
    decide

/-- The datagram on Ethernet. -/
def filledFrame (fill : UInt8) : List UInt8 :=
  frame (Vector.replicate 6 1) (Vector.replicate 6 2) .ethernetII (filledDatagram fill) []

/-- A packet in which nothing is stored. -/
def noPacket : ParsedPacket := ⟨[], [], 0, 0, 0, 0, none, 0⟩

/-- The parser reports the message. -/
theorem parsed_filledFrame (fill : UInt8) :
    ∃ pkt, parsed (capture (fun _ => 65) (filledFrame fill))
        ((filledFrame fill).take bufferSize).length noPacket = (true, pkt) ∧
      pkt.payloadBytes (capture (fun _ => 65) (filledFrame fill)) = some (filled fill) ∧
      pkt.payloadLen = 552 := by
  have hpayload : (filledDatagram fill).payload.length = 552 := length_filled fill
  have htake : (filledFrame fill).take bufferSize = filledFrame fill := by
    refine List.take_of_length_le ?_
    have hihl := (filledDatagram fill).ihl_le
    have htype : Framing.ethernetII.typeField.length = 2 := rfl
    rw [filledFrame, length_frame, List.append_nil, Datagram.length_bytes, hpayload, htype,
      bufferSize]
    omega
  have hne : (filledDatagram fill).payload ≠ [] := List.ne_nil_of_length_pos (by omega)
  rw [capture, htake]
  refine ⟨_, parsed_eq_storedIn _ _ _ _ _ _ _, ?_, ?_⟩
  · rw [ParsedPacket.payloadBytes, Datagram.storedIn, if_neg hne]
    exact congrArg some (bytesAt_payload _ _ _ _)
  · rw [Datagram.storedIn, hpayload]
    rfl

/-- A nickname and a text that end at once are read within the payload. -/
theorem payload_read_zeros : ∃ pkt,
    parsed (capture (fun _ => 65) (filledFrame 0)) ((filledFrame 0).take bufferSize).length
      noPacket = (true, pkt) ∧
      ((processAndLogPacket pkt (ascii "0.1") 1).run
        (payloadBuffer (capture (fun _ => 65) (filledFrame 0)) pkt)).isSome := by
  obtain ⟨pkt, hparsed, hbytes, -⟩ := parsed_filledFrame 0
  refine ⟨pkt, hparsed, (payload_read_iff _ _ _ _ 1 hparsed).2 fun payload hpayload _ _ => ?_⟩
  obtain rfl := Option.some.inj (hbytes.symm.trans hpayload)
  exact (stringsEnd_filled 0).2 rfl

/-- Strings without a NUL are printed past the end of the payload. -/
theorem not_payload_read : ∃ pkt,
    parsed (capture (fun _ => 65) (filledFrame 65)) ((filledFrame 65).take bufferSize).length
      noPacket = (true, pkt) ∧
      ((processAndLogPacket pkt (ascii "0.1") 1).run
        (payloadBuffer (capture (fun _ => 65) (filledFrame 65)) pkt)).isSome = false := by
  obtain ⟨pkt, hparsed, hbytes, hlen⟩ := parsed_filledFrame 65
  refine ⟨pkt, hparsed, ?_⟩
  rw [← Bool.not_eq_true, isSome_run,
    wp_processAndLogPacket (payloadWithin_of_parsed hparsed) _ 1 (P := fun _ => True), and_true]
  intro hends
  have hend : StringsEnd (filled 65) := hends (filled 65) hbytes rfl hlen
  exact absurd ((stringsEnd_filled 65).1 hend) (by decide)

end EltexPractice.Sniffer.Checked
