import EltexPractice.Foundations.CheckedMemory
import EltexPractice.UdpEcho.Client
import EltexPractice.UdpEcho.Numbering

/-!
# What the raw receivers tolerate

The kernel hands a raw socket every IP packet of the protocol, before anything behind the IP header
is looked at. `process_incoming_packet`, `send_raw_reply` and the loop of `wait_for_server_reply`
on the buffers they use, every access checked; a receive buffer may be read as far as the packet
goes.

* `wp_processIncomingPacket`, `wp_decodeReply`: without an access out of bounds the functions do
  what their models on one memory do, and there is none exactly for the packets that are
  `RawPacket.Tolerated`: not UDP, or not of this flow with their ports received, or with a UDP
  length that is at least the header and at most what was received.
* `tolerates_iff`: so both receivers, the client over all packets it waits for.
-/

namespace EltexPractice.UdpEcho.Checked

open CString CheckedM

/-- The buffers of the server and of the client. -/
inductive Region
  | buffer
  | payloadStr
  | responsePayload
  | sendBuf
  | recvBuf
  | response
  deriving DecidableEq

/-- The buffers after `recvfrom`: of the receive buffer as much as was received. -/
def recvfrom (b : Region) (packet : List UInt8) (m : Region → Bytes) : Buffers Region where
  size r := if r = b then packet.length else bufferSize
  bytes := Function.update m b (received (m b) packet)

/-! ## The functions on their buffers -/

/-- `build_udp_packet`, from `response_payload` to `send_buf`, and the bytes that `sendto` reads. -/
def buildUdpPacket (mallocOk : Bool) (srcIp destIp srcPort destPort payloadLen : ℕ) :
    CheckedM Region (Option (List UInt8)) := do
  memcpy .sendBuf 8 .responsePayload 0 payloadLen
  writeAt .sendBuf 0 (be16 srcPort ++ (be16 destPort ++ be16 (8 + payloadLen)))
  writeAt .sendBuf 6 (leBytes 2 0)
  if mallocOk then
    let segment ← readBytes .sendBuf 0 (8 + payloadLen : ℕ)
    let pseudogram := pseudoHeader srcIp destIp (8 + payloadLen) ++ segment
    writeAt .sendBuf 6 (leBytes 2 (calculateChecksum pseudogram))
    return some (← readBytes .sendBuf 0 (8 + payloadLen : ℕ))
  else return none

/-- `send_raw_reply`. -/
def sendRawReply (mallocOk : Bool) (srcIp destIp srcPort destPort : ℕ) (currentCount : ℤ) :
    CheckedM Region (Option Reply) := do
  let payloadStr ← readStr .payloadStr
  let text := payloadStr ++ (ascii " " ++ decimal currentCount)
  writeAt .responsePayload 0 (snprintf bufferSize text ++ [0])
  return (← buildUdpPacket mallocOk srcIp destIp srcPort destPort text.length).map (⟨destIp, ·⟩)

/-- The part of `process_incoming_packet` behind the copy of the payload. -/
def answerPayload (serverPort : ℕ) (mallocOk : Bool) (db : ClientDb) (srcPort : ℕ) :
    CheckedM Region (ClientDb × Option Reply) := do
  let saddr ← readValue .buffer 4 12
  let payloadStr ← readStr .payloadStr
  if payloadStr = shutdownMsg then
    return (resetClient db saddr srcPort, none)
  else
    let counted := (findOrCreateClient db saddr srcPort).increment
    let daddr ← readValue .buffer 4 16
    return (counted.1, ← sendRawReply mallocOk daddr saddr serverPort srcPort counted.2)

/-- What both receivers do with the packet in the buffer `b`: a payload that is `mine`, by its
ports, is copied to the buffer `d`, and there it is answered. -/
def receive {α : Type} (b d : Region) (mine : ℕ → ℕ → Prop) [∀ dPort sPort, Decidable
    (mine dPort sPort)] (other : α) (answer : ℕ → CheckedM Region α) : CheckedM Region α := do
  let versionIhl ← readValue b 1 0
  let ipHdrLen := versionIhl % 16 * 4
  let protocol ← readValue b 1 9
  if protocol ≠ ipprotoUdp then
    return other
  else
    let dPort ← readValue b 2 (ipHdrLen + 2)
    let sPort ← readValue b 2 ipHdrLen
    if mine (ntohs dPort) (ntohs sPort) then
      let udpLen ← readValue b 2 (ipHdrLen + 4)
      let payloadLen : ℤ := toInt (ntohs udpLen - 8)
      memcpy d 0 b (ipHdrLen + 8) payloadLen
      writeByte d payloadLen 0
      answer (ntohs sPort)
    else
      return other

/-- `process_incoming_packet`. -/
def processIncomingPacket (serverPort : ℕ) (mallocOk : Bool) (db : ClientDb) :
    CheckedM Region (ClientDb × Option Reply) :=
  receive .buffer .payloadStr (fun destPort _ => destPort = serverPort) (db, none)
    (answerPayload serverPort mallocOk db)

/-- The body of the loop of `wait_for_server_reply` behind `recvfrom`. -/
def decodeReply (clientPort serverPort : ℕ) : CheckedM Region (Option (List UInt8)) :=
  receive .recvBuf .response (fun dPort sPort => dPort = clientPort ∧ sPort = serverPort) none
    fun _ => do return some (← readStr .response)

/-- The loop of `wait_for_server_reply`; `none` at an access out of bounds. -/
def waitLoop (clientPort serverPort : ℕ) (recv : ℕ → Option (List UInt8)) :
    (retries i : ℕ) → (m : Region → Bytes) → Option (Option (List UInt8) × ℕ)
  | 0, i, _ => some (none, i)
  | retries + 1, i, m =>
    match recv i with
    | none => waitLoop clientPort serverPort recv retries (i + 1) m
    | some packet =>
      ((decodeReply clientPort serverPort).run (recvfrom .recvBuf packet m)).bind fun out =>
        match out.1 with
        | some response => some (some response, i + 1)
        | none => waitLoop clientPort serverPort recv retries (i + 1) out.2.bytes

/-! ## Packets -/

/-- What a raw socket delivers: a packet with its IP header. -/
structure RawPacket where
  bytes : List UInt8
  length_le : bytes.length ≤ bufferSize
  header_ge : 20 ≤ ipHdrLen bytes
  header_le : ipHdrLen bytes ≤ bytes.length

namespace RawPacket

/-- The UDP length is received, is at least that of the header, and so much is received. -/
def LengthHolds (p : RawPacket) : Prop :=
  ipHdrLen p.bytes + 6 ≤ p.bytes.length ∧ 8 ≤ udpField p.bytes 4 ∧
    (udpField p.bytes 4 = 8 ∨ ipHdrLen p.bytes + udpField p.bytes 4 ≤ p.bytes.length)

/-- The packet is harmless for the receiver of the packets that are `mine`. -/
def Tolerated (mine : RawPacket → Prop) (p : RawPacket) : Prop :=
  field p.bytes 9 1 = ipprotoUdp →
    ipHdrLen p.bytes + 4 ≤ p.bytes.length ∧ (mine p → p.LengthHolds)

/-- The packet is to the port of the server. -/
def ForServer (serverPort : ℕ) (p : RawPacket) : Prop := udpField p.bytes 2 = serverPort

/-- The packet is to the port of the client and from that of the server. -/
def ForClient (clientPort serverPort : ℕ) (p : RawPacket) : Prop :=
  udpField p.bytes 2 = clientPort ∧ udpField p.bytes 0 = serverPort

/-- The payload, where the length holds. -/
def payload (p : RawPacket) : List UInt8 :=
  (p.bytes.drop (ipHdrLen p.bytes + 8)).take (udpField p.bytes 4 - 8)

/-- The packet is in a receive buffer. -/
structure InBuffer (p : RawPacket) (b : Region) (s : Buffers Region) : Prop where
  size : s.size b = p.bytes.length
  bytes : ∃ stale, s.bytes b = received stale p.bytes

variable (p : RawPacket) {b : Region} {s : Buffers Region}

theorem inBuffer_recvfrom (m : Region → Bytes) : p.InBuffer b (recvfrom b p.bytes m) :=
  ⟨if_pos rfl, m b, Function.update_self ..⟩

variable {p}

/-- The packet stays there when another buffer is written. -/
theorem InBuffer.write (h : p.InBuffer b s) {b' : Region} (hne : b ≠ b') (a : ℕ)
    (l : List UInt8) : p.InBuffer b (s.write b' a l) := by
  obtain ⟨stale, hstale⟩ := h.bytes
  exact ⟨h.size, stale, (Buffers.bytes_write_of_ne hne).trans hstale⟩

theorem length_payload (h : p.LengthHolds) : p.payload.length = udpField p.bytes 4 - 8 := by
  obtain ⟨-, -, hlen⟩ := h
  rw [payload, List.length_take, List.length_drop]
  omega

/-- The payload of a packet that is received. -/
theorem bytesAt_payload (h : p.LengthHolds) (stale : Bytes) :
    bytesAt (received stale p.bytes) (ipHdrLen p.bytes + 8) (udpField p.bytes 4 - 8) =
      p.payload := by
  obtain ⟨-, -, hlen | hlen⟩ := h
  · rw [payload, hlen]
    rfl
  · by_cases hempty : udpField p.bytes 4 ≤ 8
    · rw [payload, Nat.sub_eq_zero_of_le hempty]
      rfl
    · rw [bytesAt_received stale (by omega), payload]

end RawPacket

/-! ## The reply -/

/-- A packet with its checksum, whatever was in that field before. -/
theorem bytesAt_checksum {m : Bytes} {head text : List UInt8} (hlen : head.length = 6)
    (hhead : bytesAt m 0 6 = head) (htext : bytesAt m 8 text.length = text) (sum : ℕ) :
    bytesAt (writeBytes m 6 (leBytes 2 sum)) 0 (8 + text.length) =
      head ++ leBytes 2 sum ++ text := by
  have h := bytesAt_writeBytes_middle (m := m) (a := 0) head (leBytes 2 sum) text
    (by rw [hlen, hhead]) (by rw [hlen, length_leBytes, htext])
  rwa [hlen, length_leBytes] at h

/-- `build_udp_packet` on a payload that fits. -/
theorem wp_buildUdpPacket {s : Buffers Region} (text : List UInt8)
    (hresponse : s.size .responsePayload = bufferSize) (hsend : s.size .sendBuf = bufferSize)
    (hfit : 8 + text.length ≤ bufferSize)
    (htext : bytesAt (s.bytes .responsePayload) 0 text.length = text)
    (mallocOk : Bool) (srcIp destIp srcPort destPort : ℕ) :
    (buildUdpPacket mallocOk srcIp destIp srcPort destPort text.length).wp
      (fun r _ => r =
        UdpEcho.buildUdpPacket mallocOk srcIp destIp srcPort destPort text text.length) s := by
  obtain ⟨head, hhead⟩ : ∃ head, head =
    be16 srcPort ++ (be16 destPort ++ be16 (8 + text.length)) := ⟨_, rfl⟩
  have hlen : head.length = 6 := by rw [hhead]; rfl
  rw [buildUdpPacket, wp_bind, wp_memcpy, Int.toNat_natCast, htext, ← hhead]
  refine ⟨⟨Int.natCast_nonneg _, Or.inr (by omega)⟩, Or.inr (by omega), ?_⟩
  obtain ⟨t, ht⟩ : ∃ t, t = s.write .sendBuf 8 text := ⟨_, rfl⟩
  have hsize : t.size .sendBuf = bufferSize := by rw [ht, Buffers.size_write, hsend]
  have htail : bytesAt (t.bytes .sendBuf) 8 text.length = text := by
    rw [ht, Buffers.bytes_write_self, bytesAt_writeBytes]
  rw [← ht, wp_bind, wp_writeAt, hlen]
  refine ⟨Or.inr (by rw [hsize]; decide), ?_⟩
  rw [wp_bind, wp_writeAt, length_leBytes]
  refine ⟨Or.inr (by rw [Buffers.size_write, hsize]; decide), ?_⟩
  obtain ⟨u, hu⟩ : ∃ u, u = (t.write .sendBuf 0 head).write .sendBuf 6 (leBytes 2 0) := ⟨_, rfl⟩
  have hsize' : u.size .sendBuf = bufferSize := by
    rw [hu, Buffers.size_write, Buffers.size_write, hsize]
  have hbytes : u.bytes .sendBuf =
      writeBytes (writeBytes (t.bytes .sendBuf) 0 head) 6 (leBytes 2 0) := by
    rw [hu, Buffers.bytes_write_self, Buffers.bytes_write_self]
  have hhead' : bytesAt (writeBytes (t.bytes .sendBuf) 0 head) 0 6 = head := by
    have h := bytesAt_writeBytes (t.bytes .sendBuf) 0 head
    rwa [hlen] at h
  have htail' : bytesAt (writeBytes (t.bytes .sendBuf) 0 head) 8 text.length = text := by
    rw [bytesAt_writeBytes_of_disjoint (Or.inr (by omega)), htail]
  rw [← hu]
  cases mallocOk with
  | false => exact (wp_pure none).2 rfl
  | true =>
    have hsegment := bytesAt_checksum hlen hhead' htail' 0
    rw [if_pos rfl, wp_bind, wp_readBytes, Int.toNat_natCast, hbytes, hsegment]
    refine ⟨⟨Int.natCast_nonneg _, Or.inr (by omega)⟩, ?_⟩
    rw [wp_bind, wp_writeAt, length_leBytes]
    refine ⟨Or.inr (by rw [hsize']; decide), ?_⟩
    rw [wp_bind, wp_readBytes, Int.toNat_natCast, Buffers.bytes_write_self, hbytes,
      bytesAt_checksum hlen
        (by rw [bytesAt_writeBytes_of_disjoint (Or.inl (by omega)), hhead'])
        (by rw [bytesAt_writeBytes_of_disjoint (Or.inr (by rw [length_leBytes])), htail'])]
    refine ⟨⟨Int.natCast_nonneg _, Or.inr (by rw [Buffers.size_write]; omega)⟩, ?_⟩
    rw [wp_pure, UdpEcho.buildUdpPacket, if_pos rfl, List.take_length, hhead]
    simp only [udpHeader, List.append_assoc]

/-- `send_raw_reply` on a text that leaves room for a number. -/
theorem wp_sendRawReply {s : Buffers Region} {text : List UInt8} {count : ℤ}
    (hresponse : s.size .responsePayload = bufferSize) (hsend : s.size .sendBuf = bufferSize)
    (hnul : 0 ∈ bytesAt (s.bytes .payloadStr) 0 (s.size .payloadStr))
    (htext : cstr (bytesAt (s.bytes .payloadStr) 0 (s.size .payloadStr)) = text)
    (hlen : text.length ≤ 65508) (hcount : count.natAbs < 10 ^ 10)
    (mallocOk : Bool) (srcIp destIp srcPort destPort : ℕ) :
    (sendRawReply mallocOk srcIp destIp srcPort destPort count).wp
      (fun r _ => r =
        UdpEcho.sendRawReply mallocOk srcIp destIp srcPort destPort text count) s := by
  obtain ⟨line, hline⟩ : ∃ line, line = text ++ (ascii " " ++ decimal count) := ⟨_, rfl⟩
  have hfit : line.length ≤ 65520 := by
    have hdigits := length_decimal_le hcount
    simp only [hline, List.length_append, show (ascii " ").length = 1 from rfl]
    omega
  have hcut : snprintf bufferSize line = line :=
    snprintf_eq_self (lt_of_le_of_lt hfit (by decide))
  have hread : ∀ m, bytesAt (writeBytes m 0 (line ++ [0])) 0 line.length = line := fun m => by
    have h := bytesAt_writeBytes_slice m 0 (k := 0) (n := line.length) (l := line ++ [0])
      (by rw [List.length_append]; omega)
    rwa [Nat.add_zero, List.drop_zero, List.take_left] at h
  rw [sendRawReply, wp_bind, wp_readStr, htext, ← hline]
  refine ⟨hnul, ?_⟩
  rw [wp_bind, wp_writeAt, hcut, List.length_append, List.length_singleton]
  refine ⟨Or.inr (by rw [hresponse, bufferSize]; omega), ?_⟩
  rw [wp_bind]
  have hbuild := wp_buildUdpPacket (s := s.write .responsePayload 0 (line ++ [0])) line
    hresponse hsend (by rw [bufferSize]; omega) (by rw [Buffers.bytes_write_self, hread]) mallocOk
    srcIp destIp srcPort destPort
  refine wp_mono hbuild fun r s' hr => (wp_pure _).2 ?_
  rw [hr, UdpEcho.sendRawReply, ← hline, hcut]

/-! ## The receivers -/

section

variable {p : RawPacket} {b d : Region} {s : Buffers Region}

/-- Reading a field of the packet. -/
theorem wp_readField (h : p.InBuffer b s) {Q : ℕ → Buffers Region → Prop} {w a : ℕ}
    (hw : w ≠ 0) :
    wp (readValue b w a) Q s ↔ a + w ≤ p.bytes.length ∧ Q (field p.bytes a w) s := by
  obtain ⟨stale, hstale⟩ := h.bytes
  rw [wp_readValue, Buffers.Fits, or_iff_right hw, h.size, hstale]
  exact and_congr_right fun hle => by rw [bytesAt_received stale hle, field]

/-- The same in the memory of the receive buffer alone. -/
theorem wp_loadField {s : Mem} {stale : Bytes} (hs : s.bytes = received stale p.bytes)
    {Q : ℕ → Mem → Prop} {w a : ℕ} (h : a + w ≤ p.bytes.length) :
    (load w a).wp Q s ↔ Q (field p.bytes a w) (s.touch a w) := by
  rw [MemM.wp_load, hs, bytesAt_received stale h, field]

/-- The length as it is computed. -/
theorem toInt_payloadLen (p : RawPacket) :
    toInt ((udpField p.bytes 4 : ℕ) - 8) = (udpField p.bytes 4 : ℤ) - 8 := by
  have hlt : udpField p.bytes 4 < 65536 := ntohs_lt _
  exact toInt_eq_self (by omega) (by omega)

/-- The copy of the payload and its terminator are within bounds exactly when the length holds. -/
theorem wp_copyPayload (h : p.InBuffer b s) (hsize : s.size d = bufferSize)
    (hroom : ipHdrLen p.bytes + 6 ≤ p.bytes.length) {Q : Unit → Buffers Region → Prop} :
    wp (memcpy d 0 b (ipHdrLen p.bytes + 8) (toInt ((udpField p.bytes 4 : ℕ) - 8)))
        (fun _ => wp (writeByte d (toInt ((udpField p.bytes 4 : ℕ) - 8)) 0) Q) s ↔
      p.LengthHolds ∧ Q () ((s.write d 0 p.payload).write d p.payload.length [0]) := by
  obtain ⟨stale, hstale⟩ := h.bytes
  have hlt : udpField p.bytes 4 < 65536 := ntohs_lt _
  have hnat : ((udpField p.bytes 4 : ℤ) - 8).toNat = udpField p.bytes 4 - 8 := by omega
  rw [toInt_payloadLen, wp_memcpy, wp_writeByte, hnat, hstale, Buffers.Fits, h.size, Buffers.Fits,
    Buffers.size_write, hsize]
  have hheader := p.header_ge
  have hle := p.length_le
  rw [bufferSize] at hle ⊢
  constructor
  · rintro ⟨⟨hpos, hfits⟩, -, -, -, hQ⟩
    have hlength : p.LengthHolds := ⟨hroom, by omega, by omega⟩
    rw [RawPacket.bytesAt_payload hlength, ← RawPacket.length_payload hlength] at hQ
    exact ⟨hlength, hQ⟩
  · rintro ⟨hlength, hQ⟩
    obtain ⟨-, hge, hend⟩ := hlength
    rw [RawPacket.bytesAt_payload ⟨hroom, hge, hend⟩,
      ← RawPacket.length_payload ⟨hroom, hge, hend⟩]
    have hlen := RawPacket.length_payload ⟨hroom, hge, hend⟩
    exact ⟨⟨by omega, by omega⟩, by omega, by omega, by omega, hQ⟩

/-- The payload in the memory of the receive buffer alone. -/
theorem wp_loadPayload {s : Mem} {stale : Bytes} (hs : s.bytes = received stale p.bytes)
    {Q : List UInt8 → Mem → Prop} (h : p.LengthHolds) :
    (loadBytes (toInt ((udpField p.bytes 4 : ℕ) - 8) % 2 ^ 64).toNat (ipHdrLen p.bytes + 8)).wp
        Q s ↔ Q p.payload (s.touch (ipHdrLen p.bytes + 8) (udpField p.bytes 4 - 8)) := by
  have hge := h.2.1
  have hlt : udpField p.bytes 4 < 65536 := ntohs_lt _
  have hsize : (((udpField p.bytes 4 : ℤ) - 8) % 2 ^ 64).toNat = udpField p.bytes 4 - 8 := by
    omega
  rw [MemM.wp_loadBytes, toInt_payloadLen, hsize, hs, RawPacket.bytesAt_payload h]

/-- The copy is read back as the text of the payload. -/
theorem cstr_copyPayload (h : p.LengthHolds) (hsize : s.size d = bufferSize) :
    let t := (s.write d 0 p.payload).write d p.payload.length [0]
    0 ∈ bytesAt (t.bytes d) 0 (t.size d) ∧
      cstr (bytesAt (t.bytes d) 0 (t.size d)) = cstr p.payload := by
  intro t
  have hbytes : t.bytes d = writeBytes (s.bytes d) 0 (p.payload ++ [0]) := by
    rw [Buffers.bytes_write_self, Buffers.bytes_write_self, writeBytes_append, Nat.zero_add]
  have hlt : udpField p.bytes 4 < 65536 := ntohs_lt _
  have hlen := RawPacket.length_payload h
  rw [hbytes, show t.size d = bufferSize from hsize]
  exact cstr_bytesAt_writeBytes (by rw [bufferSize]; omega)

/-- There is room for a number behind the text. -/
theorem length_cstr_payload (h : p.LengthHolds) : (cstr p.payload).length ≤ 65508 := by
  have hle := length_cstr_le p.payload
  have hlen := RawPacket.length_payload h
  obtain ⟨-, -, hend⟩ := h
  have hheader := p.header_ge
  have hbytes := p.length_le
  rw [bufferSize] at hbytes
  omega

end

/-- What `process_incoming_packet` makes of a packet, by its fields. -/
def outcome (serverPort : ℕ) (mallocOk : Bool) (db : ClientDb) (p : RawPacket) :
    ClientDb × Option Reply :=
  let saddr := field p.bytes 12 4
  let counted := (findOrCreateClient db saddr (udpField p.bytes 0)).increment
  if cstr p.payload = shutdownMsg then (resetClient db saddr (udpField p.bytes 0), none)
  else (counted.1, UdpEcho.sendRawReply mallocOk (field p.bytes 16 4) saddr serverPort
    (udpField p.bytes 0) (cstr p.payload) counted.2)

/-- The part behind the copy is within bounds, and its result that of the function on the receive
buffer alone. -/
theorem wp_answerPayload {p : RawPacket} {s : Buffers Region} (h : p.InBuffer .buffer s)
    (hresponse : s.size .responsePayload = bufferSize) (hsend : s.size .sendBuf = bufferSize)
    (hnul : 0 ∈ bytesAt (s.bytes .payloadStr) 0 (s.size .payloadStr))
    (htext : cstr (bytesAt (s.bytes .payloadStr) 0 (s.size .payloadStr)) = cstr p.payload)
    (hlen : (cstr p.payload).length ≤ 65508) (serverPort : ℕ) (mallocOk : Bool) (db : ClientDb) :
    (answerPayload serverPort mallocOk db (udpField p.bytes 0)).wp
      (fun r _ => r = outcome serverPort mallocOk db p) s := by
  have hge := p.header_ge
  have hle := p.header_le
  rw [answerPayload, outcome, wp_bind, wp_readField h (by decide), and_iff_right (by omega),
    wp_bind, wp_readStr, htext, and_iff_right hnul]
  dsimp only
  by_cases hshut : cstr p.payload = shutdownMsg
  · rw [if_pos hshut, wp_pure, if_pos hshut]
  · rw [if_neg hshut, wp_bind, wp_readField h (by decide), and_iff_right (by omega), wp_bind]
    refine wp_mono (wp_sendRawReply hresponse hsend hnul htext hlen (natAbs_increment_lt _)
      mallocOk _ _ _ _) fun r s' hr => (wp_pure _).2 ?_
    rw [hr, if_neg hshut]

/-- **A receiver** makes no access out of bounds exactly for the packets that are tolerated. -/
theorem wp_receive {α : Type} {p : RawPacket} {b d : Region} {s : Buffers Region}
    {mine : ℕ → ℕ → Prop} [∀ dPort sPort, Decidable (mine dPort sPort)] {other result : α}
    {answer : ℕ → CheckedM Region α} (hin : p.InBuffer b s) (hsize : s.size d = bufferSize)
    (hanswer : p.LengthHolds → (answer (udpField p.bytes 0)).wp (fun r _ => r = result)
      ((s.write d 0 p.payload).write d p.payload.length [0])) (P : α → Prop) :
    (receive b d mine other answer).wp (fun r _ => P r) s ↔
      p.Tolerated (fun p => mine (udpField p.bytes 2) (udpField p.bytes 0)) ∧
        P (if field p.bytes 9 1 = ipprotoUdp ∧ mine (udpField p.bytes 2) (udpField p.bytes 0) then
          result else other) := by
  have hge := p.header_ge
  have hle := p.header_le
  rw [receive, wp_bind, wp_readField hin (by decide), and_iff_right (by omega), wp_bind,
    wp_readField hin (by decide), and_iff_right (by omega)]
  dsimp only
  rw [← ipHdrLen]
  by_cases hudp : field p.bytes 9 1 = ipprotoUdp
  · rw [if_neg (not_not.2 hudp), wp_bind, wp_readField hin (by decide)]
    by_cases hports : ipHdrLen p.bytes + 4 ≤ p.bytes.length
    · rw [and_iff_right (by omega), wp_bind, wp_readField hin (by decide),
        and_iff_right (by omega)]
      change wp (if mine (udpField p.bytes 2) (udpField p.bytes 0) then _ else _) _ _ ↔ _
      by_cases hmine : mine (udpField p.bytes 2) (udpField p.bytes 0)
      · rw [if_pos hmine, if_pos ⟨hudp, hmine⟩, wp_bind, wp_readField hin (by decide)]
        by_cases hroom : ipHdrLen p.bytes + 6 ≤ p.bytes.length
        · rw [and_iff_right (by omega), wp_bind, ← udpField]
          simp only [wp_bind (writeByte _ _ _)]
          rw [wp_copyPayload hin hsize hroom]
          by_cases hlength : p.LengthHolds
          · have htolerated : p.Tolerated
                (fun p => mine (udpField p.bytes 2) (udpField p.bytes 0)) :=
              fun _ => ⟨hports, fun _ => hlength⟩
            rw [and_iff_right hlength, and_iff_right htolerated]
            exact wp_iff_of_eq (hanswer hlength)
          · exact iff_of_false (fun h => hlength h.1) fun h => hlength ((h.1 hudp).2 hmine)
        · exact iff_of_false (fun h => hroom (by omega)) fun h => hroom ((h.1 hudp).2 hmine).1
      · rw [if_neg hmine, if_neg fun h => hmine h.2, wp_pure]
        exact (and_iff_right fun _ => ⟨hports, fun h => absurd h hmine⟩).symm
    · exact iff_of_false (fun h => hports (by omega)) fun h => hports (h.1 hudp).1
  · rw [if_pos hudp, if_neg fun h => hudp h.1, wp_pure]
    exact (and_iff_right fun h => absurd h hudp).symm

section

variable {p : RawPacket} {stale : Bytes}

theorem run_processIncomingPacket {serverPort : ℕ} {mallocOk : Bool} {db : ClientDb}
    (h : p.Tolerated (·.ForServer serverPort)) :
    (UdpEcho.processIncomingPacket serverPort mallocOk db).wp (fun r _ => r =
      if field p.bytes 9 1 = ipprotoUdp ∧ udpField p.bytes 2 = serverPort then
        outcome serverPort mallocOk db p
      else (db, none)) ⟨received stale p.bytes, []⟩ := by
  have hge := p.header_ge
  have hle := p.header_le
  rw [UdpEcho.processIncomingPacket, MemM.wp_bind, wp_loadField rfl (by omega), MemM.wp_bind,
    wp_loadField rfl (by omega)]
  dsimp only
  rw [← ipHdrLen]
  by_cases hudp : field p.bytes 9 1 = ipprotoUdp
  · obtain ⟨hports, hmine⟩ := h hudp
    rw [if_neg (not_not.2 hudp), MemM.wp_bind, wp_loadField rfl (by omega), MemM.wp_bind,
      wp_loadField rfl (by omega)]
    change MemM.wp (if udpField p.bytes 2 ≠ serverPort then _ else _) _ _
    by_cases hport : udpField p.bytes 2 = serverPort
    · have hlength := hmine hport
      have hroom := hlength.1
      rw [if_neg (not_not.2 hport), if_pos ⟨hudp, hport⟩, MemM.wp_bind,
        wp_loadField rfl (by omega), MemM.wp_bind, ← udpField, wp_loadPayload rfl hlength,
        MemM.wp_bind, wp_loadField rfl (by omega), outcome]
      by_cases hshut : cstr p.payload = shutdownMsg
      · rw [if_pos hshut, if_pos hshut]
        rfl
      · rw [if_neg hshut, if_neg hshut, MemM.wp_bind, wp_loadField rfl (by omega)]
        rfl
    · rw [if_pos hport, if_neg fun h => hport h.2]
      rfl
  · rw [if_pos hudp, if_neg fun h => hudp h.1]
    rfl

theorem run_decodeReply {clientPort serverPort : ℕ}
    (h : p.Tolerated (·.ForClient clientPort serverPort)) :
    (UdpEcho.decodeReply clientPort serverPort).wp (fun r _ => r =
      if field p.bytes 9 1 = ipprotoUdp ∧
          udpField p.bytes 2 = clientPort ∧ udpField p.bytes 0 = serverPort then
        some (cstr p.payload)
      else none) ⟨received stale p.bytes, []⟩ := by
  have hge := p.header_ge
  have hle := p.header_le
  rw [UdpEcho.decodeReply, MemM.wp_bind, wp_loadField rfl (by omega), MemM.wp_bind,
    wp_loadField rfl (by omega)]
  dsimp only
  rw [← ipHdrLen]
  by_cases hudp : field p.bytes 9 1 = ipprotoUdp
  · obtain ⟨hports, hmine⟩ := h hudp
    rw [if_neg (not_not.2 hudp), MemM.wp_bind, wp_loadField rfl (by omega), MemM.wp_bind,
      wp_loadField rfl (by omega)]
    change MemM.wp (if udpField p.bytes 2 = clientPort ∧ udpField p.bytes 0 = serverPort then _
      else _) _ _
    by_cases hport : udpField p.bytes 2 = clientPort ∧ udpField p.bytes 0 = serverPort
    · have hlength := hmine hport
      have hroom := hlength.1
      rw [if_pos hport, if_pos ⟨hudp, hport⟩, MemM.wp_bind, wp_loadField rfl (by omega),
        MemM.wp_bind, ← udpField, wp_loadPayload rfl hlength]
      rfl
    · rw [if_neg hport, if_neg fun h => hport h.2]
      rfl
  · rw [if_pos hudp, if_neg fun h => hudp h.1]
    rfl

end

/-- **The server** does what the function does on the receive buffer alone, for exactly the packets
that are tolerated. -/
theorem wp_processIncomingPacket (serverPort : ℕ) (mallocOk : Bool) (db : ClientDb) (p : RawPacket)
    (m : Region → Bytes) (P : ClientDb × Option Reply → Prop) :
    (processIncomingPacket serverPort mallocOk db).wp (fun r _ => P r)
        (recvfrom .buffer p.bytes m) ↔
      p.Tolerated (·.ForServer serverPort) ∧
        P ((UdpEcho.processIncomingPacket serverPort mallocOk db).run
          ⟨received (m .buffer) p.bytes, []⟩).1 := by
  have hin := p.inBuffer_recvfrom (b := .buffer) m
  have hanswer : p.LengthHolds → (answerPayload serverPort mallocOk db (udpField p.bytes 0)).wp
      (fun r _ => r = outcome serverPort mallocOk db p)
      (((recvfrom .buffer p.bytes m).write .payloadStr 0 p.payload).write .payloadStr
        p.payload.length [0]) := fun hlength => by
    have hstr := cstr_copyPayload (s := recvfrom .buffer p.bytes m) (d := .payloadStr) hlength rfl
    exact wp_answerPayload ((hin.write (by decide) 0 p.payload).write (by decide) _ [0]) rfl rfl
      hstr.1 hstr.2 (length_cstr_payload hlength) serverPort mallocOk db
  refine (wp_receive hin rfl hanswer P).trans (and_congr_right fun h => ?_)
  rw [show ((UdpEcho.processIncomingPacket serverPort mallocOk db).run
    ⟨received (m .buffer) p.bytes, []⟩).1 = _ from run_processIncomingPacket h]

/-- **The client**, with one packet. -/
theorem wp_decodeReply (clientPort serverPort : ℕ) (p : RawPacket) (m : Region → Bytes)
    (P : Option (List UInt8) → Prop) :
    (decodeReply clientPort serverPort).wp (fun r _ => P r) (recvfrom .recvBuf p.bytes m) ↔
      p.Tolerated (·.ForClient clientPort serverPort) ∧
        P ((UdpEcho.decodeReply clientPort serverPort).run
          ⟨received (m .recvBuf) p.bytes, []⟩).1 := by
  have hin := p.inBuffer_recvfrom (b := .recvBuf) m
  have hanswer : p.LengthHolds →
      CheckedM.wp (do return some (← readStr .response)) (fun r _ => r = some (cstr p.payload))
        (((recvfrom .recvBuf p.bytes m).write .response 0 p.payload).write .response
          p.payload.length [0]) := fun hlength => by
    have hstr := cstr_copyPayload (s := recvfrom .recvBuf p.bytes m) (d := .response) hlength rfl
    rw [wp_bind, wp_readStr, wp_pure, hstr.2]
    exact ⟨hstr.1, rfl⟩
  refine (wp_receive hin rfl hanswer P).trans (and_congr_right fun h => ?_)
  rw [show ((UdpEcho.decodeReply clientPort serverPort).run
    ⟨received (m .recvBuf) p.bytes, []⟩).1 = _ from run_decodeReply h]

/-! ## The wait of the client -/

/-- The packet ends the wait: a UDP packet for this client. -/
def RawPacket.Accepted (clientPort serverPort : ℕ) (p : RawPacket) : Prop :=
  field p.bytes 9 1 = ipprotoUdp ∧ p.ForClient clientPort serverPort

/-- The packets received in `n` calls from the `i`-th on, as far as the client looks at them, are
tolerated. -/
def WaitTolerated (clientPort serverPort : ℕ) (recv : ℕ → Option RawPacket) (i n : ℕ) : Prop :=
  ∀ k, i ≤ k → k < i + n → ∀ p, recv k = some p →
    (∀ j, i ≤ j → j < k → ∀ q, recv j = some q → ¬ q.Accepted clientPort serverPort) →
    p.Tolerated (·.ForClient clientPort serverPort)

section

variable {clientPort serverPort : ℕ} {recv : ℕ → Option RawPacket} {i n : ℕ}

/-- The first call and the calls behind it. -/
theorem waitTolerated_succ : WaitTolerated clientPort serverPort recv i (n + 1) ↔
    (∀ p, recv i = some p → p.Tolerated (·.ForClient clientPort serverPort)) ∧
      ((∀ p, recv i = some p → ¬ p.Accepted clientPort serverPort) →
        WaitTolerated clientPort serverPort recv (i + 1) n) := by
  constructor
  · intro h
    refine ⟨fun p hp => h i le_rfl (by omega) p hp fun j h₁ h₂ => by omega,
      fun hfirst k h₁ h₂ p hp hbefore => h k (by omega) (by omega) p hp fun j h₃ h₄ q hq => ?_⟩
    rcases Nat.eq_or_lt_of_le h₃ with rfl | h₃
    · exact hfirst q hq
    · exact hbefore j h₃ h₄ q hq
  · rintro ⟨hfirst, hrest⟩ k h₁ h₂ p hp hbefore
    rcases Nat.eq_or_lt_of_le h₁ with rfl | h₁
    · exact hfirst p hp
    · exact hrest (fun q hq => hbefore i le_rfl h₁ q hq) k h₁ (by omega) p hp
        fun j h₃ h₄ q hq => hbefore j (by omega) h₄ q hq

/-- The loop has a result exactly if what it looks at is tolerated, and then that of the loop on the
receive buffer alone. -/
theorem waitLoop_iff (n : ℕ) : ∀ (i : ℕ) (m : Region → Bytes) (recvBuf : Bytes)
    (P : Option (List UInt8) × ℕ → Prop),
    (∃ out, waitLoop clientPort serverPort (fun k => (recv k).map (·.bytes)) n i m = some out ∧
        P out) ↔
      WaitTolerated clientPort serverPort recv i n ∧
        P (UdpEcho.waitLoop clientPort serverPort (fun k => (recv k).map (·.bytes)) n i
          recvBuf) := by
  induction n with
  | zero =>
    intro i m recvBuf P
    rw [waitLoop, UdpEcho.waitLoop]
    constructor
    · rintro ⟨out, hout, hP⟩
      exact ⟨fun k h₁ h₂ => by omega, Option.some.inj hout ▸ hP⟩
    · exact fun h => ⟨_, rfl, h.2⟩
  | succ n ih =>
    intro i m recvBuf P
    rw [waitTolerated_succ, waitLoop, UdpEcho.waitLoop]
    cases hrecv : recv i with
    | none =>
      rw [Option.map_none]
      refine (ih (i + 1) m recvBuf P).trans (and_congr_left fun _ => ?_)
      exact ⟨fun h => ⟨nofun, fun _ => h⟩, fun h => h.2 nofun⟩
    | some p =>
      rw [Option.map_some]
      dsimp only
      by_cases h : p.Tolerated (·.ForClient clientPort serverPort)
      · obtain ⟨out, hout, hresult⟩ := (wp_decodeReply clientPort serverPort p m (· = _)).2 ⟨h, rfl⟩
        have hresult' : out.1 = _ := hresult.trans (@run_decodeReply p (m .recvBuf) _ _ h)
        have hmodel : ((UdpEcho.decodeReply clientPort serverPort).run
            ⟨received recvBuf p.bytes, []⟩).1 = _ := run_decodeReply h
        rw [hout, Option.bind_some, hresult', hmodel,
          and_iff_right (fun q hq => Option.some.inj hq ▸ h)]
        by_cases haccepted : field p.bytes 9 1 = ipprotoUdp ∧
            udpField p.bytes 2 = clientPort ∧ udpField p.bytes 0 = serverPort
        · rw [if_pos haccepted]
          constructor
          · rintro ⟨out', hout', hP⟩
            obtain rfl := Option.some.inj hout'
            exact ⟨fun hnot => absurd haccepted (hnot p rfl), hP⟩
          · exact fun h => ⟨_, rfl, h.2⟩
        · rw [if_neg haccepted]
          refine (ih (i + 1) out.2.bytes _ P).trans (and_congr_left fun _ => ?_)
          exact ⟨fun h _ => h, fun h => h fun q hq => Option.some.inj hq ▸ haccepted⟩
      · have hrun : (decodeReply clientPort serverPort).run (recvfrom .recvBuf p.bytes m) = none :=
          Option.not_isSome_iff_eq_none.1 fun hsome => h
            ((wp_decodeReply clientPort serverPort p m fun _ => True).1 (isSome_run.1 hsome)).1
        rw [hrun]
        exact iff_of_false nofun fun hwait => h (hwait.1.1 p rfl)

end

/-- `wait_for_server_reply`. -/
def waitForServerReply (clientPort serverPort : ℕ) (m : Region → Bytes)
    (recv : ℕ → Option (List UInt8)) : Option (Option (List UInt8) × ℕ) :=
  waitLoop clientPort serverPort recv 5 0 m

/-- The wait does what the function does on the receive buffer alone, for exactly the packets that
are tolerated. -/
theorem waitForServerReply_iff (clientPort serverPort : ℕ) (recv : ℕ → Option RawPacket)
    (m : Region → Bytes) (recvBuf : Bytes) (P : Option (List UInt8) × ℕ → Prop) :
    (∃ out, waitForServerReply clientPort serverPort m (fun k => (recv k).map (·.bytes)) =
        some out ∧ P out) ↔
      WaitTolerated clientPort serverPort recv 0 5 ∧
        P (UdpEcho.waitForServerReply clientPort serverPort recvBuf
          (fun k => (recv k).map (·.bytes))) :=
  waitLoop_iff 5 0 m recvBuf P

/-- **What the raw receivers tolerate**: the server, in any state, a packet that is not UDP, or not
to its port, or whose UDP length holds; the client such packets for its flow, among those it looks
at. -/
theorem tolerates_iff (serverPort clientPort : ℕ) (mallocOk : Bool) (db : ClientDb)
    (m : Region → Bytes) (p : RawPacket) (recv : ℕ → Option RawPacket) :
    (((processIncomingPacket serverPort mallocOk db).run (recvfrom .buffer p.bytes m)).isSome ↔
      p.Tolerated (·.ForServer serverPort)) ∧
    ((waitForServerReply clientPort serverPort m (fun k => (recv k).map (·.bytes))).isSome ↔
      WaitTolerated clientPort serverPort recv 0 5) := by
  constructor
  · rw [isSome_run, wp_processIncomingPacket, and_true]
  · have h := waitForServerReply_iff clientPort serverPort recv m (fun _ => 0) fun _ => True
    rw [and_true] at h
    rw [Option.isSome_iff_exists]
    exact Iff.trans (exists_congr fun _ => (and_true _).symm.to_iff) h

/-- A datagram from port 5000 of 10.0.0.1 to port 8888 of 10.0.0.2, with a UDP length of 4. -/
def shortLength : List UInt8 :=
  [0x45, 0, 0, 28, 0, 1, 0, 0, 64, 17, 0x66, 0xCE, 10, 0, 0, 1, 10, 0, 0, 2] ++
    [0x13, 0x88, 0x22, 0xB8, 0, 4, 0, 0]

/-- Neither receiver tolerates it: the copy is of `-4` bytes. -/
theorem not_tolerates :
    (¬ ∀ (serverPort : ℕ) (mallocOk : Bool) (db : ClientDb) (m : Region → Bytes) (p : RawPacket),
      ((processIncomingPacket serverPort mallocOk db).run (recvfrom .buffer p.bytes m)).isSome) ∧
    ¬ ∀ (clientPort serverPort : ℕ) (m : Region → Bytes) (recv : ℕ → Option RawPacket),
      (waitForServerReply clientPort serverPort m (fun k => (recv k).map (·.bytes))).isSome := by
  obtain ⟨p, hp⟩ : ∃ p : RawPacket, p.bytes = shortLength :=
    ⟨⟨shortLength, by decide, by decide, by decide⟩, rfl⟩
  have hshort : ¬ p.LengthHolds := fun h => absurd h.2.1 (by rw [hp]; decide)
  have hudp : field p.bytes 9 1 = ipprotoUdp := by rw [hp]; rfl
  have hdest : udpField p.bytes 2 = 8888 := by rw [hp]; rfl
  have hsrc : udpField p.bytes 0 = 5000 := by rw [hp]; rfl
  constructor
  · intro hall
    have hrun := isSome_run.1 (hall 8888 true initClientDb (fun _ _ => 0) p)
    have htolerated := ((wp_processIncomingPacket _ _ _ _ _ fun _ => True).1 hrun).1
    exact hshort ((htolerated hudp).2 hdest)
  · intro hall
    obtain ⟨out, hout⟩ := Option.isSome_iff_exists.1
      (hall 8888 5000 (fun _ _ => 0) fun _ => some p)
    have hwait := ((waitForServerReply_iff 8888 5000 (fun _ => some p) (fun _ _ => 0) (fun _ => 0)
      fun _ => True).1 ⟨out, hout, trivial⟩).1
    have htolerated := hwait 0 le_rfl (by decide) p rfl fun j _ h => absurd h (Nat.not_lt_zero j)
    exact hshort ((htolerated hudp).2 ⟨hdest, hsrc⟩)

end EltexPractice.UdpEcho.Checked
