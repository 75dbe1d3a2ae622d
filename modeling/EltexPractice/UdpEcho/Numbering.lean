import EltexPractice.UdpEcho.ClientTable

/-!
# Numbering of the echoed messages

Runs of the echo server over well-formed UDP packets (`Packet`), each received into the same
buffer. After any history the table counts the sessions of the endpoints (`represents_serve`), so
each reply carries the text of its message and the number the sessions dictate (`numbering`).

The table never gives a slot back: an endpoint is numbered when fewer than 128 others sent a
message before its first one (`numbered_iff_early`), whether or not they have shut down since
(`not_servesActive`).
-/

namespace EltexPractice.UdpEcho

open CString Sessions

/-! ## Packets -/

/-- The value of the `n` bytes at `k` of a packet. -/
def field (packet : List UInt8) (k n : ℕ) : ℕ := leValue ((packet.drop k).take n)

/-- The length of the IP header. -/
def ipHdrLen (packet : List UInt8) : ℕ := field packet 0 1 % 16 * 4

/-- A field of the UDP header. -/
def udpField (packet : List UInt8) (k : ℕ) : ℕ := ntohs (field packet (ipHdrLen packet + k) 2)

/-- A well-formed UDP packet to the port of the server, with whatever follows it. -/
structure Packet (serverPort : ℕ) where
  bytes : List UInt8
  length_le : bytes.length ≤ bufferSize
  header : 20 ≤ ipHdrLen bytes
  protocol : field bytes 9 1 = ipprotoUdp
  destPort : udpField bytes 2 = serverPort
  udpLen_ge : 8 ≤ udpField bytes 4
  udpLen_le : ipHdrLen bytes + udpField bytes 4 ≤ bytes.length

namespace Packet

variable {serverPort : ℕ} (p : Packet serverPort)

/-- The endpoint a packet comes from. -/
def endpoint : Endpoint := (field p.bytes 12 4, udpField p.bytes 0)

/-- The text of the payload. -/
def text : List UInt8 :=
  cstr ((p.bytes.drop (ipHdrLen p.bytes + 8)).take (udpField p.bytes 4 - 8))

/-- The packet says that its endpoint shuts down. -/
def IsShutdown : Prop := p.text = shutdownMsg

instance : Decidable p.IsShutdown := inferInstanceAs (Decidable (_ = _))

/-- What a packet means to the sessions. -/
def event : Event Endpoint :=
  if p.IsShutdown then .shutdown p.endpoint else .message p.endpoint

@[simp] theorem party_event : p.event.party = p.endpoint := by
  unfold event
  split <;> rfl

theorem length_text_le : p.text.length ≤ 65508 := by
  have h₁ := p.length_le
  have h₂ := p.header
  have h₃ := p.udpLen_le
  refine (List.takeWhile_sublist _).length_le.trans ?_
  rw [List.length_take, List.length_drop]
  unfold bufferSize at h₁
  omega

/-- The fields of a packet as a receiver reads them from its buffer. -/
structure Reads (m : Bytes) : Prop where
  ipHdrLen : leValue (bytesAt m 0 1) % 16 * 4 = UdpEcho.ipHdrLen p.bytes
  protocol : leValue (bytesAt m 9 1) = ipprotoUdp
  saddr : leValue (bytesAt m 12 4) = p.endpoint.1
  daddr : leValue (bytesAt m 16 4) = field p.bytes 16 4
  srcPort : ntohs (leValue (bytesAt m (UdpEcho.ipHdrLen p.bytes) 2)) = p.endpoint.2
  destPort : ntohs (leValue (bytesAt m (UdpEcho.ipHdrLen p.bytes + 2) 2)) = serverPort
  payloadLen : (toInt ((ntohs (leValue (bytesAt m (UdpEcho.ipHdrLen p.bytes + 4) 2)) : ℕ) - 8) %
    2 ^ 64).toNat = udpField p.bytes 4 - 8
  text : cstr (bytesAt m (UdpEcho.ipHdrLen p.bytes + 8) (udpField p.bytes 4 - 8)) = p.text

theorem reads_received (stale : Bytes) : p.Reads (received stale p.bytes) := by
  have h₁ := p.header
  have h₂ := p.udpLen_ge
  have h₃ := p.udpLen_le
  have hfield : ∀ k n, k + n ≤ UdpEcho.ipHdrLen p.bytes + 8 →
      leValue (bytesAt (received stale p.bytes) k n) = field p.bytes k n := fun k n hk => by
    rw [bytesAt_received stale (by omega), field]
  constructor
  case ipHdrLen => rw [hfield 0 1 (by omega), UdpEcho.ipHdrLen]
  case protocol => exact (hfield 9 1 (by omega)).trans p.protocol
  case saddr => exact hfield 12 4 (by omega)
  case daddr => exact hfield 16 4 (by omega)
  case srcPort =>
    rw [hfield _ 2 (by omega)]
    rfl
  case destPort => rw [hfield _ 2 (by omega), ← udpField, p.destPort]
  case payloadLen =>
    have hlt : udpField p.bytes 4 < 65536 := ntohs_lt _
    rw [hfield _ 2 (by omega), ← udpField, toInt_eq_self (by omega) (by omega)]
    omega
  case text => rw [bytesAt_received stale (by omega), Packet.text]

end Packet

/-! ## Runs of the server -/

/-- The static table and the receive buffer. -/
structure ServerState where
  db : ClientDb
  buffer : Bytes

/-- One turn of the server's loop: `recvfrom` and `process_incoming_packet`. -/
def serverStep (serverPort : ℕ) (st : ServerState) (packet : List UInt8) (mallocOk : Bool) :
    ServerState × Option Reply :=
  let out := (processIncomingPacket serverPort mallocOk st.db).run ⟨received st.buffer packet, []⟩
  (⟨out.1.1, out.2.bytes⟩, out.1.2)

/-- The server after a history of packets, each with the outcome of `malloc`. -/
def serve {serverPort : ℕ} (buffer : Bytes) (history : List (Packet serverPort × Bool)) :
    ServerState :=
  history.foldl (fun st x => (serverStep serverPort st x.1.bytes x.2).1) ⟨initClientDb, buffer⟩

/-- The history as the sessions see it. -/
def events {serverPort : ℕ} (history : List (Packet serverPort × Bool)) : History :=
  history.map (·.1.event)

/-- What `process_incoming_packet` does with a well-formed packet. -/
theorem wp_processIncomingPacket {serverPort : ℕ} (db : ClientDb) (stale : Bytes)
    (p : Packet serverPort) (mallocOk : Bool) {s : Mem} (hs : s.bytes = received stale p.bytes) :
    let counted := (findOrCreateClient db p.endpoint.1 p.endpoint.2).increment
    (processIncomingPacket serverPort mallocOk db).wp (fun r _ => r =
      if p.IsShutdown then (resetClient db p.endpoint.1 p.endpoint.2, none)
      else (counted.1, sendRawReply mallocOk (field p.bytes 16 4) p.endpoint.1 serverPort
        p.endpoint.2 p.text counted.2)) s := by
  obtain ⟨hihl, hprotocol, hsaddr, hdaddr, hsrc, hdest, hudpLen, htext⟩ := p.reads_received stale
  rw [← hs] at hihl hprotocol hsaddr hdaddr hsrc hdest hudpLen htext
  simp only [processIncomingPacket, MemM.wp_bind, MemM.wp_load, Mem.bytes_touch, hprotocol,
    ne_eq, not_true, if_false, hihl, hdest, hsrc, MemM.wp_loadBytes, hudpLen, htext, hsaddr]
  split
  · rename_i hshut
    rw [MemM.wp_pure, if_pos (show p.IsShutdown from hshut)]
  · rename_i hmsg
    simp only [MemM.wp_bind, MemM.wp_load, MemM.wp_pure, Mem.bytes_touch, hdaddr]
    rw [if_neg (show ¬ p.IsShutdown from hmsg)]

/-- What one turn does to the table and what it replies. -/
theorem serverStep_packet {serverPort : ℕ} (st : ServerState) (p : Packet serverPort)
    (mallocOk : Bool) :
    let counted := (findOrCreateClient st.db p.endpoint.1 p.endpoint.2).increment
    ((serverStep serverPort st p.bytes mallocOk).1.db,
        (serverStep serverPort st p.bytes mallocOk).2) =
      if p.IsShutdown then (resetClient st.db p.endpoint.1 p.endpoint.2, none)
      else (counted.1, sendRawReply mallocOk (field p.bytes 16 4) p.endpoint.1 serverPort
        p.endpoint.2 p.text counted.2) :=
  wp_processIncomingPacket st.db st.buffer p mallocOk (s := ⟨received st.buffer p.bytes, []⟩) rfl

/-- The number the sessions dictate for a message of `e` after `h`. -/
def number (h : History) (e : Endpoint) : ℕ :=
  if e ∈ served maxClients (h ++ [.message e]) then since e (h ++ [.message e]) else 0

theorem number_lt {h : History} {e : Endpoint} {n : ℕ} (hlen : h.length + 1 < n) :
    number h e < n := by
  have hle := since_le_length e (h ++ [.message e])
  rw [List.length_append, List.length_singleton] at hle
  unfold number
  split <;> omega

/-- A reply to a packet that carries a number: back to the endpoint, from the server's port, with
the text of the message and the number. -/
structure Reply.Answers (r : Reply) {serverPort : ℕ} (p : Packet serverPort) (n : ℕ) : Prop where
  destIp : r.destIp = p.endpoint.1
  ports : r.packet.take 4 = be16 serverPort ++ be16 p.endpoint.2
  payload : r.packet.drop 8 = p.text ++ (ascii " " ++ decimal n)

/-- The reply that carries a number, unless `malloc` fails. -/
theorem sendRawReply_eq {serverPort : ℕ} (p : Packet serverPort) {n : ℕ} (hn : n < 2 ^ 31) :
    ∃ sum, ∀ mallocOk,
      sendRawReply mallocOk (field p.bytes 16 4) p.endpoint.1 serverPort p.endpoint.2 p.text
          (toInt n) =
        if mallocOk then
          some ⟨p.endpoint.1, udpPacket serverPort p.endpoint.2 sum
            (p.text ++ (ascii " " ++ decimal n))⟩
        else none := by
  rw [toInt_eq_self (by omega) (by omega)]
  have htext := p.length_text_le
  have hnum : (decimal (n : ℤ)).length ≤ 11 := length_decimal_le (by omega)
  have hlen : (p.text ++ (ascii " " ++ decimal (n : ℤ))).length < bufferSize := by
    simp only [List.length_append, show (ascii " ").length = 1 from rfl, bufferSize]
    omega
  obtain ⟨sum, hpacket⟩ := buildUdpPacket_eq (field p.bytes 16 4) p.endpoint.1 serverPort
    p.endpoint.2 (p.text ++ (ascii " " ++ decimal (n : ℤ)))
  refine ⟨sum, fun mallocOk => ?_⟩
  rw [sendRawReply, snprintf_eq_self hlen, hpacket]
  cases mallocOk <;> rfl

theorem sendRawReply_answers {serverPort : ℕ} (p : Packet serverPort) {n : ℕ} (hn : n < 2 ^ 31) :
    ∃ r, sendRawReply true (field p.bytes 16 4) p.endpoint.1 serverPort p.endpoint.2 p.text
      (toInt n) = some r ∧ r.Answers p n := by
  obtain ⟨sum, hreply⟩ := sendRawReply_eq p hn
  exact ⟨_, hreply true, rfl, rfl, rfl⟩

/-- One turn of the server: the sessions go on, and the reply carries the number they dictate. -/
theorem Represents.next {serverPort : ℕ} {st : ServerState} {h : History}
    (hr : Represents st.db h) (p : Packet serverPort) (mallocOk : Bool) :
    Represents (serverStep serverPort st p.bytes mallocOk).1.db (h ++ [p.event]) ∧
      (serverStep serverPort st p.bytes mallocOk).2 =
        if p.IsShutdown then none
        else sendRawReply mallocOk (field p.bytes 16 4) p.endpoint.1 serverPort p.endpoint.2 p.text
          (toInt (number h p.endpoint)) := by
  have hstep := serverStep_packet st p mallocOk
  dsimp only at hstep
  rw [Packet.event]
  by_cases hshut : p.IsShutdown
  · rw [if_pos hshut, Prod.mk.injEq] at hstep
    rw [if_pos hshut, if_pos hshut, hstep.1, hstep.2]
    exact ⟨hr.reset p.endpoint, rfl⟩
  · obtain ⟨hcount, hnumber⟩ := hr.count p.endpoint
    rw [if_neg hshut, Prod.mk.injEq] at hstep
    rw [if_neg hshut, if_neg hshut, hstep.1, hstep.2]
    refine ⟨hcount, ?_⟩
    rw [hnumber, number]
    split <;> rfl

/-- **The table counts the sessions** after any history. -/
theorem represents_serve {serverPort : ℕ} (buffer : Bytes)
    (history : List (Packet serverPort × Bool)) :
    Represents (serve buffer history).db (events history) := by
  induction history using List.reverseRecOn with
  | nil => exact represents_init
  | append_singleton history x ih =>
    rw [serve, List.foldl_append, events, List.map_append]
    exact (ih.next x.1 x.2).1

/-- The records of the other endpoints are the same before and after an event. -/
theorem Represents.mem_iff {db db' : ClientDb} {h : History} {x : Event Endpoint}
    (hr : Represents db h) (hr' : Represents db' (h ++ [x])) {r : ClientRecord}
    (hne : r.endpoint ≠ x.party) : r ∈ db'.toList ↔ r ∈ db.toList := by
  rw [hr, hr', List.mem_map, List.mem_map]
  constructor
  · rintro ⟨e, he, rfl⟩
    rw [record_endpoint] at hne
    exact ⟨e, (mem_served_concat_of_ne hne.symm).1 he, (record_concat_of_ne hne.symm).symm⟩
  · rintro ⟨e, he, rfl⟩
    rw [record_endpoint] at hne
    exact ⟨e, (mem_served_concat_of_ne hne.symm).2 he, record_concat_of_ne hne.symm⟩

theorem Represents.endpoints {db : ClientDb} {h : History} (hr : Represents db h) :
    db.toList.map (·.endpoint) = served maxClients h := by
  rw [hr, List.map_map]
  exact List.map_id _

/-! ## Sample packets -/

/-- The header of a packet from a port of `10.0.0.2` to port 5000 of `10.0.0.1`. -/
def sampleHeader (srcPort len : ℕ) : List UInt8 :=
  [69, 0, 0, 0, 0, 0, 0, 0, 64, 17, 0, 0, 10, 0, 0, 2, 10, 0, 0, 1] ++
    (be16 srcPort ++ (be16 5000 ++ (be16 (8 + len) ++ [0, 0])))

theorem ipHdrLen_sample (srcPort len : ℕ) (payload : List UInt8) :
    ipHdrLen (sampleHeader srcPort len ++ payload) = 20 := by
  change leValue [69] % 16 * 4 = 20
  decide

/-- The UDP fields of a sample packet: ports and length. -/
theorem udpField_sample (srcPort len : ℕ) (payload : List UInt8) :
    udpField (sampleHeader srcPort len ++ payload) 0 = ntohs (leValue (be16 srcPort)) ∧
      udpField (sampleHeader srcPort len ++ payload) 2 = ntohs (leValue (be16 5000)) ∧
      udpField (sampleHeader srcPort len ++ payload) 4 = ntohs (leValue (be16 (8 + len))) := by
  unfold udpField
  rw [ipHdrLen_sample]
  exact ⟨rfl, rfl, rfl⟩

def samplePacket (srcPort : ℕ) (payload : List UInt8) (hlen : payload.length ≤ 1000) :
    Packet 5000 where
  bytes := sampleHeader srcPort payload.length ++ payload
  length_le := by
    rw [List.length_append, show (sampleHeader srcPort payload.length).length = 28 from rfl,
      bufferSize]
    omega
  header := (ipHdrLen_sample _ _ _).ge
  protocol := rfl
  destPort := (udpField_sample _ _ _).2.1.trans (ntohs_leValue_be16 (by omega))
  udpLen_ge := by
    rw [(udpField_sample _ _ _).2.2, ntohs_leValue_be16 (by omega)]
    omega
  udpLen_le := by
    rw [(udpField_sample _ _ _).2.2, ntohs_leValue_be16 (by omega), ipHdrLen_sample,
      List.length_append, show (sampleHeader srcPort payload.length).length = 28 from rfl]
    omega

/-! ## Numbering -/

/-- **Numbering of the echoed messages.** After any history of packets, each endpoint has at most
one record and there are at most 128; the next message is answered with the number of the
endpoint's messages since its last shutdown when the endpoint is one of the first 128 that sent a
message, with `0` otherwise; a shutdown is not answered; and no record of another endpoint
changes. -/
theorem numbering {serverPort : ℕ} (buffer : Bytes) (history : List (Packet serverPort × Bool))
    (p : Packet serverPort) (mallocOk : Bool) (hlen : history.length + 1 < 2 ^ 31) :
    let st := serve buffer history
    let out := serverStep serverPort st p.bytes mallocOk
    ((st.db.toList.map (·.endpoint)).Nodup ∧ st.db.toList.length ≤ 128) ∧
      (p.IsShutdown → out.2 = none) ∧
      (¬ p.IsShutdown → if mallocOk then
          ∃ r, out.2 = some r ∧ r.Answers p
            (if p.endpoint ∈ (senders (events history ++ [p.event])).take 128 then
              since p.endpoint (events history ++ [p.event]) else 0)
        else out.2 = none) ∧
      ∀ r : ClientRecord, r.endpoint ≠ p.endpoint → (r ∈ out.1.db.toList ↔ r ∈ st.db.toList) := by
  intro st out
  have hr := represents_serve buffer history
  obtain ⟨hr', hreply⟩ := hr.next p mallocOk
  refine ⟨⟨?_, st.db.length_toList_le⟩, fun hshut => ?_, fun hmsg => ?_, fun r hne => ?_⟩
  · rw [hr.endpoints]
    exact nodup_served _ _
  · rw [if_pos hshut] at hreply
    exact hreply
  · rw [if_neg hmsg] at hreply
    have hevent : p.event = .message p.endpoint := if_neg hmsg
    cases mallocOk with
    | false => exact hreply
    | true =>
      rw [if_pos rfl, hevent, hreply]
      exact sendRawReply_answers p (number_lt (by rw [events, List.length_map]; omega))
  · exact hr.mem_iff hr' (by rwa [p.party_event])

theorem numbering_sample :
    let p := samplePacket 4001 (ascii "ping") (by decide)
    ∃ r, (serverStep 5000 (serve (fun _ => 0) [(p, true)]) p.bytes true).2 = some r ∧
      r.Answers p 2 := by
  intro p
  have hmsg : ¬ p.IsShutdown := by decide
  have hreply := (numbering (fun _ => 0) [(p, true)] p true (by simp)).2.2.1 hmsg
  have hnumber : (if p.endpoint ∈ (senders (events [(p, true)] ++ [p.event])).take 128 then
      since p.endpoint (events [(p, true)] ++ [p.event]) else 0) = 2 := by decide
  rwa [if_pos rfl, hnumber] at hreply

end EltexPractice.UdpEcho
