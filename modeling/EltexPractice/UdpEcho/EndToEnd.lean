import EltexPractice.UdpEcho.Client
import EltexPractice.UdpEcho.Numbering

/-!
# A line and its echo

What becomes of a line typed at the client when the network loses and changes nothing. Both sides
hand a UDP packet to a raw socket, and the kernel puts an IP header in front of it, so both receive
a well-formed `Packet` (`IpHeader.packet`), whose fields they read alike (`Packet.Reads`).

The text `CLIENT_SHUTDOWN_SIGNAL` is reserved for the end of a session: typed as a line it is not
echoed, and it ends the session (`not_echoes`). Every other line comes back with its number
(`echo`).
-/

namespace EltexPractice.UdpEcho

open CString Sessions

/-! ## IP headers -/

/-- An IP header of a UDP packet, as the kernel writes it. -/
structure IpHeader where
  bytes : List UInt8
  length_eq : bytes.length = ipHdrLen bytes
  header : 20 ≤ bytes.length
  protocol : field bytes 9 1 = ipprotoUdp

/-- A field of the front part of a packet. -/
theorem field_append_of_le {front : List UInt8} {k n : ℕ} (h : k + n ≤ front.length)
    (rest : List UInt8) : field (front ++ rest) k n = field front k n := by
  rw [field, List.drop_append_of_le_length (by omega),
    List.take_append_of_le_length (by rw [List.length_drop]; omega), field]

/-- A field behind it. -/
theorem field_append_add (front rest : List UInt8) (k n : ℕ) :
    field (front ++ rest) (front.length + k) n = field rest k n := by
  rw [field, List.drop_append, List.drop_of_length_le (by omega), List.nil_append,
    Nat.add_sub_cancel_left, field]

namespace IpHeader

variable (header : IpHeader)

/-- The source address. -/
def saddr : ℕ := field header.bytes 12 4

theorem length_le : header.bytes.length ≤ 60 := by
  have hlength := header.length_eq
  unfold ipHdrLen at hlength
  omega

theorem ipHdrLen_append (udp : List UInt8) :
    ipHdrLen (header.bytes ++ udp) = header.bytes.length := by
  have hlength := header.header
  rw [ipHdrLen, field_append_of_le (by omega), header.length_eq, ipHdrLen]

theorem udpField_append (udp : List UInt8) (k : ℕ) :
    udpField (header.bytes ++ udp) k = ntohs (field udp k 2) := by
  rw [udpField, ipHdrLen_append, field_append_add]

theorem udpLen_append {srcPort destPort sum : ℕ} {payload : List UInt8}
    (hlen : payload.length ≤ 65467) :
    udpField (header.bytes ++ udpPacket srcPort destPort sum payload) 4 = 8 + payload.length := by
  rw [udpField_append]
  exact ntohs_leValue_be16 (by omega)

/-- The packet the kernel makes of a UDP packet. -/
def packet {destPort : ℕ} (hdest : destPort < 65536) (srcPort sum : ℕ) {payload : List UInt8}
    (hlen : payload.length ≤ 65467) : Packet destPort where
  bytes := header.bytes ++ udpPacket srcPort destPort sum payload
  length_le := by
    have hlength := header.length_le
    rw [List.length_append, udpPacket, List.length_append, length_udpHeader]
    unfold bufferSize
    omega
  header := by
    rw [ipHdrLen_append]
    exact header.header
  protocol := by
    have hlength := header.header
    rw [field_append_of_le (by omega), header.protocol]
  destPort := by
    rw [udpField_append]
    exact ntohs_leValue_be16 hdest
  udpLen_ge := by
    rw [udpLen_append header hlen]
    exact Nat.le_add_right 8 _
  udpLen_le := by
    rw [udpLen_append header hlen, ipHdrLen_append, List.length_append, udpPacket,
      List.length_append, length_udpHeader]

variable {header} {srcPort destPort sum : ℕ} {hdest : destPort < 65536} {payload : List UInt8}
  {hlen : payload.length ≤ 65467}

theorem endpoint_packet (hsrc : srcPort < 65536) :
    (header.packet hdest srcPort sum hlen).endpoint = (header.saddr, srcPort) := by
  have hlength := header.header
  refine Prod.ext (field_append_of_le (by omega) _) ?_
  exact (header.udpField_append _ 0).trans (ntohs_leValue_be16 hsrc)

/-- What was sent is what is read. -/
theorem text_packet : (header.packet hdest srcPort sum hlen).text = cstr payload := by
  have htext : (header.packet hdest srcPort sum hlen).text =
      cstr (((header.bytes ++ udpPacket srcPort destPort sum payload).drop
        (ipHdrLen (header.bytes ++ udpPacket srcPort destPort sum payload) + 8)).take
          (udpField (header.bytes ++ udpPacket srcPort destPort sum payload) 4 - 8)) := rfl
  have hdrop : (udpPacket srcPort destPort sum payload).drop 8 = payload := rfl
  rw [htext, ipHdrLen_append, udpLen_append header hlen, Nat.add_sub_cancel_left, List.drop_append,
    List.drop_of_length_le (by omega), List.nil_append, Nat.add_sub_cancel_left, hdrop,
    List.take_length]

end IpHeader

/-! ## Waiting for the reply -/

/-- The filter of the client, and what it prints. -/
theorem decodeReply_packet {port : ℕ} (clientPort serverPort : ℕ) (p : Packet port)
    (recvBuf : Bytes) :
    ((decodeReply clientPort serverPort).run ⟨received recvBuf p.bytes, []⟩).1 =
      if port = clientPort ∧ p.endpoint.2 = serverPort then some p.text else none := by
  obtain ⟨hihl, hprotocol, -, -, hsrc, hdest, hudpLen, htext⟩ := p.reads_received recvBuf
  change (decodeReply clientPort serverPort).wp (fun r _ => r = _) _
  simp only [decodeReply, MemM.wp_bind, MemM.wp_load, Mem.bytes_touch, hprotocol, ne_eq, not_true,
    if_false, hihl, hdest, hsrc]
  split
  · simp only [MemM.wp_bind, MemM.wp_load, MemM.wp_loadBytes, MemM.wp_pure, Mem.bytes_touch,
      hudpLen, htext]
  · rw [MemM.wp_pure]

/-- A call of `recvfrom` that the client passes over: a timeout, or a packet of another flow. -/
def Passed (clientPort serverPort : ℕ) (out : Option (List UInt8)) : Prop :=
  out = none ∨ ∃ (port : ℕ) (p : Packet port), out = some p.bytes ∧
    ¬ (port = clientPort ∧ p.endpoint.2 = serverPort)

theorem waitLoop_passed {clientPort serverPort i : ℕ} {recv : ℕ → Option (List UInt8)}
    (h : Passed clientPort serverPort (recv i)) (retries : ℕ) (recvBuf : Bytes) :
    ∃ recvBuf', waitLoop clientPort serverPort recv (retries + 1) i recvBuf =
      waitLoop clientPort serverPort recv retries (i + 1) recvBuf' := by
  rw [waitLoop]
  rcases h with hnone | ⟨port, p, hsome, hother⟩
  · rw [hnone]
    exact ⟨_, rfl⟩
  · have hout := decodeReply_packet clientPort serverPort p recvBuf
    rw [if_neg hother] at hout
    rw [hsome]
    dsimp only
    rw [hout]
    exact ⟨_, rfl⟩

/-- The reply is printed when it comes with one of the tries. -/
theorem waitLoop_reply {clientPort serverPort k : ℕ} {recv : ℕ → Option (List UInt8)}
    {p : Packet clientPort} (hp : p.endpoint.2 = serverPort) {retries i : ℕ} (hk : k < retries)
    (hpassed : ∀ j, j < k → Passed clientPort serverPort (recv (i + j)))
    (hrecv : recv (i + k) = some p.bytes) (recvBuf : Bytes) :
    waitLoop clientPort serverPort recv retries i recvBuf = (some p.text, i + k + 1) := by
  induction k generalizing retries i recvBuf with
  | zero =>
    obtain ⟨retries, rfl⟩ := Nat.exists_eq_succ_of_ne_zero hk.ne'
    have hout := decodeReply_packet clientPort serverPort p recvBuf
    rw [if_pos ⟨rfl, hp⟩] at hout
    rw [waitLoop, show recv i = some p.bytes from hrecv]
    dsimp only
    rw [hout]
  | succ k ih =>
    obtain ⟨retries, rfl⟩ := Nat.exists_eq_succ_of_ne_zero (Nat.ne_zero_of_lt hk)
    have hfirst : Passed clientPort serverPort (recv i) := hpassed 0 (Nat.succ_pos k)
    obtain ⟨recvBuf', hstep⟩ := waitLoop_passed hfirst retries recvBuf
    rw [Nat.succ_eq_add_one, hstep, ih (Nat.lt_of_succ_lt_succ hk)
      (fun j hj => by rw [Nat.add_right_comm]; exact hpassed (j + 1) (by omega))
      (by rw [Nat.add_right_comm]; exact hrecv), Nat.add_right_comm i 1 k]
    rfl

/-! ## The echo -/

/-- A line typed at the client, without its newline. -/
structure TypedLine where
  bytes : List UInt8
  ne_nil : bytes ≠ []
  length_le : bytes.length ≤ 1022
  zero_notMem : 0 ∉ bytes
  cr_notMem : 13 ∉ bytes
  lf_notMem : 10 ∉ bytes

/-- `main` reads the line, and nothing else, as the message. -/
theorem TypedLine.readMessage (line : TypedLine) (rest : List UInt8) :
    UdpEcho.readMessage (line.bytes ++ 10 :: rest) = some (line.bytes, rest) := by
  have hlength := line.length_le
  have hzero : 0 ∉ line.bytes ++ [10] := by
    rw [List.mem_append, List.mem_singleton]
    rintro (h | h)
    · exact line.zero_notMem h
    · cases h
  have hascii : ascii "\r\n" = [13, 10] := by decide
  have hreject : ∀ b ∈ line.bytes, b ∉ ascii "\r\n" := by
    intro b hb h
    rw [hascii, List.mem_cons, List.mem_singleton] at h
    rcases h with rfl | rfl
    · exact line.cr_notMem hb
    · exact line.lf_notMem hb
  rw [UdpEcho.readMessage, fgets_line line.lf_notMem (by omega), Option.map_some,
    cstr_eq_self hzero, cutAt_append hreject (by decide)]

/-- A line on its way: the two ends, the server after a history of packets, and the IP header in
front of the client's packet. -/
structure Exchange where
  clientPort : ℕ
  serverPort : ℕ
  clientPort_lt : clientPort < 65536
  serverPort_lt : serverPort < 65536
  localIp : ℕ
  serverIp : ℕ
  line : TypedLine
  header : IpHeader
  buffer : Bytes
  history : List (Packet serverPort × Bool)

namespace Exchange

variable (x : Exchange)

/-- The endpoint of the client, as the server sees it. -/
def endpoint : Endpoint := (x.header.saddr, x.clientPort)

/-- The client is one of the first 128 endpoints that send a message. -/
def Served : Prop := x.endpoint ∈ (senders (events x.history ++ [.message x.endpoint])).take 128

instance : Decidable x.Served := inferInstanceAs (Decidable (_ ∈ _))

/-- The messages of the client since its last shutdown, this line included. -/
def number : ℕ := since x.endpoint (events x.history ++ [.message x.endpoint])

/-- What the client sends when the line is typed. -/
def send (mallocOk : Bool) : Option Reply :=
  (readMessage (x.line.bytes ++ [10])).bind fun out =>
    sendRawMessage mallocOk x.localIp x.serverIp x.clientPort x.serverPort out.1

/-- What the server sends when it receives the datagram. -/
def reply (datagram : Reply) (mallocOk : Bool) : Option Reply :=
  (serverStep x.serverPort (serve x.buffer x.history) (x.header.bytes ++ datagram.packet)
    mallocOk).2

/-- The datagram the client sends, which the server takes for an event of the session. -/
structure Sends (datagram : Reply) (event : Event Endpoint) : Prop where
  sent : ∀ mallocOk, x.send mallocOk = if mallocOk then some datagram else none
  destIp : datagram.destIp = x.serverIp
  event : ∃ p : Packet x.serverPort,
    p.bytes = x.header.bytes ++ datagram.packet ∧ p.event = event

/-- The reply is sent once, back to the client, which prints the text when the reply comes with one
of its five tries. -/
structure Answers (datagram r : Reply) (text : List UInt8) : Prop where
  sent : ∀ mallocOk, x.reply datagram mallocOk = if mallocOk then some r else none
  destIp : r.destIp = x.header.saddr
  printed : ∀ (header : IpHeader) (recvBuf : Bytes) (recv : ℕ → Option (List UInt8)) (k : ℕ),
    k < 5 → (∀ j, j < k → Passed x.clientPort x.serverPort (recv j)) →
    recv k = some (header.bytes ++ r.packet) →
    (waitForServerReply x.clientPort x.serverPort recvBuf recv).1 = some text

/-- The line is echoed with its number. -/
def Echoes : Prop :=
  ∃ datagram r, x.Sends datagram (.message x.endpoint) ∧
    x.Answers datagram r (x.line.bytes ++ (ascii " " ++ decimal x.number))

/-- The line ends the session. -/
def EndsSession : Prop :=
  ∃ datagram, x.Sends datagram (.shutdown x.endpoint) ∧
    ∀ mallocOk, x.reply datagram mallocOk = none

/-- The packet of the line, as the server receives it. -/
theorem exists_packet : ∃ (datagram : Reply) (p : Packet x.serverPort),
    (∀ mallocOk, x.send mallocOk = if mallocOk then some datagram else none) ∧
      datagram.destIp = x.serverIp ∧ p.bytes = x.header.bytes ++ datagram.packet ∧
      p.endpoint = x.endpoint ∧ p.text = x.line.bytes := by
  have hlength := x.line.length_le
  obtain ⟨sum, hpacket⟩ := buildUdpPacket_eq x.localIp x.serverIp x.clientPort x.serverPort
    x.line.bytes
  refine ⟨⟨x.serverIp, udpPacket x.clientPort x.serverPort sum x.line.bytes⟩,
    x.header.packet x.serverPort_lt x.clientPort sum (by omega), fun mallocOk => ?_, rfl, rfl,
    IpHeader.endpoint_packet x.clientPort_lt, ?_⟩
  · rw [send, x.line.readMessage [], Option.bind_some, sendRawMessage, hpacket]
    cases mallocOk <;> rfl
  · rw [IpHeader.text_packet, cstr_eq_self x.line.zero_notMem]

/-- What the server does with the packet. -/
theorem reply_packet {datagram : Reply} {p : Packet x.serverPort}
    (hp : p.bytes = x.header.bytes ++ datagram.packet) (mallocOk : Bool) :
    x.reply datagram mallocOk = if p.IsShutdown then none
      else sendRawReply mallocOk (field p.bytes 16 4) p.endpoint.1 x.serverPort p.endpoint.2 p.text
        (toInt (UdpEcho.number (events x.history) p.endpoint)) := by
  rw [reply, ← hp]
  exact ((represents_serve x.buffer x.history).next p mallocOk).2

theorem endsSession (hline : x.line.bytes = shutdownMsg) : x.EndsSession := by
  obtain ⟨datagram, p, hsent, hdest, hp, hendpoint, htext⟩ := x.exists_packet
  have hshut : p.IsShutdown := htext.trans hline
  have hevent : p.event = .shutdown x.endpoint := by
    rw [Packet.event, if_pos hshut, hendpoint]
  refine ⟨datagram, ⟨hsent, hdest, p, hp, hevent⟩, fun mallocOk => ?_⟩
  rw [x.reply_packet hp, if_pos hshut]

theorem echoes (hline : x.line.bytes ≠ shutdownMsg) (hserved : x.Served)
    (hnumber : x.number < 2 ^ 31) : x.Echoes := by
  obtain ⟨datagram, p, hsent, hdest, hp, hendpoint, htext⟩ := x.exists_packet
  have hmsg : ¬ p.IsShutdown := fun h => hline (htext.symm.trans h)
  have hevent : p.event = .message x.endpoint := by
    rw [Packet.event, if_neg hmsg, hendpoint]
  have hcount : UdpEcho.number (events x.history) p.endpoint = x.number := by
    rw [hendpoint]
    exact if_pos hserved
  obtain ⟨sum, hreply⟩ := sendRawReply_eq p hnumber
  rw [hendpoint, htext] at hreply
  have hlength := x.line.length_le
  have hdigits : (decimal (x.number : ℤ)).length ≤ 11 := length_decimal_le (by omega)
  have hzero : 0 ∉ x.line.bytes ++ (ascii " " ++ decimal (x.number : ℤ)) := by
    rw [List.mem_append, List.mem_append, not_or, not_or]
    exact ⟨x.line.zero_notMem, by decide, notMem_decimal (by decide) rfl⟩
  have hshort : (x.line.bytes ++ (ascii " " ++ decimal (x.number : ℤ))).length ≤ 65467 := by
    simp only [List.length_append, show (ascii " ").length = 1 from rfl]
    omega
  refine ⟨datagram, ⟨x.header.saddr, udpPacket x.serverPort x.clientPort sum
    (x.line.bytes ++ (ascii " " ++ decimal x.number))⟩, ⟨hsent, hdest, p, hp, hevent⟩,
    fun mallocOk => ?_, rfl, ?_⟩
  · rw [x.reply_packet hp, if_neg hmsg, hcount, hendpoint, htext, hreply]
    rfl
  · intro header recvBuf recv k hk hpassed hrecv
    have hback : (header.packet x.clientPort_lt x.serverPort sum hshort).endpoint.2 =
        x.serverPort := by
      rw [IpHeader.endpoint_packet x.serverPort_lt]
    have hpassed' : ∀ j, j < k → Passed x.clientPort x.serverPort (recv (0 + j)) := by
      intro j hj
      rw [Nat.zero_add]
      exact hpassed j hj
    have hrecv' : recv (0 + k) =
        some (header.packet x.clientPort_lt x.serverPort sum hshort).bytes := by
      rw [Nat.zero_add]
      exact hrecv
    rw [waitForServerReply, waitLoop_reply hback hk hpassed' hrecv', IpHeader.text_packet,
      cstr_eq_self hzero]

end Exchange

/-- **A line and its echo**: every typed line of a client among the first 128 is echoed once, with
the number of the client's messages since its last shutdown, except the line that says that the
client shuts down, which ends the session. -/
theorem echo (x : Exchange) (hserved : x.Served) (hnumber : x.number < 2 ^ 31) :
    if x.line.bytes = shutdownMsg then x.EndsSession else x.Echoes := by
  split
  · rename_i hline
    exact x.endsSession hline
  · rename_i hline
    exact x.echoes hline hserved hnumber

/-! ## Sample exchanges -/

/-- The header in front of a packet from `10.0.0.2` to `10.0.0.1`. -/
def sampleIpHeader : IpHeader where
  bytes := [69, 0, 0, 0, 0, 0, 0, 0, 64, 17, 0, 0, 10, 0, 0, 2, 10, 0, 0, 1]
  length_eq := by decide
  header := by decide
  protocol := by decide

/-- A line typed after a first message from the same port. -/
def sampleExchange (line : TypedLine) : Exchange where
  clientPort := 4001
  serverPort := 5000
  clientPort_lt := by decide
  serverPort_lt := by decide
  localIp := leValue [10, 0, 0, 2]
  serverIp := leValue [10, 0, 0, 1]
  line := line
  header := sampleIpHeader
  buffer := fun _ => 0
  history := [(samplePacket 4001 (ascii "ping") (by decide), true)]

def helloLine : TypedLine where
  bytes := ascii "echo me"
  ne_nil := by decide
  length_le := by decide
  zero_notMem := by decide
  cr_notMem := by decide
  lf_notMem := by decide

theorem echo_hello :
    let x := sampleExchange helloLine
    x.number = 2 ∧ if x.line.bytes = shutdownMsg then x.EndsSession else x.Echoes :=
  ⟨by decide, echo (sampleExchange helloLine) (by decide) (by decide)⟩

/-- The reserved line. -/
def shutdownLine : TypedLine where
  bytes := shutdownMsg
  ne_nil := by decide
  length_le := by decide
  zero_notMem := by decide
  cr_notMem := by decide
  lf_notMem := by decide

/-- The reserved line is not echoed. -/
theorem not_echoes : ¬ ∀ x : Exchange, x.Served → x.Echoes := by
  intro hall
  obtain ⟨datagram, r, hsends, hanswers⟩ := hall (sampleExchange shutdownLine) (by decide)
  obtain ⟨datagram', hsends', hnone⟩ := (sampleExchange shutdownLine).endsSession rfl
  have hsame : some datagram = some datagram' := (hsends.sent true).symm.trans (hsends'.sent true)
  obtain rfl := Option.some.inj hsame
  have hreply : (none : Option Reply) = some r := (hnone true).symm.trans (hanswers.sent true)
  cases hreply

end EltexPractice.UdpEcho
