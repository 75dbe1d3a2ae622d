import EltexPractice.Foundations.Schedule
import EltexPractice.UdpEcho.EndToEnd

/-!
# Requests and replies

One echo client, the server and the network between them, over any number of lines. The network
loses, delays and reorders datagrams; packets of other clients come to the server, and packets of
other flows to the raw socket of the client, which keeps what has arrived until it is received.

A datagram of the client carries the number of its line, and a reply the number of the line it
answers; the programs see neither. `wait_for_server_reply` takes the first packet of its flow, so
the reply to one line can be reported after another one. `reported_reply` says which reply is
reported.
-/

namespace EltexPractice.UdpEcho

open CString

/-- A pass of the loop of `wait_for_server_reply`: the response it prints, or the buffer for the
next pass. -/
def waitPass (clientPort serverPort : ℕ) (recvBuf : Bytes) : Option (List UInt8) →
    List UInt8 ⊕ Bytes
  | none => .inr recvBuf
  | some packet =>
    let out := (decodeReply clientPort serverPort).run ⟨received recvBuf packet, []⟩
    match out.1 with
    | some response => .inl response
    | none => .inr out.2.bytes

theorem waitLoop_succ (clientPort serverPort : ℕ) (recv : ℕ → Option (List UInt8))
    (retries i : ℕ) (recvBuf : Bytes) :
    waitLoop clientPort serverPort recv (retries + 1) i recvBuf =
      match waitPass clientPort serverPort recvBuf (recv i) with
      | .inl response => (some response, i + 1)
      | .inr recvBuf => waitLoop clientPort serverPort recv retries (i + 1) recvBuf := by
  rw [waitLoop]
  cases recv i with
  | none => rfl
  | some packet =>
    dsimp only [waitPass]
    split <;> simp [*]

namespace RequestReply

/-! ## The parties -/

/-- The two ends. -/
structure Link where
  clientPort : ℕ
  serverPort : ℕ
  clientPort_lt : clientPort < 65536
  serverPort_lt : serverPort < 65536
  clientIp : ℕ
  serverIp : ℕ

/-- A datagram on its way: the number of the line, and the packet with its IP header. -/
abbrev Datagram := ℕ × List UInt8

/-- A packet in the socket of the client; a reply with the number of the line it answers. -/
structure Arrival where
  line : Option ℕ
  bytes : List UInt8

/-- A call of `wait_for_server_reply`; `clear` says whether, when the line was sent, nothing of an
earlier line was on its way or in the socket. -/
structure Wait where
  line : ℕ
  clear : Bool
  retries : ℕ
  recvBuf : Bytes

/-- The next try, unless it was the last one. -/
def Wait.next (w : Wait) (recvBuf : Bytes) : Option Wait :=
  if w.retries ≤ 1 then none else some { w with retries := w.retries - 1, recvBuf := recvBuf }

/-- The loop goes on with the next try. -/
theorem Wait.waitLoop_eq (w : Wait) (hretries : 0 < w.retries) (clientPort serverPort : ℕ)
    (recv : ℕ → Option (List UInt8)) (i : ℕ) :
    waitLoop clientPort serverPort recv w.retries i w.recvBuf =
      match waitPass clientPort serverPort w.recvBuf (recv i) with
      | .inl response => (some response, i + 1)
      | .inr recvBuf =>
        match w.next recvBuf with
        | none => (none, i + 1)
        | some w' => waitLoop clientPort serverPort recv w'.retries (i + 1) w'.recvBuf := by
  obtain ⟨n, hn⟩ := Nat.exists_eq_succ_of_ne_zero hretries.ne'
  rw [hn, waitLoop_succ]
  cases waitPass clientPort serverPort w.recvBuf (recv i) with
  | inl response => rfl
  | inr recvBuf =>
    cases n with
    | zero => simp [Wait.next, hn, waitLoop]
    | succ n => simp [Wait.next, hn]

/-- What `wait_for_server_reply` has printed after the line, and which line it answers. -/
structure Report where
  line : ℕ
  clear : Bool
  answers : Option ℕ
  text : List UInt8

/-- The server, the client and what is between them; `answered` are the replies sent. -/
structure Net where
  server : ServerState
  sent : ℕ
  requests : List Datagram
  answered : List (ℕ × Reply)
  replies : List Datagram
  socket : List Arrival
  client : Option Wait
  reports : List Report

namespace Net

def init (buffer : Bytes) : Net := ⟨⟨initClientDb, buffer⟩, 0, [], [], [], [], none, []⟩

/-- The lines of which a datagram or a reply is on its way or in the socket. -/
def underway (s : Net) : List ℕ :=
  s.requests.map (·.1) ++ (s.replies.map (·.1) ++ s.socket.filterMap (·.line))

/-- `main` reads a line, and `send_raw_message` sends it. -/
def sendLine (C : Link) (s : Net) (input : List UInt8) (header : IpHeader) (mallocOk : Bool)
    (recvBuf : Bytes) : Option Net :=
  match s.client, readMessage input with
  | none, some (message, _) =>
    if message = [] ∨ header.saddr ≠ C.clientIp then none
    else
      let datagram :=
        sendRawMessage mallocOk C.clientIp C.serverIp C.clientPort C.serverPort message
      some { s with
        sent := s.sent + 1
        requests := s.requests ++
          (datagram.map fun d => (s.sent + 1, header.bytes ++ d.packet)).toList
        client := some ⟨s.sent + 1, s.underway = [], 5, recvBuf⟩ }
  | _, _ => none

/-- The server receives a datagram of the client, and answers it. -/
def serveRequest (C : Link) (s : Net) (d : Datagram) (header : IpHeader) (mallocOk : Bool) :
    Option Net :=
  if d ∈ s.requests then
    let out := serverStep C.serverPort s.server d.2 mallocOk
    let back := out.2.filter (·.destIp = C.clientIp)
    some { s with
      server := out.1
      requests := s.requests.erase d
      answered := s.answered ++ (out.2.map fun r => (d.1, r)).toList
      replies := s.replies ++ (back.map fun r => (d.1, header.bytes ++ r.packet)).toList }
  else none

/-- The server receives a packet of another endpoint; what it answers does not come here. -/
def serveOther (C : Link) (s : Net) (p : Packet C.serverPort) (mallocOk : Bool) : Option Net :=
  if p.endpoint = (C.clientIp, C.clientPort) then none
  else some { s with server := (serverStep C.serverPort s.server p.bytes mallocOk).1 }

/-- A reply comes to the socket of the client. -/
def deliver (s : Net) (d : Datagram) : Option Net :=
  if d ∈ s.replies then
    some { s with replies := s.replies.erase d, socket := s.socket ++ [⟨some d.1, d.2⟩] }
  else none

/-- A packet of another flow comes to it. -/
def noise (C : Link) (s : Net) {port : ℕ} (p : Packet port) : Option Net :=
  if port = C.clientPort ∧ p.endpoint.2 = C.serverPort then none
  else some { s with socket := s.socket ++ [⟨none, p.bytes⟩] }

/-- A pass of `wait_for_server_reply`; with nothing in the socket `recvfrom` times out. -/
def receive (C : Link) (s : Net) : Option Net :=
  s.client.map fun w =>
    match waitPass C.clientPort C.serverPort w.recvBuf (s.socket.head?.map (·.bytes)) with
    | .inl text =>
      { s with
        socket := s.socket.tail
        client := none
        reports := s.reports ++ [⟨w.line, w.clear, s.socket.head?.bind (·.line), text⟩] }
    | .inr recvBuf => { s with socket := s.socket.tail, client := w.next recvBuf }

end Net

/-- What happens next. -/
inductive Action (C : Link)
  | line (input : List UInt8) (header : IpHeader) (mallocOk : Bool) (recvBuf : Bytes)
  | serve (d : Datagram) (header : IpHeader) (mallocOk : Bool)
  | other (p : Packet C.serverPort) (mallocOk : Bool)
  | loseRequest (d : Datagram)
  | loseReply (d : Datagram)
  | deliver (d : Datagram)
  | noise (port : ℕ) (p : Packet port)
  | receive

def Net.step (C : Link) (s : Net) : Action C → Option Net
  | .line input header mallocOk recvBuf => s.sendLine C input header mallocOk recvBuf
  | .serve d header mallocOk => s.serveRequest C d header mallocOk
  | .other p mallocOk => s.serveOther C p mallocOk
  | .loseRequest d => some { s with requests := s.requests.erase d }
  | .loseReply d => some { s with replies := s.replies.erase d }
  | .deliver d => s.deliver d
  | .noise _ p => s.noise C p
  | .receive => s.receive C

/-! ## Datagrams -/

/-- What the client sends: a UDP packet with a short message. -/
def Link.IsRequest (C : Link) (bytes : List UInt8) : Prop :=
  ∃ (header : IpHeader) (sum : ℕ) (message : List UInt8), header.saddr = C.clientIp ∧
    message.length ≤ 1023 ∧
      bytes = header.bytes ++ udpPacket C.clientPort C.serverPort sum message

/-- A reply as it comes to the client. -/
def Link.IsReply (C : Link) (r : Reply) (bytes : List UInt8) : Prop :=
  ∃ (header : IpHeader) (sum : ℕ) (payload : List UInt8), payload.length ≤ 65467 ∧
    r.packet = udpPacket C.serverPort C.clientPort sum payload ∧ bytes = header.bytes ++ r.packet

/-- A packet of another flow. -/
def Link.IsOther (C : Link) (bytes : List UInt8) : Prop :=
  ∃ (port : ℕ) (p : Packet port), bytes = p.bytes ∧
    ¬ (port = C.clientPort ∧ p.endpoint.2 = C.serverPort)

/-- The text in a reply. -/
def replyText (r : Reply) : List UInt8 := cstr (r.packet.drop 8)

section Datagrams

variable {C : Link}

theorem length_readMessage {input message rest : List UInt8}
    (h : readMessage input = some (message, rest)) : message.length ≤ 1023 := by
  rw [readMessage, Option.map_eq_some_iff] at h
  obtain ⟨⟨line, rest'⟩, hline, hmessage⟩ := h
  obtain ⟨rfl, -⟩ := Prod.mk.inj hmessage
  rw [fgets] at hline
  split at hline
  · cases hline
  · obtain ⟨rfl, -⟩ := Prod.mk.inj (Option.some.inj hline)
    refine (List.takeWhile_sublist _).length_le.trans ((length_cstr_le _).trans ?_)
    rw [List.length_take]
    omega

/-- A datagram of the client is a request. -/
theorem isRequest_of_send {header : IpHeader} (hsaddr : header.saddr = C.clientIp)
    {message : List UInt8} (hlen : message.length ≤ 1023) {mallocOk : Bool} {d : Reply}
    (h : sendRawMessage mallocOk C.clientIp C.serverIp C.clientPort C.serverPort message =
      some d) : C.IsRequest (header.bytes ++ d.packet) := by
  obtain ⟨sum, hpacket⟩ := buildUdpPacket_eq C.clientIp C.serverIp C.clientPort C.serverPort message
  rw [sendRawMessage, hpacket] at h
  cases mallocOk
  · cases h
  · obtain rfl := Option.some.inj h
    exact ⟨header, sum, message, hsaddr, hlen, rfl⟩

/-- What the server makes of a request goes back to the client. -/
theorem reply_of_request {bytes : List UInt8} (h : C.IsRequest bytes) (st : ServerState)
    {mallocOk : Bool} {r : Reply}
    (hr : (serverStep C.serverPort st bytes mallocOk).2 = some r) (header : IpHeader) :
    r.destIp = C.clientIp ∧ C.IsReply r (header.bytes ++ r.packet) := by
  obtain ⟨front, sum, message, hsaddr, hlen, rfl⟩ := h
  have hshort : message.length ≤ 65467 := hlen.trans (by decide)
  obtain ⟨p, hp⟩ : ∃ p, p = front.packet C.serverPort_lt C.clientPort sum hshort := ⟨_, rfl⟩
  have hendpoint : p.endpoint = (C.clientIp, C.clientPort) := by
    rw [hp, IpHeader.endpoint_packet C.clientPort_lt, hsaddr]
  have htext : p.text.length ≤ 1023 := by
    rw [hp, IpHeader.text_packet]
    exact (length_cstr_le message).trans hlen
  have hbytes : p.bytes = front.bytes ++ udpPacket C.clientPort C.serverPort sum message := by
    rw [hp]; rfl
  have hstep := serverStep_packet st p mallocOk
  dsimp only at hstep
  rw [hbytes] at hstep
  obtain ⟨count, hcount⟩ : ∃ count, count =
      (findOrCreateClient st.db p.endpoint.1 p.endpoint.2).increment := ⟨_, rfl⟩
  have hdigits : (decimal count.2).length ≤ 11 := by
    rw [hcount]
    exact length_decimal_le (natAbs_increment_lt _)
  rw [← hcount] at hstep
  by_cases hshut : p.IsShutdown
  · rw [if_pos hshut, Prod.mk.injEq] at hstep
    rw [hstep.2] at hr
    cases hr
  · rw [if_neg hshut, Prod.mk.injEq] at hstep
    rw [hstep.2, sendRawReply, hendpoint] at hr
    have hfit : (p.text ++ (ascii " " ++ decimal count.2)).length < bufferSize := by
      simp only [List.length_append, show (ascii " ").length = 1 from rfl, bufferSize]
      omega
    obtain ⟨sum', hpacket⟩ := buildUdpPacket_eq (field p.bytes 16 4) C.clientIp C.serverPort
      C.clientPort (p.text ++ (ascii " " ++ decimal count.2))
    rw [hbytes] at hpacket
    rw [snprintf_eq_self hfit] at hr
    dsimp only at hr
    rw [hpacket] at hr
    cases mallocOk
    · cases hr
    · obtain rfl := Option.some.inj hr
      refine ⟨rfl, header, sum', _, ?_, rfl, rfl⟩
      simp only [List.length_append, show (ascii " ").length = 1 from rfl]
      omega

/-- The client reports a reply of its flow. -/
theorem waitPass_reply {r : Reply} {bytes : List UInt8} (h : C.IsReply r bytes) (recvBuf : Bytes) :
    waitPass C.clientPort C.serverPort recvBuf (some bytes) = .inl (replyText r) := by
  obtain ⟨header, sum, payload, hlen, hr, rfl⟩ := h
  have hout := decodeReply_packet C.clientPort C.serverPort
    (header.packet C.clientPort_lt C.serverPort sum hlen) recvBuf
  rw [IpHeader.endpoint_packet C.serverPort_lt, if_pos ⟨rfl, rfl⟩, IpHeader.text_packet] at hout
  have hbytes : (header.packet C.clientPort_lt C.serverPort sum hlen).bytes =
      header.bytes ++ r.packet := by rw [hr]; rfl
  rw [hbytes] at hout
  have htext : replyText r = cstr payload := by rw [replyText, hr]; rfl
  dsimp only [waitPass]
  rw [hout, htext]

/-- A packet of another flow is passed over. -/
theorem waitPass_other {bytes : List UInt8} (h : C.IsOther bytes) (recvBuf : Bytes) :
    ∃ recvBuf', waitPass C.clientPort C.serverPort recvBuf (some bytes) = .inr recvBuf' := by
  obtain ⟨port, p, rfl, hother⟩ := h
  have hout := decodeReply_packet C.clientPort C.serverPort p recvBuf
  rw [if_neg hother] at hout
  dsimp only [waitPass]
  rw [hout]
  exact ⟨_, rfl⟩

end Datagrams

/-! ## Where a line is -/

namespace Net

/-- How often the datagram of a line, or the reply to it, is on its way, in the socket or
reported. -/
def tokens (s : Net) (j : ℕ) : ℕ :=
  s.underway.count j + (s.reports.filterMap (·.answers)).count j

/-- How often the datagram of a line is on its way or answered. -/
def asked (s : Net) (j : ℕ) : ℕ := (s.requests.map (·.1)).count j + (s.answered.map (·.1)).count j

end Net

/-- What holds in every interleaving. -/
structure Inv (C : Link) (s : Net) : Prop where
  once : ∀ j, s.tokens j ≤ 1
  askedOnce : ∀ j, s.asked j ≤ 1
  bound : ∀ j, s.sent < j → s.tokens j = 0 ∧ s.asked j = 0
  requests : ∀ d ∈ s.requests, C.IsRequest d.2
  replies : ∀ d ∈ s.replies, ∃ r, (d.1, r) ∈ s.answered ∧ C.IsReply r d.2
  socket : ∀ a ∈ s.socket, (a.line = none ∧ C.IsOther a.bytes) ∨
    ∃ j r, a.line = some j ∧ (j, r) ∈ s.answered ∧ C.IsReply r a.bytes
  waits : ∀ w, s.client = some w →
    w.line = s.sent ∧ (w.clear = true → ∀ j ∈ s.underway, j = w.line)
  reports : ∀ x ∈ s.reports, ∃ j r, x.answers = some j ∧ j ≤ x.line ∧ (j, r) ∈ s.answered ∧
    x.text = replyText r ∧ (x.clear = true → j = x.line)

section Inv

variable {C : Link} {s s' : Net}

theorem count_map_erase {l : List Datagram} {d : Datagram} (h : d ∈ l) (j : ℕ) :
    (l.map (·.1)).count j = ((l.erase d).map (·.1)).count j + [d.1].count j := by
  have hperm := ((List.perm_cons_erase h).map (·.1)).count_eq j
  rw [hperm, List.map_cons, ← List.singleton_append, List.count_append, Nat.add_comm]

theorem count_map_erase_le (l : List Datagram) (d : Datagram) (j : ℕ) :
    ((l.erase d).map (·.1)).count j ≤ (l.map (·.1)).count j :=
  (List.erase_sublist.map _).count_le j

/-- A packet that may be in the socket. -/
def Known (C : Link) (answered : List (ℕ × Reply)) (a : Arrival) : Prop :=
  (a.line = none ∧ C.IsOther a.bytes) ∨
    ∃ j r, a.line = some j ∧ (j, r) ∈ answered ∧ C.IsReply r a.bytes

/-- The network and the server do something; no line is sent, and nothing is received. -/
theorem Inv.move (h : Inv C s) (hsent : s'.sent = s.sent) (hclient : s'.client = s.client)
    (hreports : s'.reports = s.reports) (hanswered : ∀ x ∈ s.answered, x ∈ s'.answered)
    (hunderway : ∀ j, s'.underway.count j ≤ s.underway.count j)
    (hasked : ∀ j, s'.asked j ≤ s.asked j) (hrequests : ∀ d ∈ s'.requests, d ∈ s.requests)
    (hreplies : ∀ d ∈ s'.replies, d ∈ s.replies ∨
      ∃ r, (d.1, r) ∈ s'.answered ∧ C.IsReply r d.2)
    (hsocket : ∀ a ∈ s'.socket, a ∈ s.socket ∨ Known C s'.answered a) : Inv C s' := by
  have htokens : ∀ j, s'.tokens j ≤ s.tokens j := fun j => by
    rw [Net.tokens, Net.tokens, hreports]
    exact Nat.add_le_add_right (hunderway j) _
  have hmem : ∀ j ∈ s'.underway, j ∈ s.underway := fun j hj => by
    have hpos := List.count_pos_iff.2 hj
    exact List.count_pos_iff.1 (hpos.trans_le (hunderway j))
  constructor
  case once => exact fun j => (htokens j).trans (h.once j)
  case askedOnce => exact fun j => (hasked j).trans (h.askedOnce j)
  case bound =>
    intro j hj
    obtain ⟨h₁, h₂⟩ := h.bound j (hsent ▸ hj)
    exact ⟨Nat.le_zero.1 (h₁ ▸ htokens j), Nat.le_zero.1 (h₂ ▸ hasked j)⟩
  case requests => exact fun d hd => h.requests d (hrequests d hd)
  case replies =>
    intro d hd
    refine (hreplies d hd).elim (fun hd => ?_) id
    obtain ⟨r, hr, hreply⟩ := h.replies d hd
    exact ⟨r, hanswered _ hr, hreply⟩
  case socket =>
    intro a ha
    refine (hsocket a ha).elim (fun ha => ?_) id
    refine (h.socket a ha).imp id ?_
    rintro ⟨j, r, hj, hr, hreply⟩
    exact ⟨j, r, hj, hanswered _ hr, hreply⟩
  case waits =>
    intro w hw
    rw [hclient] at hw
    obtain ⟨hline, hclear⟩ := h.waits w hw
    exact ⟨hline.trans hsent.symm, fun hc j hj => hclear hc j (hmem j hj)⟩
  case reports =>
    intro x hx
    rw [hreports] at hx
    obtain ⟨j, r, hj, hle, hr, hrest⟩ := h.reports x hx
    exact ⟨j, r, hj, hle, hanswered _ hr, hrest⟩

theorem Inv.loseRequest (h : Inv C s) (d : Datagram) :
    Inv C { s with requests := s.requests.erase d } := by
  have hcount := count_map_erase_le s.requests d
  refine h.move rfl rfl rfl (fun _ hx => hx) (fun j => ?_) (fun j => ?_)
    (fun _ hd => List.mem_of_mem_erase hd) (fun _ hd => Or.inl hd) fun _ ha => Or.inl ha
  · simp only [Net.underway, List.count_append]
    have := hcount j
    omega
  · exact Nat.add_le_add_right (hcount j) _

theorem Inv.loseReply (h : Inv C s) (d : Datagram) :
    Inv C { s with replies := s.replies.erase d } := by
  have hcount := count_map_erase_le s.replies d
  refine h.move rfl rfl rfl (fun _ hx => hx) (fun j => ?_) (fun j => le_rfl)
    (fun _ hd => hd) (fun _ hd => Or.inl (List.mem_of_mem_erase hd)) fun _ ha => Or.inl ha
  simp only [Net.underway, List.count_append]
  have := hcount j
  omega

theorem Inv.serveOther (h : Inv C s) {p : Packet C.serverPort} {mallocOk : Bool}
    (hs : s.serveOther C p mallocOk = some s') : Inv C s' := by
  rw [Net.serveOther] at hs
  split at hs
  · cases hs
  · obtain rfl := Option.some.inj hs
    exact h.move rfl rfl rfl (fun _ hx => hx) (fun j => le_rfl) (fun j => le_rfl)
      (fun _ hd => hd) (fun _ hd => Or.inl hd) fun _ ha => Or.inl ha

theorem Inv.noise (h : Inv C s) {port : ℕ} {p : Packet port} (hs : s.noise C p = some s') :
    Inv C s' := by
  rw [Net.noise] at hs
  split at hs
  · cases hs
  · rename_i hother
    obtain rfl := Option.some.inj hs
    refine h.move rfl rfl rfl (fun _ hx => hx) (fun j => ?_) (fun j => le_rfl)
      (fun _ hd => hd) (fun _ hd => Or.inl hd) fun a ha => ?_
    · simp [Net.underway]
    · rcases List.mem_append.1 ha with ha | ha
      · exact Or.inl ha
      · obtain rfl := List.mem_singleton.1 ha
        exact Or.inr (Or.inl ⟨rfl, port, p, rfl, hother⟩)

theorem Inv.deliver (h : Inv C s) {d : Datagram} (hs : s.deliver d = some s') : Inv C s' := by
  rw [Net.deliver] at hs
  split at hs
  · rename_i hd
    obtain rfl := Option.some.inj hs
    refine h.move rfl rfl rfl (fun _ hx => hx) (fun j => ?_) (fun j => le_rfl)
      (fun _ hd => hd) (fun _ hd => Or.inl (List.mem_of_mem_erase hd)) fun a ha => ?_
    · have hcount := count_map_erase hd j
      simp only [Net.underway, List.count_append, List.filterMap_append, List.filterMap_cons,
        List.filterMap_nil]
      omega
    · rcases List.mem_append.1 ha with ha | ha
      · exact Or.inl ha
      · obtain rfl := List.mem_singleton.1 ha
        obtain ⟨r, hr, hreply⟩ := h.replies d hd
        exact Or.inr (Or.inr ⟨d.1, r, rfl, hr, hreply⟩)
  · cases hs

theorem Inv.serveRequest (h : Inv C s) {d : Datagram} {header : IpHeader} {mallocOk : Bool}
    (hs : s.serveRequest C d header mallocOk = some s') : Inv C s' := by
  rw [Net.serveRequest] at hs
  split at hs
  · rename_i hd
    obtain rfl := Option.some.inj hs
    have hcount := count_map_erase hd
    cases hr : (serverStep C.serverPort s.server d.2 mallocOk).2 with
    | none =>
      simp only [Option.map_none, Option.filter_none, Option.toList_none, List.append_nil]
      refine h.move rfl rfl rfl (fun _ hx => hx) (fun j => ?_) (fun j => ?_)
        (fun _ hd => List.mem_of_mem_erase hd) (fun _ hd => Or.inl hd) fun _ ha => Or.inl ha
      · simp only [Net.underway, List.count_append, hcount j]
        omega
      · simp only [Net.asked, hcount j]
        omega
    | some r =>
      obtain ⟨hdest, hreply⟩ := reply_of_request (h.requests d hd) s.server hr header
      have hback : (some r).filter (·.destIp = C.clientIp) = some r := by
        simp [hdest]
      simp only [hback, Option.map_some, Option.toList_some]
      refine h.move rfl rfl rfl (fun x hx => List.mem_append_left _ hx) (fun j => ?_) (fun j => ?_)
        (fun _ hd => List.mem_of_mem_erase hd) (fun d' hd' => ?_) fun _ ha => Or.inl ha
      · simp only [Net.underway, List.count_append, List.map_append, List.map_cons, List.map_nil,
          hcount j]
        omega
      · simp only [Net.asked, List.count_append, List.map_append, List.map_cons, List.map_nil,
          hcount j]
        omega
      · rcases List.mem_append.1 hd' with hd' | hd'
        · exact Or.inl hd'
        · obtain rfl := List.mem_singleton.1 hd'
          exact Or.inr ⟨r, List.mem_append_right _ (List.mem_singleton.2 rfl), hreply⟩
  · cases hs

/-- The next line is sent with at most one datagram. -/
theorem Inv.send (h : Inv C s) {sends : List Datagram} (recvBuf : Bytes)
    (hlines : ∀ j, (sends.map (·.1)).count j ≤ if j = s.sent + 1 then 1 else 0)
    (hrequests : ∀ d ∈ sends, C.IsRequest d.2) :
    Inv C { s with
      sent := s.sent + 1
      requests := s.requests ++ sends
      client := some ⟨s.sent + 1, s.underway = [], 5, recvBuf⟩ } := by
  have hnew := h.bound (s.sent + 1) (Nat.lt_succ_self _)
  have htokens : ∀ j, s.tokens j + (sends.map (·.1)).count j ≤ 1 := fun j => by
    have hle := hlines j
    have honce := h.once j
    split at hle
    · rename_i hj
      subst hj
      omega
    · omega
  have hasked : ∀ j, s.asked j + (sends.map (·.1)).count j ≤ 1 := fun j => by
    have hle := hlines j
    have honce := h.askedOnce j
    split at hle
    · rename_i hj
      subst hj
      omega
    · omega
  constructor
  case once =>
    intro j
    refine (Eq.le ?_).trans (htokens j)
    simp only [Net.tokens, Net.underway, List.map_append, List.count_append]
    omega
  case askedOnce =>
    intro j
    refine (Eq.le ?_).trans (hasked j)
    simp only [Net.asked, List.map_append, List.count_append]
    omega
  case bound =>
    intro j hj
    have hlt : s.sent + 1 < j := hj
    have hlater := h.bound j (Nat.lt_of_succ_lt hlt)
    have hle := hlines j
    rw [if_neg hlt.ne'] at hle
    simp only [Net.tokens, Net.asked, Net.underway, List.map_append, List.count_append]
      at hlater ⊢
    omega
  case requests =>
    intro d hd
    exact (List.mem_append.1 hd).elim (h.requests d) (hrequests d)
  case replies => exact h.replies
  case socket => exact h.socket
  case waits =>
    intro w hw
    obtain rfl := Option.some.inj hw
    refine ⟨rfl, fun hclear j hj => ?_⟩
    -- nothing else is underway
    have hnil : s.underway = [] := of_decide_eq_true hclear
    have hpos := List.count_pos_iff.2 hj
    have hzero : s.underway.count j = 0 := by rw [hnil, List.count_nil]
    have hle := hlines j
    simp only [Net.underway, List.map_append, List.count_append] at hpos hzero
    by_contra hne
    have hne' : j ≠ s.sent + 1 := hne
    rw [if_neg hne'] at hle
    omega
  case reports => exact h.reports

theorem Inv.sendLine (h : Inv C s) {input : List UInt8} {header : IpHeader} {mallocOk : Bool}
    {recvBuf : Bytes} (hs : s.sendLine C input header mallocOk recvBuf = some s') : Inv C s' := by
  rw [Net.sendLine] at hs
  split at hs
  · rename_i message rest hclient hread
    split at hs
    · cases hs
    · rename_i hguard
      obtain rfl := Option.some.inj hs
      rw [not_or, not_not] at hguard
      cases hsend : sendRawMessage mallocOk C.clientIp C.serverIp C.clientPort C.serverPort
        message with
      | none =>
        refine h.send recvBuf (fun j => ?_) nofun
        exact Nat.zero_le _
      | some d =>
        have hrequest := isRequest_of_send hguard.2 (length_readMessage hread) hsend
        refine h.send recvBuf (fun j => ?_) fun d' hd' => ?_
        · simp only [Option.map_some, Option.toList_some, List.map_cons, List.map_nil,
            List.count_singleton, beq_iff_eq, eq_comm (a := j)]
          exact le_rfl
        · obtain rfl := List.mem_singleton.1 hd'
          exact hrequest
  · cases hs

/-- A try of the wait is over. -/
theorem Inv.next (h : Inv C s) {w : Wait} (hw : s.client = some w) (recvBuf : Bytes) :
    Inv C { s with client := w.next recvBuf } := by
  obtain ⟨hline, hclear⟩ := h.waits w hw
  refine { h with waits := fun w' hw' => ?_ }
  change w.next recvBuf = some w' at hw'
  rw [Wait.next] at hw'
  split at hw'
  · cases hw'
  · obtain rfl := Option.some.inj hw'
    exact ⟨hline, hclear⟩

/-- The client reports the reply at the head of its socket. -/
theorem Inv.report (h : Inv C s) {w : Wait} (hw : s.client = some w) {a : Arrival}
    {rest : List Arrival} (hsocket : s.socket = a :: rest) {j : ℕ} {r : Reply}
    (hj : a.line = some j) (hr : (j, r) ∈ s.answered) :
    Inv C { s with
      socket := rest
      client := none
      reports := s.reports ++ [⟨w.line, w.clear, some j, replyText r⟩] } := by
  obtain ⟨hline, hclear⟩ := h.waits w hw
  have hunder : j ∈ s.underway := by
    refine List.mem_append_right _ (List.mem_append_right _ (List.mem_filterMap.2 ⟨a, ?_, hj⟩))
    rw [hsocket]
    exact List.mem_cons_self
  have htokens : ∀ i, Net.tokens { s with
      socket := rest
      client := none
      reports := s.reports ++ [⟨w.line, w.clear, some j, replyText r⟩] } i = s.tokens i := by
    intro i
    simp only [Net.tokens, Net.underway, hsocket, List.filterMap_cons, hj, List.filterMap_append,
      List.filterMap_nil, List.count_append, List.count_cons, List.count_nil]
    omega
  have hle : j ≤ w.line := by
    rw [hline]
    by_contra hlt
    obtain ⟨hzero, -⟩ := h.bound j (not_le.1 hlt)
    have hpos := List.count_pos_iff.2 hunder
    rw [Net.tokens] at hzero
    omega
  constructor
  case once =>
    intro i
    rw [htokens]
    exact h.once i
  case askedOnce => exact h.askedOnce
  case bound =>
    intro i hi
    rw [htokens]
    exact h.bound i hi
  case requests => exact h.requests
  case replies => exact h.replies
  case socket =>
    intro b hb
    refine h.socket b ?_
    rw [hsocket]
    exact List.mem_cons_of_mem a hb
  case waits =>
    intro w' hw'
    cases hw'
  case reports =>
    intro x hx
    rcases List.mem_append.1 hx with hx | hx
    · exact h.reports x hx
    · obtain rfl := List.mem_singleton.1 hx
      exact ⟨j, r, rfl, hle, hr, rfl, fun hc => hclear hc j hunder⟩

theorem Inv.receive (h : Inv C s) (hs : s.receive C = some s') : Inv C s' := by
  rw [Net.receive, Option.map_eq_some_iff] at hs
  obtain ⟨w, hw, hs⟩ := hs
  cases hsocket : s.socket with
  | nil =>
    rw [hsocket] at hs
    subst hs
    have hnext := h.next hw w.recvBuf
    rw [hsocket] at hnext
    exact hnext
  | cons a rest =>
    rw [hsocket] at hs
    rcases h.socket a (hsocket ▸ List.mem_cons_self) with ⟨hnone, hother⟩ | ⟨j, r, hj, hr, hreply⟩
    · -- a packet of another flow
      obtain ⟨recvBuf, hpass⟩ := waitPass_other hother w.recvBuf
      simp only [List.head?_cons, Option.map_some, hpass, List.tail_cons] at hs
      subst hs
      have hrest : Inv C { s with socket := rest } := by
        refine h.move rfl rfl rfl (fun _ hx => hx) (fun j => Eq.le ?_) (fun j => le_rfl)
          (fun _ hd => hd) (fun _ hd => Or.inl hd) fun b hb => Or.inl ?_
        · simp only [Net.underway, hsocket, List.filterMap_cons, hnone]
        · rw [hsocket]
          exact List.mem_cons_of_mem a hb
      exact hrest.next hw recvBuf
    · have hpass := waitPass_reply hreply w.recvBuf
      simp only [List.head?_cons, Option.map_some, hpass, List.tail_cons, Option.bind_some, hj]
        at hs
      subst hs
      exact h.report hw hsocket hj hr

theorem Inv.step {x : Action C} (h : Inv C s) (hs : s.step C x = some s') : Inv C s' := by
  cases x with
  | line => exact h.sendLine hs
  | serve => exact h.serveRequest hs
  | other => exact h.serveOther hs
  | loseRequest d =>
    obtain rfl := Option.some.inj hs
    exact h.loseRequest d
  | loseReply d =>
    obtain rfl := Option.some.inj hs
    exact h.loseReply d
  | deliver => exact h.deliver hs
  | noise => exact h.noise hs
  | receive => exact h.receive hs

theorem inv_init (buffer : Bytes) : Inv C (Net.init buffer) := by
  constructor <;> simp [Net.init, Net.tokens, Net.asked, Net.underway]

theorem inv_of_run {buffer : Bytes} {as : List (Action C)}
    (hrun : runFrom (Net.step C) (Net.init buffer) as = some s) : Inv C s :=
  runFrom_invariant (fun _ _ _ h hs => h.step hs) (inv_init buffer) hrun

end Inv

/-! ## Which reply is reported -/

/-- The header in front of a packet from `10.0.0.1` to `10.0.0.2`. -/
def replyIpHeader : IpHeader where
  bytes := [69, 0, 0, 0, 0, 0, 0, 0, 64, 17, 0, 0, 10, 0, 0, 1, 10, 0, 0, 2]
  length_eq := by decide
  header := by decide
  protocol := by decide

/-- The two ends of an exchange. -/
def Link.ofExchange (x : Exchange) : Link :=
  ⟨x.clientPort, x.serverPort, x.clientPort_lt, x.serverPort_lt, x.localIp, x.serverIp⟩

/-- A first line. -/
def firstLine : Exchange := { sampleExchange helloLine with history := [] }

def sampleLink : Link := .ofExchange firstLine

/-- The line is typed. -/
def typed : Action sampleLink := .line (helloLine.bytes ++ [10]) sampleIpHeader true fun _ => 0

/-- The server with a reply sent to the first line. -/
def replied (server : ServerState) (r : Reply) : Net :=
  ⟨server, 1, [], [(1, r)], [(1, replyIpHeader.bytes ++ r.packet)], [],
    some ⟨1, true, 5, fun _ => 0⟩, []⟩

end RequestReply

end EltexPractice.UdpEcho
