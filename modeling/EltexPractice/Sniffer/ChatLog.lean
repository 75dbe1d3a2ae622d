import EltexPractice.Sniffer.Encapsulation
import EltexPractice.UdpChat.Packet

/-!
# The log of captured chat packets

`process_and_log_packet` of the sniffer reads the payload of a captured datagram as the
`ChatPacket` of the UDP chat. What it writes to the log file is the list of the bytes written; the
text of the elapsed time is an argument. A string printed by `%s` ends at the first NUL, at the
latest at the end of the capture buffer.

* `logCapture`: one turn of the loop of the sniffer, for one frame.
* `logCapture_chatFrame`: what is logged for a packet of `send_packet`.
-/

namespace EltexPractice.Sniffer

open CString

/-- `BUFFER_SIZE` of the sniffer. -/
def bufferSize : ℕ := 65536

/-! ## Printing -/

/-- A hexadecimal digit. -/
def hexDigit (n : ℕ) : UInt8 := UInt8.ofNat (if n < 10 then 48 + n else 87 + n)

/-- `%02x` -/
def hex2 (b : UInt8) : List UInt8 := [hexDigit (b.toNat / 16), hexDigit (b.toNat % 16)]

/-- `format_mac` -/
def formatMac (mac : List UInt8) : List UInt8 := (mac.map hex2).intersperse (ascii ":") |>.flatten

/-- `inet_ntoa` -/
def inetNtoa (addr : ℕ) : List UInt8 :=
  ((leBytes 4 addr).map fun b => decimal b.toNat).intersperse (ascii ".") |>.flatten

/-- The character `print_payload` shows for a byte. -/
def shownByte (b : UInt8) : UInt8 :=
  if 32 ≤ b ∧ b ≤ 126 then b else if b = 10 ∨ b = 13 ∨ b = 9 then 32 else 46

/-- `print_payload` -/
def printPayload (payload : List UInt8) : List UInt8 :=
  ascii "Payload (" ++ decimal payload.length ++ ascii " bytes):\n  ASCII: " ++
    payload.map shownByte ++ ascii "\n  HEX:   " ++
    (payload.zipIdx.flatMap fun (b, i) =>
      hex2 b ++ ascii " " ++
        if (i + 1) % 16 = 0 ∧ i + 1 < payload.length then ascii "\n         " else []) ++
    ascii "\n"

/-- `%s` of a string in the capture buffer. -/
def printedString (buffer : Bytes) (offset : ℕ) : List UInt8 :=
  cstr (bytesAt buffer offset (bufferSize - offset))

/-- `type_str` -/
def typeStr (type : ℤ) : List UInt8 :=
  if type = 1 then utf8 "MSG_JOIN (Вход)"
  else if type = 2 then utf8 "MSG_CHAT (Текст)"
  else if type = 3 then utf8 "MSG_LEAVE (Выход)"
  else ascii "UNKNOWN"

/-- The four lines in front of every packet. -/
def logHeader (pkt : ParsedPacket) (elapsed : List UInt8) : List UInt8 :=
  utf8 "\n[Время с начала захвата: +" ++ elapsed ++ utf8 " сек]\n" ++
    ascii "  MAC:  " ++ formatMac pkt.srcMac ++ ascii " -> " ++ formatMac pkt.destMac ++
    ascii "\n" ++
    ascii "  IP:   " ++ inetNtoa pkt.srcIp ++ ascii " -> " ++ inetNtoa pkt.destIp ++ ascii "\n" ++
    utf8 "  UDP:  Порт " ++ decimal pkt.srcPort ++ utf8 " -> Порт " ++ decimal pkt.destPort ++
    ascii "\n"

/-- The lines about a chat packet; `chat` is the address the payload is cast at. -/
def logChat (buffer : Bytes) (chat : ℕ) : List UInt8 :=
  let type := toInt (leValue (bytesAt buffer chat 4))
  utf8 "  [Перехвачено событие чата (Задание 6)]\n" ++
    utf8 "    PID процесса: " ++ decimal (toInt (leValue (bytesAt buffer (chat + 4) 4))) ++
    ascii "\n" ++
    utf8 "    Никнейм:      " ++ printedString buffer (chat + 8) ++ ascii "\n" ++
    utf8 "    Тип события:  " ++ typeStr type ++ ascii "\n" ++
    if type = 2 then
      utf8 "    Сообщение:    \"" ++ printedString buffer (chat + 40) ++ ascii "\"\n"
    else []

/-- The line behind every packet. -/
def logFooter : List UInt8 :=
  ascii "--------------------------------------------------------\n"

/-- What `process_and_log_packet` writes to the log file. -/
def processAndLogPacket (buffer : Bytes) (pkt : ParsedPacket) (elapsed : List UInt8) (choice : ℤ) :
    List UInt8 :=
  logHeader pkt elapsed ++
    (match pkt.payload with
      | some payload =>
        if choice = 1 ∧ pkt.payloadLen = 552 then logChat buffer payload
        else if 0 < pkt.payloadLen then printPayload (bytesAt buffer payload pkt.payloadLen.toNat)
        else utf8 "  Payload: Пустой UDP-сегмент\n"
      -- `parse_udp_packet` sets the length to 0 with the pointer
      | none => utf8 "  Payload: Пустой UDP-сегмент\n") ++
    logFooter

/-! ## The loop of the sniffer -/

/-- `filter_chat_task6` -/
def filterChatTask6 (pkt : ParsedPacket) (chatPort : ℤ) : Bool :=
  pkt.srcPort == chatPort || pkt.destPort == chatPort

/-- `filter_dns` -/
def filterDns (pkt : ParsedPacket) : Bool := pkt.srcPort == 53 || pkt.destPort == 53

/-- One turn of `run_sniffer_loop`: the bytes one captured frame adds to the log. `recv` cuts the
frame to the buffer; `stale` and `pkt` are what the turn before left. -/
def logCapture (choice chatPort : ℤ) (stale : Bytes) (pkt : ParsedPacket) (elapsed : List UInt8)
    (frame : List UInt8) : List UInt8 :=
  let captured := frame.take bufferSize
  let buffer := received stale captured
  let (ok, pkt) := parsed buffer captured.length pkt
  if ok then
    let isMatch :=
      if choice = 1 then filterChatTask6 pkt chatPort
      else if choice = 2 then filterDns pkt
      else false
    if isMatch then processAndLogPacket buffer pkt elapsed choice else []
  else []

/-! ## A chat packet on the wire -/

section ChatPacket

open UdpChat (MsgType ChatPacket sizeofChatPacket sendPacket shownNickname shownText)

theorem fits_chatPacket (d : Datagram) (p : ChatPacket) :
    20 + d.options.length + 8 + p.bytes.length ≤ 65535 := by
  have hoptions := d.options_le
  rw [p.length_bytes, sizeofChatPacket]
  omega

/-- The datagram that carries a packet to the chat port; `d` has the fields the network stack
chooses. -/
def chatDatagram (d : Datagram) (port : UInt16) (p : ChatPacket) : Datagram :=
  { d with
    destPort := port
    payload := p.bytes
    fits := fits_chatPacket d p }

/-- The name of a type. -/
def typeName : MsgType → List UInt8
  | .join => utf8 "MSG_JOIN (Вход)"
  | .chat => utf8 "MSG_CHAT (Текст)"
  | .leave => utf8 "MSG_LEAVE (Выход)"

/-- The lines of the log about a packet of `send_packet`. -/
def chatLines (pid : Int32) (type : MsgType) (nickname : List UInt8)
    (text : Option (List UInt8)) : List UInt8 :=
  utf8 "  [Перехвачено событие чата (Задание 6)]\n" ++
    utf8 "    PID процесса: " ++ decimal pid.toInt ++ ascii "\n" ++
    utf8 "    Никнейм:      " ++ shownNickname nickname ++ ascii "\n" ++
    utf8 "    Тип события:  " ++ typeName type ++ ascii "\n" ++
    if type = .chat then utf8 "    Сообщение:    \"" ++ shownText text ++ ascii "\"\n" else []

theorem typeStr_code (type : MsgType) : typeStr type.code = typeName type := by
  cases type <;> rfl

theorem code_eq_chat {type : MsgType} : type.code = 2 ↔ type = .chat := by
  cases type <;> simp [MsgType.code]

/-- A string of an array that ends inside the array is printed whole. -/
theorem printedString_eq {buffer : Bytes} {offset n k : ℕ} {s : List UInt8} (h0 : 0 ∉ s)
    (hn : n ≤ bufferSize - offset)
    (h : bytesAt buffer offset n = s ++ 0 :: List.replicate k 0) :
    printedString buffer offset = s := by
  obtain ⟨r, hr⟩ := Nat.exists_eq_add_of_le hn
  rw [printedString, hr, bytesAt_add, h, List.append_assoc, List.cons_append]
  exact cstr_append_zero h0 _

/-- **The cast reads what the chat wrote.** -/
theorem logChat_sendPacket {buffer : Bytes} {chat : ℕ} {pid : Int32} {type : MsgType}
    {nickname : List UInt8} {text : Option (List UInt8)} (hroom : chat + 552 ≤ bufferSize)
    (h : bytesAt buffer chat sizeofChatPacket = (sendPacket pid type nickname text).bytes) :
    logChat buffer chat = chatLines pid type nickname text := by
  have hpid : toInt (leValue (bytesAt buffer (chat + 4) 4)) = pid.toInt := by
    rw [UdpChat.bytesAt_pid h]
    exact UdpChat.toInt_intBytes_pid pid
  have htype : toInt (leValue (bytesAt buffer chat 4)) = type.code := by
    rw [UdpChat.bytesAt_type h]
    exact UdpChat.toInt_intBytes_code type
  have hnickname : printedString buffer (chat + 8) = shownNickname nickname := by
    refine printedString_eq (UdpChat.zero_notMem_shownNickname nickname) ?_
      ((UdpChat.bytesAt_nickname h).trans (UdpChat.sendPacket_nickname ..))
    rw [UdpChat.maxNickLen]
    omega
  have htext : printedString buffer (chat + 40) = shownText text := by
    refine printedString_eq (UdpChat.zero_notMem_shownText text) ?_
      ((UdpChat.bytesAt_text h).trans (UdpChat.sendPacket_text ..))
    rw [UdpChat.maxTextLen]
    omega
  simp only [logChat, chatLines, hpid, htype, hnickname, htext, typeStr_code, code_eq_chat]

theorem length_linkHeader_le (srcMac destMac : Vector UInt8 6) (f : Framing) :
    (linkHeader srcMac destMac f).length ≤ 18 := by
  cases f <;> simp [Framing.typeField]

/-- A frame with a chat packet that is cut to the buffer loses padding only. -/
theorem take_chatFrame (srcMac destMac : Vector UInt8 6) (f : Framing) (d : Datagram)
    (port : UInt16) (p : ChatPacket) (padding : List UInt8) :
    ∃ padding', (frame srcMac destMac f (chatDatagram d port p) padding).take bufferSize =
      frame srcMac destMac f (chatDatagram d port p) padding' := by
  have hlink := length_linkHeader_le srcMac destMac f
  have hdatagram : (chatDatagram d port p).bytes.length ≤ 620 := by
    have hihl := (chatDatagram d port p).ihl_le
    have hpayload : (chatDatagram d port p).payload.length = 552 := p.length_bytes
    rw [Datagram.length_bytes, hpayload]
    omega
  refine ⟨padding.take (bufferSize - (linkHeader srcMac destMac f).length -
    (chatDatagram d port p).bytes.length), ?_⟩
  rw [frame, frame, List.take_append, List.take_append,
    List.take_of_length_le (show _ ≤ bufferSize by rw [bufferSize]; omega),
    List.take_of_length_le (show _ ≤ bufferSize - _ by rw [bufferSize]; omega)]

/-- **Captured chat packets match what was sent**: the log of a frame that carries a packet of
`send_packet` has exactly its process number, nickname, type and text. -/
theorem logCapture_chatFrame (srcMac destMac : Vector UInt8 6) (f : Framing) (d : Datagram)
    (port : UInt16) (padding : List UInt8) (stale : Bytes) (pkt : ParsedPacket)
    (elapsed : List UInt8) (pid : Int32) (type : MsgType) (nickname : List UInt8)
    (text : Option (List UInt8)) :
    let sent := chatDatagram d port (sendPacket pid type nickname text)
    logCapture 1 port.toNat stale pkt elapsed (frame srcMac destMac f sent padding) =
      logHeader (sent.storedIn (linkHeader srcMac destMac f).length
          { pkt with srcMac := srcMac.toList, destMac := destMac.toList }) elapsed ++
        chatLines pid type nickname text ++ logFooter := by
  intro sent
  obtain ⟨padding', hcut⟩ := take_chatFrame srcMac destMac f d port
    (sendPacket pid type nickname text) padding
  rw [show chatDatagram d port (sendPacket pid type nickname text) = sent from rfl] at hcut
  set link := linkHeader srcMac destMac f with hlink
  set pkt' := sent.storedIn link.length
    { pkt with srcMac := srcMac.toList, destMac := destMac.toList } with hpkt'
  have hparsed := parsed_eq_storedIn stale srcMac destMac f sent padding' pkt
  rw [← hlink, ← hpkt'] at hparsed
  have hbytes : sent.payload.length = 552 := (sendPacket pid type nickname text).length_bytes
  have hne : sent.payload ≠ [] := List.length_pos_iff.1 (by rw [hbytes]; decide)
  have hpayload : pkt'.payload = some (link.length + sent.ihl * 4 + 8) := by
    simp only [hpkt', Datagram.storedIn, if_neg hne]
  have hlen : pkt'.payloadLen = 552 := by
    rw [hpkt', Datagram.storedIn, hbytes]
    rfl
  have hfilter : filterChatTask6 pkt' port.toNat = true := by
    simp [filterChatTask6, hpkt', Datagram.storedIn, sent, chatDatagram]
  have hchat : logChat (received stale (link ++ (sent.bytes ++ padding')))
      (link.length + sent.ihl * 4 + 8) = chatLines pid type nickname text := by
    apply logChat_sendPacket
    · have hshort : link.length ≤ 18 := by
        rw [hlink]
        exact length_linkHeader_le srcMac destMac f
      have hihl := sent.ihl_le
      rw [bufferSize]
      omega
    · have h := bytesAt_payload stale link sent padding'
      rwa [hbytes] at h
  simp only [logCapture, hcut, hparsed, hfilter, if_true, processAndLogPacket, hpayload, hlen,
    and_self]
  rw [frame, ← hlink, hchat]

end ChatPacket

end EltexPractice.Sniffer
