import EltexPractice.Foundations.Schedule
import EltexPractice.Sniffer.Dispatch
import EltexPractice.Sniffer.PayloadReads

/-!
# A session of the sniffer

`main` of the sniffer from its arguments on: the socket, the promiscuous mode, the two questions,
`run_sniffer_loop` and the end. The one buffer and the one `ParsedPacket` of the loop keep what the
frames before have left in them.

SIGINT may come at any time: before `sigaction` it ends the process, inside `recv` it makes `recv`
fail, and between the test of `keep_running` and `recv` it is not seen before the next frame.

* `parsed_congr`, `processAndLogPacket_congr`: neither what is parsed nor what is logged depends on
  what the buffer and the packet held before, where the strings of a chat packet end in its payload.
* `capture_law`: the log of a whole session is that of its frames one by one, and every end but
  SIGINT before the handler restores the interface.
-/

namespace EltexPractice.Sniffer

open CString
open Checked (capture noPacket drop_bytesAt printedString_of_mem)

/-! ## What one frame gives -/

section Congr

variable {m m' : Bytes} {n off : ℕ} {pkt : ParsedPacket}

theorem linkOffset_congr (h : ∀ i < n, m i = m' i) : linkOffset m n = linkOffset m' n := by
  unfold linkOffset
  split
  · rfl
  · rename_i hn
    have htype : bytesAt m 12 2 = bytesAt m' 12 2 := bytesAt_congr fun i _ hi => h i (by omega)
    rw [htype, h 0 (by omega)]
    by_cases hroom : 18 ≤ n
    · have hinner : bytesAt m 16 2 = bytesAt m' 16 2 := bytesAt_congr fun i _ hi => h i (by omega)
      rw [hinner]
    · simp only [hroom, false_and, if_false]

theorem segment_congr (h : ∀ i < n, m i = m' i) : Segment m n off ↔ Segment m' n off := by
  refine and_congr_right fun hip => ?_
  rw [udpOffset, udpOffset, h (off + 9) (by omega), h off (by omega)]

/-- Everything that is stored comes from the bytes of the packet. -/
theorem report_congr (h : ∀ i < n, m i = m' i) (hn : off = 0 ∨ 14 ≤ n) (hs : Segment m n off)
    (pkt' : ParsedPacket) :
    report m n off (storeMacs m off pkt) = report m' n off (storeMacs m' off pkt') := by
  obtain ⟨hip, -, hudp⟩ := hs
  have hudpOffset : udpOffset m' off = udpOffset m off := by
    rw [udpOffset, udpOffset, h off (by omega)]
  have hfield : ∀ a k, a + k ≤ n → bytesAt m a k = bytesAt m' a k := fun a k ha =>
    bytesAt_congr fun i _ hi => h i (by omega)
  have hlength : udpLength m' off = udpLength m off := by
    rw [udpLength, udpLength, hudpOffset, hfield (udpOffset m off + 4) 2 (by omega)]
  rw [report, report, hudpOffset, hlength, hfield (off + 12) 4 (by omega),
    hfield (off + 16) 4 (by omega), hfield (udpOffset m off) 2 (by omega),
    hfield (udpOffset m off + 2) 2 (by omega)]
  by_cases hoff : off = 0
  · simp only [storeMacs, if_pos hoff]
  · have hroom := hn.resolve_left hoff
    simp only [storeMacs, if_neg hoff, hfield 6 6 (by omega), hfield 0 6 (by omega)]

/-- **What is parsed** comes from the bytes of the packet. -/
theorem parsed_congr (h : ∀ i < n, m i = m' i) (pkt pkt' : ParsedPacket) :
    (parsed m n pkt).1 = (parsed m' n pkt').1 ∧
      ((parsed m n pkt).1 = true → (parsed m n pkt).2 = (parsed m' n pkt').2) := by
  have hlink := linkOffset_congr h
  cases hoff : linkOffset m n with
  | none =>
    rw [parsed_eq_of_none hoff, parsed_eq_of_none (hlink ▸ hoff)]
    simp
  | some off =>
    have hn : 14 ≤ n := by
      by_contra hlt
      rw [linkOffset, if_pos (Nat.lt_of_not_le hlt)] at hoff
      cases hoff
    rw [parsed_eq hoff, parsed_eq (hlink ▸ hoff)]
    by_cases hs : Segment m n off
    · rw [if_pos hs, if_pos ((segment_congr h).1 hs)]
      exact ⟨rfl, fun _ => report_congr h (Or.inr hn) hs pkt'⟩
    · rw [if_neg hs, if_neg (mt (segment_congr h).2 hs)]
      simp

/-- The cast of a payload whose strings end in it. -/
theorem logChat_congr {offset : ℕ} (hroom : offset + 552 ≤ n) (hn : n ≤ bufferSize)
    (h : ∀ i < n, m i = m' i) (hnickname : 0 ∈ bytesAt m (offset + 8) 544)
    (htext : toInt (leValue (bytesAt m offset 4)) = 2 → 0 ∈ bytesAt m (offset + 40) 512) :
    logChat m offset = logChat m' offset := by
  have hfield : ∀ a k, a + k ≤ n → bytesAt m a k = bytesAt m' a k := fun a k ha =>
    bytesAt_congr fun i _ hi => h i (by omega)
  have hnickname' := hnickname
  rw [hfield (offset + 8) 544 (by omega)] at hnickname'
  simp only [logChat]
  rw [printedString_of_mem hnickname (by omega), printedString_of_mem hnickname' (by omega),
    hfield offset 4 (by omega), hfield (offset + 4) 4 (by omega),
    hfield (offset + 8) 544 (by omega)]
  by_cases htype : toInt (leValue (bytesAt m' offset 4)) = 2
  · have htext := htext (by rwa [hfield offset 4 (by omega)])
    have htext' := htext
    rw [hfield (offset + 40) 512 (by omega)] at htext'
    rw [if_pos htype, if_pos htype, printedString_of_mem htext (by omega),
      printedString_of_mem htext' (by omega), hfield (offset + 40) 512 (by omega)]
  · rw [if_neg htype, if_neg htype]

/-- The nickname, and the text of a message, end in a payload that is cast to a chat packet. -/
def ChatEnds (payload : List UInt8) : Prop :=
  0 ∈ payload.drop 8 ∧ (toInt (leValue (payload.take 4)) = 2 → 0 ∈ payload.drop 40)

theorem chatEnds_bytesAt {offset : ℕ} (h : ChatEnds (bytesAt m offset 552)) :
    0 ∈ bytesAt m (offset + 8) 544 ∧
      (toInt (leValue (bytesAt m offset 4)) = 2 → 0 ∈ bytesAt m (offset + 40) 512) := by
  have htype : (bytesAt m offset 552).take 4 = bytesAt m offset 4 :=
    (bytesAt_slice (rfl : bytesAt m offset 552 = _) (k := 0) (j := 4) (by decide)).symm
  rwa [ChatEnds, htype, drop_bytesAt (by decide), drop_bytesAt (by decide)] at h

/-- **What is logged** comes from the bytes of the packet. -/
theorem processAndLogPacket_congr (hn : n ≤ bufferSize) (h : ∀ i < n, m i = m' i)
    (hwithin : pkt.PayloadWithin n) (elapsed : List UInt8) {choice : ℤ}
    (hends : ∀ payload, pkt.payloadBytes m = some payload → choice = 1 → pkt.payloadLen = 552 →
      ChatEnds payload) :
    processAndLogPacket m pkt elapsed choice =
      processAndLogPacket m' pkt elapsed choice := by
  rw [processAndLogPacket, processAndLogPacket]
  rcases hwithin with ⟨hnone, -⟩ | ⟨offset, hsome, hpos, hle⟩
  · rw [hnone]
  · rw [hsome]
    simp only
    by_cases hcast : choice = 1 ∧ pkt.payloadLen = 552
    · have hroom : offset + 552 ≤ n := by omega
      have hbytes : pkt.payloadBytes m = some (bytesAt m offset 552) := by
        rw [ParsedPacket.payloadBytes, hsome, hcast.2]
        rfl
      obtain ⟨hnickname, htext⟩ := chatEnds_bytesAt (hends _ hbytes hcast.1 hcast.2)
      rw [if_pos hcast, if_pos hcast, logChat_congr hroom hn h hnickname htext]
    · have hfield : bytesAt m offset pkt.payloadLen.toNat =
          bytesAt m' offset pkt.payloadLen.toNat :=
        bytesAt_congr fun i _ hi => h i (by omega)
      rw [if_neg hcast, if_neg hcast, hfield]

end Congr

/-! ## The lines about one frame -/

/-- The filter that was chosen. -/
def isMatch (choice chatPort : ℤ) (pkt : ParsedPacket) : Bool :=
  if choice = 1 then filterChatTask6 pkt chatPort
  else if choice = 2 then filterDns pkt
  else false

/-- The line on the screen in front of a packet. -/
def matchLine (pkt : ParsedPacket) : List UInt8 :=
  ascii "[MATCH] UDP " ++ decimal pkt.srcPort ++ ascii " -> " ++ decimal pkt.destPort ++
    ascii ", payload = " ++ decimal pkt.payloadLen ++ ascii " bytes\n"

/-- What the body of the loop prints about a frame: the line on the screen only, and the lines on
the screen and in the log. -/
def frameLines (choice chatPort : ℤ) (stale : Bytes) (pkt : ParsedPacket)
    (x : List UInt8 × List UInt8) : List UInt8 × List UInt8 :=
  let buffer := capture stale x.1
  let (ok, pkt) := parsed buffer (x.1.take bufferSize).length pkt
  if ok && isMatch choice chatPort pkt then
    (matchLine pkt, processAndLogPacket buffer pkt x.2 choice)
  else ([], [])

theorem frameLines_eq {choice chatPort : ℤ} {stale : Bytes} {pkt : ParsedPacket}
    {x : List UInt8 × List UInt8} {r : Bool × ParsedPacket}
    (hr : parsed (capture stale x.1) (x.1.take bufferSize).length pkt = r) :
    frameLines choice chatPort stale pkt x =
      if r.1 && isMatch choice chatPort r.2 then
        (matchLine r.2, processAndLogPacket (capture stale x.1) r.2 x.2 choice)
      else ([], []) := by
  rw [← hr]
  rfl

/-- The second part is the log of one turn. -/
theorem frameLines_snd (choice chatPort : ℤ) (stale : Bytes) (pkt : ParsedPacket)
    (x : List UInt8 × List UInt8) :
    (frameLines choice chatPort stale pkt x).2 = logCapture choice chatPort stale pkt x.2 x.1 := by
  obtain ⟨r, hr⟩ : ∃ r, parsed (capture stale x.1) (x.1.take bufferSize).length pkt = r := ⟨_, rfl⟩
  have hlog : logCapture choice chatPort stale pkt x.2 x.1 =
      if r.1 then
        if isMatch choice chatPort r.2 then
          processAndLogPacket (capture stale x.1) r.2 x.2 choice
        else []
      else [] := by
    rw [← hr]
    rfl
  rw [frameLines_eq hr, hlog]
  cases r.1 with
  | true => cases isMatch choice chatPort r.2 <;> rfl
  | false => rfl

/-- The strings of the frame end in its payload, where it is cast to a chat packet. -/
def FrameEnds (choice chatPort : ℤ) (frame : List UInt8) : Prop :=
  ∀ pkt payload, parsed (capture (fun _ => 0) frame) (frame.take bufferSize).length noPacket =
      (true, pkt) → isMatch choice chatPort pkt →
    pkt.payloadBytes (capture (fun _ => 0) frame) = some payload → choice = 1 →
      pkt.payloadLen = 552 → ChatEnds payload

/-- The payload that is reported lies in the packet. -/
theorem payloadWithin_parsed {buffer : Bytes} {n : ℕ} {pkt₀ pkt : ParsedPacket}
    (h : parsed buffer n pkt₀ = (true, pkt)) : pkt.PayloadWithin n := by
  have hbounds : InBounds n ((parseUdpPacket n pkt₀).run ⟨buffer, []⟩).1
      ((parseUdpPacket n pkt₀).run ⟨buffer, []⟩).2 :=
    wp_parseUdpPacket_inBounds (s := ⟨buffer, []⟩) (by simp [Mem.Within]) pkt₀
  rw [parsed] at h
  rw [h] at hbounds
  exact hbounds.2 rfl

/-- The frame carries a packet of `send_packet` of the chat. -/
def CarriesChat (bytes : List UInt8) : Prop :=
  ∃ (srcMac destMac : Vector UInt8 6) (f : Framing) (d : Datagram) (port : UInt16) (pid : Int32)
    (type : UdpChat.MsgType) (nickname : List UInt8) (text : Option (List UInt8))
    (padding : List UInt8), bytes = frame srcMac destMac f
      (chatDatagram d port (UdpChat.sendPacket pid type nickname text)) padding

/-- The strings of a packet of the chat end in their fields. -/
theorem chatEnds_sendPacket (pid : Int32) (type : UdpChat.MsgType) (nickname : List UInt8)
    (text : Option (List UInt8)) : ChatEnds (UdpChat.sendPacket pid type nickname text).bytes := by
  obtain ⟨p, hp⟩ : ∃ p, UdpChat.sendPacket pid type nickname text = p := ⟨_, rfl⟩
  have hdrop : p.bytes.drop 8 = p.nickname ++ p.text := by
    rw [UdpChat.ChatPacket.bytes, ← List.append_assoc]
    exact List.drop_left' (by simp)
  have htext : 0 ∈ p.text := by
    rw [← hp, UdpChat.sendPacket_text]
    simp
  have hdrop' : p.bytes.drop 40 = p.text := by
    have h := congrArg (List.drop UdpChat.maxNickLen) hdrop
    rw [List.drop_drop, List.drop_left' p.nickname_length] at h
    exact h
  rw [hp, ChatEnds, hdrop, hdrop']
  exact ⟨List.mem_append_right _ htext, fun _ => htext⟩

theorem FrameEnds.of_chat {choice chatPort : ℤ} {bytes : List UInt8} (h : CarriesChat bytes) :
    FrameEnds choice chatPort bytes := by
  obtain ⟨srcMac, destMac, f, d, port, pid, type, nickname, text, padding, rfl⟩ := h
  obtain ⟨padding', hcut⟩ := take_chatFrame srcMac destMac f d port
    (UdpChat.sendPacket pid type nickname text) padding
  intro pkt payload hparsed hmatch hbytes hchoice hlen
  rw [capture, hcut, parsed_eq_storedIn] at hparsed
  obtain rfl := (Prod.mk.inj hparsed).2
  have hne : (chatDatagram d port (UdpChat.sendPacket pid type nickname text)).payload ≠ [] := by
    refine List.ne_nil_of_length_pos ?_
    change 0 < (UdpChat.sendPacket pid type nickname text).bytes.length
    rw [UdpChat.ChatPacket.length_bytes]
    exact Nat.succ_pos _
  rw [capture, hcut, ParsedPacket.payloadBytes, Datagram.storedIn, if_neg hne, Option.map_some,
    Int.toNat_natCast, frame, bytesAt_payload] at hbytes
  obtain rfl := Option.some.inj hbytes
  exact chatEnds_sendPacket pid type nickname text

/-- **The frames before leave nothing** in what is printed about a frame. -/
theorem frameLines_congr {choice chatPort : ℤ} {x : List UInt8 × List UInt8}
    (h : FrameEnds choice chatPort x.1) (stale : Bytes) (pkt : ParsedPacket) :
    frameLines choice chatPort stale pkt x =
      frameLines choice chatPort (fun _ => 0) noPacket x := by
  have hsame : ∀ i < (x.1.take bufferSize).length,
      capture (fun _ => 0) x.1 i = capture stale x.1 i := fun i hi => received_congr _ _ hi
  obtain ⟨r, hr⟩ : ∃ r, parsed (capture (fun _ => 0) x.1) (x.1.take bufferSize).length noPacket =
      r := ⟨_, rfl⟩
  obtain ⟨r', hr'⟩ : ∃ r', parsed (capture stale x.1) (x.1.take bufferSize).length pkt = r' :=
    ⟨_, rfl⟩
  obtain ⟨hfst, hsnd⟩ := parsed_congr hsame noPacket pkt
  rw [hr, hr'] at hfst hsnd
  rw [frameLines_eq hr, frameLines_eq hr', ← hfst]
  cases hok : r.1 with
  | false => rfl
  | true =>
    rw [← hsnd hok, Bool.true_and]
    cases hmatch : isMatch choice chatPort r.2 with
    | false => rw [if_neg (by simp), if_neg (by simp)]
    | true =>
      have hparsed : parsed (capture (fun _ => 0) x.1) (x.1.take bufferSize).length noPacket =
          (true, r.2) := hr.trans (Prod.ext hok rfl)
      have hlines := processAndLogPacket_congr (List.length_take_le _ _) hsame
        (payloadWithin_parsed hparsed) x.2 fun payload hbytes hchoice hlen =>
          h _ payload hparsed hmatch hbytes hchoice hlen
      rw [if_pos rfl, if_pos rfl, hlines]

/-- What a frame gives, whatever was captured before it. -/
def linesOf (choice chatPort : ℤ) (x : List UInt8 × List UInt8) : List UInt8 × List UInt8 :=
  frameLines choice chatPort (fun _ => 0) noPacket x

/-- What a session shows of the frames. -/
def shownOf (choice chatPort : ℤ) (captured : List (List UInt8 × List UInt8)) : List UInt8 :=
  captured.flatMap fun x => (linesOf choice chatPort x).1 ++ (linesOf choice chatPort x).2

/-- What a session logs of the frames. -/
def loggedOf (choice chatPort : ℤ) (captured : List (List UInt8 × List UInt8)) : List UInt8 :=
  captured.flatMap fun x => (linesOf choice chatPort x).2

/-! ## The process -/

/-- Where `main` is. -/
inductive Pc
  | start
  /-- Before `set_promisc_mode(sock, global_device, true)`. -/
  | promisc
  /-- Before `prompt_filter_choice`. -/
  | choice
  /-- Before the question for the port. -/
  | port
  | fopen
  | sigaction
  /-- Before the test of `keep_running`. -/
  | test
  /-- Behind the test, before `recv` or in it. -/
  | recv
  /-- Before `set_promisc_mode(sock, global_device, false)`. -/
  | restore (status : ℕ)
  | close (status : ℕ)
  | fclose
  | exited (status : ℕ)
  /-- Ended by SIGINT. -/
  | killed

structure Process where
  pc : Pc
  /-- What is typed and has not been read. -/
  stdin : List UInt8
  out : List UInt8
  socket : Bool
  /-- The interface is promiscuous for the socket. -/
  promisc : Bool
  handler : Bool
  keepRunning : Bool
  choice : ℤ
  chatPort : ℤ
  logOpen : Bool
  /-- `capture.log`, when it could be opened. -/
  log : Option (List UInt8)
  buffer : Bytes
  pkt : ParsedPacket
  /-- The screen when the loop began. -/
  opening : List UInt8
  /-- The frames of the loop, with the texts of the elapsed time. -/
  captured : List (List UInt8 × List UInt8)
  /-- The number of frames behind SIGINT. -/
  late : ℕ

namespace Process

def init (stdin : List UInt8) (buffer : Bytes) (pkt : ParsedPacket) : Process where
  pc := .start
  stdin
  out := []
  socket := false
  promisc := false
  handler := false
  keepRunning := true
  choice := 0
  chatPort := 0
  logOpen := false
  log := none
  buffer
  pkt
  opening := []
  captured := []
  late := 0

/-- `printf` -/
def print (s : Process) (text : List UInt8) : Process := { s with out := s.out ++ text }

/-- The loop is left. -/
def leave (s : Process) : Process :=
  { s.print (utf8 "\nЗавершение сессии... Отключение беспорядочного режима.\n") with
    pc := .restore 0 }

/-- The body of the loop behind `recv`. -/
def handle (s : Process) (frame elapsed : List UInt8) : Process :=
  let buffer := capture s.buffer frame
  let (ok, pkt) := parsed buffer (frame.take bufferSize).length s.pkt
  let s := { s with buffer, pkt, captured := s.captured ++ [(frame, elapsed)] }
  if ok && isMatch s.choice s.chatPort pkt then
    let lines := processAndLogPacket buffer pkt elapsed s.choice
    { s with
      out := s.out ++ (matchLine pkt ++ lines)
      log := s.log.map (· ++ lines) }
  else s

end Process

inductive Action
  /-- The next step of `main`, and whether its system calls succeed. -/
  | main (ok : Bool)
  | recv (frame elapsed : List UInt8)
  | recvFails
  /-- SIGINT, in `recv` or before it. -/
  | sigint (inCall : Bool)

/-- The frame that is taken, with the text of the elapsed time. -/
def Action.frame? : Action → Option (List UInt8 × List UInt8)
  | .recv frame elapsed => some (frame, elapsed)
  | _ => none

variable (argv1 : Option (List UInt8))

/-- The next step of `main`. -/
def Process.turn (s : Process) (ok : Bool) : Option Process :=
  match s.pc with
  | .start =>
    match argv1 with
    | none => some { s with pc := .exited 1 }
    | some device =>
      let s := s.print (utf8 "=== Инициализация RAW сокета на интерфейсе: " ++
        (cstr device).take 15 ++ ascii " ===\n")
      if ok then some { s with pc := .promisc, socket := true }
      else some { s with pc := .exited 1 }
  | .promisc =>
    if ok then
      some { s.print (utf8 "[+] Беспорядочный режим (Promiscuous mode) успешно включен.\n") with
        pc := .choice, promisc := true }
    else some { s with pc := .choice }
  | .choice =>
    let s := s.print (utf8 "\nВыберите фильтр сетевого трафика:\n" ++
      utf8 "1) Групповой чат (Задание 6, структура ChatPacket)\n" ++
      utf8 "2) DNS сообщения (UDP порт 53)\n" ++ utf8 "Ваш выбор: ")
    match scanInt s.stdin with
    | some (choice, stdin) =>
      if choice = 1 then some { s with pc := .port, choice, stdin }
      else if choice = 2 then some { s with pc := .fopen, choice, stdin }
      else some { s with pc := .restore 1, stdin }
    | none => some { s with pc := .restore 1 }
  | .port =>
    let s := s.print
      (utf8 "Введите UDP порт вашего чата (из аргументов запуска Задания 6): ")
    match scanInt s.stdin with
    | some (chatPort, stdin) =>
      if chatPort ≤ 0 ∨ chatPort > 65535 then some { s with pc := .restore 1, stdin }
      else some { s with pc := .fopen, chatPort, stdin }
    | none => some { s with pc := .restore 1 }
  | .fopen =>
    if ok then
      some { s.print (utf8 "[+] Лог сессии будет параллельно сохранен в файл: capture.log\n") with
        pc := .sigaction, log := some [], logOpen := true }
    else some { s with pc := .sigaction }
  | .sigaction =>
    let out := s.out ++ (utf8 "\nЗапуск захвата пакетов... Нажмите Ctrl+C для остановки.\n" ++
      ascii "========================================================\n")
    some { s with pc := .test, handler := true, out, opening := out }
  | .test => if s.keepRunning then some { s with pc := .recv } else some s.leave
  | .restore status =>
    -- the socket keeps the mode when it cannot be reset
    some { s with pc := .close status, promisc := s.promisc && !ok }
  | .close status =>
    some { s with
      pc := if status = 0 then .fclose else .exited status
      socket := false
      promisc := false }
  | .fclose =>
    let s := if s.logOpen then s.print (utf8 "[+] Файл capture.log успешно сохранен.\n") else s
    some { s.print (utf8 "Готово.\n") with pc := .exited 0, logOpen := false }
  | _ => none

/-- The process has ended. -/
def Pc.isOver : Pc → Bool
  | .exited _ => true
  | .killed => true
  | _ => false

def Process.step (s : Process) : Action → Option Process
  | .main ok => s.turn argv1 ok
  | .recv frame elapsed =>
    match s.pc with
    | .recv => some { s.handle frame elapsed with
        pc := .test
        late := if s.keepRunning then s.late else s.late + 1 }
    | _ => none
  | .recvFails =>
    match s.pc with
    | .recv => if s.keepRunning then some { s with pc := .test } else some s.leave
    | _ => none
  | .sigint inCall =>
    if s.pc.isOver then none
    else if s.handler then
      match s.pc, inCall with
      | .recv, true => some { s.leave with keepRunning := false }
      | _, _ => some { s with keepRunning := false }
    else some { s with pc := .killed, socket := false, promisc := false, logOpen := false }

/-! ## What one step can do -/

/-- `main` has not reached `sigaction`. -/
def Pc.isOpening : Pc → Bool
  | .start => true
  | .promisc => true
  | .choice => true
  | .port => true
  | .fopen => true
  | _ => false

/-- The socket is open. -/
def Pc.hasSocket : Pc → Bool
  | .start => false
  | .fclose => false
  | .exited _ => false
  | .killed => false
  | _ => true

/-- `main` is in the loop. -/
def Pc.inLoop : Pc → Bool
  | .test => true
  | .recv => true
  | _ => false

/-- The log can be open. -/
def Pc.mayLog : Pc → Bool
  | .sigaction => true
  | .test => true
  | .recv => true
  | .restore status => status = 0
  | .close status => status = 0
  | .fclose => true
  | _ => false

theorem Pc.mayLog_of_isOpening {pc : Pc} (h : pc.isOpening) : pc.mayLog = false := by
  cases pc <;> first | rfl | cases h

theorem Pc.of_inLoop {pc : Pc} (h : pc.inLoop) :
    ¬(pc.isOpening ∨ pc = .sigaction) ∧ pc.hasSocket = true ∧ pc.mayLog = true := by
  cases pc with
  | test => simp [isOpening, hasSocket, mayLog]
  | recv => simp [isOpening, hasSocket, mayLog]
  | _ => cases h

namespace Process

variable {argv1} {s t : Process}

/-- A step of `main` in front of the loop. -/
structure Opens (s t : Process) : Prop where
  inLoop : t.pc.inLoop = false
  handler : t.handler = s.handler
  keepRunning : t.keepRunning = s.keepRunning
  captured : t.captured = s.captured
  late : t.late = s.late
  resources : s.socket = s.pc.hasSocket → (s.promisc → s.socket) →
    t.socket = t.pc.hasSocket ∧ (t.promisc → t.socket)
  log : t.log = s.log ∨ t.log = some []
  logOpen : t.logOpen → s.logOpen ∨ t.pc = .sigaction

inductive Moves (s : Process) : Process → Prop
  | opens (t : Process) (hpc : s.pc.isOpening) (h : s.Opens t) : Moves s t
  | sigaction (text : List UInt8) (hpc : s.pc = .sigaction) :
      Moves s { s with
        pc := .test, handler := true, out := s.out ++ text, opening := s.out ++ text }
  | again (hpc : s.pc = .test) (hrunning : s.keepRunning) : Moves s { s with pc := .recv }
  | leave (hpc : s.pc.inLoop) (hstopped : s.keepRunning = false) : Moves s s.leave
  | fails (hpc : s.pc = .recv) (hrunning : s.keepRunning) : Moves s { s with pc := .test }
  | recv (frame elapsed : List UInt8) (hpc : s.pc = .recv) :
      Moves s { s.handle frame elapsed with
        pc := .test
        late := if s.keepRunning then s.late else s.late + 1 }
  | restore (status : ℕ) (ok : Bool) (hpc : s.pc = .restore status) :
      Moves s { s with pc := .close status, promisc := s.promisc && !ok }
  | close (status : ℕ) (hpc : s.pc = .close status) :
      Moves s { s with
        pc := if status = 0 then .fclose else .exited status
        socket := false
        promisc := false }
  | fclose (text : List UInt8) (hpc : s.pc = .fclose) :
      Moves s { s.print text with pc := .exited 0, logOpen := false }
  | sigint (hover : s.pc.isOver = false) (hhandler : s.handler) :
      Moves s { s with keepRunning := false }
  | interrupt (hpc : s.pc = .recv) (hhandler : s.handler) :
      Moves s { s.leave with keepRunning := false }
  | killed (hover : s.pc.isOver = false) (hhandler : s.handler = false) :
      Moves s { s with pc := .killed, socket := false, promisc := false, logOpen := false }

/-- A step that changes neither the socket nor the log. -/
theorem opens_of {pc : Pc} (stdin out : List UInt8) (choice chatPort : ℤ)
    (hpc : pc.inLoop = false) (hsocket : pc.hasSocket = s.pc.hasSocket) :
    s.Opens { s with pc, stdin, out, choice, chatPort } where
  inLoop := hpc
  handler := rfl
  keepRunning := rfl
  captured := rfl
  late := rfl
  resources h h' := ⟨h.trans hsocket.symm, h'⟩
  log := Or.inl rfl
  logOpen := Or.inl

theorem moves_of_turn {ok : Bool} (h : s.turn argv1 ok = some t) : s.Moves t := by
  unfold turn at h
  dsimp only at h
  split at h
  · rename_i hpc
    refine .opens t (by rw [hpc]; rfl) ?_
    split at h
    · obtain rfl := Option.some.inj h
      exact opens_of _ _ _ _ rfl (by rw [hpc]; rfl)
    · split at h
      · obtain rfl := Option.some.inj h
        exact ⟨rfl, rfl, rfl, rfl, rfl, fun _ _ => ⟨rfl, fun _ => rfl⟩, Or.inl rfl, Or.inl⟩
      · obtain rfl := Option.some.inj h
        exact opens_of _ _ _ _ rfl (by rw [hpc]; rfl)
  · rename_i hpc
    refine .opens t (by rw [hpc]; rfl) ?_
    split at h
    · obtain rfl := Option.some.inj h
      refine ⟨rfl, rfl, rfl, rfl, rfl, fun hsocket _ => ?_, Or.inl rfl, Or.inl⟩
      rw [hpc] at hsocket
      exact ⟨hsocket, fun _ => hsocket⟩
    · obtain rfl := Option.some.inj h
      exact opens_of _ _ _ _ rfl (by rw [hpc]; rfl)
  · rename_i hpc
    refine .opens t (by rw [hpc]; rfl) ?_
    split at h
    · split at h
      · obtain rfl := Option.some.inj h
        exact opens_of _ _ _ _ rfl (by rw [hpc]; rfl)
      · split at h
        · obtain rfl := Option.some.inj h
          exact opens_of _ _ _ _ rfl (by rw [hpc]; rfl)
        · obtain rfl := Option.some.inj h
          exact opens_of _ _ _ _ rfl (by rw [hpc]; rfl)
    · obtain rfl := Option.some.inj h
      exact opens_of _ _ _ _ rfl (by rw [hpc]; rfl)
  · rename_i hpc
    refine .opens t (by rw [hpc]; rfl) ?_
    split at h
    · split at h
      · obtain rfl := Option.some.inj h
        exact opens_of _ _ _ _ rfl (by rw [hpc]; rfl)
      · obtain rfl := Option.some.inj h
        exact opens_of _ _ _ _ rfl (by rw [hpc]; rfl)
    · obtain rfl := Option.some.inj h
      exact opens_of _ _ _ _ rfl (by rw [hpc]; rfl)
  · rename_i hpc
    refine .opens t (by rw [hpc]; rfl) ?_
    split at h
    · obtain rfl := Option.some.inj h
      refine ⟨rfl, rfl, rfl, rfl, rfl, fun hsocket hpromisc => ?_, Or.inr rfl, fun _ => Or.inr rfl⟩
      rw [hpc] at hsocket
      exact ⟨hsocket, hpromisc⟩
    · obtain rfl := Option.some.inj h
      exact opens_of _ _ _ _ rfl (by rw [hpc]; rfl)
  · rename_i hpc
    obtain rfl := Option.some.inj h
    exact .sigaction _ hpc
  · rename_i hpc
    split at h
    · rename_i hrunning
      obtain rfl := Option.some.inj h
      exact .again hpc hrunning
    · rename_i hstopped
      obtain rfl := Option.some.inj h
      exact .leave (by rw [hpc]; rfl) (Bool.not_eq_true _ ▸ hstopped)
  · rename_i status hpc
    obtain rfl := Option.some.inj h
    exact .restore status ok hpc
  · rename_i status hpc
    obtain rfl := Option.some.inj h
    exact .close status hpc
  · rename_i hpc
    obtain rfl := Option.some.inj h
    split
    · have hprint := Moves.fclose (utf8 "[+] Файл capture.log успешно сохранен.\n" ++
        utf8 "Готово.\n") hpc
      simpa [print] using hprint
    · exact .fclose _ hpc
  · cases h

theorem moves_of_step {a : Action} (h : s.step argv1 a = some t) : s.Moves t := by
  cases a with
  | main ok => exact moves_of_turn h
  | recv frame elapsed =>
    rw [step] at h
    split at h
    · rename_i hpc
      obtain rfl := Option.some.inj h
      exact .recv frame elapsed hpc
    · cases h
  | recvFails =>
    rw [step] at h
    split at h
    · rename_i hpc
      split at h
      · rename_i hrunning
        obtain rfl := Option.some.inj h
        exact .fails hpc hrunning
      · rename_i hstopped
        obtain rfl := Option.some.inj h
        exact .leave (by rw [hpc]; rfl) (Bool.not_eq_true _ ▸ hstopped)
    · cases h
  | sigint inCall =>
    unfold step at h
    dsimp only at h
    split at h
    · cases h
    · rename_i hover
      rw [Bool.not_eq_true] at hover
      split at h
      · rename_i hhandler
        split at h
        · rename_i hpc
          obtain rfl := Option.some.inj h
          exact .interrupt hpc hhandler
        · obtain rfl := Option.some.inj h
          exact .sigint hover hhandler
      · rename_i hhandler
        obtain rfl := Option.some.inj h
        exact .killed hover (Bool.not_eq_true _ ▸ hhandler)

theorem handle_eq (s : Process) (frame elapsed : List UInt8) :
    ∃ pkt mark lines,
      frameLines s.choice s.chatPort s.buffer s.pkt (frame, elapsed) = (mark, lines) ∧
        s.handle frame elapsed = { s with
          buffer := capture s.buffer frame
          pkt
          captured := s.captured ++ [(frame, elapsed)]
          out := s.out ++ (mark ++ lines)
          log := s.log.map (· ++ lines) } := by
  obtain ⟨r, hr⟩ : ∃ r, parsed (capture s.buffer frame) (frame.take bufferSize).length s.pkt = r :=
    ⟨_, rfl⟩
  have hhandle : s.handle frame elapsed =
      if r.1 && isMatch s.choice s.chatPort r.2 then
        { s with
          buffer := capture s.buffer frame
          pkt := r.2
          captured := s.captured ++ [(frame, elapsed)]
          out := s.out ++ (matchLine r.2 ++
            processAndLogPacket (capture s.buffer frame) r.2 elapsed s.choice)
          log := s.log.map
            (· ++ processAndLogPacket (capture s.buffer frame) r.2 elapsed s.choice) }
      else
        { s with
          buffer := capture s.buffer frame
          pkt := r.2
          captured := s.captured ++ [(frame, elapsed)] } := by
    rw [← hr]
    rfl
  have hlines : frameLines s.choice s.chatPort s.buffer s.pkt (frame, elapsed) = _ :=
    frameLines_eq (x := (frame, elapsed)) hr
  rw [hhandle, hlines]
  by_cases hmatch : (r.1 && isMatch s.choice s.chatPort r.2) = true
  · rw [if_pos hmatch, if_pos hmatch]
    exact ⟨_, _, _, rfl, rfl⟩
  · rw [if_neg hmatch, if_neg hmatch]
    refine ⟨r.2, [], [], rfl, ?_⟩
    cases s.log <;> simp

/-! ## The whole session -/

/-- The strings of every frame end in its payload; those of the chat do. -/
def Clean (s : Process) : Prop :=
  ∀ x ∈ s.captured, FrameEnds s.choice s.chatPort x.1 ∨ CarriesChat x.1

structure Inv (s : Process) : Prop where
  early : s.handler = false → s.captured = [] ∧ s.late = 0 ∧ s.keepRunning ∧
    (s.log = none ∨ s.log = some [])
  opening : s.pc.isOpening ∨ s.pc = .sigaction → s.handler = false
  inLoop : s.pc.inLoop → s.handler
  resources : s.socket = s.pc.hasSocket ∧ (s.promisc → s.socket)
  logOpen : s.logOpen → s.pc.mayLog
  log : s.Clean → ∀ text, s.log = some text →
    text = loggedOf s.choice s.chatPort s.captured
  screen : s.Clean → s.handler → ∃ closing,
    s.out = s.opening ++ shownOf s.choice s.chatPort s.captured ++ closing ∧
      (s.pc.inLoop → closing = [])
  running : s.keepRunning → s.late = 0
  recv : s.pc = .recv → s.late = 0
  late : s.late ≤ 1

namespace Inv

theorem init (stdin : List UInt8) (buffer : Bytes) (pkt : ParsedPacket) :
    (Process.init stdin buffer pkt).Inv where
  early _ := ⟨rfl, rfl, rfl, Or.inl rfl⟩
  opening _ := rfl
  inLoop h := by cases h
  resources := ⟨rfl, fun h => by cases h⟩
  logOpen h := by cases h
  log _ _ h := by cases h
  screen _ h := by cases h
  running _ := rfl
  recv h := by cases h
  late := Nat.zero_le 1

theorem opens (hs : s.Inv) (hpc : s.pc.isOpening) (h : s.Opens t) : t.Inv := by
  have hhandler := hs.opening (Or.inl hpc)
  obtain ⟨hcaptured, hlate, hrunning, hlog⟩ := hs.early hhandler
  have htHandler : t.handler = false := h.handler.trans hhandler
  have htLog : t.log = none ∨ t.log = some [] := by
    rcases h.log with hsame | hempty
    · rw [hsame]
      exact hlog
    · exact Or.inr hempty
  refine ⟨fun _ =>
      ⟨h.captured.trans hcaptured, h.late.trans hlate, h.keepRunning ▸ hrunning, htLog⟩,
    fun _ => htHandler, fun hin => ?_, h.resources hs.resources.1 hs.resources.2, fun hopen => ?_,
    fun _ text htext => ?_, fun _ hin => ?_, fun _ => h.late.trans hlate,
    fun _ => h.late.trans hlate, ?_⟩
  · rw [h.inLoop] at hin
    cases hin
  · rcases h.logOpen hopen with hold | hsigaction
    · have hmay := hs.logOpen hold
      rw [Pc.mayLog_of_isOpening hpc] at hmay
      cases hmay
    · rw [hsigaction]
      rfl
  · rw [h.captured, hcaptured]
    rcases htLog with hnone | hempty
    · rw [hnone] at htext
      cases htext
    · rw [hempty] at htext
      exact (Option.some.inj htext).symm
  · rw [htHandler] at hin
    cases hin
  · rw [h.late, hlate]
    exact Nat.zero_le 1

/-- The loop has been left, with more on the screen. -/
theorem leaves (hs : s.Inv) (text : List UInt8) {pc : Pc} (hpc : pc.inLoop = false)
    (hclean : s.Clean) (hhandler : s.handler) :
    ∃ closing, s.out ++ text =
      s.opening ++ shownOf s.choice s.chatPort s.captured ++ closing ∧
        (pc.inLoop → closing = []) := by
  obtain ⟨closing, hout, -⟩ := hs.screen hclean hhandler
  refine ⟨closing ++ text, by rw [hout]; simp, fun hin => ?_⟩
  rw [hpc] at hin
  cases hin

theorem left (hs : s.Inv) {pc : Pc} (hpc : pc.inLoop = false) (hclean : s.Clean)
    (hhandler : s.handler) :
    ∃ closing, s.out = s.opening ++ shownOf s.choice s.chatPort s.captured ++ closing ∧
      (pc.inLoop → closing = []) := by
  have h := hs.leaves [] hpc hclean hhandler
  rwa [List.append_nil] at h

/-- The process stays in the loop. -/
theorem stays (hs : s.Inv) (hpc : s.pc.inLoop) {pc : Pc} (hin : pc.inLoop)
    (hrecv : pc = .recv → s.late = 0) : Inv { s with pc } := by
  have hhandler := hs.inLoop hpc
  obtain ⟨hbefore, hhas, hmay⟩ := Pc.of_inLoop hin
  refine { hs with
    opening := fun h => absurd h hbefore
    inLoop := fun _ => hhandler
    resources := ⟨(hs.resources.1.trans (Pc.of_inLoop hpc).2.1).trans hhas.symm, hs.resources.2⟩
    logOpen := fun _ => hmay
    screen := fun hclean _ => ?_
    recv := hrecv }
  obtain ⟨closing, hout, hclosing⟩ := hs.screen hclean hhandler
  exact ⟨closing, hout, fun _ => hclosing hpc⟩

/-- The loop is left. -/
theorem leave (hs : s.Inv) (hpc : s.pc.inLoop) : s.leave.Inv := by
  have hhandler := hs.inLoop hpc
  have hsocket := hs.resources.1.trans (Pc.of_inLoop hpc).2.1
  exact { hs with
    opening := by simp [Process.leave, Pc.isOpening]
    inLoop := fun _ => hhandler
    resources := ⟨hsocket, hs.resources.2⟩
    logOpen := fun _ => rfl
    screen := fun hclean _ => hs.leaves _ rfl hclean hhandler
    recv := by simp [Process.leave] }

/-- A frame is handled. -/
theorem handle (hs : s.Inv) (hpc : s.pc = .recv) (frame elapsed : List UInt8) :
    Inv { s.handle frame elapsed with
      pc := .test
      late := if s.keepRunning then s.late else s.late + 1 } := by
  have hhandler := hs.inLoop (by rw [hpc]; rfl)
  obtain ⟨hsocket, hpromisc⟩ := hs.resources
  have hlate := hs.recv hpc
  rw [hpc] at hsocket
  obtain ⟨pkt, mark, lines, hlines, hhandle⟩ := handle_eq s frame elapsed
  rw [hhandle]
  -- the lines about this frame are those of a fresh process
  have hfresh : FrameEnds s.choice s.chatPort frame ∨ CarriesChat frame →
      linesOf s.choice s.chatPort (frame, elapsed) = (mark, lines) := fun h =>
    (frameLines_congr (x := (frame, elapsed)) (h.elim id .of_chat) s.buffer s.pkt).symm.trans hlines
  refine ⟨fun h => ?_, by simp [Pc.isOpening], fun _ => hhandler, ⟨hsocket, hpromisc⟩,
    fun _ => rfl, fun hclean text htext => ?_, fun hclean _ => ?_, fun hrunning => ?_,
    by simp, ?_⟩
  · rw [hhandler] at h
    cases h
  · obtain ⟨hold, hnew⟩ := List.forall_mem_append.1 hclean
    obtain ⟨text', htext', rfl⟩ := Option.map_eq_some_iff.1 htext
    rw [hs.log hold text' htext', loggedOf, loggedOf, List.flatMap_append, List.flatMap_singleton,
      hfresh (hnew (frame, elapsed) (List.mem_singleton.2 rfl))]
  · obtain ⟨hold, hnew⟩ := List.forall_mem_append.1 hclean
    obtain ⟨closing, hout, hclosing⟩ := hs.screen hold hhandler
    refine ⟨[], ?_, fun _ => rfl⟩
    rw [hout, hclosing (by rw [hpc]; rfl), shownOf, shownOf, List.flatMap_append,
      List.flatMap_singleton, hfresh (hnew (frame, elapsed) (List.mem_singleton.2 rfl)),
      List.append_nil, List.append_nil, List.append_assoc]
  · simp only [show s.keepRunning = true from hrunning, if_true]
    exact hlate
  · simp only [hlate]
    split <;> simp

theorem moves (hs : s.Inv) (h : s.Moves t) : t.Inv := by
  cases h with
  | opens t hpc h => exact hs.opens hpc h
  | sigaction text hpc =>
    obtain ⟨hcaptured, hlate, hrunning, hlog⟩ := hs.early (hs.opening (Or.inr hpc))
    obtain ⟨hsocket, hpromisc⟩ := hs.resources
    rw [hpc] at hsocket
    refine { hs with
      early := by simp
      opening := by simp [Pc.isOpening]
      inLoop := fun _ => rfl
      resources := ⟨hsocket, hpromisc⟩
      logOpen := fun _ => rfl
      screen := fun _ _ => ⟨[], ?_, fun _ => rfl⟩
      recv := by simp }
    rw [hcaptured]
    simp [shownOf]
  | again hpc hrunning =>
    exact hs.stays (by rw [hpc]; rfl) rfl fun _ => hs.running hrunning
  | leave hpc hstopped => exact hs.leave hpc
  | fails hpc hrunning => exact hs.stays (by rw [hpc]; rfl) rfl (by simp)
  | recv frame elapsed hpc => exact hs.handle hpc frame elapsed
  | restore status ok hpc =>
    obtain ⟨hsocket, hpromisc⟩ := hs.resources
    have hmay := hs.logOpen
    rw [hpc] at hsocket hmay
    exact { hs with
      opening := by simp [Pc.isOpening]
      inLoop := fun h => by cases h
      resources := ⟨hsocket, fun _ => hsocket⟩
      logOpen := hmay
      screen := fun hclean hhandler => hs.left rfl hclean hhandler
      recv := by simp }
  | close status hpc =>
    have hmay := hs.logOpen
    rw [hpc] at hmay
    by_cases hstatus : status = 0
    · rw [if_pos hstatus]
      exact { hs with
        opening := by simp [Pc.isOpening]
        inLoop := fun h => by cases h
        resources := ⟨rfl, fun h => by cases h⟩
        logOpen := fun _ => rfl
        screen := fun hclean hhandler => hs.left rfl hclean hhandler
        recv := by simp }
    · rw [if_neg hstatus]
      exact { hs with
        opening := by simp [Pc.isOpening]
        inLoop := fun h => by cases h
        resources := ⟨rfl, fun h => by cases h⟩
        logOpen := fun h => absurd (of_decide_eq_true (hmay h)) hstatus
        screen := fun hclean hhandler => hs.left rfl hclean hhandler
        recv := by simp }
  | fclose text hpc =>
    obtain ⟨hsocket, hpromisc⟩ := hs.resources
    rw [hpc] at hsocket
    exact { hs with
      opening := by simp [Pc.isOpening]
      inLoop := fun h => by cases h
      resources := ⟨hsocket, hpromisc⟩
      logOpen := fun h => by cases h
      screen := fun hclean hhandler => hs.leaves text rfl hclean hhandler
      recv := by simp }
  | sigint hover hhandler =>
    exact { hs with
      early := fun h => by rw [hhandler] at h; cases h
      running := fun h => by cases h }
  | interrupt hpc hhandler =>
    have hleft := hs.leave (by rw [hpc]; rfl)
    exact { hleft with
      early := fun h => Bool.noConfusion (hhandler.symm.trans h)
      running := fun h => by cases h }
  | killed hover hhandler =>
    exact { hs with
      opening := by simp [Pc.isOpening]
      inLoop := fun h => by cases h
      resources := ⟨rfl, fun h => by cases h⟩
      logOpen := fun h => by cases h
      screen := fun _ h => by rw [hhandler] at h; cases h
      recv := by simp }

end Inv

theorem captured_of_turn {ok : Bool} (h : s.turn argv1 ok = some t) : t.captured = s.captured := by
  unfold turn at h
  dsimp only at h
  repeat' split at h
  all_goals
    cases h
    try split
    all_goals rfl

theorem captured_of_step {a : Action} (h : s.step argv1 a = some t) :
    t.captured = s.captured ++ a.frame?.toList := by
  cases a with
  | main ok => simpa [Action.frame?] using captured_of_turn h
  | recv frame elapsed =>
    rw [step] at h
    split at h
    · obtain rfl := Option.some.inj h
      obtain ⟨pkt, mark, lines, -, hhandle⟩ := handle_eq s frame elapsed
      rw [hhandle]
      rfl
    · cases h
  | recvFails =>
    rw [step] at h
    split at h
    · split at h
      all_goals
        obtain rfl := Option.some.inj h
        simp [Action.frame?, leave, print]
    · cases h
  | sigint inCall =>
    unfold step at h
    dsimp only at h
    split at h
    · cases h
    · split at h
      · split at h
        all_goals
          obtain rfl := Option.some.inj h
          simp [Action.frame?, leave, print]
      · obtain rfl := Option.some.inj h
        simp [Action.frame?]

/-- What a session with these frames has done. -/
structure Law (frames : List (List UInt8 × List UInt8)) (s : Process) : Prop where
  /-- The log is that of the frames one by one. -/
  log : (∀ x ∈ frames, FrameEnds s.choice s.chatPort x.1 ∨ CarriesChat x.1) →
    ∀ text, s.log = some text → text = loggedOf s.choice s.chatPort frames
  /-- The screen shows the frames between what `main` prints before and behind the loop. -/
  screen : (∀ x ∈ frames, FrameEnds s.choice s.chatPort x.1 ∨ CarriesChat x.1) → s.handler →
    ∃ closing, s.out = s.opening ++ shownOf s.choice s.chatPort frames ++ closing ∧
      (s.pc.inLoop → closing = [])
  /-- No more than one frame is taken behind SIGINT. -/
  late : s.late ≤ 1
  /-- Nothing stays behind, whichever way the process ends. -/
  ended : s.pc.isOver → s.socket = false ∧ s.promisc = false ∧ s.logOpen = false

/-- **A session of the sniffer**, under any order of frames, errors and signals. -/
theorem capture_law {stdin : List UInt8} {buffer : Bytes} {pkt : ParsedPacket} {as : List Action}
    (h : runFrom (step argv1) (init stdin buffer pkt) as = some s) :
    Law (as.filterMap Action.frame?) s := by
  have hinv : s.Inv := runFrom_invariant (P := Inv) (fun s a t hs hstep =>
    hs.moves (moves_of_step hstep)) (Inv.init stdin buffer pkt) h
  have hcaptured : s.captured = as.filterMap Action.frame? :=
    runFrom_induction (P := fun as s => s.captured = as.filterMap Action.frame?) rfl
      (fun as s a t _ hs hstep => by
        rw [captured_of_step hstep, hs, List.filterMap_append]
        cases hframe : a.frame? <;> simp [hframe]) h
  rw [← hcaptured]
  refine ⟨hinv.log, hinv.screen, hinv.late, fun hover => ?_⟩
  obtain ⟨hsocket, hpromisc⟩ := hinv.resources
  have hclosed : s.socket = false := by
    rw [hsocket]
    cases hpc : s.pc <;> first | rfl | (rw [hpc] at hover; cases hover)
  have hmay : s.pc.mayLog = false := by
    cases hpc : s.pc <;> first | rfl | (rw [hpc] at hover; cases hover)
  refine ⟨hclosed, ?_, ?_⟩
  · by_contra hset
    have hopen := hpromisc (by simpa using hset)
    rw [hclosed] at hopen
    cases hopen
  · by_contra hset
    have hlog := hinv.logOpen (by simpa using hset)
    rw [hmay] at hlog
    cases hlog

/-- A frame with a short UDP payload, from port 12345. -/
def udpFrame (port : UInt8) (payload : List UInt8) : List UInt8 :=
  [2, 0, 0, 0, 0, 2, 2, 0, 0, 0, 0, 1, 8, 0] ++
    [69, 0, 0, UInt8.ofNat (28 + payload.length), 0, 0, 0, 0, 64, 17, 0, 0] ++
    [10, 0, 0, 1, 8, 8, 8, 8] ++
    [48, 57, 0, port, 0, UInt8.ofNat (8 + payload.length), 0, 0] ++ payload

/-- What the parser stores of it. -/
def udpPacket (port : UInt8) (payload : List UInt8) : ParsedPacket where
  srcMac := [2, 0, 0, 0, 0, 1]
  destMac := [2, 0, 0, 0, 0, 2]
  srcIp := leValue [10, 0, 0, 1]
  destIp := leValue [8, 8, 8, 8]
  srcPort := 12345
  destPort := port.toNat
  payload := some 42
  payloadLen := payload.length

/-- What is logged of it. -/
def udpLines (payload elapsed : List UInt8) : List UInt8 :=
  logHeader (udpPacket 53 payload) elapsed ++ printPayload payload ++ logFooter

/-- Two DNS frames, a longer one and a shorter one, with another frame between them. -/
def dnsFrames : List (List UInt8 × List UInt8) :=
  [(udpFrame 53 (ascii "a query"), ascii "0.1"), (udpFrame 80 (ascii "GET"), ascii "0.2"),
    (udpFrame 53 (ascii "?!"), ascii "0.3")]

/-- What is logged of a frame, if the parser stores what it should. -/
theorem linesOf_udpFrame (port : UInt8) {payload : List UInt8} (elapsed : List UInt8)
    (hne : payload ≠ [])
    (hparsed : parsed (capture (fun _ => 0) (udpFrame port payload))
      ((udpFrame port payload).take bufferSize).length noPacket = (true, udpPacket port payload))
    (hbytes : bytesAt (capture (fun _ => 0) (udpFrame port payload)) 42 payload.length = payload) :
    (linesOf 2 0 (udpFrame port payload, elapsed)).2 =
      if port = 53 then udpLines payload elapsed else [] := by
  have hpos := List.length_pos_of_ne_nil hne
  have hdns : port.toNat = 53 ↔ port = 53 := UInt8.toNat_inj (b := 53)
  have hmatch : (true && isMatch 2 0 (udpPacket port payload)) = decide (port = 53) := by
    rw [Bool.eq_iff_iff, decide_eq_true_iff, ← hdns]
    simp [isMatch, filterDns, udpPacket]
  have hlines : linesOf 2 0 (udpFrame port payload, elapsed) = _ := frameLines_eq hparsed
  rw [hlines]
  dsimp only
  rw [hmatch]
  by_cases hport : port = 53
  · subst hport
    rw [if_pos (decide_eq_true rfl), if_pos rfl, processAndLogPacket, udpLines]
    simp [udpPacket, hbytes, hpos]
  · rw [if_neg (by simpa using hport), if_neg hport]

set_option maxRecDepth 2000 in
theorem loggedOf_dnsFrames : loggedOf 2 0 dnsFrames =
    udpLines (ascii "a query") (ascii "0.1") ++ udpLines (ascii "?!") (ascii "0.3") := by
  have hlong : (linesOf 2 0 (udpFrame 53 (ascii "a query"), ascii "0.1")).2 = _ :=
    linesOf_udpFrame 53 _ (by decide) (by decide) (by decide)
  have hother : (linesOf 2 0 (udpFrame 80 (ascii "GET"), ascii "0.2")).2 = _ :=
    linesOf_udpFrame 80 _ (by decide) (by decide) (by decide)
  have hshort : (linesOf 2 0 (udpFrame 53 (ascii "?!"), ascii "0.3")).2 = _ :=
    linesOf_udpFrame 53 _ (by decide) (by decide) (by decide)
  rw [if_pos rfl] at hlong hshort
  rw [if_neg (by decide)] at hother
  simp only [loggedOf, dnsFrames, List.flatMap_cons, List.flatMap_nil, hlong, hother, hshort,
    List.nil_append, List.append_nil]

/-- A capture of DNS on `lo`, with SIGINT inside `recv`. -/
def dnsRun : List Action :=
  [.main true, .main true, .main true, .main true, .main true, .main true] ++
    (dnsFrames.flatMap fun x => [.recv x.1 x.2, .main true]) ++
    [.sigint true, .main true, .main true, .main true]

theorem capture_law_dns : ∃ s : Process,
    runFrom (step (some (ascii "lo"))) (init (ascii "2\n") (fun _ => 0) noPacket) dnsRun =
        some s ∧
      s.pc = .exited 0 ∧ s.log = some
        (udpLines (ascii "a query") (ascii "0.1") ++ udpLines (ascii "?!") (ascii "0.3")) ∧
      Law dnsFrames s := by
  obtain ⟨s, h, hpc, hchoice, hport, hlog⟩ : ∃ s : Process,
      runFrom (step (some (ascii "lo"))) (init (ascii "2\n") (fun _ => 0) noPacket) dnsRun =
          some s ∧
        s.pc = .exited 0 ∧ s.choice = 2 ∧ s.chatPort = 0 ∧ s.log.isSome :=
    ⟨_, rfl, rfl, rfl, rfl, rfl⟩
  have hlaw : Law dnsFrames s := capture_law h
  obtain ⟨text, htext⟩ := Option.isSome_iff_exists.1 hlog
  have hends : ∀ x ∈ dnsFrames, FrameEnds s.choice s.chatPort x.1 ∨ CarriesChat x.1 :=
    fun x _ => Or.inl fun pkt payload _ _ _ hchat =>
      absurd (hchoice.symm.trans hchat) (by decide)
  have hall := hlaw.log hends text htext
  rw [hchoice, hport, loggedOf_dnsFrames] at hall
  exact ⟨s, h, hpc, htext.trans (congrArg some hall), hlaw⟩

end Process

end EltexPractice.Sniffer
