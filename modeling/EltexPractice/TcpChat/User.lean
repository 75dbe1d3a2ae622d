import EltexPractice.Foundations.LineInput
import EltexPractice.TcpChat.ConcurrentUploads
import EltexPractice.TcpChat.Server

/-!
# A user of the TCP chat

The client of task 7: `main` with `run_client_loop`, `process_user_input`, `handle_server_message`
and `upload_file`. A user takes turns between its system calls: `poll` on the standard input and
the socket, one packet from the server, the read of a line through the stdio buffer. The packets
that it has to write are in `out`, one call of `write_all` each.

What a user does is recorded as its inputs, so `transcript` says what it has had to send so far.
Three accounts are kept in every step: of the packets (`Said`), of what is handled (`Heard`) and of
the lines (`Reads`).
-/

namespace EltexPractice.TcpChat

open CString LineInput

/-! ## What a user enters -/

/-- The commands `exit` and `quit`. -/
def IsExit (text : List UInt8) : Prop := text = ascii "exit" ∨ text = ascii "quit"

instance (text : List UInt8) : Decidable (IsExit text) := inferInstanceAs (Decidable (_ ∨ _))

/-- `"/file "` -/
def fileCommand : List UInt8 := ascii "/file "

/-- A line with what `upload_file` finds, if it is called: the content of the file when it can be
opened, and the bytes its array has before. -/
structure Input where
  line : List UInt8
  file : Option (List UInt8)
  buffer : List UInt8

/-- The buffer of `process_user_input` as a string. -/
def Input.text (i : Input) : List UInt8 := chomp i.line

/-- The line is a message. -/
def Input.message (i : Input) : Option (List UInt8) :=
  if i.text = [] ∨ IsExit i.text ∨ i.text.take 6 = fileCommand then none else some i.text

/-- The packets `process_user_input` sends. -/
def Input.packets (nickname : List UInt8) (i : Input) : List ChatPacket :=
  if i.text = [] ∨ IsExit i.text then []
  else if i.text.take 6 = fileCommand then
    match i.file with
    | none => []
    | some file => uploadFile nickname (i.text.drop 6) i.buffer file
  else [sendPacket .chat nickname (some i.text) none 0]

/-! ## What a user sees -/

/-- What `handle_server_message` prints for a packet. -/
inductive Shown
  | joined (nickname : List UInt8)
  | said (nickname text : List UInt8)
  | left (nickname : List UInt8)
  | receiving (filename nickname : List UInt8)
  | notCreated (path : List UInt8)
  | saved (filename : List UInt8)
  deriving DecidableEq

/-- The `printf` of `handle_server_message`. -/
def shown (creatable : List UInt8 → Bool) (st : Receiver) (packet : ChatPacket) : Option Shown :=
  let nickname := cstr (packet.nickname.set (maxNickLen - 1) 0)
  let filename := cstr (packet.filename.set (maxFilename - 1) 0)
  if packet.type = MsgType.join.code then some (.joined nickname)
  else if packet.type = MsgType.chat.code then
    some (.said nickname (cstr (packet.payload.set (maxChunkSize - 1) 0)))
  else if packet.type = MsgType.leave.code then some (.left nickname)
  else if packet.type = MsgType.fileStart.code then
    if creatable (outPath filename) then some (.receiving filename nickname)
    else some (.notCreated (outPath filename))
  else if packet.type = MsgType.fileEnd.code then st.rxFile.map fun _ => .saved filename
  else none

/-- What is printed for packets in order. -/
def shownAll (creatable : List UInt8 → Bool) : Receiver → List ChatPacket → List Shown
  | _, [] => []
  | st, packet :: packets =>
    (shown creatable st packet).toList ++
      shownAll creatable (handleServerMessage creatable st packet) packets

/-- A line on the screen. -/
inductive Piece
  /-- Its own message, behind `[Вы]:`. -/
  | own (text : List UInt8)
  /-- The file cannot be opened. -/
  | notOpened (filepath : List UInt8)
  | heard (shown : Shown)
  /-- The connection to the server is lost. -/
  | lost
  | goodbye

def Piece.ownText : Piece → Option (List UInt8)
  | .own text => some text
  | _ => none

def Piece.heardOf : Piece → Option Shown
  | .heard shown => some shown
  | _ => none

/-! ## One user -/

inductive User.Pc
  | start
  /-- In `send_packet`, before the loop or in `process_user_input`. -/
  | sending
  /-- `while (running)` -/
  | loop
  | poll
  /-- `handle_server_message`, and whether `poll` has found input too. -/
  | message (input : Bool)
  /-- In `fgets`. -/
  | fgets
  /-- In the last `send_packet`. -/
  | leaving
  | closed
  /-- Killed by SIGPIPE, and whether it was leaving. -/
  | killed (leaving : Bool)
  deriving DecidableEq

structure User where
  pc : User.Pc
  running : Bool
  console : Console
  /-- The packets that are to be written before the user does anything else. -/
  out : List ChatPacket
  /-- The number of packets handled. -/
  handled : ℕ
  receiver : Receiver
  screen : List Piece
  /-- Ghost: what the user has entered. -/
  inputs : List Input

namespace User

def init (files : List UInt8 → Option (List UInt8)) : User where
  pc := .start
  running := true
  console := .init
  out := []
  handled := 0
  receiver := ⟨files, none⟩
  screen := []
  inputs := []

/-- `process_user_input` behind `fgets`. -/
def processUserInput (nickname : List UInt8) (i : Input) (u : User) : User :=
  let text := i.text
  if text = [] then u
  else if IsExit text then { u with running := false }
  else if text.take 6 = fileCommand then
    match i.file with
    | none => { u with screen := u.screen ++ [.notOpened (text.drop 6)] }
    | some file =>
      { u with pc := .sending, out := uploadFile nickname (text.drop 6) i.buffer file }
  else { u with
    pc := .sending
    screen := u.screen ++ [.own text]
    out := [sendPacket .chat nickname (some text) none 0] }

/-- The end of `run_client_loop`, and the last `send_packet` of `main`. -/
def leave (nickname : List UInt8) (u : User) : User :=
  { u with
    pc := .leaving
    screen := u.screen ++ [.goodbye]
    out := [sendPacket .leave nickname none none 0] }

/-- `process_user_input` when `poll` has found input, and the loop else. -/
def afterMessage (input : Bool) (u : User) : User :=
  if input then { u with pc := .fgets, console := u.console.enter maxChunkSize }
  else { u with pc := .loop }

/-- A turn of a user but for the writes. -/
inductive Turn
  | start
  /-- The packets are written. -/
  | written
  | loop
  /-- `poll` returns: it fails, or the connection has ended, or there is input. -/
  | poll (fails hup input : Bool)
  /-- `handle_server_message`, with the next packet or when the connection has ended. -/
  | message (lost : Bool)
  /-- `fgets` reads the next `n` bytes. -/
  | refill (n : ℕ)
  /-- `fgets` returns. -/
  | line (file : Option (List UInt8)) (buffer : List UInt8)

/-- A turn of the user; `outbox` is what the server has written. -/
def turn (nickname : List UInt8) (creatable : List UInt8 → Bool) (outbox : List ChatPacket)
    (u : User) : Turn → Option User
  | .start =>
    match u.pc with
    | .start => some { u with pc := .sending, out := [sendPacket .join nickname none none 0] }
    | _ => none
  | .written =>
    match u.pc with
    | .sending => if u.out = [] then some { u with pc := .loop } else none
    | _ => none
  | .loop =>
    match u.pc with
    | .loop => some (if u.running then { u with pc := .poll } else u.leave nickname)
    | _ => none
  | .poll fails hup input =>
    match u.pc with
    | .poll =>
      if fails then some (u.leave nickname)
      -- at the end of the input `poll` may report the end alone
      else if input = true ∧ u.console.stdin.ready = false ∨
          input = false ∧ u.console.stdin.pending ≠ [] then none
      else if hup = true ∨ u.handled < outbox.length then some { u with pc := .message input }
      else if input = true ∨ u.console.stdin.ended = true then some (u.afterMessage input)
      else none
    | _ => none
  | .message lost =>
    match u.pc with
    | .message input =>
      if lost then
        some { u.afterMessage input with running := false, screen := u.screen ++ [.lost] }
      else match outbox[u.handled]? with
        | none => none
        | some packet => some { u.afterMessage input with
            handled := u.handled + 1
            receiver := handleServerMessage creatable u.receiver packet
            screen := u.screen ++ ((shown creatable u.receiver packet).map .heard).toList }
    | _ => none
  | .refill n =>
    match u.pc with
    | .fgets => (u.console.refill maxChunkSize n).map fun console => { u with console }
    | _ => none
  | .line file buffer =>
    match u.pc with
    | .fgets => (u.console.finish maxChunkSize).map fun out =>
        match out.1 with
        | none => { u with pc := .loop, console := out.2 }
        | some line => processUserInput nickname ⟨line, file, buffer⟩
            { u with pc := .loop, console := out.2, inputs := u.inputs ++ [⟨line, file, buffer⟩] }
    | _ => none

/-- SIGINT; it interrupts a call that waits, or comes outside of one. -/
def sigint (nickname : List UInt8) (interrupts : Bool) (u : User) : Option User :=
  if interrupts then
    match u.pc with
    | .poll => some { u.leave nickname with running := false }
    | .fgets => (u.console.interrupt maxChunkSize).map fun console =>
        { u with running := false, pc := .loop, console }
    | _ => none
  else some { u with running := false }

end User

/-! ## The transcript of a user -/

/-- The join has been handed to `send_packet`. -/
def User.Pc.opening (nickname : List UInt8) : User.Pc → List ChatPacket
  | .start => []
  | _ => [sendPacket .join nickname none none 0]

def User.Pc.closing (nickname : List UInt8) : User.Pc → List ChatPacket
  | .leaving => [sendPacket .leave nickname none none 0]
  | .closed => [sendPacket .leave nickname none none 0]
  | .killed true => [sendPacket .leave nickname none none 0]
  | _ => []

/-- `fgets` may be called before the next look at `running`. -/
def User.Pc.Reads : User.Pc → Prop
  | .poll => True
  | .message _ => True
  | .fgets => True
  | _ => False

/-- What a user has had to send so far. -/
def User.transcript (nickname : List UInt8) (u : User) : List ChatPacket :=
  u.pc.opening nickname ++ (u.inputs.flatMap (·.packets nickname) ++ u.pc.closing nickname)

/-! ## What a user does -/

namespace User

variable {nickname : List UInt8} {creatable : List UInt8 → Bool} {outbox : List ChatPacket}
  {u u' : User}

/-- A step of a user by itself: a turn, a signal, or what happens to its standard input. -/
inductive Moves (nickname : List UInt8) (creatable : List UInt8 → Bool)
    (outbox : List ChatPacket) (u : User) : User → Prop
  | start (hpc : u.pc = .start) : Moves nickname creatable outbox u
      { u with pc := .sending, out := [sendPacket .join nickname none none 0] }
  | written (hpc : u.pc = .sending) (hout : u.out = []) : Moves nickname creatable outbox u
      { u with pc := .loop }
  | poll (hpc : u.pc = .loop) (hrunning : u.running = true) : Moves nickname creatable outbox u
      { u with pc := .poll }
  | leave (hpc : u.pc = .loop ∨ u.pc = .poll) (running : Bool) (hrunning : running = u.running ∨
      running = false) : Moves nickname creatable outbox u { u.leave nickname with running }
  | found (hpc : u.pc = .poll) (input : Bool) : Moves nickname creatable outbox u
      { u with pc := .message input }
  | input (hpc : u.pc = .poll) (input : Bool) : Moves nickname creatable outbox u
      (u.afterMessage input)
  | lost (input : Bool) (hpc : u.pc = .message input) : Moves nickname creatable outbox u
      { u.afterMessage input with running := false, screen := u.screen ++ [.lost] }
  | message (input : Bool) (packet : ChatPacket) (hpc : u.pc = .message input)
      (hpacket : outbox[u.handled]? = some packet) : Moves nickname creatable outbox u
      { u.afterMessage input with
        handled := u.handled + 1
        receiver := handleServerMessage creatable u.receiver packet
        screen := u.screen ++ ((shown creatable u.receiver packet).map .heard).toList }
  | refill (n : ℕ) (console : Console) (hpc : u.pc = .fgets)
      (hs : u.console.refill maxChunkSize n = some console) : Moves nickname creatable outbox u
      { u with console }
  | ended (console : Console) (hpc : u.pc = .fgets)
      (hs : u.console.finish maxChunkSize = some (none, console)) :
      Moves nickname creatable outbox u { u with pc := .loop, console }
  | line (i : Input) (console : Console) (hpc : u.pc = .fgets)
      (hs : u.console.finish maxChunkSize = some (some i.line, console)) :
      Moves nickname creatable outbox u
        (processUserInput nickname i { u with pc := .loop, console, inputs := u.inputs ++ [i] })
  | interrupt (console : Console) (hpc : u.pc = .fgets)
      (hs : u.console.interrupt maxChunkSize = some console) : Moves nickname creatable outbox u
      { u with running := false, pc := .loop, console }
  | flag : Moves nickname creatable outbox u { u with running := false }
  | type (bytes : List UInt8) (console : Console) (hs : u.console.type bytes = some console) :
      Moves nickname creatable outbox u { u with console }
  | hangup : Moves nickname creatable outbox u { u with console := u.console.hangup }

theorem moves_of_turn {t : Turn} (hs : u.turn nickname creatable outbox t = some u') :
    Moves nickname creatable outbox u u' := by
  cases t with
  | start =>
    rw [turn] at hs
    split at hs
    · rename_i hpc
      obtain rfl := Option.some.inj hs
      exact .start hpc
    · cases hs
  | written =>
    rw [turn] at hs
    split at hs
    · rename_i hpc
      split at hs
      · rename_i hout
        obtain rfl := Option.some.inj hs
        exact .written hpc hout
      · cases hs
    · cases hs
  | loop =>
    rw [turn] at hs
    split at hs
    · rename_i hpc
      obtain rfl := Option.some.inj hs
      by_cases hrunning : u.running = true
      · rw [if_pos hrunning]
        exact .poll hpc hrunning
      · rw [if_neg hrunning]
        exact .leave (Or.inl hpc) u.running (Or.inl rfl)
    · cases hs
  | poll fails hup input =>
    rw [turn] at hs
    split at hs
    · rename_i hpc
      split at hs
      · obtain rfl := Option.some.inj hs
        exact .leave (Or.inr hpc) u.running (Or.inl rfl)
      · split at hs
        · cases hs
        · split at hs
          · obtain rfl := Option.some.inj hs
            exact .found hpc input
          · split at hs
            · obtain rfl := Option.some.inj hs
              exact .input hpc input
            · cases hs
    · cases hs
  | message lost =>
    rw [turn] at hs
    split at hs
    · rename_i input hpc
      split at hs
      · obtain rfl := Option.some.inj hs
        exact .lost input hpc
      · split at hs
        · cases hs
        · rename_i packet hpacket
          obtain rfl := Option.some.inj hs
          exact .message input packet hpc hpacket
    · cases hs
  | refill n =>
    rw [turn] at hs
    split at hs
    · rename_i hpc
      obtain ⟨console, hrefill, rfl⟩ := Option.map_eq_some_iff.1 hs
      exact .refill n console hpc hrefill
    · cases hs
  | line file buffer =>
    rw [turn] at hs
    split at hs
    · rename_i hpc
      obtain ⟨⟨out, console⟩, hfinish, rfl⟩ := Option.map_eq_some_iff.1 hs
      cases out with
      | none => exact .ended console hpc hfinish
      | some line => exact .line ⟨line, file, buffer⟩ console hpc hfinish
    · cases hs

theorem moves_of_sigint {interrupts : Bool} (hs : u.sigint nickname interrupts = some u') :
    Moves nickname creatable outbox u u' := by
  rw [sigint] at hs
  split at hs
  · split at hs
    · rename_i hpc
      obtain rfl := Option.some.inj hs
      exact .leave (Or.inr hpc) false (Or.inr rfl)
    · rename_i hpc
      obtain ⟨console, hinterrupt, rfl⟩ := Option.map_eq_some_iff.1 hs
      exact .interrupt console hpc hinterrupt
    · cases hs
  · obtain rfl := Option.some.inj hs
    exact .flag

/-! ### The packets -/

/-- The places where something may be left to write. -/
def Writes (pc : Pc) : Prop := pc = .sending ∨ pc = .leaving ∨ ∃ leaving, pc = .killed leaving

/-- What was sent and what is left to send is the transcript; only a connection that has broken
loses packets. -/
structure Said (nickname : List UInt8) (client : Client) (u : User) : Prop where
  packets : ∃ dropped, u.transcript nickname = client.sent ++ (dropped ++ u.out) ∧
    (client.closed = false → dropped = [])
  idle : ¬ Writes u.pc → u.out = []
  own : u.screen.filterMap Piece.ownText = u.inputs.filterMap Input.message
  started : u.pc = .start → u.inputs = []

variable {client : Client}

theorem said_init (nickname : List UInt8) (files : List UInt8 → Option (List UInt8)) :
    (init files).Said nickname ⟨[], [], [], false⟩ where
  packets := ⟨[], rfl, fun _ => rfl⟩
  idle _ := rfl
  own := rfl
  started _ := rfl

/-- More packets are to be sent, when those before have been written. -/
theorem Said.extend (h : u.Said nickname client) (hout : u.out = [])
    (htranscript : u'.transcript nickname = u.transcript nickname ++ u'.out) :
    ∃ dropped, u'.transcript nickname = client.sent ++ (dropped ++ u'.out) ∧
      (client.closed = false → dropped = []) := by
  obtain ⟨dropped, hpackets, hdropped⟩ := h.packets
  refine ⟨dropped, ?_, hdropped⟩
  rw [htranscript, hpackets, hout, List.append_nil, List.append_assoc]

theorem Said.leave (h : u.Said nickname client) (hpc : u.pc = .loop ∨ u.pc = .poll)
    (running : Bool) : Said nickname client { u.leave nickname with running } where
  packets := by
    refine h.extend (h.idle ?_) ?_
    · rcases hpc with hpc | hpc <;> simp [hpc, Writes]
    · rcases hpc with hpc | hpc <;>
        simp [hpc, transcript, User.leave, Pc.opening, Pc.closing]
  idle hwrites := absurd (Or.inr (Or.inl rfl)) hwrites
  own := by simp [User.leave, h.own, Piece.ownText]
  started heq := by cases heq

/-- The user gets to a place of the same phase. -/
theorem Said.goto {pc : Pc} (h : u.Said nickname client)
    (hopening : pc.opening nickname = u.pc.opening nickname)
    (hclosing : pc.closing nickname = u.pc.closing nickname) (hout : u.out = [])
    (hstart : pc ≠ .start) (console : Console) :
    Said nickname client { u with pc, console } where
  packets := by
    rw [transcript, hopening, hclosing]
    exact h.packets
  idle _ := hout
  own := h.own
  started heq := absurd heq hstart

theorem Said.screen {screen : List Piece} (h : u.Said nickname client)
    (hscreen : screen.filterMap Piece.ownText = u.screen.filterMap Piece.ownText) (running : Bool)
    (handled : ℕ) (receiver : Receiver) :
    Said nickname client { u with running, handled, receiver, screen } :=
  { h with own := hscreen.trans h.own }

theorem Said.afterMessage (h : u.Said nickname client) (input : Bool)
    (hpc : u.pc = .poll ∨ ∃ input, u.pc = .message input) :
    (u.afterMessage input).Said nickname client := by
  have hout : u.out = [] := by
    refine h.idle ?_
    rcases hpc with hpc | ⟨input, hpc⟩ <;> simp [hpc, Writes]
  cases input with
  | true =>
    refine h.goto ?_ ?_ hout Pc.noConfusion _
    · rcases hpc with hpc | ⟨input, hpc⟩ <;> simp [hpc, Pc.opening]
    · rcases hpc with hpc | ⟨input, hpc⟩ <;> simp [hpc, Pc.closing]
  | false =>
    refine h.goto ?_ ?_ hout Pc.noConfusion u.console
    · rcases hpc with hpc | ⟨input, hpc⟩ <;> simp [hpc, Pc.opening]
    · rcases hpc with hpc | ⟨input, hpc⟩ <;> simp [hpc, Pc.closing]

/-- A line is handled. -/
theorem Said.line (h : u.Said nickname client) (i : Input) (console : Console)
    (hpc : u.pc = .fgets) :
    (processUserInput nickname i
      { u with pc := .loop, console, inputs := u.inputs ++ [i] }).Said nickname client := by
  have hout : u.out = [] := h.idle (by simp [hpc, Writes])
  have htranscript : ∀ u' : User, u'.inputs = u.inputs ++ [i] → u'.out = i.packets nickname →
      (u'.pc = .loop ∨ u'.pc = .sending) →
        u'.transcript nickname = u.transcript nickname ++ u'.out := by
    intro u' hinputs hout' hpc'
    rw [transcript, transcript, hinputs, hout', hpc]
    rcases hpc' with hpc' | hpc' <;> simp [hpc', Pc.opening, Pc.closing]
  rw [processUserInput]
  split
  · rename_i hnil
    have hmessage : i.message = none := if_pos (Or.inl hnil)
    have hpackets : i.packets nickname = [] := if_pos (Or.inl hnil)
    exact {
      packets := h.extend hout (htranscript _ rfl (by rw [hpackets]; exact hout) (Or.inl rfl))
      idle := fun _ => hout
      own := by simp [h.own, hmessage]
      started := fun heq => by cases heq }
  · rename_i hnil
    split
    · rename_i hexit
      have hmessage : i.message = none := if_pos (Or.inr (Or.inl hexit))
      have hpackets : i.packets nickname = [] := if_pos (Or.inr hexit)
      exact {
        packets := h.extend hout (htranscript _ rfl (by rw [hpackets]; exact hout) (Or.inl rfl))
        idle := fun _ => hout
        own := by simp [h.own, hmessage]
        started := fun heq => by cases heq }
    · rename_i hexit
      have hnot : ¬ (i.text = [] ∨ IsExit i.text) := not_or.2 ⟨hnil, hexit⟩
      split
      · rename_i hfile
        have hmessage : i.message = none := if_pos (Or.inr (Or.inr hfile))
        split
        · rename_i hnone
          have hpackets : i.packets nickname = [] := by
            rw [Input.packets, if_neg hnot, if_pos hfile, hnone]
          exact {
            packets := h.extend hout
              (htranscript _ rfl (by rw [hpackets]; exact hout) (Or.inl rfl))
            idle := fun _ => hout
            own := by simp [h.own, hmessage, Piece.ownText]
            started := fun heq => by cases heq }
        · rename_i file hsome
          have hpackets : i.packets nickname =
              uploadFile nickname (i.text.drop 6) i.buffer file := by
            rw [Input.packets, if_neg hnot, if_pos hfile, hsome]
          exact {
            packets := h.extend hout (htranscript _ rfl hpackets.symm (Or.inr rfl))
            idle := fun hwrites => absurd (Or.inl rfl) hwrites
            own := by simp [h.own, hmessage]
            started := fun heq => by cases heq }
      · rename_i hfile
        have hmessage : i.message = some i.text :=
          if_neg (not_or.2 ⟨hnil, not_or.2 ⟨hexit, hfile⟩⟩)
        have hpackets : i.packets nickname = [sendPacket .chat nickname (some i.text) none 0] := by
          rw [Input.packets, if_neg hnot, if_neg hfile]
        exact {
          packets := h.extend hout (htranscript _ rfl hpackets.symm (Or.inr rfl))
          idle := fun hwrites => absurd (Or.inl rfl) hwrites
          own := by simp [h.own, hmessage, Piece.ownText]
          started := fun heq => by cases heq }

/-- **A step of the user keeps its account of the packets.** -/
theorem Said.moves (h : u.Said nickname client) (hm : Moves nickname creatable outbox u u') :
    u'.Said nickname client := by
  have hidle : ∀ pc, u.pc = pc → ¬ Writes pc → u.out = [] := fun pc hpc hwrites =>
    h.idle (by rwa [hpc])
  cases hm with
  | start hpc =>
    have hout := hidle _ hpc (by simp [Writes])
    refine ⟨h.extend hout ?_, fun hwrites => absurd (Or.inl rfl) hwrites, h.own,
      fun heq => by cases heq⟩
    simp [transcript, hpc, h.started hpc, Pc.opening, Pc.closing]
  | written hpc hout =>
    exact h.goto (by rw [hpc]; rfl) (by rw [hpc]; rfl) hout Pc.noConfusion u.console
  | poll hpc =>
    have hout := hidle _ hpc (by simp [Writes])
    exact h.goto (by rw [hpc]; rfl) (by rw [hpc]; rfl) hout Pc.noConfusion u.console
  | leave hpc running => exact h.leave hpc running
  | found hpc input =>
    have hout := hidle _ hpc (by simp [Writes])
    exact h.goto (by rw [hpc]; rfl) (by rw [hpc]; rfl) hout Pc.noConfusion u.console
  | input hpc input => exact h.afterMessage input (Or.inl hpc)
  | lost input hpc =>
    refine (h.afterMessage input (Or.inr ⟨input, hpc⟩)).screen ?_ _ _ _
    cases input <;> simp [User.afterMessage, Piece.ownText]
  | message input packet hpc hpacket =>
    refine (h.afterMessage input (Or.inr ⟨input, hpc⟩)).screen ?_ _ _ _
    cases input <;> cases shown creatable u.receiver packet <;>
      simp [User.afterMessage, Piece.ownText]
  | refill n console hpc => exact { h with }
  | ended console hpc =>
    have hout := hidle _ hpc (by simp [Writes])
    exact h.goto (by rw [hpc]; rfl) (by rw [hpc]; rfl) hout Pc.noConfusion console
  | line i console hpc => exact h.line i console hpc
  | interrupt console hpc =>
    have hout := hidle _ hpc (by simp [Writes])
    have hgoto : Said nickname client { u with pc := .loop, console } :=
      h.goto (by rw [hpc]; rfl) (by rw [hpc]; rfl) hout Pc.noConfusion console
    exact hgoto.screen rfl _ _ _
  | flag => exact { h with }
  | type bytes console => exact { h with }
  | hangup => exact { h with }

/-! ### What is handled -/

theorem shownAll_concat (creatable : List UInt8 → Bool) (st : Receiver) (packets : List ChatPacket)
    (packet : ChatPacket) : shownAll creatable st (packets ++ [packet]) =
      shownAll creatable st packets ++
        (shown creatable (receiveAll creatable st packets) packet).toList := by
  induction packets generalizing st with
  | nil => simp [shownAll, receiveAll]
  | cons p packets ih =>
    rw [List.cons_append, shownAll, shownAll, ih, receiveAll_cons, List.append_assoc]

/-- The packets that were handled are the first that the server has written. -/
structure Heard (creatable : List UInt8 → Bool) (files : List UInt8 → Option (List UInt8))
    (outbox : List ChatPacket) (u : User) : Prop where
  handled : u.handled ≤ outbox.length
  receiver : u.receiver = receiveAll creatable ⟨files, none⟩ (outbox.take u.handled)
  screen : u.screen.filterMap Piece.heardOf =
    shownAll creatable ⟨files, none⟩ (outbox.take u.handled)

variable {files : List UInt8 → Option (List UInt8)}

theorem heard_init (creatable : List UInt8 → Bool) (files : List UInt8 → Option (List UInt8)) :
    (init files).Heard creatable files [] := ⟨le_rfl, rfl, rfl⟩

theorem Heard.congr (h : u.Heard creatable files outbox) (hhandled : u'.handled = u.handled)
    (hreceiver : u'.receiver = u.receiver)
    (hscreen : u'.screen.filterMap Piece.heardOf = u.screen.filterMap Piece.heardOf) :
    u'.Heard creatable files outbox := by
  refine ⟨?_, ?_, ?_⟩
  · rw [hhandled]
    exact h.handled
  · rw [hreceiver, hhandled]
    exact h.receiver
  · rw [hscreen, hhandled]
    exact h.screen

/-- The server writes more. -/
theorem Heard.grow {outbox' : List ChatPacket} (h : u.Heard creatable files outbox)
    (houtbox : outbox <+: outbox') : u.Heard creatable files outbox' := by
  obtain ⟨more, rfl⟩ := houtbox
  have htake : (outbox ++ more).take u.handled = outbox.take u.handled :=
    List.take_append_of_le_length h.handled
  refine ⟨?_, ?_, ?_⟩
  · rw [List.length_append]
    exact Nat.le_add_right_of_le h.handled
  · rw [htake]
    exact h.receiver
  · rw [htake]
    exact h.screen

theorem afterMessage_frame (input : Bool) (u : User) :
    (u.afterMessage input).handled = u.handled ∧ (u.afterMessage input).receiver = u.receiver ∧
      (u.afterMessage input).screen = u.screen := by
  cases input <;> exact ⟨rfl, rfl, rfl⟩

theorem processUserInput_frame (nickname : List UInt8) (i : Input) (u : User) :
    (u.processUserInput nickname i).handled = u.handled ∧
      (u.processUserInput nickname i).receiver = u.receiver ∧
      (u.processUserInput nickname i).screen.filterMap Piece.heardOf =
        u.screen.filterMap Piece.heardOf := by
  rw [processUserInput]
  split
  · exact ⟨rfl, rfl, rfl⟩
  · split
    · exact ⟨rfl, rfl, rfl⟩
    · split
      · split
        · exact ⟨rfl, rfl, by simp [Piece.heardOf]⟩
        · exact ⟨rfl, rfl, rfl⟩
      · exact ⟨rfl, rfl, by simp [Piece.heardOf]⟩

/-- **A step of the user handles the next packet or none.** -/
theorem Heard.moves (h : u.Heard creatable files outbox)
    (hm : Moves nickname creatable outbox u u') : u'.Heard creatable files outbox := by
  cases hm with
  | leave => exact h.congr rfl rfl (by simp [User.leave, Piece.heardOf])
  | input hpc input =>
    obtain ⟨hhandled, hreceiver, hscreen⟩ := afterMessage_frame input u
    exact h.congr hhandled hreceiver (by rw [hscreen])
  | lost input =>
    obtain ⟨hhandled, hreceiver, -⟩ := afterMessage_frame input u
    exact h.congr hhandled hreceiver (by simp [Piece.heardOf])
  | message input packet hpc hpacket =>
    have htake : outbox.take (u.handled + 1) = outbox.take u.handled ++ [packet] := by
      rw [List.take_add_one, hpacket, Option.toList_some]
    refine ⟨(List.getElem?_eq_some_iff.1 hpacket).1, ?_, ?_⟩
    · change handleServerMessage creatable u.receiver packet = _
      rw [h.receiver, htake, receiveAll_concat]
    · change (u.screen ++ _).filterMap Piece.heardOf = _
      rw [htake, shownAll_concat, ← h.receiver, ← h.screen, List.filterMap_append]
      cases shown creatable u.receiver packet <;> rfl
  | line i console =>
    obtain ⟨hhandled, hreceiver, hscreen⟩ := processUserInput_frame nickname i
      { u with pc := .loop, console, inputs := u.inputs ++ [i] }
    exact h.congr hhandled hreceiver hscreen
  | _ => exact h.congr rfl rfl rfl

/-! ### What is read -/

/-- Where the lines of the user are. -/
structure Reads (u : User) : Prop where
  lines : u.console.lines = u.inputs.map (·.line)
  taken : u.console.Taken maxChunkSize
  busy : u.pc = .fgets → u.console.Busy maxChunkSize
  idle : u.running = true ∨ u.pc.Reads → u.pc ≠ .fgets → u.console.Idle maxChunkSize
  /-- Behind `exit` no line is read. -/
  exit : (∃ i ∈ u.inputs, IsExit i.text) → u.running = false ∧ ¬ u.pc.Reads
  last : ∀ i ∈ u.inputs.dropLast, ¬ IsExit i.text

theorem reads_init (files : List UInt8 → Option (List UInt8)) : (init files).Reads where
  lines := rfl
  taken := (Console.idle_init maxChunkSize).taken
  busy h := by cases h
  idle _ _ := Console.idle_init maxChunkSize
  exit h := by simp [init] at h
  last i h := by simp [init] at h

/-- The user gets to a place where it reads, or looks at `running` before it does. -/
theorem Reads.goto (h : u.Reads) (pc : Pc) (hold : u.pc ≠ .fgets) (hnew : pc ≠ .fgets)
    (hreads : pc.Reads → u.running = true ∨ u.pc.Reads) {running : Bool}
    (hrunning : running = u.running ∨ running = false) (out : List ChatPacket)
    (screen : List Piece) (handled : ℕ) (receiver : Receiver) :
    Reads { u with pc, running, out, screen, handled, receiver } where
  lines := h.lines
  taken := h.taken
  busy heq := absurd heq hnew
  idle hr _ := by
    refine h.idle ?_ hold
    rcases hr with hr | hr
    · rcases hrunning with rfl | rfl
      · exact Or.inl hr
      · cases hr
    · exact hreads hr
  exit hexit := by
    obtain ⟨hstop, hnot⟩ := h.exit hexit
    refine ⟨?_, fun hr => ?_⟩
    · rcases hrunning with rfl | rfl
      · exact hstop
      · rfl
    · rcases hreads hr with hrun | hr
      · rw [hstop] at hrun
        cases hrun
      · exact hnot hr
  last := h.last

theorem Reads.afterMessage (h : u.Reads) (hpc : u.pc.Reads) (hne : u.pc ≠ .fgets) (input : Bool) :
    (u.afterMessage input).Reads := by
  cases input with
  | false => exact h.goto .loop hne Pc.noConfusion (fun hr => hr.elim) (Or.inl rfl) _ _ _ _
  | true =>
    exact {
      lines := h.lines
      taken := h.taken
      busy := fun _ => (h.idle (Or.inr hpc) hne).enter (by decide)
      idle := fun _ hnot => absurd rfl hnot
      exit := fun hexit => absurd hpc (h.exit hexit).2
      last := h.last }

/-- What is displayed and handled has no part in it. -/
theorem Reads.show (h : u.Reads) {running : Bool}
    (hrunning : running = u.running ∨ running = false) (screen : List Piece) (handled : ℕ)
    (receiver : Receiver) : Reads { u with running, screen, handled, receiver } where
  lines := h.lines
  taken := h.taken
  busy := h.busy
  idle hr hne := by
    refine h.idle (hr.imp_left fun hr => ?_) hne
    rcases hrunning with rfl | rfl
    · exact hr
    · cases hr
  exit hexit := by
    refine ⟨?_, (h.exit hexit).2⟩
    rcases hrunning with rfl | rfl
    · exact (h.exit hexit).1
    · rfl
  last := h.last

/-- A line is handled; behind `exit` the user reads no more. -/
theorem Reads.line (h : u.Reads) {i : Input} {console : Console} (hpc : u.pc = .fgets)
    (hs : u.console.finish maxChunkSize = some (some i.line, console)) :
    (processUserInput nickname i
      { u with pc := .loop, console, inputs := u.inputs ++ [i] }).Reads := by
  have hidle : console.Idle maxChunkSize := (h.busy hpc).finish (by decide) hs
  have hlines : console.lines = (u.inputs ++ [i]).map (·.line) := by
    rw [(Console.finish_eq_some hs).2, h.lines, List.map_append]
    rfl
  have hno : ∀ i ∈ u.inputs, ¬ IsExit i.text := fun i hi hexit => by
    have hnot := (h.exit ⟨i, hi, hexit⟩).2
    rw [hpc] at hnot
    exact hnot trivial
  have hlast : ∀ i' ∈ (u.inputs ++ [i]).dropLast, ¬ IsExit i'.text := by
    rw [List.dropLast_concat]
    exact hno
  have hgoes : ¬ IsExit i.text → ∀ (pc : Pc) (out : List ChatPacket) (screen : List Piece),
      pc ≠ .fgets → ¬ pc.Reads → Reads
        { u with pc, console, out, screen, inputs := u.inputs ++ [i] } := by
    intro hexit pc out screen hne hnot
    refine ⟨hlines, hidle.taken, fun heq => absurd heq hne, fun _ _ => hidle, ?_, hlast⟩
    rintro ⟨i', hi', hexit'⟩
    rcases List.mem_append.1 hi' with hi' | hi'
    · exact absurd hexit' (hno i' hi')
    · obtain rfl := List.mem_singleton.1 hi'
      exact absurd hexit' hexit
  have hnil : i.text = [] → ¬ IsExit i.text := by
    rintro hnil (heq | heq) <;> simp [hnil, ascii] at heq
  rw [processUserInput]
  split
  · rename_i htext
    exact hgoes (hnil htext) .loop u.out u.screen Pc.noConfusion id
  · split
    · exact ⟨hlines, hidle.taken, Pc.noConfusion, fun _ _ => hidle,
        fun _ => ⟨rfl, id⟩, hlast⟩
    · rename_i hexit
      split
      · split
        · exact hgoes hexit .loop u.out _ Pc.noConfusion id
        · exact hgoes hexit .sending _ u.screen Pc.noConfusion id
      · exact hgoes hexit .sending _ _ Pc.noConfusion id

/-- **A step of the user keeps its account of the lines.** -/
theorem Reads.moves (h : u.Reads) (hm : Moves nickname creatable outbox u u') : u'.Reads := by
  cases hm with
  | start hpc =>
    exact h.goto .sending (by rw [hpc]; exact Pc.noConfusion) Pc.noConfusion (fun hr => hr.elim)
      (Or.inl rfl) _ _ _ _
  | written hpc =>
    exact h.goto .loop (by rw [hpc]; exact Pc.noConfusion) Pc.noConfusion (fun hr => hr.elim)
      (Or.inl rfl) _ _ _ _
  | poll hpc hrunning =>
    exact h.goto .poll (by rw [hpc]; exact Pc.noConfusion) Pc.noConfusion (fun _ => Or.inl hrunning)
      (Or.inl rfl) _ _ _ _
  | leave hpc running hrunning =>
    refine h.goto .leaving ?_ Pc.noConfusion (fun hr => hr.elim) hrunning _ _ _ _
    rcases hpc with hpc | hpc <;> rw [hpc] <;> exact Pc.noConfusion
  | found hpc input =>
    exact h.goto (.message input) (by rw [hpc]; exact Pc.noConfusion) Pc.noConfusion
      (fun _ => Or.inr (by rw [hpc]; trivial)) (Or.inl rfl) _ _ _ _
  | input hpc input =>
    exact h.afterMessage (by rw [hpc]; trivial) (by rw [hpc]; exact Pc.noConfusion) input
  | lost input hpc =>
    exact (h.afterMessage (by rw [hpc]; trivial) (by rw [hpc]; exact Pc.noConfusion) input).show
      (Or.inr rfl) _ _ _
  | message input packet hpc =>
    exact (h.afterMessage (by rw [hpc]; trivial) (by rw [hpc]; exact Pc.noConfusion) input).show
      (Or.inl rfl) _ _ _
  | refill n console hpc hs =>
    have hbusy := (h.busy hpc).refill hs
    exact ⟨(Console.refill_eq_some hs).2.trans h.lines, hbusy.taken, fun _ => hbusy,
      fun _ hne => absurd hpc hne, h.exit, h.last⟩
  | ended console hpc hs =>
    have hidle := (h.busy hpc).finish (by decide) hs
    have hlines := (Console.finish_eq_some hs).2
    rw [Option.toList_none, List.append_nil] at hlines
    exact ⟨hlines.trans h.lines, hidle.taken, Pc.noConfusion, fun _ _ => hidle,
      fun hexit => ⟨(h.exit hexit).1, id⟩, h.last⟩
  | line i console hpc hs => exact h.line hpc hs
  | interrupt console hpc hs =>
    obtain ⟨htyped, hlines⟩ := Console.interrupt_eq_some hs
    have htaken := h.taken
    rw [Console.Taken, ← htyped, ← hlines] at htaken
    exact ⟨hlines.trans h.lines, htaken, Pc.noConfusion, fun hr => (hr.elim nofun id).elim,
      fun _ => ⟨rfl, id⟩, h.last⟩
  | flag => exact h.show (Or.inr rfl) _ _ _
  | type bytes console hs =>
    have hlines : console.lines = u.console.lines := by rw [Console.type_eq_some hs]
    exact ⟨hlines.trans h.lines, h.taken.type hs, fun hpc => (h.busy hpc).type hs,
      fun hr hne => (h.idle hr hne).type hs, h.exit, h.last⟩
  | hangup =>
    exact ⟨h.lines, h.taken, fun hpc => (h.busy hpc).hangup,
      fun hr hne => (h.idle hr hne).hangup, h.exit, h.last⟩

end User

end EltexPractice.TcpChat
