import EltexPractice.Foundations.LineInput
import EltexPractice.Foundations.Schedule
import EltexPractice.UdpChat.EchoSuppression

/-!
# Sessions of the UDP chat

`main` of task 6 with `handle_user_input`, for any number of participants. A participant takes turns
between its system calls: `select` on the standard input and the socket, the read of a line through
the stdio buffer, one datagram. The standard input arrives in pieces, and may end; SIGINT clears
`running`, and interrupts the call that waits, if it comes during one. The network hands any
datagram that was sent to any participant, in any order, again or never.

* `session_law`: what each participant sends, in every run: a join, its lines in the order typed,
  and the leave at its end; and that everything a participant displays was sent by another.
* `all_lines_sent`: on a terminal, which delivers a line at a time, nothing that was typed is held
  back while a participant waits, when each line with its end fits the 512 bytes of `fgets`.
-/

namespace EltexPractice.UdpChat

open CString LineInput

/-! ## One participant -/

/-- The commands `exit` and `quit`. -/
def IsExit (text : List UInt8) : Prop := text = ascii "exit" ∨ text = ascii "quit"

instance (text : List UInt8) : Decidable (IsExit text) := inferInstanceAs (Decidable (_ ∨ _))

/-- The message of a line, if it has one. -/
def message (line : List UInt8) : Option (List UInt8) :=
  if chomp line = [] ∨ IsExit (chomp line) then none else some (chomp line)

/-- A datagram with its sender and its number among those. -/
structure Datagram (ι : Type*) where
  sender : ι
  number : ℕ
  bytes : List UInt8

/-- What a participant prints. -/
inductive Piece (ι : Type*)
  /-- The lines at the start. -/
  | banner
  /-- `"> "` -/
  | prompt
  /-- Its own message, behind `[Вы]:`. -/
  | own (text : List UInt8)
  /-- What `handle_incoming_packet` prints for a datagram. -/
  | heard (d : Datagram ι) (printed : List UInt8)
  /-- The line at the end. -/
  | goodbye

/-- Its own messages among the pieces. -/
def Piece.ownText {ι : Type*} : Piece ι → Option (List UInt8)
  | .own text => some text
  | _ => none

inductive Pc
  | start
  /-- `while (running)` -/
  | loop
  | select
  /-- `handle_incoming_packet`, and whether `select` has found input too. -/
  | incoming (input : Bool)
  /-- In `fgets`. -/
  | fgets
  | leave
  | closed
  deriving DecidableEq

structure Chatter (ι : Type*) where
  pc : Pc
  running : Bool
  console : Console
  inbox : List (Datagram ι)
  /-- The packets handed to `sendto`. -/
  sent : List (MsgType × Option (List UInt8))
  screen : List (Piece ι)

namespace Chatter

variable {ι : Type*}

def init : Chatter ι := ⟨.start, true, .init, [], [], []⟩

/-- `handle_user_input` behind `fgets`. -/
def handleUserInput (line : List UInt8) (c : Chatter ι) : Chatter ι :=
  let text := chomp line
  if text = [] then { c with screen := c.screen ++ [.prompt] }
  else if IsExit text then { c with running := false }
  else { c with
    screen := c.screen ++ [.own text, .prompt]
    sent := c.sent ++ [(.chat, some text)] }

/-- `handle_user_input` when `select` has found input, and the loop else. -/
def afterPacket (input : Bool) (c : Chatter ι) : Chatter ι :=
  if input then { c with pc := .fgets, console := c.console.enter maxTextLen }
  else { c with pc := .loop }

/-- A turn of a participant. -/
inductive Turn
  | start
  | loop
  /-- `select` returns; it may fail. -/
  | select (fails : Bool)
  /-- `recvfrom` returns; it may fail, and leaves the stale bytes behind a short datagram. -/
  | receive (stale : Bytes) (fails : Bool)
  /-- `fgets` reads the next `n` bytes. -/
  | refill (n : ℕ)
  /-- `fgets` returns. -/
  | line
  | leave

/-- The participant with the process number `pid`. -/
def turn (pid : Int32) (c : Chatter ι) : Turn → Option (Chatter ι)
  | .start =>
    match c.pc with
    | .start => some { c with
        pc := .loop
        screen := c.screen ++ [.banner, .prompt]
        sent := c.sent ++ [(.join, none)] }
    | _ => none
  | .loop =>
    match c.pc with
    | .loop => some { c with pc := if c.running then .select else .leave }
    | _ => none
  | .select fails =>
    match c.pc with
    | .select =>
      if fails then some { c with pc := .leave }
      else if c.inbox ≠ [] then some { c with pc := .incoming c.console.stdin.ready }
      else if c.console.stdin.ready then some (c.afterPacket true)
      else none
    | _ => none
  | .receive stale fails =>
    match c.pc with
    | .incoming input =>
      if fails then some (c.afterPacket input)
      else match c.inbox with
        | [] => none
        | d :: inbox => some { c.afterPacket input with
            inbox
            screen := c.screen ++ [.heard d (handleIncomingPacket pid stale (some d.bytes))] }
    | _ => none
  | .refill n =>
    match c.pc with
    | .fgets => (c.console.refill maxTextLen n).map fun console => { c with console }
    | _ => none
  | .line =>
    match c.pc with
    | .fgets => (c.console.finish maxTextLen).map fun out =>
        match out.1 with
        | none => { c with pc := .loop, console := out.2 }
        | some line => handleUserInput line { c with pc := .loop, console := out.2 }
    | _ => none
  | .leave =>
    match c.pc with
    | .leave => some { c with
        pc := .closed
        screen := c.screen ++ [.goodbye]
        sent := c.sent ++ [(.leave, none)] }
    | _ => none

/-- SIGINT; it interrupts a call that waits, or comes outside of one. -/
def sigint (interrupts : Bool) (c : Chatter ι) : Option (Chatter ι) :=
  if interrupts then
    match c.pc with
    | .select => some { c with running := false, pc := .leave }
    | .fgets => (c.console.interrupt maxTextLen).map fun console =>
        { c with running := false, pc := .loop, console }
    | _ => none
  else some { c with running := false }

end Chatter

/-! ## The system -/

inductive Action (ι : Type*)
  /-- The user types. -/
  | type (i : ι) (bytes : List UInt8)
  /-- The standard input ends. -/
  | hangup (i : ι)
  | sigint (i : ι) (interrupts : Bool)
  /-- The network hands the datagram `number` of `i` to `j`. -/
  | deliver (i j : ι) (number : ℕ)
  | turn (i : ι) (t : Chatter.Turn)

section System

variable {ι H : Type*} [DecidableEq ι] (P : Participants ι H)

def step (s : ι → Chatter ι) : Action ι → Option (ι → Chatter ι)
  | .type i bytes => ((s i).console.type bytes).map fun console =>
      Function.update s i { s i with console }
  | .hangup i => some (Function.update s i { s i with console := (s i).console.hangup })
  | .sigint i interrupts => ((s i).sigint interrupts).map (Function.update s i)
  | .deliver i j number => ((s i).sent[number]?).map fun packet =>
      Function.update s j { s j with
        inbox := (s j).inbox ++ [⟨i, number, P.datagram i packet.1 packet.2⟩] }
  | .turn i t => ((s i).turn (P.pid i) t).map (Function.update s i)

end System

/-! ## The text of a line -/

theorem not_isExit_nil : ¬ IsExit [] := by
  rintro (h | h)
  · simp [ascii] at h
  · simp [ascii] at h

theorem message_eq_some {line text : List UInt8} (h : message line = some text) :
    text = chomp line ∧ text ≠ [] ∧ ¬ IsExit text := by
  rw [message] at h
  split at h
  · cases h
  · rename_i hnot
    obtain rfl := Option.some.inj h
    exact ⟨rfl, fun hnil => hnot (Or.inl hnil), fun hexit => hnot (Or.inr hexit)⟩

/-- A message that fits into `buffer` arrives as it is. -/
theorem shownText_message {line text : List UInt8} (h : message line = some text)
    (hlen : line.length < maxTextLen) : shownText (some text) = text := by
  obtain ⟨rfl, -, -⟩ := message_eq_some h
  have hle := length_chomp_le line
  rw [shownText, Option.getD_some, cstr_eq_self (zero_notMem_chomp line),
    List.take_of_length_le (by rw [maxTextLen] at hlen; omega)]

/-! ## What a participant does -/

/-- The join packet has been sent. -/
def Pc.opening : Pc → List (MsgType × Option (List UInt8))
  | .start => []
  | _ => [(.join, none)]

def Pc.closing : Pc → List (MsgType × Option (List UInt8))
  | .closed => [(.leave, none)]
  | _ => []

/-- `fgets` may be called before the next look at `running`. -/
def Pc.Reads : Pc → Prop
  | .select => True
  | .incoming _ => True
  | .fgets => True
  | _ => False

namespace Chatter

variable {ι : Type*} {c c' : Chatter ι} {pid : Int32}

/-- A step of a participant by itself: a turn, a signal, or what happens to its standard input. -/
inductive Moves (pid : Int32) (c : Chatter ι) : Chatter ι → Prop
  | start (hpc : c.pc = .start) : Moves pid c
      { c with
        pc := .loop
        screen := c.screen ++ [.banner, .prompt]
        sent := c.sent ++ [(.join, none)] }
  | select (hpc : c.pc = .loop) (hrunning : c.running = true) : Moves pid c
      { c with pc := .select }
  | stop (hpc : c.pc = .loop ∨ c.pc = .select) (running : Bool)
      (hrunning : running = c.running ∨ running = false) : Moves pid c
      { c with pc := .leave, running }
  | found (hpc : c.pc = .select) (input : Bool) : Moves pid c { c with pc := .incoming input }
  | after (hpc : c.pc.Reads) (hne : c.pc ≠ .fgets) (input : Bool) : Moves pid c
      (c.afterPacket input)
  | hear (input : Bool) (d : Datagram ι) (inbox : List (Datagram ι)) (stale : Bytes)
      (hpc : c.pc = .incoming input) (hinbox : c.inbox = d :: inbox) : Moves pid c
      { c.afterPacket input with
        inbox
        screen := c.screen ++ [.heard d (handleIncomingPacket pid stale (some d.bytes))] }
  | refill (n : ℕ) (console : Console) (hpc : c.pc = .fgets)
      (hs : c.console.refill maxTextLen n = some console) : Moves pid c { c with console }
  | ended (console : Console) (hpc : c.pc = .fgets)
      (hs : c.console.finish maxTextLen = some (none, console)) : Moves pid c
      { c with pc := .loop, console }
  | line (line : List UInt8) (console : Console) (hpc : c.pc = .fgets)
      (hs : c.console.finish maxTextLen = some (some line, console)) : Moves pid c
      (handleUserInput line { c with pc := .loop, console })
  | leave (hpc : c.pc = .leave) : Moves pid c
      { c with
        pc := .closed
        screen := c.screen ++ [.goodbye]
        sent := c.sent ++ [(.leave, none)] }
  | interrupt (console : Console) (hpc : c.pc = .fgets)
      (hs : c.console.interrupt maxTextLen = some console) : Moves pid c
      { c with running := false, pc := .loop, console }
  | flag : Moves pid c { c with running := false }
  | type (bytes : List UInt8) (console : Console) (hs : c.console.type bytes = some console) :
      Moves pid c { c with console }
  | hangup : Moves pid c { c with console := c.console.hangup }

theorem moves_of_turn {t : Turn} (hs : c.turn pid t = some c') : Moves pid c c' := by
  cases t with
  | start =>
    rw [turn] at hs
    split at hs
    · rename_i hpc
      obtain rfl := Option.some.inj hs
      exact .start hpc
    · cases hs
  | loop =>
    rw [turn] at hs
    split at hs
    · rename_i hpc
      obtain rfl := Option.some.inj hs
      by_cases hrunning : c.running = true
      · rw [if_pos hrunning]
        exact .select hpc hrunning
      · rw [if_neg hrunning]
        exact .stop (Or.inl hpc) c.running (Or.inl rfl)
    · cases hs
  | select fails =>
    rw [turn] at hs
    split at hs
    · rename_i hpc
      split at hs
      · obtain rfl := Option.some.inj hs
        exact .stop (Or.inr hpc) c.running (Or.inl rfl)
      · split at hs
        · obtain rfl := Option.some.inj hs
          exact .found hpc _
        · split at hs
          · obtain rfl := Option.some.inj hs
            exact .after (by rw [hpc]; trivial) (by rw [hpc]; exact Pc.noConfusion) true
          · cases hs
    · cases hs
  | receive stale fails =>
    rw [turn] at hs
    split at hs
    · rename_i input hpc
      split at hs
      · obtain rfl := Option.some.inj hs
        exact .after (by rw [hpc]; trivial) (by rw [hpc]; exact Pc.noConfusion) input
      · split at hs
        · cases hs
        · rename_i d inbox hinbox
          obtain rfl := Option.some.inj hs
          exact .hear input d inbox stale hpc hinbox
    · cases hs
  | refill n =>
    rw [turn] at hs
    split at hs
    · rename_i hpc
      obtain ⟨console, hrefill, rfl⟩ := Option.map_eq_some_iff.1 hs
      exact .refill n console hpc hrefill
    · cases hs
  | line =>
    rw [turn] at hs
    split at hs
    · rename_i hpc
      obtain ⟨⟨out, console⟩, hfinish, rfl⟩ := Option.map_eq_some_iff.1 hs
      cases out with
      | none => exact .ended console hpc hfinish
      | some line => exact .line line console hpc hfinish
    · cases hs
  | leave =>
    rw [turn] at hs
    split at hs
    · rename_i hpc
      obtain rfl := Option.some.inj hs
      exact .leave hpc
    · cases hs

theorem moves_of_sigint {interrupts : Bool} (hs : c.sigint interrupts = some c') :
    Moves pid c c' := by
  rw [sigint] at hs
  split at hs
  · split at hs
    · rename_i hpc
      obtain rfl := Option.some.inj hs
      exact .stop (Or.inr hpc) false (Or.inr rfl)
    · rename_i hpc
      obtain ⟨console, hinterrupt, rfl⟩ := Option.map_eq_some_iff.1 hs
      exact .interrupt console hpc hinterrupt
    · cases hs
  · obtain rfl := Option.some.inj hs
    exact .flag

theorem afterPacket_frame (input : Bool) (c : Chatter ι) :
    (c.afterPacket input).sent = c.sent ∧ (c.afterPacket input).inbox = c.inbox ∧
      (c.afterPacket input).screen = c.screen ∧
        (c.afterPacket input).console.lines = c.console.lines := by
  cases input <;> exact ⟨rfl, rfl, rfl, rfl⟩

/-! ### The packets -/

/-- A participant has sent what its lines say. -/
structure Said (c : Chatter ι) : Prop where
  sent : c.sent = c.pc.opening ++
    ((c.console.lines.filterMap message).map (fun text => (.chat, some text)) ++ c.pc.closing)
  own : c.screen.filterMap Piece.ownText = c.console.lines.filterMap message
  started : c.pc = .start → c.console.lines = []

theorem said_init : (init : Chatter ι).Said := ⟨rfl, rfl, fun _ => rfl⟩

/-- The participant gets to a place of the same phase. -/
theorem Said.goto (h : c.Said) (pc : Pc) (hopening : pc.opening = c.pc.opening)
    (hclosing : pc.closing = c.pc.closing) (hstart : pc ≠ .start) {console : Console}
    (hlines : console.lines = c.console.lines) (running : Bool) (inbox : List (Datagram ι)) :
    Said { c with pc, console, running, inbox } where
  sent := by
    rw [hopening, hclosing, hlines]
    exact h.sent
  own := by
    rw [hlines]
    exact h.own
  started heq := absurd heq hstart

theorem Said.screen {screen : List (Piece ι)} (h : c.Said)
    (hscreen : screen.filterMap Piece.ownText = c.screen.filterMap Piece.ownText)
    (inbox : List (Datagram ι)) : Said { c with inbox, screen } :=
  { h with own := hscreen.trans h.own }

theorem Said.afterPacket (h : c.Said) (hpc : c.pc.Reads) (input : Bool) :
    (c.afterPacket input).Said := by
  have hphase : c.pc.opening = [(.join, none)] ∧ c.pc.closing = [] := by
    cases heq : c.pc <;> rw [heq] at hpc <;> first | exact hpc.elim | exact ⟨rfl, rfl⟩
  cases input with
  | true =>
    have hlines : (c.console.enter maxTextLen).lines = c.console.lines := rfl
    exact h.goto .fgets hphase.1.symm hphase.2.symm Pc.noConfusion hlines _ _
  | false => exact h.goto .loop hphase.1.symm hphase.2.symm Pc.noConfusion rfl _ _

/-- A line is handled. -/
theorem Said.line (h : c.Said) {line : List UInt8} {console : Console} (hpc : c.pc = .fgets)
    (hlines : console.lines = c.console.lines ++ [line]) :
    (handleUserInput line { c with pc := .loop, console }).Said := by
  have hsent : c.sent = (.join, none) ::
      (c.console.lines.filterMap message).map (fun text => (.chat, some text)) := by
    have hsent := h.sent
    rw [hpc] at hsent
    simpa [Pc.opening, Pc.closing] using hsent
  rw [handleUserInput]
  split
  · rename_i hnil
    have hmessage : message line = none := if_pos (Or.inl hnil)
    refine ⟨?_, ?_, Pc.noConfusion⟩
    · simp [hsent, hlines, hmessage, Pc.opening, Pc.closing]
    · simp [h.own, hlines, hmessage, Piece.ownText]
  · rename_i hnil
    split
    · rename_i hexit
      have hmessage : message line = none := if_pos (Or.inr hexit)
      refine ⟨?_, ?_, Pc.noConfusion⟩
      · simp [hsent, hlines, hmessage, Pc.opening, Pc.closing]
      · simp [h.own, hlines, hmessage]
    · rename_i hexit
      have hmessage : message line = some (chomp line) := if_neg (not_or.2 ⟨hnil, hexit⟩)
      refine ⟨?_, ?_, Pc.noConfusion⟩
      · simp [hsent, hlines, hmessage, Pc.opening, Pc.closing]
      · simp [h.own, hlines, hmessage, Piece.ownText]

/-- **A step keeps the account of the packets.** -/
theorem Said.moves (h : c.Said) (hm : Moves pid c c') : c'.Said := by
  cases hm with
  | start hpc =>
    have hlines := h.started hpc
    have hsent := h.sent
    rw [hpc, hlines] at hsent
    refine ⟨?_, ?_, Pc.noConfusion⟩
    · simp [hsent, hlines, Pc.opening, Pc.closing]
    · simp [h.own, Piece.ownText]
  | select hpc => exact h.goto _ (by rw [hpc]; rfl) (by rw [hpc]; rfl) Pc.noConfusion rfl _ _
  | stop hpc running =>
    refine h.goto _ ?_ ?_ Pc.noConfusion rfl running c.inbox
    · rcases hpc with hpc | hpc <;> rw [hpc] <;> rfl
    · rcases hpc with hpc | hpc <;> rw [hpc] <;> rfl
  | found hpc input => exact h.goto _ (by rw [hpc]; rfl) (by rw [hpc]; rfl) Pc.noConfusion rfl _ _
  | after hpc hne input => exact h.afterPacket hpc input
  | hear input d inbox stale hpc =>
    refine (h.afterPacket (by rw [hpc]; trivial) input).screen ?_ inbox
    simp [(afterPacket_frame input c).2.2.1, Piece.ownText]
  | refill n console hpc hs =>
    exact h.goto _ rfl rfl (by rw [hpc]; exact Pc.noConfusion) (Console.refill_eq_some hs).2 _ _
  | ended console hpc hs =>
    have hlines := (Console.finish_eq_some hs).2
    rw [Option.toList_none, List.append_nil] at hlines
    exact h.goto _ (by rw [hpc]; rfl) (by rw [hpc]; rfl) Pc.noConfusion hlines _ _
  | line line console hpc hs => exact h.line hpc (Console.finish_eq_some hs).2
  | leave hpc =>
    have hsent := h.sent
    rw [hpc] at hsent
    refine ⟨?_, ?_, Pc.noConfusion⟩
    · simp [hsent, Pc.opening, Pc.closing]
    · simp [h.own, Piece.ownText]
  | interrupt console hpc hs =>
    exact h.goto _ (by rw [hpc]; rfl) (by rw [hpc]; rfl) Pc.noConfusion
      (Console.interrupt_eq_some hs).2 _ _
  | flag => exact { h with }
  | type bytes console hs =>
    obtain rfl := Console.type_eq_some hs
    exact { h with }
  | hangup => exact { h with }

/-! ### What is read -/

/-- Where the lines of a participant are. -/
structure Reads (c : Chatter ι) : Prop where
  taken : c.console.Taken maxTextLen
  busy : c.pc = .fgets → c.console.Busy maxTextLen
  idle : c.running = true ∨ c.pc.Reads → c.pc ≠ .fgets → c.console.Idle maxTextLen
  /-- Behind `exit` no line is read. -/
  exit : (∃ line ∈ c.console.lines, IsExit (chomp line)) → c.running = false ∧ ¬ c.pc.Reads
  last : ∀ line ∈ c.console.lines.dropLast, ¬ IsExit (chomp line)

theorem reads_init : (init : Chatter ι).Reads where
  taken := (Console.idle_init maxTextLen).taken
  busy h := by cases h
  idle _ _ := Console.idle_init maxTextLen
  exit h := by simp [init, Console.init] at h
  last line h := by simp [init, Console.init] at h

/-- The participant gets to a place where it reads, or looks at `running` before it does. -/
theorem Reads.goto (h : c.Reads) (pc : Pc) (hold : c.pc ≠ .fgets) (hnew : pc ≠ .fgets)
    (hreads : pc.Reads → c.running = true ∨ c.pc.Reads) {running : Bool}
    (hrunning : running = c.running ∨ running = false) (inbox : List (Datagram ι))
    (sent : List (MsgType × Option (List UInt8))) (screen : List (Piece ι)) :
    Reads { c with pc, running, inbox, sent, screen } where
  taken := h.taken
  busy heq := absurd heq hnew
  idle hr _ := by
    refine h.idle ?_ hold
    rcases hr with hr | hr
    · rcases hrunning with rfl | rfl
      · exact Or.inl hr
      · cases hr
    · exact hreads hr
  exit hexit := by
    obtain ⟨hstop, hnot⟩ := h.exit hexit
    refine ⟨?_, fun hr => ?_⟩
    · rcases hrunning with rfl | rfl
      · exact hstop
      · rfl
    · rcases hreads hr with hrun | hr
      · rw [hstop] at hrun
        cases hrun
      · exact hnot hr
  last := h.last

theorem Reads.afterPacket (h : c.Reads) (hpc : c.pc.Reads) (hne : c.pc ≠ .fgets) (input : Bool)
    (inbox : List (Datagram ι)) (screen : List (Piece ι)) :
    Reads { c.afterPacket input with inbox, screen } := by
  cases input with
  | false =>
    exact h.goto .loop hne Pc.noConfusion (fun hr => hr.elim) (Or.inl rfl) inbox c.sent screen
  | true =>
    exact {
      taken := h.taken
      busy := fun _ => (h.idle (Or.inr hpc) hne).enter (by decide)
      idle := fun _ hnot => absurd rfl hnot
      exit := fun hexit => absurd hpc (h.exit hexit).2
      last := h.last }

/-- A line is handled; behind `exit` the participant reads no more. -/
theorem Reads.line (h : c.Reads) {line : List UInt8} {console : Console} (hpc : c.pc = .fgets)
    (hs : c.console.finish maxTextLen = some (some line, console)) :
    (handleUserInput line { c with pc := .loop, console }).Reads := by
  have hidle : console.Idle maxTextLen := (h.busy hpc).finish (by decide) hs
  have hlines : console.lines = c.console.lines ++ [line] := (Console.finish_eq_some hs).2
  have hno : ∀ line ∈ c.console.lines, ¬ IsExit (chomp line) := fun line hline hexit => by
    have hnot := (h.exit ⟨line, hline, hexit⟩).2
    rw [hpc] at hnot
    exact hnot trivial
  have hlast : ∀ line' ∈ console.lines.dropLast, ¬ IsExit (chomp line') := by
    rw [hlines, List.dropLast_concat]
    exact hno
  have hgoes : ¬ IsExit (chomp line) → ∀ (sent : List (MsgType × Option (List UInt8)))
      (screen : List (Piece ι)), Reads { c with pc := .loop, console, sent, screen } := by
    intro hexit sent screen
    refine ⟨hidle.taken, Pc.noConfusion, fun _ _ => hidle, ?_, hlast⟩
    rintro ⟨line', hline', hexit'⟩
    rw [hlines] at hline'
    rcases List.mem_append.1 hline' with hline' | hline'
    · exact absurd hexit' (hno line' hline')
    · obtain rfl := List.mem_singleton.1 hline'
      exact absurd hexit' hexit
  rw [handleUserInput]
  split
  · rename_i hnil
    exact hgoes (by rw [hnil]; exact not_isExit_nil) c.sent _
  · split
    · exact ⟨hidle.taken, Pc.noConfusion, fun _ _ => hidle, fun _ => ⟨rfl, id⟩, hlast⟩
    · rename_i hexit
      exact hgoes hexit _ _

/-- **A step keeps the account of the lines.** -/
theorem Reads.moves (h : c.Reads) (hm : Moves pid c c') : c'.Reads := by
  cases hm with
  | start hpc =>
    exact h.goto .loop (by rw [hpc]; exact Pc.noConfusion) Pc.noConfusion (fun hr => hr.elim)
      (Or.inl rfl) _ _ _
  | select hpc hrunning =>
    exact h.goto .select (by rw [hpc]; exact Pc.noConfusion) Pc.noConfusion
      (fun _ => Or.inl hrunning) (Or.inl rfl) _ _ _
  | stop hpc running hrunning =>
    refine h.goto .leave ?_ Pc.noConfusion (fun hr => hr.elim) hrunning _ _ _
    rcases hpc with hpc | hpc <;> rw [hpc] <;> exact Pc.noConfusion
  | found hpc input =>
    exact h.goto (.incoming input) (by rw [hpc]; exact Pc.noConfusion) Pc.noConfusion
      (fun _ => Or.inr (by rw [hpc]; trivial)) (Or.inl rfl) _ _ _
  | after hpc hne input =>
    have hafter := h.afterPacket hpc hne input c.inbox c.screen
    cases input <;> exact hafter
  | hear input d inbox stale hpc =>
    exact h.afterPacket (by rw [hpc]; trivial) (by rw [hpc]; exact Pc.noConfusion) input _ _
  | refill n console hpc hs =>
    have hbusy := (h.busy hpc).refill hs
    obtain ⟨-, hlines⟩ := Console.refill_eq_some hs
    refine ⟨hbusy.taken, fun _ => hbusy, fun _ hne => absurd hpc hne, ?_, ?_⟩
    · rw [hlines]
      exact h.exit
    · rw [hlines]
      exact h.last
  | ended console hpc hs =>
    have hidle := (h.busy hpc).finish (by decide) hs
    have hlines := (Console.finish_eq_some hs).2
    rw [Option.toList_none, List.append_nil] at hlines
    refine ⟨hidle.taken, Pc.noConfusion, fun _ _ => hidle, fun hexit => ⟨?_, id⟩, ?_⟩
    · rw [hlines] at hexit
      exact (h.exit hexit).1
    · rw [hlines]
      exact h.last
  | line line console hpc hs => exact h.line hpc hs
  | leave hpc =>
    exact h.goto .closed (by rw [hpc]; exact Pc.noConfusion) Pc.noConfusion (fun hr => hr.elim)
      (Or.inl rfl) _ _ _
  | interrupt console hpc hs =>
    obtain ⟨htyped, hlines⟩ := Console.interrupt_eq_some hs
    have htaken := h.taken
    rw [Console.Taken, ← htyped, ← hlines] at htaken
    refine ⟨htaken, Pc.noConfusion, fun hr => (hr.elim nofun id).elim, fun _ => ⟨rfl, id⟩, ?_⟩
    rw [hlines]
    exact h.last
  | flag =>
    refine ⟨h.taken, h.busy, fun hr => h.idle (hr.imp_left nofun), fun hexit => ⟨rfl, ?_⟩, h.last⟩
    exact (h.exit hexit).2
  | type bytes console hs =>
    have htype := Console.type_eq_some hs
    refine ⟨h.taken.type hs, fun hpc => (h.busy hpc).type hs,
      fun hr hne => (h.idle hr hne).type hs, ?_, ?_⟩
    · rw [htype]
      exact h.exit
    · rw [htype]
      exact h.last
  | hangup =>
    exact ⟨h.taken, fun hpc => (h.busy hpc).hangup, fun hr hne => (h.idle hr hne).hangup, h.exit,
      h.last⟩

/-! ### What a step leaves alone -/

/-- A step only adds to what was sent, and shows nothing but what is in the inbox. -/
theorem Moves.frame (hm : Moves pid c c') :
    c.sent <+: c'.sent ∧ (∀ d ∈ c'.inbox, d ∈ c.inbox) ∧
      ∀ d printed, .heard d printed ∈ c'.screen → .heard d printed ∈ c.screen ∨
        d ∈ c.inbox ∧ ∃ stale, printed = handleIncomingPacket pid stale (some d.bytes) := by
  have hsame := List.prefix_refl c.sent
  have hmore := fun x => List.prefix_append c.sent [x]
  cases hm with
  | after hpc hne input =>
    obtain ⟨hsent, hinbox, hscreen, -⟩ := afterPacket_frame input c
    rw [hsent, hinbox, hscreen]
    exact ⟨hsame, fun d hd => hd, fun d printed hd => Or.inl hd⟩
  | hear input d inbox stale hpc hinbox =>
    obtain ⟨hsent, -⟩ := afterPacket_frame input c
    rw [hsent, hinbox]
    refine ⟨hsame, fun d' hd' => List.mem_cons_of_mem d hd', fun d' printed hd' => ?_⟩
    rcases List.mem_append.1 hd' with hd' | hd'
    · exact Or.inl hd'
    · cases List.mem_singleton.1 hd'
      exact Or.inr ⟨List.mem_cons_self, stale, rfl⟩
  | line line console =>
    rw [handleUserInput]
    grind
  | start hpc => exact ⟨hmore _, fun d hd => hd, by grind⟩
  | leave hpc => exact ⟨hmore _, fun d hd => hd, by grind⟩
  | _ => exact ⟨hsame, fun d hd => hd, fun d printed hd => Or.inl hd⟩

/-- What holds of a participant. -/
structure Inv (c : Chatter ι) : Prop where
  said : c.Said
  reads : c.Reads

theorem inv_init : (init : Chatter ι).Inv := ⟨said_init, reads_init⟩

theorem Inv.moves (h : c.Inv) (hm : Moves pid c c') : c'.Inv :=
  ⟨h.said.moves hm, h.reads.moves hm⟩

end Chatter

/-! ## The invariant of the system -/

section Law

variable {ι H : Type*} [DecidableEq ι] {P : Participants ι H} {s s' : ι → Chatter ι}

/-- The datagram was sent, with its bytes. -/
def Genuine (P : Participants ι H) (s : ι → Chatter ι) (d : Datagram ι) : Prop :=
  ∃ packet, (s d.sender).sent[d.number]? = some packet ∧
    d.bytes = P.datagram d.sender packet.1 packet.2

/-- What a participant displays was sent. -/
def Heard (P : Participants ι H) (s : ι → Chatter ι) (j : ι) (d : Datagram ι)
    (printed : List UInt8) : Prop :=
  ∃ packet, (s d.sender).sent[d.number]? = some packet ∧
    printed = if P.pid d.sender = P.pid j then []
      else shown (P.pid d.sender) packet.1 (P.nickname d.sender) packet.2

structure Inv (P : Participants ι H) (s : ι → Chatter ι) : Prop where
  each : ∀ i, (s i).Inv
  inbox : ∀ j, ∀ d ∈ (s j).inbox, Genuine P s d
  heard : ∀ j d printed, .heard d printed ∈ (s j).screen → Heard P s j d printed

/-- What a step of the participant `i` does to the rest of the system. -/
structure Effect (P : Participants ι H) (s : ι → Chatter ι) (i : ι) (c : Chatter ι) : Prop where
  sent : (s i).sent <+: c.sent
  inbox : ∀ d ∈ c.inbox, d ∈ (s i).inbox ∨ Genuine P s d
  heard : ∀ d printed, .heard d printed ∈ c.screen → .heard d printed ∈ (s i).screen ∨
    d ∈ (s i).inbox ∧ ∃ stale, printed = handleIncomingPacket (P.pid i) stale (some d.bytes)

theorem Inv.update (h : Inv P s) {i : ι} {c : Chatter ι} (hc : c.Inv) (hm : Effect P s i c) :
    Inv P (Function.update s i c) := by
  have hsent : ∀ (j : ι) (k : ℕ) packet, (s j).sent[k]? = some packet →
      (Function.update s i c j).sent[k]? = some packet := by
    intro j k packet hk
    by_cases hj : j = i
    · subst hj
      rw [Function.update_self]
      obtain ⟨rest, hrest⟩ := hm.sent
      rw [← hrest, List.getElem?_append_left (List.getElem?_eq_some_iff.1 hk).1, hk]
    · rwa [Function.update_of_ne hj]
  have hgenuine : ∀ d, Genuine P s d → Genuine P (Function.update s i c) d := by
    rintro d ⟨packet, hk, hbytes⟩
    exact ⟨packet, hsent _ _ _ hk, hbytes⟩
  have hheard : ∀ j d printed, Heard P s j d printed →
      Heard P (Function.update s i c) j d printed := by
    rintro j d printed ⟨packet, hk, hprinted⟩
    exact ⟨packet, hsent _ _ _ hk, hprinted⟩
  refine ⟨fun j => ?_, fun j d hd => ?_, fun j d printed hd => ?_⟩
  · by_cases hj : j = i
    · subst hj
      rwa [Function.update_self]
    · rw [Function.update_of_ne hj]
      exact h.each j
  · by_cases hj : j = i
    · subst hj
      rw [Function.update_self] at hd
      exact hgenuine d ((hm.inbox d hd).elim (h.inbox j d) id)
    · rw [Function.update_of_ne hj] at hd
      exact hgenuine d (h.inbox j d hd)
  · by_cases hj : j = i
    · subst hj
      rw [Function.update_self] at hd
      rcases hm.heard d printed hd with hold | ⟨hin, stale, heq⟩
      · exact hheard j d printed (h.heard j d printed hold)
      · obtain ⟨packet, hk, hbytes⟩ := h.inbox j d hin
        refine ⟨packet, hsent _ _ _ hk, ?_⟩
        have hdelivered := P.delivered_datagram d.sender j packet.1 packet.2 stale
        rw [Participants.delivered, ← hbytes] at hdelivered
        exact heq.trans hdelivered
    · rw [Function.update_of_ne hj] at hd
      exact hheard j d printed (h.heard j d printed hd)

/-- A step of one participant by itself. -/
theorem Inv.moves {i : ι} {c : Chatter ι} (h : Inv P s) (hm : (s i).Moves (P.pid i) c) :
    Inv P (Function.update s i c) := by
  obtain ⟨hsent, hinbox, hheard⟩ := hm.frame
  exact h.update ((h.each i).moves hm) ⟨hsent, fun d hd => Or.inl (hinbox d hd), hheard⟩

theorem Inv.step {a : Action ι} (h : Inv P s) (hs : step P s a = some s') : Inv P s' := by
  cases a with
  | type i bytes =>
    obtain ⟨console, hconsole, rfl⟩ := Option.map_eq_some_iff.1 hs
    exact h.moves (.type bytes console hconsole)
  | hangup i =>
    obtain rfl := Option.some.inj hs
    exact h.moves .hangup
  | sigint i interrupts =>
    obtain ⟨c, hc, rfl⟩ := Option.map_eq_some_iff.1 hs
    exact h.moves (Chatter.moves_of_sigint hc)
  | deliver i j number =>
    obtain ⟨packet, hk, rfl⟩ := Option.map_eq_some_iff.1 hs
    have hj : Chatter.Inv { s j with
        inbox := (s j).inbox ++ [⟨i, number, P.datagram i packet.1 packet.2⟩] } :=
      ⟨{ (h.each j).said with }, { (h.each j).reads with }⟩
    refine h.update hj ⟨List.prefix_refl _, fun d hd => ?_, fun d printed hd => Or.inl hd⟩
    rcases List.mem_append.1 hd with hd | hd
    · exact Or.inl hd
    · obtain rfl := List.mem_singleton.1 hd
      exact Or.inr ⟨packet, hk, rfl⟩
  | turn i t =>
    obtain ⟨c, hc, rfl⟩ := Option.map_eq_some_iff.1 hs
    exact h.moves (Chatter.moves_of_turn hc)

omit [DecidableEq ι] in
theorem inv_init (P : Participants ι H) : Inv P fun _ => Chatter.init where
  each _ := Chatter.inv_init
  inbox _ _ hd := by cases hd
  heard _ _ _ hd := by cases hd

theorem inv_of_run {actions : List (Action ι)}
    (h : runFrom (step P) (fun _ => Chatter.init) actions = some s) : Inv P s :=
  runFrom_invariant (P := Inv P) (fun _ _ _ hi hs => hi.step hs) (inv_init P) h

/-! ## Main results -/

/-- What the sessions look like at one moment. -/
structure SessionLaw (P : Participants ι H) (s : ι → Chatter ι) : Prop where
  /-- A participant sends its join, a packet for each message it has typed, and at its end the
  leave. -/
  sent : ∀ i, (s i).sent = (s i).pc.opening ++
    (((s i).console.lines.filterMap message).map (fun text => (.chat, some text)) ++
      (s i).pc.closing)
  /-- Its lines are cut from what was typed, in order, and fit into the buffer. -/
  lines : ∀ i, (s i).console.lines.flatten <+: (s i).console.typed ∧
    ∀ line ∈ (s i).console.lines, line.length < maxTextLen ∧ 10 ∉ line.dropLast
  /-- Nothing is read behind `exit`. -/
  exit : ∀ i, ∀ line ∈ (s i).console.lines.dropLast, ¬ IsExit (chomp line)
  /-- It sees its own messages, and no other, as its own. -/
  own : ∀ i, (s i).screen.filterMap Piece.ownText = (s i).console.lines.filterMap message
  /-- What it sees of others was sent by them; a message is the text its sender has seen. -/
  heard : ∀ j d printed, .heard d printed ∈ (s j).screen → Heard P s j d printed ∧
    ∀ text, (s d.sender).sent[d.number]? = some (.chat, text) →
      .own (shownText text) ∈ (s d.sender).screen

/-- **The sessions of the chat**, in every state of every run. -/
theorem session_law {actions : List (Action ι)} {s : ι → Chatter ι}
    (h : runFrom (step P) (fun _ => Chatter.init) actions = some s) : SessionLaw P s := by
  have hi := inv_of_run h
  have hfits := fun i => (hi.each i).reads.taken.fits
  refine ⟨fun i => (hi.each i).said.sent,
    fun i => ⟨(hi.each i).reads.taken.isPrefix, fun line hline => ?_⟩,
    fun i => (hi.each i).reads.last, fun i => (hi.each i).said.own,
    fun j d printed hd => ⟨hi.heard j d printed hd, fun text hk => ?_⟩⟩
  · exact ⟨(hfits i line hline).2.length_lt, (hfits i line hline).2.newline⟩
  · -- the packet is that of a line, whose message its sender has printed
    have hmem := List.mem_of_getElem? hk
    rw [(hi.each d.sender).said.sent] at hmem
    have hchat : (MsgType.chat, text) ∈
        ((s d.sender).console.lines.filterMap message).map
          fun text => (MsgType.chat, some text) := by
      rcases List.mem_append.1 hmem with hmem | hmem
      · cases hpc : (s d.sender).pc <;> simp [hpc, Pc.opening] at hmem
      · rcases List.mem_append.1 hmem with hmem | hmem
        · exact hmem
        · cases hpc : (s d.sender).pc <;> simp [hpc, Pc.closing] at hmem
    obtain ⟨own, hown, heq⟩ := List.mem_map.1 hchat
    cases heq
    obtain ⟨line, hline, hmessage⟩ := List.mem_filterMap.1 hown
    rw [shownText_message hmessage (hfits _ line hline).2.length_lt]
    rw [← (hi.each d.sender).said.own] at hown
    obtain ⟨piece, hpiece, hpown⟩ := List.mem_filterMap.1 hown
    cases piece <;> cases hpown
    exact hpiece

/-- Two participants on one host. -/
def neighbours : Participants Bool Unit where
  host _ := ()
  pid i := if i then 17 else 18
  nickname i := if i then [97] else [98]
  host_pid i j _ hpid := by
    revert hpid
    cases i <;> cases j <;> decide

/-- The one participant types `hi`, and the other displays it. -/
def hiRun : List (Action Bool) :=
  [.turn true .start, .turn true .loop, .type true [104, 105, 10], .turn true (.select false),
    .turn true (.refill 3), .turn true .line, .turn false .start, .turn false .loop,
    .deliver true false 1, .turn false (.select false), .turn false (.receive (fun _ => 0) false)]

theorem session_law_hi : ∃ s, runFrom (step neighbours) (fun _ => Chatter.init) hiRun = some s ∧
    (s true).sent = [(.join, none), (.chat, some [104, 105])] ∧ SessionLaw neighbours s := by
  have h : runFrom (step neighbours) (fun _ => Chatter.init) hiRun = some _ := rfl
  exact ⟨_, h, rfl, session_law h⟩

/-! ### On a terminal -/

/-- The terminal delivers a line at a time, and the line fits the 512-byte buffer of `fgets`. -/
def OnTerminal (s : ι → Chatter ι) : Action ι → Prop
  | .turn i (.refill n) => (s i).console.stdin.TakesPiece maxTextLen n
  | _ => True

omit [DecidableEq ι] in
theorem buffer_afterPacket {c : Chatter ι} (hbuffer : c.console.stdin.buffer = [])
    (input : Bool) : (c.afterPacket input).console.stdin.buffer = [] := by
  cases input with
  | false => exact hbuffer
  | true => exact Reader.buffer_enter maxTextLen hbuffer

omit [DecidableEq ι] in
theorem console_handleUserInput (line : List UInt8) (c : Chatter ι) :
    (c.handleUserInput line).console = c.console := by
  rw [Chatter.handleUserInput]
  split
  · rfl
  · split <;> rfl

omit [DecidableEq ι] in
/-- On a terminal the buffer of stdio keeps nothing back. -/
theorem buffer_turn {c c' : Chatter ι} {pid : Int32} {t : Chatter.Turn} (hc : c.Inv)
    (hbuffer : c.console.stdin.buffer = [])
    (hterminal : ∀ n, t = .refill n → c.console.stdin.TakesPiece maxTextLen n)
    (hs : c.turn pid t = some c') : c'.console.stdin.buffer = [] := by
  have hafter := buffer_afterPacket hbuffer
  cases t with
  | line =>
    rw [Chatter.turn] at hs
    split at hs
    · obtain ⟨⟨out, console⟩, hfinish, rfl⟩ := Option.map_eq_some_iff.1 hs
      have hconsole := (Console.buffer_finish hfinish).trans hbuffer
      cases out with
      | none => exact hconsole
      | some line =>
        simp only [console_handleUserInput]
        exact hconsole
    · cases hs
  | refill n =>
    rw [Chatter.turn] at hs
    split at hs
    · rename_i hpc
      obtain ⟨console, hrefill, rfl⟩ := Option.map_eq_some_iff.1 hs
      exact (hc.reads.busy hpc).buffer_refill (hterminal n rfl) hrefill
    · cases hs
  | _ => grind [Chatter.turn]

omit [DecidableEq ι] in
theorem buffer_sigint {c c' : Chatter ι} {interrupts : Bool}
    (hbuffer : c.console.stdin.buffer = []) (hs : c.sigint interrupts = some c') :
    c'.console.stdin.buffer = [] := by
  rw [Chatter.sigint] at hs
  split at hs
  · split at hs
    · obtain rfl := Option.some.inj hs
      exact hbuffer
    · obtain ⟨console, hinterrupt, rfl⟩ := Option.map_eq_some_iff.1 hs
      exact (Console.buffer_interrupt hinterrupt).trans hbuffer
    · cases hs
  · obtain rfl := Option.some.inj hs
    exact hbuffer

theorem buffer_step {a : Action ι} (hi : Inv P s) (hbuffer : ∀ i, (s i).console.stdin.buffer = [])
    (hterminal : OnTerminal s a) (hs : step P s a = some s') (i : ι) :
    (s' i).console.stdin.buffer = [] := by
  have hupdate : ∀ j c, c.console.stdin.buffer = [] →
      (Function.update s j c i).console.stdin.buffer = [] := by
    intro j c hc
    by_cases hij : i = j
    · subst hij
      rwa [Function.update_self]
    · rw [Function.update_of_ne hij]
      exact hbuffer i
  cases a with
  | type j bytes =>
    obtain ⟨console, hconsole, rfl⟩ := Option.map_eq_some_iff.1 hs
    refine hupdate j _ ?_
    obtain rfl := Console.type_eq_some hconsole
    exact hbuffer j
  | hangup j =>
    obtain rfl := Option.some.inj hs
    exact hupdate j _ (hbuffer j)
  | sigint j interrupts =>
    obtain ⟨c, hc, rfl⟩ := Option.map_eq_some_iff.1 hs
    exact hupdate j c (buffer_sigint (hbuffer j) hc)
  | deliver j k number =>
    obtain ⟨packet, -, rfl⟩ := Option.map_eq_some_iff.1 hs
    exact hupdate k _ (hbuffer k)
  | turn j t =>
    obtain ⟨c, hc, rfl⟩ := Option.map_eq_some_iff.1 hs
    refine hupdate j c (buffer_turn (hi.each j) (hbuffer j) ?_ hc)
    rintro n rfl
    exact hterminal

/-- **On a terminal nothing is held back** of lines that fit the 512-byte buffer of `fgets`: when a
participant waits and there is nothing left to read, all that was typed is in the lines it has
handled. Of a longer line `fgets` takes 511 bytes, and `select` does not see the rest in stdio. -/
theorem all_lines_sent {actions : List (Action ι)} {s : ι → Chatter ι}
    (h : runFrom (step P) (fun _ => Chatter.init) actions = some s)
    (hterminal : StepsMeet (step P) OnTerminal (fun _ => Chatter.init) actions) {i : ι}
    (hselect : (s i).pc = .select) (hpending : (s i).console.stdin.pending = []) :
    (s i).console.lines.flatten = (s i).console.typed := by
  have hboth : Inv P s ∧ ∀ i, (s i).console.stdin.buffer = [] :=
    runFrom_invariant_of_meet (P := fun s => Inv P s ∧ ∀ i, (s i).console.stdin.buffer = [])
      (fun s a s' hp ha hs => ⟨hp.1.step hs, buffer_step hp.1 hp.2 ha hs⟩)
      ⟨inv_init P, fun _ => rfl⟩ hterminal h
  have hreads : (s i).running = true ∨ (s i).pc.Reads := by
    rw [hselect]
    exact Or.inr trivial
  have hidle := (hboth.1.each i).reads.idle hreads (by rw [hselect]; exact Pc.noConfusion)
  exact hidle.inv.flatten_eq hidle.line (hboth.2 i) hpending

omit [DecidableEq ι] in
/-- A piece that the terminal delivers. -/
theorem onTerminal_refill {s : ι → Chatter ι} {i : ι} {n : ℕ} {line : List UInt8}
    (hline : (s i).console.stdin.line = some line)
    (hpiece : 10 ∉ ((s i).console.stdin.pending.take n).dropLast ∧
      line.length + ((s i).console.stdin.pending.take n).length < maxTextLen) :
    OnTerminal s (.turn i (.refill n)) := by
  intro line' hline'
  obtain rfl := Option.some.inj (hline.symm.trans hline')
  exact hpiece

/-- Two lines are typed at once, and wake the participant. -/
def twoLines : List (Action Bool) :=
  [.turn true .start, .turn true .loop, .type true (ascii "hi\nyo\n"), .turn true (.select false)]

/-- The turns that take a line of three bytes. -/
def lineTurns : List (Action Bool) := [.turn true (.refill 3), .turn true .line, .turn true .loop]

/-- The first line has been taken, and `select` finds the second one. -/
def oneTaken : List (Action Bool) := twoLines ++ (lineTurns ++ [.turn true (.select false)])

theorem all_lines_sent_hi :
    ∃ s, runFrom (step neighbours) (fun _ => Chatter.init) (oneTaken ++ lineTurns) = some s ∧
      (s true).sent = [(.join, none), (.chat, some (ascii "hi")), (.chat, some (ascii "yo"))] ∧
      (s true).console.typed = ascii "hi\nyo\n" ∧
      (s true).console.lines.flatten = (s true).console.typed := by
  obtain ⟨t, ht, htline, htpending⟩ : ∃ t, runFrom (step neighbours) (fun _ => Chatter.init)
      twoLines = some t ∧ (t true).console.stdin.line = some [] ∧
      (t true).console.stdin.pending = ascii "hi\nyo\n" := ⟨_, rfl, rfl, rfl⟩
  obtain ⟨u, hu, huline, hupending⟩ : ∃ u, runFrom (step neighbours) (fun _ => Chatter.init)
      oneTaken = some u ∧ (u true).console.stdin.line = some [] ∧
      (u true).console.stdin.pending = ascii "yo\n" := ⟨_, rfl, rfl, rfl⟩
  obtain ⟨s, hs, hselect, hpending, hsent, htyped⟩ : ∃ s, runFrom (step neighbours)
      (fun _ => Chatter.init) (oneTaken ++ lineTurns) = some s ∧
      (s true).pc = .select ∧ (s true).console.stdin.pending = [] ∧
      (s true).sent = [(.join, none), (.chat, some (ascii "hi")), (.chat, some (ascii "yo"))] ∧
      (s true).console.typed = ascii "hi\nyo\n" := ⟨_, rfl, rfl, rfl, rfl, rfl⟩
  have hfirst : OnTerminal t (.turn true (.refill 3)) :=
    onTerminal_refill htline (by rw [htpending]; decide)
  have hsecond : OnTerminal u (.turn true (.refill 3)) :=
    onTerminal_refill huline (by rw [hupending]; decide)
  have htaken : StepsMeet (step neighbours) OnTerminal (fun _ => Chatter.init) oneTaken :=
    (stepsMeet_of_forall (by simp [twoLines, OnTerminal]) _).append ht
      ⟨hfirst, fun _ _ => stepsMeet_of_forall (by simp [OnTerminal]) _⟩
  have hterminal : StepsMeet (step neighbours) OnTerminal (fun _ => Chatter.init)
      (oneTaken ++ lineTurns) :=
    htaken.append hu ⟨hsecond, fun _ _ => stepsMeet_of_forall (by simp [OnTerminal]) _⟩
  exact ⟨s, hs, hsent, htyped, all_lines_sent hs hterminal hselect hpending⟩

end Law

end EltexPractice.UdpChat
