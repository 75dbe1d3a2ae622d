import EltexPractice.Foundations.CString
import EltexPractice.Foundations.PriorityQueue
import EltexPractice.Foundations.Schedule

/-!
# Two processes in a chat

`run_chat_loop` and `receive_thread_func` of task 3, on both sides of a chat whose queues are open.
Each process has a main thread and a receiving thread; the program counters stand in front of the
calls, and a call that blocks is a step of its own, so that a signal can come before the call, in
it or after it. A step that has to wait is not possible. What the user types is an argument of the
step: `fgets` returns at most 255 bytes, or NULL at the end of the input. A message of `mq_send` is
the string of its text, so `%s` of the terminated receive buffer prints all of it.
-/

namespace EltexPractice.P2pChat

open CString

/-- `MSG_BUFFER_SIZE` -/
def msgBufferSize : ℕ := 256

/-- `MAX_MESSAGES` -/
def maxMessages : ℕ := 10

/-- `EXIT_PRIORITY` -/
def exitPriority : ℕ := 255

/-- Where the main thread is; a call with `blocked` is waiting in the kernel. -/
inductive MainPc
  /-- `while (!g_exit_flag)` -/
  | test
  | fgets (blocked : Bool)
  /-- `mq_send` of a line -/
  | send (text : List UInt8) (blocked : Bool)
  /-- `if (g_exit_flag && !session->peer_exited)` -/
  | testExit
  /-- `mq_send` of the exit message -/
  | sendExit (blocked : Bool)
  /-- `pthread_cancel` -/
  | cancel
  /-- `pthread_join` -/
  | join
  /-- `run_chat_loop` has returned. -/
  | ended
  deriving DecidableEq

/-- Where the receiving thread is. -/
inductive RxPc
  /-- `mq_receive` -/
  | receive
  /-- `printf` of a line -/
  | display (text : List UInt8)
  /-- The exit message has been received; `session->peer_exited = 1` comes next. -/
  | gotExit
  /-- `g_exit_flag = 1` -/
  | setFlag
  /-- `pthread_kill(main_thread_id, SIGUSR1)` -/
  | kill
  /-- The loop has been left after the exit message. -/
  | returned
  /-- The loop has been left because `mq_receive` failed. -/
  | failed
  | cancelled
  deriving DecidableEq

/-- `SIGUSR1` for the main thread. -/
inductive Usr1
  | none
  | pending
  | delivered
  deriving DecidableEq

/-- One process. -/
structure Party where
  main : MainPc
  rx : RxPc
  gExitFlag : Bool
  peerExited : Bool
  cancelRequested : Bool
  usr1 : Usr1
  /-- The lines `mq_send` has accepted. -/
  accepted : List (List UInt8)
  /-- The lines the receiving thread has printed. -/
  displayed : List (List UInt8)
  deriving DecidableEq

/-- A process when its receiving thread has been created. -/
def Party.init : Party := ⟨.test, .receive, false, false, false, .none, [], []⟩

/-- What the next call of the main thread gets from outside. -/
inductive Input
  | line (chunk : List UInt8)
  | eof
  | nothing

/-- The messages of a direction. -/
abbrev MsgQueue := PriorityQueue (List UInt8)

namespace Party

/-- `tx_buffer` without the newline at its end. -/
def stripNewline (txBuffer : List UInt8) : List UInt8 :=
  if txBuffer.getLast? = some 10 then txBuffer.dropLast else txBuffer

/-- The body of the loop between the reading of a line and `mq_send`. -/
def gotLine (P : Party) (txBuffer : List UInt8) : Party :=
  if txBuffer = ascii "/exit" then { P with gExitFlag := true, main := .testExit }
  else if txBuffer = [] then { P with main := .test }
  else { P with main := .send txBuffer false }

/-- The next step of the main thread; `q` is the queue it sends to. -/
def mainStep (P : Party) (q : MsgQueue) (input : Input) : Option (Party × MsgQueue) :=
  match P.main with
  | .test => some ({ P with main := if P.gExitFlag then .testExit else .fgets false }, q)
  | .fgets blocked =>
    match input with
    | .line chunk =>
      if chunk ≠ [] ∧ chunk.length < msgBufferSize ∧ 10 ∉ chunk.dropLast then
        some (P.gotLine (stripNewline (cstr chunk)), q)
      else none
    -- with and without the flag, the loop is left with the flag set
    | .eof => some ({ P with gExitFlag := true, main := .testExit }, q)
    | .nothing => if blocked then none else some ({ P with main := .fgets true }, q)
  | .send text blocked =>
    if q.length < maxMessages then
      some ({ P with main := .test, accepted := P.accepted ++ [text] }, q.send 1 text)
    else if blocked then none else some ({ P with main := .send text true }, q)
  | .testExit =>
    some ({ P with
      main := if P.gExitFlag && !P.peerExited then .sendExit false else .cancel }, q)
  | .sendExit blocked =>
    if q.length < maxMessages then
      some ({ P with main := .cancel }, q.send exitPriority (ascii "EXIT"))
    else if blocked then none else some ({ P with main := .sendExit true }, q)
  | .cancel => some ({ P with cancelRequested := true, main := .join }, q)
  | .join =>
    if P.rx = .returned ∨ P.rx = .failed ∨ P.rx = .cancelled then
      some ({ P with main := .ended }, q)
    else none
  | .ended => none

/-- The next step of the receiving thread; `q` is the queue it receives from. With `cancelled` a
requested cancellation takes effect in the call. -/
def rxStep (P : Party) (q : MsgQueue) (cancelled : Bool) : Option (Party × MsgQueue) :=
  match P.rx with
  | .receive =>
    if P.cancelRequested then some ({ P with rx := .cancelled }, q)
    else match q with
      | [] => none
      | (prio, text) :: q =>
        if prio = exitPriority then some ({ P with rx := .gotExit }, q)
        else some ({ P with rx := .display text }, q)
  | .display text =>
    if P.cancelRequested && cancelled then some ({ P with rx := .cancelled }, q)
    else some ({ P with rx := .receive, displayed := P.displayed ++ [text] }, q)
  | .gotExit =>
    if P.cancelRequested && cancelled then some ({ P with rx := .cancelled }, q)
    else some ({ P with peerExited := true, rx := .setFlag }, q)
  | .setFlag => some ({ P with gExitFlag := true, rx := .kill }, q)
  | .kill => some ({ P with usr1 := .pending, rx := .returned }, q)
  | .returned => none
  | .failed => none
  | .cancelled => none

/-- A signal whose handler has returned: a blocked call of the main thread fails with `EINTR`. -/
def interrupt (P : Party) : Party :=
  match P.main with
  | .fgets true => { P with gExitFlag := true, main := .testExit }
  | .send _ true => { P with main := .test }
  | .sendExit true => { P with main := .cancel }
  | _ => P

/-- `SIGINT`, handled by the main thread. -/
def sigint (P : Party) : Party := { P with gExitFlag := true }.interrupt

/-- `SIGINT`, handled by the receiving thread, with its `mq_receive` waiting or not. -/
def sigintRx (P : Party) (q : MsgQueue) (blocked : Bool) : Option Party :=
  if blocked then
    if P.rx = .receive ∧ q = [] then some { P with gExitFlag := true, rx := .failed } else none
  else some { P with gExitFlag := true }

/-- `SIGUSR1` gets to the main thread. -/
def deliver (P : Party) : Option Party :=
  if P.usr1 = .pending then some { P with usr1 := .delivered }.interrupt else none

end Party

/-- A chat: two processes, and for each of them the queue it sends to. -/
structure Chat where
  party : Bool → Party
  queue : Bool → MsgQueue

def Chat.init : Chat := ⟨fun _ => .init, fun _ => []⟩

/-- A step of the process `x`. -/
inductive Move
  | main (input : Input)
  | rx (cancelled : Bool)
  | sigint
  | sigintRx (blocked : Bool)
  | deliver

namespace Chat

/-- The process `x` and the queue the process `y` sends to are changed. -/
def set (s : Chat) (x : Bool) (P : Party) (y : Bool) (q : MsgQueue) : Chat :=
  ⟨Function.update s.party x P, Function.update s.queue y q⟩

section Set

variable (s : Chat) (x : Bool) (P : Party) (y : Bool) (q : MsgQueue)

@[simp] theorem party_set_self : (s.set x P y q).party x = P := Function.update_self ..

@[simp] theorem party_set_not : (s.set x P y q).party (!x) = s.party !x :=
  Function.update_of_ne (by simp) ..

@[simp] theorem party_set_of_not : (s.set (!x) P y q).party x = s.party x :=
  Function.update_of_ne (by simp) ..

@[simp] theorem queue_set_self : (s.set x P y q).queue y = q := Function.update_self ..

@[simp] theorem queue_set_of_not : (s.set x P (!y) q).queue y = s.queue y :=
  Function.update_of_ne (by simp) ..

end Set

/-- One action. -/
def step (s : Chat) : Bool × Move → Option Chat
  | (x, .main input) =>
    ((s.party x).mainStep (s.queue x) input).map fun (P, q) => s.set x P x q
  | (x, .rx cancelled) =>
    ((s.party x).rxStep (s.queue !x) cancelled).map fun (P, q) => s.set x P (!x) q
  | (x, .sigint) => some (s.set x (s.party x).sigint x (s.queue x))
  | (x, .sigintRx blocked) =>
    ((s.party x).sigintRx (s.queue !x) blocked).map fun P => s.set x P x (s.queue x)
  | (x, .deliver) => (s.party x).deliver.map fun P => s.set x P x (s.queue x)

end Chat

/-! ## What the threads can do -/

namespace Party

/-- The steps of the main thread. -/
inductive MainMoves (P : Party) (q : MsgQueue) : Party → MsgQueue → Prop
  | test (hpc : P.main = .test) :
      MainMoves P q { P with main := if P.gExitFlag then .testExit else .fgets false } q
  | line {blocked : Bool} (hpc : P.main = .fgets blocked) (text : List UInt8) :
      MainMoves P q (P.gotLine text) q
  | eof {blocked : Bool} (hpc : P.main = .fgets blocked) :
      MainMoves P q { P with gExitFlag := true, main := .testExit } q
  | wait (hpc : P.main = .fgets false) : MainMoves P q { P with main := .fgets true } q
  | send {text : List UInt8} {blocked : Bool} (hpc : P.main = .send text blocked)
      (hroom : q.length < maxMessages) :
      MainMoves P q { P with main := .test, accepted := P.accepted ++ [text] } (q.send 1 text)
  | blockSend {text : List UInt8} (hpc : P.main = .send text false)
      (hfull : maxMessages ≤ q.length) : MainMoves P q { P with main := .send text true } q
  | testExit (hpc : P.main = .testExit) :
      MainMoves P q { P with
        main := if P.gExitFlag && !P.peerExited then .sendExit false else .cancel } q
  | sendExit {blocked : Bool} (hpc : P.main = .sendExit blocked) (hroom : q.length < maxMessages) :
      MainMoves P q { P with main := .cancel } (q.send exitPriority (ascii "EXIT"))
  | blockExit (hpc : P.main = .sendExit false) (hfull : maxMessages ≤ q.length) :
      MainMoves P q { P with main := .sendExit true } q
  | cancel (hpc : P.main = .cancel) :
      MainMoves P q { P with cancelRequested := true, main := .join } q
  | join (hpc : P.main = .join) (hrx : P.rx = .returned ∨ P.rx = .failed ∨ P.rx = .cancelled) :
      MainMoves P q { P with main := .ended } q

/-- The steps of the receiving thread. -/
inductive RxMoves (P : Party) (q : MsgQueue) : Party → MsgQueue → Prop
  | cancelled (hreq : P.cancelRequested = true)
      (hpc : P.rx = .receive ∨ (∃ text, P.rx = .display text) ∨ P.rx = .gotExit) :
      RxMoves P q { P with rx := .cancelled } q
  | gotExit {text : List UInt8} {q' : MsgQueue} (hpc : P.rx = .receive)
      (hq : q = (exitPriority, text) :: q') : RxMoves P q { P with rx := .gotExit } q'
  | received {prio : ℕ} {text : List UInt8} {q' : MsgQueue} (hpc : P.rx = .receive)
      (hq : q = (prio, text) :: q') (hprio : prio ≠ exitPriority) :
      RxMoves P q { P with rx := .display text } q'
  | display {text : List UInt8} (hpc : P.rx = .display text) :
      RxMoves P q { P with rx := .receive, displayed := P.displayed ++ [text] } q
  | setPeer (hpc : P.rx = .gotExit) : RxMoves P q { P with peerExited := true, rx := .setFlag } q
  | setFlag (hpc : P.rx = .setFlag) : RxMoves P q { P with gExitFlag := true, rx := .kill } q
  | kill (hpc : P.rx = .kill) : RxMoves P q { P with usr1 := .pending, rx := .returned } q

variable {P P' : Party} {q q' : MsgQueue}

theorem mainMoves_of_step {input : Input} (h : P.mainStep q input = some (P', q')) :
    MainMoves P q P' q' := by
  cases hpc : P.main <;> simp only [mainStep, hpc] at h
  case test =>
    obtain ⟨rfl, rfl⟩ := Prod.mk.inj (Option.some.inj h)
    exact .test hpc
  case fgets blocked =>
    split at h
    · split at h
      · obtain ⟨rfl, rfl⟩ := Prod.mk.inj (Option.some.inj h)
        exact .line hpc _
      · cases h
    · obtain ⟨rfl, rfl⟩ := Prod.mk.inj (Option.some.inj h)
      exact .eof hpc
    · split at h
      · cases h
      · rename_i hblocked
        obtain ⟨rfl, rfl⟩ := Prod.mk.inj (Option.some.inj h)
        exact .wait (by rw [hpc, Bool.eq_false_iff.2 hblocked])
  case send text blocked =>
    split at h
    · rename_i hroom
      obtain ⟨rfl, rfl⟩ := Prod.mk.inj (Option.some.inj h)
      exact .send hpc hroom
    · rename_i hfull
      split at h
      · cases h
      · rename_i hblocked
        obtain ⟨rfl, rfl⟩ := Prod.mk.inj (Option.some.inj h)
        exact .blockSend (by rw [hpc, Bool.eq_false_iff.2 hblocked]) (not_lt.1 hfull)
  case testExit =>
    obtain ⟨rfl, rfl⟩ := Prod.mk.inj (Option.some.inj h)
    exact .testExit hpc
  case sendExit blocked =>
    split at h
    · rename_i hroom
      obtain ⟨rfl, rfl⟩ := Prod.mk.inj (Option.some.inj h)
      exact .sendExit hpc hroom
    · rename_i hfull
      split at h
      · cases h
      · rename_i hblocked
        obtain ⟨rfl, rfl⟩ := Prod.mk.inj (Option.some.inj h)
        exact .blockExit (by rw [hpc, Bool.eq_false_iff.2 hblocked]) (not_lt.1 hfull)
  case cancel =>
    obtain ⟨rfl, rfl⟩ := Prod.mk.inj (Option.some.inj h)
    exact .cancel hpc
  case join =>
    split at h
    · rename_i hrx
      obtain ⟨rfl, rfl⟩ := Prod.mk.inj (Option.some.inj h)
      exact .join hpc hrx
    · cases h
  case ended => cases h

theorem rxMoves_of_step {cancelled : Bool} (h : P.rxStep q cancelled = some (P', q')) :
    RxMoves P q P' q' := by
  cases hpc : P.rx <;> simp only [rxStep, hpc] at h
  case receive =>
    split at h
    · rename_i hreq
      obtain ⟨rfl, rfl⟩ := Prod.mk.inj (Option.some.inj h)
      exact .cancelled hreq (Or.inl hpc)
    · split at h
      · cases h
      · split at h <;> obtain ⟨rfl, rfl⟩ := Prod.mk.inj (Option.some.inj h)
        · rename_i hprio
          exact .gotExit hpc (by rw [hprio])
        · rename_i hprio
          exact .received hpc rfl hprio
  case display text =>
    split at h <;> obtain ⟨rfl, rfl⟩ := Prod.mk.inj (Option.some.inj h)
    · rename_i hreq
      exact .cancelled (Bool.and_eq_true_iff.1 hreq).1 (Or.inr (Or.inl ⟨text, hpc⟩))
    · exact .display hpc
  case gotExit =>
    split at h <;> obtain ⟨rfl, rfl⟩ := Prod.mk.inj (Option.some.inj h)
    · rename_i hreq
      exact .cancelled (Bool.and_eq_true_iff.1 hreq).1 (Or.inr (Or.inr hpc))
    · exact .setPeer hpc
  case setFlag =>
    obtain ⟨rfl, rfl⟩ := Prod.mk.inj (Option.some.inj h)
    exact .setFlag hpc
  case kill =>
    obtain ⟨rfl, rfl⟩ := Prod.mk.inj (Option.some.inj h)
    exact .kill hpc
  all_goals cases h

/-- What a line typed by the user leads to. -/
theorem gotLine_cases (P : Party) (text : List UInt8) :
    P.gotLine text = { P with gExitFlag := true, main := .testExit } ∨
      P.gotLine text = { P with main := .test } ∨
      P.gotLine text = { P with main := .send text false } := by
  rw [gotLine]
  split
  · exact Or.inl rfl
  · split
    · exact Or.inr (Or.inl rfl)
    · exact Or.inr (Or.inr rfl)

/-- What a signal does to the main thread. -/
theorem interrupt_cases (P : Party) :
    (P.main = .fgets true ∧ P.interrupt = { P with gExitFlag := true, main := .testExit }) ∨
      ((∃ text, P.main = .send text true) ∧ P.interrupt = { P with main := .test }) ∨
      (P.main = .sendExit true ∧ P.interrupt = { P with main := .cancel }) ∨
      ((∀ text, P.main ≠ .send text true) ∧ P.main ≠ .fgets true ∧ P.main ≠ .sendExit true ∧
        P.interrupt = P) := by
  rw [interrupt]
  split
  · rename_i hpc
    exact Or.inl ⟨hpc, rfl⟩
  · rename_i text hpc
    exact Or.inr (Or.inl ⟨⟨text, hpc⟩, rfl⟩)
  · rename_i hpc
    exact Or.inr (Or.inr (Or.inl ⟨hpc, rfl⟩))
  · rename_i h₁ h₂ h₃
    exact Or.inr (Or.inr (Or.inr ⟨fun text hpc => h₂ text hpc, h₁, h₃, rfl⟩))

end Party

/-- The steps of the process `y`. -/
inductive Chat.Moves (s : Chat) (y : Bool) : Move → Chat → Prop
  | main {input : Input} {P : Party} {q : MsgQueue}
      (h : (s.party y).MainMoves (s.queue y) P q) : Moves s y (.main input) (s.set y P y q)
  | rx {cancelled : Bool} {P : Party} {q : MsgQueue}
      (h : (s.party y).RxMoves (s.queue !y) P q) : Moves s y (.rx cancelled) (s.set y P (!y) q)
  | sigint : Moves s y .sigint (s.set y (s.party y).sigint y (s.queue y))
  | sigintRx {blocked : Bool} :
      Moves s y (.sigintRx blocked)
        (s.set y { s.party y with gExitFlag := true } y (s.queue y))
  | sigintReceive (hpc : (s.party y).rx = .receive) :
      Moves s y (.sigintRx true)
        (s.set y { s.party y with gExitFlag := true, rx := .failed } y (s.queue y))
  | deliver (hpending : (s.party y).usr1 = .pending) :
      Moves s y .deliver
        (s.set y { s.party y with usr1 := .delivered : Party }.interrupt y (s.queue y))

theorem Chat.moves_of_step {s s' : Chat} {y : Bool} {m : Move} (h : s.step (y, m) = some s') :
    s.Moves y m s' := by
  cases m with
  | main input =>
    obtain ⟨⟨P, q⟩, hP, rfl⟩ := Option.map_eq_some_iff.1 h
    exact .main (Party.mainMoves_of_step hP)
  | rx cancelled =>
    obtain ⟨⟨P, q⟩, hP, rfl⟩ := Option.map_eq_some_iff.1 h
    exact .rx (Party.rxMoves_of_step hP)
  | sigint =>
    obtain rfl := Option.some.inj h
    exact .sigint
  | sigintRx blocked =>
    obtain ⟨P, hP, rfl⟩ := Option.map_eq_some_iff.1 h
    rw [Party.sigintRx] at hP
    split at hP
    · rename_i hblocked
      subst hblocked
      split at hP
      · rename_i hpc
        obtain rfl := Option.some.inj hP
        exact .sigintReceive hpc.1
      · cases hP
    · obtain rfl := Option.some.inj hP
      exact .sigintRx
  | deliver =>
    obtain ⟨P, hP, rfl⟩ := Option.map_eq_some_iff.1 h
    rw [Party.deliver] at hP
    split at hP
    · rename_i hpending
      obtain rfl := Option.some.inj hP
      exact .deliver hpending
    · cases hP

end EltexPractice.P2pChat
