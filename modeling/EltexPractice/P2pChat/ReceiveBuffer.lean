import EltexPractice.Foundations.CheckedMemory
import EltexPractice.P2pChat.Chat

/-!
# The receive buffer of the chat

`receive_thread_func` of task 3 with its `rx_buffer`, every access checked. The queues have room for
messages of `MSG_BUFFER_SIZE` bytes, and the buffer has as many; the zero behind a message is
stored in one more byte. Anyone who can open the queue can send to it.

* `wp_receiveTurn`: which messages leave room for the zero.
* `Receiving.intact_iff`: the runs in which the thread writes only inside the buffer.
* `Receiving.rxStep_eq`, `Chat.isSome_receiveTurn`: with the messages of the program the thread does
  what `Party.rxStep` says, and a chat between two of its processes has no others.
-/

namespace EltexPractice.P2pChat

open CString CheckedM

/-! ## A turn of the loop -/

/-- The buffer of `receive_thread_func`. -/
inductive Region
  | rxBuffer
  deriving DecidableEq

/-- `char rx_buffer[MSG_BUFFER_SIZE]` -/
def rxBuffer (mem : Bytes) : Buffers Region := ⟨fun _ => msgBufferSize, fun _ => mem⟩

/-- What `mq_open` takes from a `struct mq_attr`. -/
structure MqAttr where
  mqMaxmsg : ℕ
  mqMsgsize : ℕ

/-- `attr` in `init_chat_queues` -/
def chatAttr : MqAttr := ⟨maxMessages, msgBufferSize⟩

/-- `mq_receive` into a buffer of `msgLen` bytes, with `m` in front of `q`: what it returns, and the
queue. -/
def mqReceive (m : ℕ × List UInt8) (q : MsgQueue) (msgLen : ℕ) : CheckedM Region (ℤ × MsgQueue) :=
  -- `EMSGSIZE`
  if msgLen < chatAttr.mqMsgsize then return (-1, m :: q)
  else do
    writeAt .rxBuffer 0 m.2
    return (m.2.length, q)

/-- The body of the loop, from `mq_receive` to the call behind it. -/
def receiveTurn (m : ℕ × List UInt8) (q : MsgQueue) : CheckedM Region (RxPc × MsgQueue) := do
  let received ← mqReceive m q msgBufferSize
  if 0 ≤ received.1 then
    writeByte .rxBuffer received.1 0
    if m.1 = exitPriority then return (.gotExit, received.2)
    else return (.display (← readStr .rxBuffer), received.2)
  else return (.failed, received.2)

/-- The call behind `mq_receive`, for a message that leaves room for the zero. -/
def afterReceive (m : ℕ × List UInt8) : RxPc :=
  if m.1 = exitPriority then .gotExit else .display (cstr m.2)

/-- What is printed of a message that the zero follows in the buffer. -/
theorem wp_printed {mem : Bytes} {text : List UInt8} (h : text.length < msgBufferSize)
    {Q : List UInt8 → Buffers Region → Prop} :
    wp (readStr .rxBuffer) Q (rxBuffer (writeBytes mem 0 (text ++ [0]))) ↔
      Q (cstr text) (rxBuffer (writeBytes mem 0 (text ++ [0]))) := by
  obtain ⟨hzero, htext⟩ := cstr_bytesAt_writeBytes (m := mem) h
  have hread : bytesAt ((rxBuffer (writeBytes mem 0 (text ++ [0]))).bytes .rxBuffer) 0
      ((rxBuffer (writeBytes mem 0 (text ++ [0]))).size .rxBuffer) =
      bytesAt (writeBytes mem 0 (text ++ [0])) 0 msgBufferSize := rfl
  rw [wp_readStr, hread, htext, and_iff_right hzero]

theorem write_rxBuffer (mem : Bytes) (a : ℕ) (l : List UInt8) :
    (rxBuffer mem).write .rxBuffer a l = rxBuffer (writeBytes mem a l) := by
  rw [rxBuffer, rxBuffer, Buffers.write, Buffers.mk.injEq]
  exact ⟨rfl, funext fun b => by cases b; exact Function.update_self ..⟩

/-- **The zero is inside the buffer** exactly when the message is shorter than the buffer. -/
theorem wp_receiveTurn (m : ℕ × List UInt8) (q : MsgQueue) (mem : Bytes)
    {Q : RxPc × MsgQueue → Buffers Region → Prop} :
    wp (receiveTurn m q) Q (rxBuffer mem) ↔ m.2.length < msgBufferSize ∧
      Q (afterReceive m, q) (rxBuffer (writeBytes mem 0 (m.2 ++ [0]))) := by
  have hreceive : mqReceive m q msgBufferSize = do
      writeAt .rxBuffer 0 m.2
      return (m.2.length, q) := if_neg (Nat.lt_irrefl _)
  have hwrite : writeBytes (writeBytes mem 0 m.2) m.2.length [0] =
      writeBytes mem 0 (m.2 ++ [0]) := by
    rw [writeBytes_append, Nat.zero_add]
  have hsize : (rxBuffer (writeBytes mem 0 m.2)).size .rxBuffer = msgBufferSize := rfl
  simp only [receiveTurn, hreceive, wp_bind, wp_writeAt, wp_pure, wp_ite, Int.natCast_nonneg,
    if_true, true_and, wp_writeByte, write_rxBuffer, Int.toNat_natCast, hwrite, hsize]
  by_cases hlt : m.2.length < msgBufferSize
  · have hfits : (rxBuffer mem).Fits .rxBuffer 0 m.2.length := by
      refine Or.inr ?_
      rw [Nat.zero_add]
      exact hlt.le
    rw [and_iff_right hfits, wp_printed hlt, afterReceive]
    split <;> rfl
  · exact iff_of_false (fun h => hlt h.2.1) (fun h => hlt h.1)

/-- The turn in a run: the buffer afterwards, or nothing when it has written outside. -/
theorem receiveTurn_run (m : ℕ × List UInt8) (q : MsgQueue) (mem : Bytes) :
    (receiveTurn m q).run (rxBuffer mem) = if m.2.length < msgBufferSize then
      some ((afterReceive m, q), rxBuffer (writeBytes mem 0 (m.2 ++ [0]))) else none := by
  split
  · rename_i hlt
    obtain ⟨out, hout, heq⟩ := (wp_receiveTurn m q mem (Q := fun r s =>
      (r, s) = ((afterReceive m, q), rxBuffer (writeBytes mem 0 (m.2 ++ [0]))))).2 ⟨hlt, rfl⟩
    rw [hout]
    exact congrArg some heq
  · rename_i hlt
    rw [← Option.not_isSome_iff_eq_none, isSome_run, wp_receiveTurn]
    exact fun h => hlt h.1

/-! ## Runs -/

/-- The thread takes messages from the front. -/
theorem Party.RxMoves.queue_suffix {P P' : Party} {q q' : MsgQueue} (h : P.RxMoves q P' q') :
    q' <:+ q := by
  cases h
  case gotExit hq => exact hq ▸ List.suffix_cons ..
  case received _ hq => exact hq ▸ List.suffix_cons ..
  all_goals exact List.suffix_rfl

/-- `MQ_PRIO_MAX` -/
def mqPrioMax : ℕ := 32768

/-- A process of the chat with the queue it receives from. When the receiving thread has written
outside its buffer, there is no `mem`, and no telling what the thread does. -/
structure Receiving where
  party : Party
  queue : MsgQueue
  mem : Option Bytes

/-- What happens to the receiving thread. -/
inductive RxAction
  /-- `mq_send`, by any process -/
  | send (prio : ℕ) (text : List UInt8)
  /-- The next step of the thread -/
  | rx (cancelled : Bool)
  /-- `pthread_cancel` -/
  | cancel
  /-- `SIGINT`, handled by the thread -/
  | sigint (blocked : Bool)

namespace Receiving

/-- The receiving thread has been created, with anything in its buffer. -/
def init (mem : Bytes) : Receiving := ⟨.init, [], some mem⟩

/-- The receiving thread takes a message next. -/
def Receives (s : Receiving) : Prop := s.party.rx = .receive ∧ s.party.cancelRequested = false

instance (s : Receiving) : Decidable s.Receives := inferInstanceAs (Decidable (_ ∧ _))

/-- The next step of the receiving thread. -/
def rxStep (s : Receiving) (mem : Bytes) (cancelled : Bool) : Option Receiving :=
  if s.Receives then
    match s.queue with
    | [] => none
    | m :: q =>
      match (receiveTurn m q).run (rxBuffer mem) with
      | none => some { s with queue := q, mem := none }
      | some (out, buffers) =>
        some ⟨{ s.party with rx := out.1 }, out.2, some (buffers.bytes .rxBuffer)⟩
  else (s.party.rxStep s.queue cancelled).map fun out => ⟨out.1, out.2, some mem⟩

/-- One action. -/
def step (s : Receiving) : RxAction → Option Receiving
  | .send prio text =>
    if prio < mqPrioMax ∧ text.length ≤ chatAttr.mqMsgsize ∧ s.queue.length < chatAttr.mqMaxmsg then
      some { s with queue := s.queue.send prio text }
    else none
  | .rx cancelled => s.mem.bind fun mem => s.rxStep mem cancelled
  | .cancel => some { s with party.cancelRequested := true }
  | .sigint blocked =>
    (s.party.sigintRx s.queue blocked).map fun P => { s with party := P }

/-- A message that is received now does not have the full size. -/
def TakesNoFull (s : Receiving) : RxAction → Prop
  | .rx _ => s.Receives → ∀ m ∈ s.queue.head?, m.2.length ≠ chatAttr.mqMsgsize
  | _ => True

/-- What `mq_send` has let through. -/
def Sendable (s : Receiving) : Prop := ∀ m ∈ s.queue, m.2.length ≤ chatAttr.mqMsgsize

section Step

variable {s s' : Receiving} {mem : Bytes} {cancelled : Bool} {m : ℕ × List UInt8} {q : MsgQueue}

theorem rxStep_short (h : s.Receives) (hq : s.queue = m :: q) (hlt : m.2.length < msgBufferSize) :
    s.rxStep mem cancelled = some ⟨{ s.party with rx := afterReceive m }, q,
      some (writeBytes mem 0 (m.2 ++ [0]))⟩ := by
  rw [rxStep, if_pos h, hq]
  simp only [receiveTurn_run, if_pos hlt]
  rfl

theorem rxStep_full (h : s.Receives) (hq : s.queue = m :: q) (hfull : msgBufferSize ≤ m.2.length) :
    s.rxStep mem cancelled = some { s with queue := q, mem := none } := by
  rw [rxStep, if_pos h, hq]
  simp only [receiveTurn_run, if_neg (Nat.not_lt.2 hfull)]

theorem rxStep_empty (h : s.Receives) (hq : s.queue = []) : s.rxStep mem cancelled = none := by
  rw [rxStep, if_pos h, hq]

/-- A step of the thread that takes no message. -/
theorem rxStep_other (h : ¬ s.Receives) : s.rxStep mem cancelled =
    (s.party.rxStep s.queue cancelled).map fun out => ⟨out.1, out.2, some mem⟩ :=
  if_neg h

end Step

/-- What can happen. -/
inductive Moves (s : Receiving) : RxAction → Receiving → Prop
  | send {prio : ℕ} {text : List UInt8} (hprio : prio < mqPrioMax)
      (hlen : text.length ≤ chatAttr.mqMsgsize) (hroom : s.queue.length < chatAttr.mqMaxmsg) :
      Moves s (.send prio text) { s with queue := s.queue.send prio text }
  | take {cancelled : Bool} {mem : Bytes} {m : ℕ × List UInt8} {q : MsgQueue} (hrec : s.Receives)
      (hq : s.queue = m :: q) (hmem : s.mem = some mem) (hlt : m.2.length < msgBufferSize) :
      Moves s (.rx cancelled)
        ⟨{ s.party with rx := afterReceive m }, q, some (writeBytes mem 0 (m.2 ++ [0]))⟩
  | overrun {cancelled : Bool} {m : ℕ × List UInt8} {q : MsgQueue} (hrec : s.Receives)
      (hq : s.queue = m :: q) (hfull : msgBufferSize ≤ m.2.length) :
      Moves s (.rx cancelled) { s with queue := q, mem := none }
  | rx {cancelled : Bool} {mem : Bytes} {P : Party} {q : MsgQueue} (hrec : ¬ s.Receives)
      (hmem : s.mem = some mem) (hmove : s.party.RxMoves s.queue P q) :
      Moves s (.rx cancelled) ⟨P, q, some mem⟩
  | cancel : Moves s .cancel { s with party.cancelRequested := true }
  | sigint {blocked : Bool} {P : Party} (hsig : s.party.sigintRx s.queue blocked = some P) :
      Moves s (.sigint blocked) { s with party := P }

section Moves

variable {s s' : Receiving} {a : RxAction}

theorem moves_of_rxStep {mem : Bytes} {cancelled : Bool} (hmem : s.mem = some mem)
    (h : s.rxStep mem cancelled = some s') : s.Moves (.rx cancelled) s' := by
  by_cases hrec : s.Receives
  · cases hq : s.queue with
    | nil =>
      rw [rxStep_empty hrec hq] at h
      cases h
    | cons m q =>
      rcases Nat.lt_or_ge m.2.length msgBufferSize with hlt | hfull
      · rw [rxStep_short hrec hq hlt] at h
        obtain rfl := Option.some.inj h
        exact .take hrec hq hmem hlt
      · rw [rxStep_full hrec hq hfull] at h
        obtain rfl := Option.some.inj h
        exact .overrun hrec hq hfull
  · rw [rxStep_other hrec] at h
    obtain ⟨⟨P, q⟩, hmove, rfl⟩ := Option.map_eq_some_iff.1 h
    exact .rx hrec hmem (Party.rxMoves_of_step hmove)

theorem moves_of_step (h : s.step a = some s') : s.Moves a s' := by
  cases a with
  | send prio text =>
    rw [step] at h
    split at h
    · rename_i hok
      obtain rfl := Option.some.inj h
      exact .send hok.1 hok.2.1 hok.2.2
    · cases h
  | rx cancelled =>
    obtain ⟨mem, hmem, h⟩ := Option.bind_eq_some_iff.1 h
    exact moves_of_rxStep hmem h
  | cancel =>
    obtain rfl := Option.some.inj h
    exact .cancel
  | sigint blocked =>
    obtain ⟨P, hP, rfl⟩ := Option.map_eq_some_iff.1 h
    exact .sigint hP

/-- No message is longer than the attribute allows. -/
theorem sendable_step (h : s.Sendable) (hs : s.step a = some s') : s'.Sendable := by
  cases moves_of_step hs with
  | send _ hlen _ =>
    intro m hm
    rcases PriorityQueue.mem_send.1 hm with rfl | hm
    · exact hlen
    · exact h m hm
  | take _ hq _ _ => exact fun m hm => h m (hq ▸ List.mem_cons_of_mem _ hm)
  | overrun _ hq _ => exact fun m hm => h m (hq ▸ List.mem_cons_of_mem _ hm)
  | rx _ _ hmove => exact fun m hm => h m (hmove.queue_suffix.mem hm)
  | cancel => exact h
  | sigint _ => exact h

/-- **A step keeps the writes inside** exactly when it takes no message of the full size. -/
theorem isSome_mem_step (h : s.Sendable) (hmem : s.mem.isSome) (hs : s.step a = some s') :
    s'.mem.isSome ↔ s.TakesNoFull a := by
  cases moves_of_step hs with
  | send _ _ _ => exact iff_of_true hmem trivial
  | take _ hq _ hlt =>
    refine iff_of_true rfl fun _ m' hm' => ?_
    rw [hq] at hm'
    obtain rfl := Option.some.inj hm'
    exact hlt.ne
  | @overrun _ m _ hrec hq hfull =>
    have hle : m.2.length ≤ chatAttr.mqMsgsize := h m (hq ▸ List.mem_cons_self)
    refine iff_of_false (fun hsome => by cases hsome) fun hno => ?_
    exact hno hrec m (by rw [hq]; rfl) (hle.antisymm hfull)
  | rx hrec _ _ => exact iff_of_true rfl fun hrec' => absurd hrec' hrec
  | cancel => exact iff_of_true hmem trivial
  | sigint _ => exact iff_of_true hmem trivial

end Moves

/-- **The receiving thread writes only inside its buffer** in exactly the runs in which no message
of the full size is received. -/
theorem intact_iff (mem : Bytes) {as : List RxAction} {t : Receiving}
    (h : runFrom step (init mem) as = some t) :
    (∀ bs s, bs <+: as → runFrom step (init mem) bs = some s → s.mem.isSome) ↔
      StepsMeet step TakesNoFull (init mem) as :=
  stepsMeet_iff (I := Sendable) (P := fun s => s.mem.isSome) (fun _ _ _ => sendable_step)
    (fun _ _ _ => isSome_mem_step) (fun _ hm => absurd hm List.not_mem_nil) rfl h

section Message

variable (mem : Bytes) {text : List UInt8}

/-- A message has been sent. -/
def sent (text : List UInt8) : Receiving := ⟨.init, [(1, text)], some mem⟩

theorem step_sent (h : text.length ≤ msgBufferSize) :
    (init mem).step (.send 1 text) = some (sent mem text) :=
  if_pos ⟨by decide, h, Nat.succ_pos _⟩

/-- One message is sent and received. -/
theorem run_message (h : text.length ≤ msgBufferSize) :
    ∃ s, runFrom step (init mem) [.send 1 text, .rx false] = some s ∧
      (s.mem.isSome ↔ text.length < msgBufferSize) := by
  have hrec : (sent mem text).Receives := ⟨rfl, rfl⟩
  have hrx : (sent mem text).step (.rx false) = (sent mem text).rxStep mem false := rfl
  rw [runFrom_cons, step_sent mem h, Option.bind_some, runFrom_singleton, hrx]
  rcases Nat.lt_or_ge text.length msgBufferSize with hlt | hfull
  · rw [rxStep_short (m := (1, text)) hrec rfl hlt]
    exact ⟨_, rfl, iff_of_true rfl hlt⟩
  · rw [rxStep_full (m := (1, text)) hrec rfl hfull]
    exact ⟨_, rfl, iff_of_false (fun h => by cases h) (Nat.not_lt.2 hfull)⟩

end Message

/-- A message of 255 bytes leaves room for the zero. -/
theorem intact_longest : ∃ t,
    runFrom step (init fun _ => 0) [.send 1 (List.replicate 255 65), .rx false] = some t ∧
      ∀ bs s, bs <+: [.send 1 (List.replicate 255 65), .rx false] →
        runFrom step (init fun _ => 0) bs = some s → s.mem.isSome := by
  have hlen : (List.replicate 255 (65 : UInt8)).length = 255 := List.length_replicate
  have hlt : (List.replicate 255 (65 : UInt8)).length < msgBufferSize := by
    rw [hlen]
    decide
  obtain ⟨t, hrun, -⟩ := run_message (fun _ => 0) hlt.le
  refine ⟨t, hrun, (intact_iff _ hrun).2 ⟨trivial, fun s hs => ?_⟩⟩
  refine ⟨fun _ m hm => ?_, fun _ _ => trivial⟩
  obtain rfl := Option.some.inj ((step_sent _ hlt.le).symm.trans hs)
  obtain rfl := Option.some.inj hm
  exact hlt.ne

/-- A message of 256 bytes fills the buffer, and the zero goes behind it. -/
theorem not_intact : ¬ ∀ (mem : Bytes) (as : List RxAction) (t : Receiving),
    runFrom step (init mem) as = some t → t.mem.isSome := by
  intro h
  have hlen : (List.replicate 256 (65 : UInt8)).length = msgBufferSize := List.length_replicate
  obtain ⟨s, hrun, hiff⟩ := run_message (fun _ => 0) hlen.le
  exact absurd (hiff.1 (h _ _ s hrun)) (Nat.not_lt.2 hlen.ge)

end Receiving

/-! ## What the program sends -/

/-- A text that the program sends: it leaves room for the zero, which ends it. -/
structure ProgramText (text : List UInt8) : Prop where
  length_lt : text.length < msgBufferSize
  zero_notMem : 0 ∉ text

/-- With such a message the thread does what it does in the model of the chat. -/
theorem Receiving.rxStep_eq {s : Receiving} (h : ∀ m ∈ s.queue.head?, ProgramText m.2)
    (mem : Bytes) (cancelled : Bool) :
    (s.rxStep mem cancelled).map (fun t => (t.party, t.queue)) =
      s.party.rxStep s.queue cancelled := by
  by_cases hrec : s.Receives
  · have hgoes : ¬ s.party.cancelRequested = true := by simp [hrec.2]
    cases hq : s.queue with
    | nil =>
      rw [rxStep_empty hrec hq]
      simp only [Party.rxStep, hrec.1, if_neg hgoes]
      rfl
    | cons m q =>
      have htext : ProgramText m.2 := h m (by rw [hq]; rfl)
      rw [rxStep_short hrec hq htext.length_lt, afterReceive, cstr_eq_self htext.zero_notMem]
      simp only [Party.rxStep, hrec.1, if_neg hgoes]
      split <;> rfl
  · rw [rxStep_other hrec, Option.map_map]
    exact congrFun Option.map_id _

/-- At the `mq_send` of a line. -/
def MainPc.Sends : MainPc → Bool
  | .send _ _ => true
  | _ => false

namespace Party

theorem stripNewline_sublist (txBuffer : List UInt8) :
    (stripNewline txBuffer).Sublist txBuffer := by
  rw [stripNewline]
  split
  · exact List.dropLast_sublist _
  · exact List.Sublist.refl _

theorem programText_line {chunk : List UInt8} (h : chunk.length < msgBufferSize) :
    ProgramText (stripNewline (cstr chunk)) where
  length_lt := ((stripNewline_sublist _).length_le.trans (length_cstr_le chunk)).trans_lt h
  zero_notMem h0 := zero_notMem_cstr chunk ((stripNewline_sublist _).mem h0)

/-- The line that is about to be sent is such a text. -/
def SendsText (P : Party) : Prop := ∀ text blocked, P.main = .send text blocked → ProgramText text

theorem sendsText_of_main {P : Party} (h : P.main.Sends = false) : P.SendsText := by
  intro text blocked hpc
  rw [hpc] at h
  cases h

theorem sendsText_gotLine {P : Party} {text : List UInt8} (h : ProgramText text) :
    (P.gotLine text).SendsText := by
  obtain heq | heq | heq := gotLine_cases P text <;> rw [heq]
  · exact sendsText_of_main rfl
  · exact sendsText_of_main rfl
  · intro text' blocked hpc
    obtain ⟨rfl, -⟩ := MainPc.send.inj hpc
    exact h

theorem forall_mem_send {q : MsgQueue} {prio : ℕ} {text : List UInt8} (h : ProgramText text)
    (hq : ∀ m ∈ q, ProgramText m.2) : ∀ m ∈ q.send prio text, ProgramText m.2 := by
  intro m hm
  rcases PriorityQueue.mem_send.1 hm with rfl | hm
  · exact h
  · exact hq m hm

theorem programText_exit : ProgramText (ascii "EXIT") := by
  have hexit : ascii "EXIT" = [69, 88, 73, 84] := rfl
  rw [hexit]
  exact ⟨by decide, by decide⟩

/-- A line of `fgets` is sent when it has been read. -/
theorem sendsText_fgets {P P' : Party} {q q' : MsgQueue} {input : Input} {blocked : Bool}
    (hpc : P.main = .fgets blocked) (h : P.mainStep q input = some (P', q')) :
    P'.SendsText := by
  cases input <;> simp only [mainStep, hpc] at h
  case line chunk =>
    split at h
    · rename_i hchunk
      obtain ⟨rfl, rfl⟩ := Prod.mk.inj (Option.some.inj h)
      exact sendsText_gotLine (programText_line hchunk.2.1)
    · cases h
  case eof =>
    obtain ⟨rfl, rfl⟩ := Prod.mk.inj (Option.some.inj h)
    exact sendsText_of_main rfl
  case nothing =>
    split at h
    · cases h
    · obtain ⟨rfl, rfl⟩ := Prod.mk.inj (Option.some.inj h)
      exact sendsText_of_main rfl

/-- The main thread sends what `fgets` has read, and the exit message. -/
theorem programText_mainStep {P P' : Party} {q q' : MsgQueue} {input : Input} (hP : P.SendsText)
    (hq : ∀ m ∈ q, ProgramText m.2) (h : P.mainStep q input = some (P', q')) :
    P'.SendsText ∧ ∀ m ∈ q', ProgramText m.2 := by
  cases mainMoves_of_step h
  case line hpc _ =>
    exact ⟨sendsText_fgets hpc h, hq⟩
  case send hpc _ =>
    exact ⟨sendsText_of_main rfl, forall_mem_send (hP _ _ hpc) hq⟩
  case blockSend hpc _ =>
    refine ⟨fun text' blocked hpc' => ?_, hq⟩
    obtain ⟨rfl, -⟩ := MainPc.send.inj hpc'
    exact hP _ _ hpc
  case sendExit _ _ =>
    exact ⟨sendsText_of_main rfl, forall_mem_send programText_exit hq⟩
  case test _ | testExit _ =>
    refine ⟨sendsText_of_main ?_, hq⟩
    simp only
    split <;> rfl
  all_goals exact ⟨sendsText_of_main rfl, hq⟩

theorem sendsText_interrupt {P : Party} (h : P.SendsText) : P.interrupt.SendsText := by
  obtain ⟨-, heq⟩ | ⟨-, heq⟩ | ⟨-, heq⟩ | ⟨-, -, -, heq⟩ := interrupt_cases P <;> rw [heq]
  · exact sendsText_of_main rfl
  · exact sendsText_of_main rfl
  · exact sendsText_of_main rfl
  · exact h

theorem RxMoves.main_eq {P P' : Party} {q q' : MsgQueue} (h : P.RxMoves q P' q') :
    P'.main = P.main := by
  cases h <;> rfl

end Party

namespace Chat

variable {s s' : Chat}

/-- Every message of the chat is such a text. -/
structure ProgramTexts (s : Chat) : Prop where
  party : ∀ x, (s.party x).SendsText
  queue : ∀ x, ∀ m ∈ s.queue x, ProgramText m.2

theorem ProgramTexts.set (h : s.ProgramTexts) {P : Party} {q : MsgQueue} (hP : P.SendsText)
    (hq : ∀ m ∈ q, ProgramText m.2) (x y : Bool) : (s.set x P y q).ProgramTexts where
  party := (Function.forall_update_iff s.party fun _ P => P.SendsText).2 ⟨hP, fun z _ => h.party z⟩
  queue := (Function.forall_update_iff s.queue fun _ q => ∀ m ∈ q, ProgramText m.2).2
    ⟨hq, fun z _ => h.queue z⟩

theorem ProgramTexts.step (h : s.ProgramTexts) {a : Bool × Move} (hs : s.step a = some s') :
    s'.ProgramTexts := by
  obtain ⟨y, m⟩ := a
  cases moves_of_step hs with
  | main hmoves =>
    obtain ⟨⟨P, q⟩, hmain, heq⟩ := Option.map_eq_some_iff.1 hs
    rw [← heq]
    obtain ⟨hP, hq⟩ := Party.programText_mainStep (h.party y) (h.queue y) hmain
    exact h.set hP hq y y
  | rx hmoves =>
    refine h.set (fun text blocked hpc => ?_) (fun m hm => ?_) y !y
    · exact h.party y text blocked (hmoves.main_eq ▸ hpc)
    · exact h.queue _ m (hmoves.queue_suffix.mem hm)
  | sigint =>
    refine h.set (Party.sendsText_interrupt ?_) (h.queue y) y y
    exact h.party y
  | sigintRx =>
    refine h.set ?_ (h.queue y) y y
    exact h.party y
  | sigintReceive _ =>
    refine h.set ?_ (h.queue y) y y
    exact h.party y
  | deliver _ =>
    refine h.set (Party.sendsText_interrupt ?_) (h.queue y) y y
    exact h.party y

/-- **Between two processes of the program** the writes stay inside the buffer: in every state of a
chat, whatever has been typed, the next message leaves room for the zero. -/
theorem isSome_receiveTurn {as : List (Bool × Move)} (h : runFrom Chat.step .init as = some s)
    (x : Bool) {m : ℕ × List UInt8} {q : MsgQueue} (hq : s.queue x = m :: q) (mem : Bytes) :
    ((receiveTurn m q).run (rxBuffer mem)).isSome := by
  have hinit : Chat.init.ProgramTexts :=
    ⟨fun _ => Party.sendsText_of_main rfl, fun _ _ hm => absurd hm List.not_mem_nil⟩
  have htexts := runFrom_invariant (P := ProgramTexts) (fun _ _ _ h hs => h.step hs) hinit h
  rw [isSome_run, wp_receiveTurn]
  exact ⟨(htexts.queue x m (hq ▸ List.mem_cons_self)).length_lt, trivial⟩

end Chat

end EltexPractice.P2pChat
