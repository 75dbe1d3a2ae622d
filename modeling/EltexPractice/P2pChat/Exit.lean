import EltexPractice.P2pChat.Chat

/-!
# The exit message

A process leaves with a message of priority 255, which overtakes the lines that are still queued,
and the receiving thread of the other process stops at it. For one direction of a chat,
`Direction` says where every accepted line is: displayed, in the hands of the receiving thread or
queued. `accepted_eq_displayed_append`: what the exit message overtakes, and nothing else, is
missing when it is handled.
-/

namespace EltexPractice.P2pChat

open CString

/-- `run_chat_loop` is behind its last `mq_send`. -/
def MainPc.Left (pc : MainPc) : Prop := pc = .cancel ∨ pc = .join ∨ pc = .ended

namespace RxPc

/-- The exit message has been received. -/
def HandlesExit (pc : RxPc) : Prop :=
  pc = .gotExit ∨ pc = .setFlag ∨ pc = .kill ∨ pc = .returned

/-- The line received and not displayed yet. -/
def inHand : RxPc → List (List UInt8)
  | display text => [text]
  | _ => []

theorem HandlesExit.inHand {pc : RxPc} (h : pc.HandlesExit) : pc.inHand = [] := by
  rcases h with rfl | rfl | rfl | rfl <;> rfl

end RxPc

/-- Lines as `mq_send` queues them. -/
def lineMsgs (lines : List (List UInt8)) : MsgQueue := lines.map fun text => (1, text)

/-- The exit message, when it is queued. -/
def exitMsg (queued : Bool) : MsgQueue :=
  if queued then [(exitPriority, ascii "EXIT")] else []

theorem send_line (queued : Bool) (lines : List (List UInt8)) (text : List UInt8) :
    PriorityQueue.send (exitMsg queued ++ lineMsgs lines) 1 text =
      exitMsg queued ++ lineMsgs (lines ++ [text]) := by
  rw [PriorityQueue.send_eq_append]
  · simp [lineMsgs]
  · intro m hm
    rcases List.mem_append.1 hm with hm | hm
    · cases queued
      · cases hm
      · obtain rfl := List.mem_singleton.1 hm
        decide
    · obtain ⟨t, -, rfl⟩ := List.mem_map.1 hm
      exact le_rfl

theorem send_exit (lines : List (List UInt8)) :
    PriorityQueue.send (lineMsgs lines) exitPriority (ascii "EXIT") =
      exitMsg true ++ lineMsgs lines := by
  rw [PriorityQueue.send_eq_cons]
  · rfl
  · intro m hm
    obtain ⟨t, -, rfl⟩ := List.mem_map.1 hm
    exact Nat.lt_of_sub_eq_succ rfl

/-! ## Properties of one direction -/

section Frames

variable {P P' : Party} {q q' : MsgQueue}

/-- The main thread leaves the receiving thread alone. -/
theorem rx_mainMoves (h : P.MainMoves q P' q') :
    P'.rx = P.rx ∧ P'.displayed = P.displayed := by
  cases h
  case line text => rcases P.gotLine_cases text with h | h | h <;> simp [h]
  all_goals exact ⟨rfl, rfl⟩

/-- The receiving thread sends nothing. -/
theorem main_rxMoves (h : P.RxMoves q P' q') :
    P'.main = P.main ∧ P'.accepted = P.accepted := by
  cases h <;> exact ⟨rfl, rfl⟩

/-- A signal accepts no line and does not lead back in front of an `mq_send`. -/
theorem interrupt_frame (P : Party) :
    P.interrupt.accepted = P.accepted ∧ (P.main.Left → P.interrupt.main.Left) ∧
      P.interrupt.rx = P.rx ∧ P.interrupt.displayed = P.displayed := by
  rcases P.interrupt_cases with ⟨hpc, h⟩ | ⟨⟨text, hpc⟩, h⟩ | ⟨hpc, h⟩ | ⟨-, -, -, h⟩ <;> rw [h]
  · exact ⟨rfl, by simp [MainPc.Left, hpc], rfl, rfl⟩
  · exact ⟨rfl, by simp [MainPc.Left, hpc], rfl, rfl⟩
  · exact ⟨rfl, by simp [MainPc.Left], rfl, rfl⟩
  · exact ⟨rfl, id, rfl, rfl⟩

end Frames

/-- A property of a sender, a receiver and the queue between them that no step changes. -/
structure Stable (D : Party → Party → MsgQueue → Prop) : Prop where
  mainMoves : ∀ {P P' R : Party} {q q' : MsgQueue}, D P R q → P.MainMoves q P' q' → D P' R q'
  rxMoves : ∀ {P R R' : Party} {q q' : MsgQueue}, D P R q → R.RxMoves q R' q' → D P R' q'
  /-- Steps of the sender that send nothing. -/
  sender : ∀ {P P' R : Party} {q : MsgQueue}, D P R q → P'.accepted = P.accepted →
    (P.main.Left → P'.main.Left) → D P' R q
  /-- Steps of the receiver outside its receiving thread, or that make `mq_receive` fail. -/
  receiver : ∀ {P R R' : Party} {q : MsgQueue}, D P R q → R'.displayed = R.displayed →
    (R'.rx = R.rx ∨ (R.rx = .receive ∧ R'.rx = .failed)) → D P R' q

/-- **One step of the chat, seen from one direction.** -/
theorem Stable.step {D : Party → Party → MsgQueue → Prop} (hD : Stable D) {s s' : Chat} {y : Bool}
    {m : Move} (hs : s.step (y, m) = some s') (x : Bool)
    (h : D (s.party x) (s.party !x) (s.queue x)) :
    D (s'.party x) (s'.party !x) (s'.queue x) := by
  have hmoves := Chat.moves_of_step hs
  rcases Bool.eq_or_eq_not y x with rfl | rfl
  · cases hmoves
    case main P q hP => simpa using hD.mainMoves h hP
    case rx P q hP =>
      obtain ⟨hmain, hacc⟩ := main_rxMoves hP
      simpa using hD.sender h hacc fun hl => hmain ▸ hl
    all_goals rw [Chat.party_set_self, Chat.party_set_not, Chat.queue_set_self]
    case sigint =>
      obtain ⟨hacc, hleft, -⟩ := interrupt_frame { s.party y with gExitFlag := true }
      exact hD.sender h hacc hleft
    case deliver hpending =>
      obtain ⟨hacc, hleft, -⟩ := interrupt_frame { s.party y with usr1 := .delivered }
      exact hD.sender h hacc hleft
    case sigintRx => exact hD.sender h rfl id
    case sigintReceive hpc => exact hD.sender h rfl id
  · cases hmoves
    case main P q hP =>
      obtain ⟨hrx, hdisp⟩ := rx_mainMoves hP
      simpa using hD.receiver h hdisp (Or.inl hrx)
    case rx P q hP =>
      rw [Bool.not_not] at hP
      simpa using hD.rxMoves h hP
    all_goals rw [Chat.party_set_self, Chat.party_set_of_not, Chat.queue_set_of_not]
    case sigint =>
      obtain ⟨-, -, hrx, hdisp⟩ := interrupt_frame { s.party !x with gExitFlag := true }
      exact hD.receiver h hdisp (Or.inl hrx)
    case deliver hpending =>
      obtain ⟨-, -, hrx, hdisp⟩ := interrupt_frame { s.party !x with usr1 := .delivered }
      exact hD.receiver h hdisp (Or.inl hrx)
    case sigintRx => exact hD.receiver h rfl (Or.inl rfl)
    case sigintReceive hpc => exact hD.receiver h rfl (Or.inr ⟨hpc, rfl⟩)

theorem Stable.run {D : Party → Party → MsgQueue → Prop} (hD : Stable D) {s t : Chat} {x : Bool}
    (hs : D (s.party x) (s.party !x) (s.queue x)) {as : List (Bool × Move)}
    (h : runFrom Chat.step s as = some t) : D (t.party x) (t.party !x) (t.queue x) :=
  runFrom_invariant (P := fun s => D (s.party x) (s.party !x) (s.queue x))
    (fun _ _ _ hI hstep => hD.step hstep x hI) hs h

/-! ## Where the accepted lines are -/

/-- The queue from `P` to `R` carries `lines`, behind the exit message when that is queued. -/
structure Carries (P R : Party) (q : MsgQueue) (queued : Bool) (lines : List (List UInt8)) :
    Prop where
  queue_eq : q = exitMsg queued ++ lineMsgs lines
  left : queued = true ∨ R.rx.HandlesExit → P.main.Left
  once : queued = true → ¬ R.rx.HandlesExit
  accepted_eq : R.rx = .cancelled ∨ P.accepted = R.displayed ++ (R.rx.inHand ++ lines)

/-- What holds of one direction in every state. -/
def Direction (P R : Party) (q : MsgQueue) : Prop := ∃ queued lines, Carries P R q queued lines

section Steps

variable {P P' R R' : Party} {q q' : MsgQueue} {queued : Bool} {lines : List (List UInt8)}

/-- Steps of the sender that send nothing. -/
theorem Carries.sender (h : Carries P R q queued lines) (hacc : P'.accepted = P.accepted)
    (hleft : P.main.Left → P'.main.Left) : Carries P' R q queued lines :=
  ⟨h.queue_eq, fun hx => hleft (h.left hx), h.once, by rw [hacc]; exact h.accepted_eq⟩

/-- Steps of the receiver outside its receiving thread, or that make `mq_receive` fail. -/
theorem Carries.receiver (h : Carries P R q queued lines) (hdisp : R'.displayed = R.displayed)
    (hrx : R'.rx = R.rx ∨ (R.rx = .receive ∧ R'.rx = .failed)) :
    Carries P R' q queued lines := by
  rcases hrx with hrx | ⟨hreceive, hfailed⟩
  · refine ⟨h.queue_eq, ?_, ?_, ?_⟩
    · rw [hrx]
      exact h.left
    · rw [hrx]
      exact h.once
    · rw [hrx, hdisp]
      exact h.accepted_eq
  · have hacc := h.accepted_eq
    have hleft := h.left
    rw [hreceive] at hacc hleft
    refine ⟨h.queue_eq, fun hx => hleft ?_, fun _ hexit => ?_, Or.inr ?_⟩
    · simpa [hfailed, RxPc.HandlesExit] using hx
    · simp [hfailed, RxPc.HandlesExit] at hexit
    · rw [hdisp, hfailed]
      simpa [RxPc.inHand] using hacc

/-- **A step of the main thread**: it leaves the queue alone, or sends a line, or the exit
message. -/
theorem direction_mainMoves (h : Direction P R q) (hs : P.MainMoves q P' q') :
    Direction P' R q' := by
  obtain ⟨queued, lines, h⟩ := h
  have hnot : ∀ {pc : MainPc}, P.main = pc → ¬ pc.Left →
      queued = false ∧ ¬ R.rx.HandlesExit := fun {pc} hpc hpc' => by
    have hnot : ¬ (queued = true ∨ R.rx.HandlesExit) := fun hx => hpc' (hpc ▸ h.left hx)
    rw [not_or] at hnot
    exact ⟨Bool.eq_false_iff.2 hnot.1, hnot.2⟩
  cases hs
  case line blocked hpc text =>
    refine ⟨queued, lines, h.sender ?_ fun hl => absurd hl (by simp [MainPc.Left, hpc])⟩
    rcases P.gotLine_cases text with h | h | h <;> rw [h]
  case send text blocked hpc hroom =>
    obtain ⟨rfl, hexit⟩ := hnot hpc (by simp [MainPc.Left])
    refine ⟨false, lines ++ [text], ?_, fun hx => ?_, h.once, ?_⟩
    · rw [h.queue_eq, send_line]
    · simp [hexit] at hx
    · refine h.accepted_eq.imp id fun hacc => ?_
      simp [hacc]
  case sendExit blocked hpc hroom =>
    obtain ⟨rfl, hexit⟩ := hnot hpc (by simp [MainPc.Left])
    refine ⟨true, lines, ?_, fun _ => Or.inl rfl, fun _ => hexit, h.accepted_eq⟩
    rw [h.queue_eq]
    exact send_exit lines
  case blockSend text hpc hfull =>
    exact ⟨queued, lines, h.sender rfl fun hl => absurd hl (by simp [MainPc.Left, hpc])⟩
  case blockExit hpc hfull =>
    exact ⟨queued, lines, h.sender rfl fun hl => absurd hl (by simp [MainPc.Left, hpc])⟩
  all_goals
    rename_i hpc
    exact ⟨queued, lines, h.sender rfl (by simp [MainPc.Left, hpc])⟩

/-- **A step of the receiving thread**: it takes the exit message or the first line, or displays
the line it has. -/
theorem direction_rxMoves (h : Direction P R q) (hs : R.RxMoves q R' q') : Direction P R' q' := by
  obtain ⟨queued, lines, h⟩ := h
  cases hs
  case cancelled hreq hpc =>
    refine ⟨queued, lines, h.queue_eq, fun hx => h.left ?_, fun _ hexit => ?_, Or.inl rfl⟩
    · exact hx.imp id fun hexit => by simp [RxPc.HandlesExit] at hexit
    · simp [RxPc.HandlesExit] at hexit
  case gotExit text hpc hq =>
    have hacc := h.accepted_eq
    rw [hpc] at hacc
    have hcases : queued = true ∧ q' = lineMsgs lines := by
      have heq := hq.symm.trans h.queue_eq
      cases queued
      · cases lines with
        | nil => cases heq
        | cons line lines => simp [exitMsg, lineMsgs, exitPriority] at heq
      · exact ⟨rfl, (List.cons.inj heq).2⟩
    obtain ⟨rfl, rfl⟩ := hcases
    refine ⟨false, lines, rfl, fun _ => h.left (Or.inl rfl), fun hx => (by cases hx), Or.inr ?_⟩
    simpa [RxPc.inHand] using hacc
  case received prio text hpc hprio hq =>
    have hacc := h.accepted_eq
    rw [hpc] at hacc
    have hcases : queued = false ∧ ∃ lines', lines = text :: lines' ∧ q' = lineMsgs lines' := by
      have heq := hq.symm.trans h.queue_eq
      cases queued
      · cases lines with
        | nil => cases heq
        | cons line lines =>
          simp only [exitMsg, lineMsgs, Bool.false_eq_true, if_false, List.nil_append,
            List.map_cons, List.cons.injEq, Prod.mk.injEq] at heq
          obtain ⟨⟨-, rfl⟩, rfl⟩ := heq
          exact ⟨rfl, lines, rfl, rfl⟩
      · simp [exitMsg, hprio] at heq
    obtain ⟨rfl, lines', rfl, rfl⟩ := hcases
    refine ⟨false, lines', rfl, fun hx => ?_, fun hx => (by cases hx), Or.inr ?_⟩
    · simp [RxPc.HandlesExit] at hx
    · simpa [RxPc.inHand] using hacc
  case display text hpc =>
    have hacc := h.accepted_eq
    rw [hpc] at hacc
    refine ⟨queued, lines, h.queue_eq, fun hx => h.left ?_, fun _ hexit => ?_, Or.inr ?_⟩
    · exact hx.imp id fun hexit => by simp [RxPc.HandlesExit] at hexit
    · simp [RxPc.HandlesExit] at hexit
    · simpa [RxPc.inHand] using hacc
  all_goals
    rename_i hpc
    have hexit : R.rx.HandlesExit := by simp [RxPc.HandlesExit, hpc]
    have hacc := h.accepted_eq
    rw [hpc] at hacc
    refine ⟨queued, lines, h.queue_eq, fun _ => h.left (Or.inr hexit),
      fun hx => absurd hexit (h.once hx), Or.inr ?_⟩
    simpa [RxPc.inHand] using hacc

end Steps

theorem stable_direction : Stable Direction where
  mainMoves := direction_mainMoves
  rxMoves := direction_rxMoves
  sender := by
    rintro P P' R q ⟨queued, lines, h⟩ hacc hleft
    exact ⟨queued, lines, h.sender hacc hleft⟩
  receiver := by
    rintro P R R' q ⟨queued, lines, h⟩ hdisp hrx
    exact ⟨queued, lines, h.receiver hdisp hrx⟩

theorem direction_of_run {as : List (Bool × Move)} {s : Chat}
    (h : runFrom Chat.step .init as = some s) (x : Bool) :
    Direction (s.party x) (s.party !x) (s.queue x) := by
  refine stable_direction.run ⟨false, [], rfl, fun hx => ?_, fun hx => ?_, Or.inr rfl⟩ h
  · simp [Chat.init, Party.init, RxPc.HandlesExit] at hx
  · cases hx

/-! ## After the exit message -/

/-- The exit message has been accepted with `lines` queued: they stay behind it, and behind the
receiving thread once it has taken the exit message. -/
structure Overtaken (accepted lines : List (List UInt8)) (P R : Party) (q : MsgQueue) :
    Prop where
  left : P.main.Left
  accepted_eq : P.accepted = accepted
  stays : R.rx = .cancelled ∨ (q = exitMsg true ++ lineMsgs lines ∧ ¬ R.rx.HandlesExit) ∨
    (q = lineMsgs lines ∧ R.rx.HandlesExit)

theorem overtaken_mainMoves {accepted lines : List (List UInt8)} {P P' R : Party}
    {q q' : MsgQueue} (h : Overtaken accepted lines P R q) (hs : P.MainMoves q P' q') :
    Overtaken accepted lines P' R q' := by
  have hleft := h.left
  cases hs
  case cancel hpc => exact ⟨Or.inr (Or.inl rfl), h.accepted_eq, h.stays⟩
  case join hpc hrx => exact ⟨Or.inr (Or.inr rfl), h.accepted_eq, h.stays⟩
  all_goals simp_all [MainPc.Left]

theorem overtaken_rxMoves {accepted lines : List (List UInt8)} {P R R' : Party}
    {q q' : MsgQueue} (h : Overtaken accepted lines P R q) (hs : R.RxMoves q R' q') :
    Overtaken accepted lines P R' q' := by
  refine ⟨h.left, h.accepted_eq, ?_⟩
  have hstays := h.stays
  cases hs
  case cancelled hreq hpc => exact Or.inl rfl
  case gotExit text hpc hq =>
    rcases hstays with hx | ⟨hx, -⟩ | ⟨-, hx⟩
    · simp [hpc] at hx
    · refine Or.inr (Or.inr ⟨?_, Or.inl rfl⟩)
      exact (List.cons.inj (hq.symm.trans hx)).2
    · simp [hpc, RxPc.HandlesExit] at hx
  case received prio text hpc hprio hq =>
    rcases hstays with hx | ⟨hx, -⟩ | ⟨-, hx⟩
    · simp [hpc] at hx
    · have hhead := (List.cons.inj (hq.symm.trans hx)).1
      exact absurd (congrArg Prod.fst hhead) hprio
    · simp [hpc, RxPc.HandlesExit] at hx
  case display text hpc =>
    rcases hstays with hx | ⟨hx, -⟩ | ⟨-, hx⟩
    · simp [hpc] at hx
    · exact Or.inr (Or.inl ⟨hx, by simp [RxPc.HandlesExit]⟩)
    · simp [hpc, RxPc.HandlesExit] at hx
  all_goals
    rename_i hpc
    rcases hstays with hx | ⟨-, hx⟩ | ⟨hx, -⟩
    · simp [hpc] at hx
    · simp [hpc, RxPc.HandlesExit] at hx
    · exact Or.inr (Or.inr ⟨hx, by simp [RxPc.HandlesExit]⟩)

theorem stable_overtaken (accepted lines : List (List UInt8)) :
    Stable (Overtaken accepted lines) where
  mainMoves := overtaken_mainMoves
  rxMoves := overtaken_rxMoves
  sender h hacc hleft := ⟨hleft h.left, hacc.trans h.accepted_eq, h.stays⟩
  receiver := by
    rintro P R R' q h - (hrx | ⟨hreceive, hfailed⟩)
    · exact ⟨h.left, h.accepted_eq, by rw [hrx]; exact h.stays⟩
    · have hstays := h.stays
      refine ⟨h.left, h.accepted_eq, ?_⟩
      rw [hreceive] at hstays
      rw [hfailed]
      simpa [RxPc.HandlesExit] using hstays

/-- The lines of a queue. -/
def queuedLines (q : MsgQueue) : List (List UInt8) := q.map (·.2)

@[simp] theorem queuedLines_lineMsgs (lines : List (List UInt8)) :
    queuedLines (lineMsgs lines) = lines := by
  simp [queuedLines, lineMsgs]

/-- The step that queues the exit message. -/
theorem overtaken_sendExit {s s' : Chat} {x blocked : Bool} {input : Input}
    (h : Direction (s.party x) (s.party !x) (s.queue x))
    (hpc : (s.party x).main = .sendExit blocked) (hroom : (s.queue x).length < maxMessages)
    (hs : s.step (x, .main input) = some s') :
    Overtaken (s.party x).accepted (queuedLines (s.queue x)) (s'.party x) (s'.party !x)
      (s'.queue x) := by
  obtain ⟨queued, lines, h⟩ := h
  have hnot : ¬ (queued = true ∨ (s.party !x).rx.HandlesExit) := fun hx => by
    have hleft := h.left hx
    simp [MainPc.Left, hpc] at hleft
  rw [not_or, Bool.not_eq_true] at hnot
  obtain ⟨rfl, hexit⟩ := hnot
  have hqueue : s.queue x = lineMsgs lines := h.queue_eq
  cases Chat.moves_of_step hs
  case main P q hP =>
    simp only [Chat.party_set_self, Chat.party_set_not, Chat.queue_set_self]
    cases hP
    case sendExit blocked' hpc' hroom' =>
      refine ⟨Or.inl rfl, rfl, Or.inr (Or.inl ⟨?_, hexit⟩)⟩
      rw [hqueue, send_exit, queuedLines_lineMsgs]
    case blockExit hpc' hfull => exact absurd hroom (not_lt.2 hfull)
    all_goals simp_all

/-- **The exit message and the lines**: when it is accepted with some lines still queued and the
other process handles it, that process has displayed exactly the accepted lines that were not
queued any more, in the order in which they were sent; no line is accepted afterwards. -/
theorem accepted_eq_displayed_append {as bs : List (Bool × Move)} {s s' t : Chat} {x blocked : Bool}
    {input : Input} (h : runFrom Chat.step .init as = some s)
    (hpc : (s.party x).main = .sendExit blocked) (hroom : (s.queue x).length < maxMessages)
    (hs : s.step (x, .main input) = some s') (hrun : runFrom Chat.step s' bs = some t)
    (hexit : (t.party !x).rx.HandlesExit) :
    (t.party x).accepted = (s.party x).accepted ∧
      (t.party x).accepted = (t.party !x).displayed ++ queuedLines (s.queue x) := by
  have hovertaken := (stable_overtaken _ _).run
    (overtaken_sendExit (direction_of_run h x) hpc hroom hs) hrun
  have hall : runFrom Chat.step .init (as ++ (x, .main input) :: bs) = some t := by
    rw [runFrom_append, h, Option.bind_some, runFrom_cons, hs, Option.bind_some, hrun]
  obtain ⟨queued, lines, hcarries⟩ := direction_of_run hall x
  have hnotCancelled : (t.party !x).rx ≠ .cancelled := by
    intro hcancelled
    simp [hcancelled, RxPc.HandlesExit] at hexit
  have hacc := hcarries.accepted_eq.resolve_left hnotCancelled
  have hqueue := (hovertaken.stays.resolve_left hnotCancelled).resolve_left fun hx => hx.2 hexit
  have hqueued : queued = false := by
    cases queued
    · rfl
    · exact absurd hexit (hcarries.once rfl)
  subst hqueued
  have hlines : lines = queuedLines (s.queue x) := by
    have heq : lineMsgs lines = lineMsgs (queuedLines (s.queue x)) :=
      hcarries.queue_eq.symm.trans hqueue.1
    rw [← queuedLines_lineMsgs lines, heq, queuedLines_lineMsgs]
  rw [hexit.inHand, List.nil_append, hlines] at hacc
  exact ⟨hovertaken.accepted_eq, hacc⟩

/-- A user types a line and leaves; the other process has not received anything yet. -/
def typeAndLeave : List (Bool × Move) :=
  [(true, .main .nothing), (true, .main (.line (ascii "hi\n"))), (true, .main .nothing),
    (true, .main .nothing), (true, .main (.line (ascii "/exit\n"))), (true, .main .nothing)]

theorem accepted_eq_displayed_append_typeAndLeave : ∃ s s' t,
    runFrom Chat.step .init typeAndLeave = some s ∧
      s.step (true, .main .nothing) = some s' ∧
      runFrom Chat.step s' [(false, .rx false)] = some t ∧
      (t.party true).accepted = (s.party true).accepted ∧
      (t.party true).accepted = (t.party false).displayed ++ queuedLines (s.queue true) := by
  have hrun : (runFrom Chat.step .init (typeAndLeave ++ [(true, .main .nothing)] ++
      [(false, .rx false)])).isSome = true := by decide
  obtain ⟨t, ht⟩ := Option.isSome_iff_exists.1 hrun
  obtain ⟨s', hs', hlast⟩ := runFrom_concat.1 ht
  obtain ⟨s, hs, hstep⟩ := runFrom_concat.1 hs'
  have hsend : (runFrom Chat.step .init typeAndLeave).map (fun s =>
      ((s.party true).main, decide ((s.queue true).length < maxMessages))) =
      some (.sendExit false, true) := by decide
  have hgot : (runFrom Chat.step .init (typeAndLeave ++ [(true, .main .nothing)] ++
      [(false, .rx false)])).map (fun t => (t.party false).rx) = some .gotExit := by decide
  simp only [hs, Option.map_some, Option.some.injEq, Prod.mk.injEq, decide_eq_true_eq] at hsend
  simp only [ht, Option.map_some, Option.some.injEq] at hgot
  have hlast' : runFrom Chat.step s' [(false, .rx false)] = some t := by
    rw [runFrom_singleton, hlast]
  exact ⟨s, s', t, hs, hstep, hlast',
    accepted_eq_displayed_append hs hsend.1 hsend.2 hstep hlast' (Or.inl hgot)⟩

/-- In `typeAndLeave` the exit message is handled before the line. -/
theorem not_displayed_typeAndLeave : ¬ ∀ as t x, runFrom Chat.step .init as = some t →
    (t.party !x).rx = .gotExit → ∀ line ∈ (t.party x).accepted,
      line ∈ (t.party !x).displayed := by
  intro hlaw
  have hrun : (runFrom Chat.step .init (typeAndLeave ++ [(true, .main .nothing)] ++
      [(false, .rx false)])).map (fun t =>
        ((t.party false).rx, (t.party false).displayed, (t.party true).accepted)) =
      some (.gotExit, [], [ascii "hi"]) := by decide
  obtain ⟨t, ht, hfields⟩ := Option.map_eq_some_iff.1 hrun
  simp only [Prod.mk.injEq] at hfields
  obtain ⟨hrx, hdisplayed, haccepted⟩ := hfields
  have hsent : ascii "hi" ∈ (t.party true).accepted := by
    rw [haccepted]
    exact List.mem_singleton.2 rfl
  have hline := hlaw _ t true ht hrx (ascii "hi") hsent
  rw [Bool.not_true, hdisplayed] at hline
  cases hline

end EltexPractice.P2pChat
