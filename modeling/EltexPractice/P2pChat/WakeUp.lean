import EltexPractice.P2pChat.Exit

/-!
# The wake-up after the exit message

The receiving thread sets two flags at the exit message and interrupts the main thread by `SIGUSR1`.
A main thread that is just in front of `fgets` or `mq_send` is not interrupted: it has one more
message to send, and when its queue is full and nobody reads any more, it waits in `mq_send` for
ever (`Chat.Hung`).

`not_hung`: this does not happen in a run in which no `SIGUSR1` gets to a main thread in front of
such a call with a full queue, and every step at which one does can be continued to it.
-/

namespace EltexPractice.P2pChat

open CString

/-- The receiving thread has left its loop. -/
def RxPc.Stopped (pc : RxPc) : Prop := pc = .returned ∨ pc = .failed ∨ pc = .cancelled

namespace MainPc

/-- In front of `fgets` or `mq_send`, with the flags tested before. -/
def BeforeCall (pc : MainPc) : Prop :=
  pc = .fgets false ∨ (∃ text, pc = .send text false) ∨ pc = .sendExit false

/-- Where the flags are tested before anything is sent, or nothing is sent any more. -/
def Settled (pc : MainPc) : Prop := pc = .test ∨ pc = .testExit ∨ pc.Left

/-- At most one message is sent before the flags are tested. -/
def OneMore (pc : MainPc) : Prop :=
  (∃ blocked, pc = .fgets blocked) ∨ (∃ text, pc = .send text false) ∨ pc = .sendExit false

/-- In `mq_send`, waiting for a free place. -/
def Waiting (pc : MainPc) : Prop := (∃ text, pc = .send text true) ∨ pc = .sendExit true

theorem BeforeCall.oneMore {pc : MainPc} (h : pc.BeforeCall) : pc.OneMore :=
  h.imp (fun h => ⟨false, h⟩) id

/-- What is not waiting in a call is settled or in front of a call. -/
theorem settled_or_beforeCall {pc : MainPc} (hsend : ∀ text, pc ≠ .send text true)
    (hfgets : pc ≠ .fgets true) (hexit : pc ≠ .sendExit true) : pc.Settled ∨ pc.BeforeCall := by
  cases pc
  case fgets blocked => cases blocked <;> simp_all [BeforeCall]
  case send text blocked => cases blocked <;> simp_all [BeforeCall]
  case sendExit blocked => cases blocked <;> simp_all [BeforeCall]
  all_goals simp [Settled, Left]

end MainPc

namespace Chat

/-- The process `x` hangs: its receiving thread has finished after the exit message, `SIGUSR1` has
been delivered, and the main thread waits in `mq_send` on a full queue that nobody reads any
more. -/
def Hung (s : Chat) (x : Bool) : Prop :=
  (s.party x).rx = .returned ∧ (s.party x).usr1 = .delivered ∧ (s.party x).main.Waiting ∧
    maxMessages ≤ (s.queue x).length ∧ (s.party !x).rx.Stopped

/-- The condition on a step: `SIGUSR1` does not get to a main thread that is in front of `fgets` or
`mq_send` while its queue is full. -/
def Meets (s : Chat) : Bool × Move → Prop
  | (x, .deliver) => ¬ ((s.party x).main.BeforeCall ∧ maxMessages ≤ (s.queue x).length)
  | _ => True

end Chat

/-! ## The flags -/

/-- The order in which the receiving thread sets the flags, and what the main thread has done on
its way out. -/
structure Flags (P : Party) : Prop where
  peerExited : P.rx = .setFlag ∨ P.rx = .kill ∨ P.rx = .returned → P.peerExited = true
  gExitFlag : P.rx = .kill ∨ P.rx = .returned → P.gExitFlag = true
  returned : P.usr1 ≠ .none → P.rx = .returned
  cancelRequested : P.main = .join ∨ P.main = .ended → P.cancelRequested = true

section Flags

variable {P P' : Party} {q q' : MsgQueue}

theorem Flags.mainMoves (h : Flags P) (hs : P.MainMoves q P' q') : Flags P' := by
  obtain ⟨h₁, h₂, h₃, h₄⟩ := h
  cases hs
  case line blocked hpc text =>
    rcases P.gotLine_cases text with h | h | h <;> rw [h] <;>
      exact ⟨h₁, fun hx => by simp [h₂ hx], h₃, by simp⟩
  case testExit hpc =>
    refine ⟨h₁, h₂, h₃, fun hx => ?_⟩
    by_cases hflag : (P.gExitFlag && !P.peerExited) = true <;> simp [hflag] at hx
  case test hpc =>
    refine ⟨h₁, h₂, h₃, fun hx => ?_⟩
    by_cases hflag : P.gExitFlag = true <;> simp [hflag] at hx
  case eof hpc => exact ⟨h₁, fun _ => rfl, h₃, by simp⟩
  case cancel hpc => exact ⟨h₁, h₂, h₃, fun _ => rfl⟩
  case join hpc hrx => exact ⟨h₁, h₂, h₃, fun _ => h₄ (Or.inl hpc)⟩
  all_goals exact ⟨h₁, h₂, h₃, by simp⟩

theorem Flags.rxMoves (h : Flags P) (hs : P.RxMoves q P' q') : Flags P' := by
  obtain ⟨h₁, h₂, h₃, h₄⟩ := h
  have hnone : P.rx ≠ .returned → P.usr1 = .none := fun hrx => by
    by_contra hne
    exact hrx (h₃ hne)
  cases hs
  case cancelled hreq hpc =>
    have husr : P.usr1 = .none := hnone (by rcases hpc with h | ⟨_, h⟩ | h <;> simp [h])
    exact ⟨by simp, by simp, fun hne => absurd husr hne, h₄⟩
  case kill hpc =>
    exact ⟨fun _ => h₁ (by simp [hpc]), fun _ => h₂ (by simp [hpc]), fun _ => rfl, h₄⟩
  case setFlag hpc =>
    have husr : P.usr1 = .none := hnone (by simp [hpc])
    exact ⟨fun _ => h₁ (by simp [hpc]), fun _ => rfl, fun hne => absurd husr hne, h₄⟩
  case setPeer hpc =>
    have husr : P.usr1 = .none := hnone (by simp [hpc])
    exact ⟨fun _ => rfl, by simp, fun hne => absurd husr hne, h₄⟩
  all_goals
    have husr : P.usr1 = .none := hnone (by simp [*])
    exact ⟨by simp, by simp, fun hne => absurd husr hne, h₄⟩

theorem Flags.interrupt (h : Flags P) : Flags P.interrupt := by
  obtain ⟨h₁, h₂, h₃, h₄⟩ := h
  rcases P.interrupt_cases with ⟨hpc, hP⟩ | ⟨⟨text, hpc⟩, hP⟩ | ⟨hpc, hP⟩ | ⟨-, -, -, hP⟩ <;>
    rw [hP]
  · exact ⟨h₁, fun _ => rfl, h₃, by simp⟩
  · exact ⟨h₁, h₂, h₃, by simp⟩
  · exact ⟨h₁, h₂, h₃, by simp⟩
  · exact ⟨h₁, h₂, h₃, h₄⟩

theorem Flags.setGExitFlag (h : Flags P) : Flags { P with gExitFlag := true } :=
  ⟨h.peerExited, fun _ => rfl, h.returned, h.cancelRequested⟩

theorem Flags.failed (h : Flags P) (hpc : P.rx = .receive) :
    Flags { P with gExitFlag := true, rx := .failed } := by
  refine ⟨by simp, by simp, fun hne => ?_, h.cancelRequested⟩
  have hrx := h.returned hne
  rw [hpc] at hrx
  cases hrx

theorem Flags.deliver (h : Flags P) (hpending : P.usr1 = .pending) :
    Flags { P with usr1 := .delivered } :=
  ⟨h.peerExited, h.gExitFlag, fun _ => h.returned (by simp [hpending]), h.cancelRequested⟩

end Flags

theorem flags_step {s s' : Chat} {y : Bool} {m : Move} (h : ∀ x, Flags (s.party x))
    (hs : s.step (y, m) = some s') (x : Bool) : Flags (s'.party x) := by
  have hmoves := Chat.moves_of_step hs
  have hset : ∀ {P : Party} {z : Bool} {q : MsgQueue}, Flags P →
      Flags ((s.set y P z q).party x) := by
    intro P z q hP
    rcases Bool.eq_or_eq_not x y with rfl | rfl
    · rwa [Chat.party_set_self]
    · rw [Chat.party_set_not]
      exact h _
  cases hmoves
  case main P q hP => exact hset ((h y).mainMoves hP)
  case rx P q hP => exact hset ((h y).rxMoves hP)
  case sigint => exact hset (h y).setGExitFlag.interrupt
  case sigintRx => exact hset (h y).setGExitFlag
  case sigintReceive hpc => exact hset ((h y).failed hpc)
  case deliver hpending => exact hset ((h y).deliver hpending).interrupt

/-! ## Runs that meet the condition -/

/-- After the delivery, the main thread is settled, or has room for the message it may still
send. -/
def Quiet (P : Party) (q : MsgQueue) : Prop :=
  P.usr1 = .delivered → P.main.Settled ∨ (P.main.OneMore ∧ q.length < maxMessages)

section Quiet

variable {P P' : Party} {q q' : MsgQueue}

theorem Quiet.mainMoves (h : Quiet P q) (hflags : Flags P) (hs : P.MainMoves q P' q') :
    Quiet P' q' := by
  intro hdelivered
  have husr : P.usr1 = .delivered := by
    rw [← hdelivered]
    cases hs
    case line blocked hpc text => rcases P.gotLine_cases text with h | h | h <;> rw [h]
    all_goals rfl
  have hreturned := hflags.returned (by simp [husr])
  have hflag := hflags.gExitFlag (Or.inr hreturned)
  have hpeer := hflags.peerExited (Or.inr (Or.inr hreturned))
  have hroom : ∀ {pc : MainPc}, P.main = pc → ¬ pc.Settled → q.length < maxMessages :=
    fun {pc} hpc hpc' => ((h husr).resolve_left (hpc ▸ hpc')).2
  cases hs
  case test hpc => simp [hflag, MainPc.Settled]
  case line blocked hpc text =>
    have hroom := hroom hpc (by simp [MainPc.Settled, MainPc.Left])
    rcases P.gotLine_cases text with h | h | h <;> rw [h]
    · exact Or.inl (Or.inr (Or.inl rfl))
    · exact Or.inl (Or.inl rfl)
    · exact Or.inr ⟨Or.inr (Or.inl ⟨text, rfl⟩), hroom⟩
  case eof blocked hpc => exact Or.inl (Or.inr (Or.inl rfl))
  case wait hpc =>
    exact Or.inr ⟨Or.inl ⟨true, rfl⟩, hroom hpc (by simp [MainPc.Settled, MainPc.Left])⟩
  case send text blocked hpc hr => exact Or.inl (Or.inl rfl)
  case blockSend text hpc hfull =>
    exact absurd (hroom hpc (by simp [MainPc.Settled, MainPc.Left])) (not_lt.2 hfull)
  case testExit hpc => simp [hpeer, MainPc.Settled, MainPc.Left]
  case sendExit blocked hpc hr => exact Or.inl (Or.inr (Or.inr (Or.inl rfl)))
  case blockExit hpc hfull =>
    exact absurd (hroom hpc (by simp [MainPc.Settled, MainPc.Left])) (not_lt.2 hfull)
  case cancel hpc => exact Or.inl (Or.inr (Or.inr (Or.inr (Or.inl rfl))))
  case join hpc hrx => exact Or.inl (Or.inr (Or.inr (Or.inr (Or.inr rfl))))

/-- A main thread that is interrupted in a call is settled; otherwise it stays where it is. -/
theorem settled_interrupt (P : Party) :
    P.interrupt.main.Settled ∨ (P.interrupt = P ∧ P.main.BeforeCall) := by
  rcases P.interrupt_cases with ⟨-, h⟩ | ⟨-, h⟩ | ⟨-, h⟩ | ⟨hsend, hfgets, hexit, h⟩ <;> rw [h]
  · exact Or.inl (Or.inr (Or.inl rfl))
  · exact Or.inl (Or.inl rfl)
  · exact Or.inl (Or.inr (Or.inr (Or.inl rfl)))
  · exact (MainPc.settled_or_beforeCall hsend hfgets hexit).imp id fun hb => ⟨rfl, hb⟩

theorem Quiet.sigint (h : Quiet P q) : Quiet P.sigint q := by
  intro hdelivered
  rcases settled_interrupt { P with gExitFlag := true } with hset | ⟨heq, -⟩
  · exact Or.inl hset
  · rw [Party.sigint, heq] at hdelivered ⊢
    exact h hdelivered

theorem quiet_deliver (hmeet : ¬ (P.main.BeforeCall ∧ maxMessages ≤ q.length)) :
    Quiet { P with usr1 := .delivered : Party }.interrupt q := by
  intro _
  rcases settled_interrupt { P with usr1 := .delivered } with hset | ⟨heq, hbefore⟩
  · exact Or.inl hset
  · rw [heq]
    have hroom : q.length < maxMessages := not_le.1 fun hfull => hmeet ⟨hbefore, hfull⟩
    exact Or.inr ⟨hbefore.oneMore, hroom⟩

/-- Receiving makes room. -/
theorem length_rxMoves (hs : P.RxMoves q P' q') : q'.length ≤ q.length := by
  cases hs
  case gotExit hpc hq => simp [hq]
  case received hpc hprio hq => simp [hq]
  all_goals exact le_rfl

theorem Quiet.mono (h : Quiet P q) (hq : q'.length ≤ q.length) : Quiet P q' :=
  fun hd => (h hd).imp id fun hx => ⟨hx.1, lt_of_le_of_lt hq hx.2⟩

theorem Quiet.rxMoves {r r' : MsgQueue} (h : Quiet P q) (hs : P.RxMoves r P' r') :
    Quiet P' q := by
  intro hd
  cases hs
  case kill hpc => cases hd
  all_goals exact h hd

end Quiet

/-- What a step that meets the condition keeps. -/
def Chat.Calm (s : Chat) : Prop := ∀ x, Flags (s.party x) ∧ Quiet (s.party x) (s.queue x)

theorem Chat.Calm.step {s s' : Chat} {a : Bool × Move} (h : s.Calm) (hmeet : s.Meets a)
    (hs : s.step a = some s') : s'.Calm := by
  obtain ⟨y, m⟩ := a
  intro x
  refine ⟨flags_step (fun x => (h x).1) hs x, ?_⟩
  have hx := (h x).2
  have hmoves := Chat.moves_of_step hs
  rcases Bool.eq_or_eq_not y x with rfl | rfl
  · cases hmoves
    case main P q hP => simpa using hx.mainMoves (h y).1 hP
    case rx P q hP => simpa using hx.rxMoves hP
    all_goals rw [Chat.party_set_self, Chat.queue_set_self]
    case sigint => exact hx.sigint
    case sigintRx => exact hx
    case sigintReceive hpc => exact hx
    case deliver hpending => exact quiet_deliver hmeet
  · cases hmoves
    case main P q hP => simpa using hx
    case rx P q hP =>
      rw [Bool.not_not] at hP
      simpa using hx.mono (length_rxMoves hP)
    all_goals
      rw [Chat.party_set_of_not, Chat.queue_set_of_not]
      exact hx

theorem flags_init (x : Bool) : Flags (Chat.init.party x) :=
  ⟨by simp [Chat.init, Party.init], by simp [Chat.init, Party.init],
    fun hne => absurd rfl hne, by simp [Chat.init, Party.init]⟩

theorem not_hung_of_meets {as : List (Bool × Move)} {s : Chat}
    (hmeet : StepsMeet Chat.step Chat.Meets .init as)
    (h : runFrom Chat.step .init as = some s) (x : Bool) : ¬ s.Hung x := by
  have hinit : Chat.Calm .init := fun x => ⟨flags_init x, fun hd => by cases hd⟩
  have hcalm := runFrom_invariant_of_meet (P := Chat.Calm)
    (fun s a s' hI hC hs => Chat.Calm.step hI hC hs) hinit hmeet h
  rintro ⟨-, hdelivered, hwaiting, hfull, -⟩
  rcases (hcalm x).2 hdelivered with hset | ⟨hone, hroom⟩
  · rcases hwaiting with ⟨text, hpc⟩ | hpc <;> simp [MainPc.Settled, MainPc.Left, hpc] at hset
  · exact absurd hroom (not_lt.2 hfull)

/-! ## Steps that do not meet the condition -/

/-- The process `x` can still come to hang. -/
def Chat.CanHang (s : Chat) (x : Bool) : Prop :=
  ∃ bs t, runFrom Chat.step s bs = some t ∧ t.Hung x

theorem Chat.CanHang.of_step {s s' : Chat} {x : Bool} {a : Bool × Move}
    (hs : s.step a = some s') (h : s'.CanHang x) : s.CanHang x := by
  obtain ⟨bs, t, hrun, ht⟩ := h
  refine ⟨a :: bs, t, ?_, ht⟩
  rw [runFrom_cons, hs]
  exact hrun

/-- `SIGUSR1` has come too early for the main thread of `x`, and its queue is full. -/
structure Chat.Missed (s : Chat) (x : Bool) : Prop where
  returned : (s.party x).rx = .returned
  delivered : (s.party x).usr1 = .delivered
  before : (s.party x).main.BeforeCall ∨ (s.party x).main.Waiting
  full : maxMessages ≤ (s.queue x).length

section Missed

variable {s s' : Chat} {x : Bool}

/-- Steps of the other process that receive nothing. -/
theorem Chat.Missed.of_eq (h : s.Missed x) (hparty : s'.party x = s.party x)
    (hqueue : s'.queue x = s.queue x) : s'.Missed x :=
  ⟨hparty ▸ h.returned, hparty ▸ h.delivered, hparty ▸ h.before, hqueue ▸ h.full⟩

/-- The main thread of `x` goes on to another call. -/
theorem Chat.Missed.goto (h : s.Missed x) {pc : MainPc} (hpc : pc.BeforeCall ∨ pc.Waiting) :
    (s.set x { s.party x with main := pc } x (s.queue x)).Missed x := by
  refine ⟨?_, ?_, ?_, ?_⟩
  · simpa using h.returned
  · simpa using h.delivered
  · simpa using hpc
  · simpa using h.full

theorem canHang_of_waiting (h : s.Missed x) (hpc : (s.party x).main.Waiting)
    (hstopped : (s.party !x).rx.Stopped) : s.CanHang x :=
  ⟨[], s, rfl, h.returned, h.delivered, hpc, h.full, hstopped⟩

theorem canHang_of_send (h : s.Missed x) {text : List UInt8}
    (hpc : (s.party x).main = .send text false) (hstopped : (s.party !x).rx.Stopped) :
    s.CanHang x := by
  have hfull : ¬ (s.queue x).length < maxMessages := not_lt.2 h.full
  have hs : s.step (x, .main .nothing) =
      some (s.set x { s.party x with main := .send text true } x (s.queue x)) := by
    simp [Chat.step, Party.mainStep, hpc, hfull]
  have hwaiting : MainPc.Waiting (.send text true) := Or.inl ⟨text, rfl⟩
  refine Chat.CanHang.of_step hs (canHang_of_waiting (h.goto (Or.inr hwaiting)) ?_ ?_)
  · simpa using hwaiting
  · simpa using hstopped

/-- Nobody reads: the main thread walks into `mq_send`. -/
theorem canHang_of_stopped (h : s.Missed x) (hstopped : (s.party !x).rx.Stopped) :
    s.CanHang x := by
  rcases h.before with (hpc | ⟨text, hpc⟩ | hpc) | hpc
  · -- the user types one more line
    have hs : s.step (x, .main (.line (ascii "h"))) =
        some (s.set x { s.party x with main := .send (ascii "h") false } x (s.queue x)) := by
      have hline : (s.party x).gotLine (Party.stripNewline (cstr (ascii "h"))) =
          { s.party x with main := .send (ascii "h") false } := rfl
      have hshort : ascii "h" ≠ [] ∧ (ascii "h").length < msgBufferSize ∧
          10 ∉ (ascii "h").dropLast := by decide
      simp [Chat.step, Party.mainStep, hpc, hline, hshort]
    have hbefore : MainPc.BeforeCall (.send (ascii "h") false) := Or.inr (Or.inl ⟨_, rfl⟩)
    refine Chat.CanHang.of_step hs
      (@canHang_of_send _ _ (h.goto (Or.inl hbefore)) (ascii "h") ?_ ?_)
    · simp
    · simpa using hstopped
  · exact canHang_of_send h hpc hstopped
  · have hfull : ¬ (s.queue x).length < maxMessages := not_lt.2 h.full
    have hs : s.step (x, .main .nothing) =
        some (s.set x { s.party x with main := .sendExit true } x (s.queue x)) := by
      simp [Chat.step, Party.mainStep, hpc, hfull]
    have hwaiting : MainPc.Waiting (.sendExit true) := Or.inr rfl
    refine Chat.CanHang.of_step hs (canHang_of_waiting (h.goto (Or.inr hwaiting)) ?_ ?_)
    · simpa using hwaiting
    · simpa using hstopped
  · exact canHang_of_waiting h hpc hstopped

/-- The other process has requested the cancellation of its receiving thread. -/
theorem canHang_of_requested (h : s.Missed x) (hreq : (s.party !x).cancelRequested = true)
    (hexit : ¬ (s.party !x).rx.HandlesExit) : s.CanHang x := by
  have hcancel : ((s.party !x).rx = .receive ∨ ∃ text, (s.party !x).rx = .display text) →
      s.CanHang x := by
    intro hpc
    have hs : s.step (!x, .rx true) =
        some (s.set (!x) { s.party !x with rx := .cancelled } (!!x) (s.queue !!x)) := by
      rcases hpc with hpc | ⟨text, hpc⟩ <;> simp [Chat.step, Party.rxStep, hpc, hreq]
    refine Chat.CanHang.of_step hs (canHang_of_stopped (h.of_eq ?_ ?_) ?_)
    · rw [Chat.party_set_of_not]
    · rw [Bool.not_not, Chat.queue_set_self]
    · rw [Chat.party_set_self]
      exact Or.inr (Or.inr rfl)
  cases hpc : (s.party !x).rx
  case receive => exact hcancel (Or.inl hpc)
  case display text => exact hcancel (Or.inr ⟨text, hpc⟩)
  case failed => exact canHang_of_stopped h (Or.inr (Or.inl hpc))
  case cancelled => exact canHang_of_stopped h (Or.inr (Or.inr hpc))
  all_goals exact absurd (by simp [RxPc.HandlesExit, hpc]) hexit

/-- The other process has left. -/
theorem canHang_of_left (h : s.Missed x) (hflags : Flags (s.party !x))
    (hleft : (s.party !x).main.Left) (hexit : ¬ (s.party !x).rx.HandlesExit) : s.CanHang x := by
  rcases hleft with hpc | hpc
  · have hs : s.step (!x, .main .nothing) = some
        (s.set (!x) { s.party !x with cancelRequested := true, main := .join } (!x)
          (s.queue !x)) := by
      simp [Chat.step, Party.mainStep, hpc]
    refine Chat.CanHang.of_step hs (canHang_of_requested (h.of_eq ?_ ?_) ?_ ?_)
    · rw [Chat.party_set_of_not]
    · rw [Chat.queue_set_of_not]
    · rw [Chat.party_set_self]
    · rw [Chat.party_set_self]
      exact hexit
  · exact canHang_of_requested h (hflags.cancelRequested hpc) hexit

end Missed

/-- A step that does not meet the condition can be continued to a hang. -/
theorem canHang_of_not_meets {as : List (Bool × Move)} {s s' : Chat} {a : Bool × Move}
    (h : runFrom Chat.step .init as = some s) (hs : s.step a = some s') (hnot : ¬ s.Meets a) :
    s'.CanHang a.1 := by
  obtain ⟨x, m⟩ := a
  cases m
  case deliver =>
    simp only [Chat.Meets, not_not] at hnot
    obtain ⟨hbefore, hfull⟩ := hnot
    have hflags := runFrom_invariant (P := fun s : Chat => ∀ x, Flags (s.party x))
      (fun s a s' hI hs => flags_step hI hs) flags_init h
    have hrun' := runFrom_concat.2 ⟨s, h, hs⟩
    cases Chat.moves_of_step hs
    case deliver hpending =>
      have hreturned := (hflags x).returned (by simp [hpending])
      have hsame : { s.party x with usr1 := .delivered : Party }.interrupt =
          { s.party x with usr1 := .delivered } := by
        rcases hbefore with hpc | ⟨text, hpc⟩ | hpc <;> simp [Party.interrupt, hpc]
      rw [hsame] at hrun' ⊢
      -- the exit message of the other process has come, and none has gone
      have hleft : (s.party !x).main.Left := by
        obtain ⟨queued, lines, hcarries⟩ := direction_of_run h (!x)
        rw [Bool.not_not] at hcarries
        exact hcarries.left (Or.inr (by simp [RxPc.HandlesExit, hreturned]))
      have hexit : ¬ (s.party !x).rx.HandlesExit := by
        obtain ⟨queued, lines, hcarries⟩ := direction_of_run h x
        intro hx
        have hl := hcarries.left (Or.inr hx)
        rcases hbefore with hpc | ⟨text, hpc⟩ | hpc <;> simp [MainPc.Left, hpc] at hl
      refine canHang_of_left ⟨?_, ?_, ?_, ?_⟩ ?_ ?_ ?_
      · simpa using hreturned
      · simp
      · simpa using Or.inl hbefore
      · simpa using hfull
      · simpa using hflags (!x)
      · simpa using hleft
      · simpa using hexit
  all_goals exact absurd trivial hnot

/-! ## The chat -/

/-- **When nobody hangs after the exit message.** In a run whose steps all meet the condition, no
process hangs; a step that does not meet it can be continued to where its process hangs. -/
theorem not_hung {as : List (Bool × Move)} {s : Chat}
    (h : runFrom Chat.step .init as = some s) :
    (StepsMeet Chat.step Chat.Meets .init as → ∀ x, ¬ s.Hung x) ∧
      ∀ a s', s.step a = some s' → ¬ s.Meets a → s'.CanHang a.1 :=
  ⟨fun hmeet x => not_hung_of_meets hmeet h x, fun _ _ hs hnot => canHang_of_not_meets h hs hnot⟩

/-- One process leaves; the other one waits in `fgets` when its receiving thread gets the exit
message. -/
def leaveWhileWaiting : List (Bool × Move) :=
  [(false, .main .nothing), (false, .main .eof), (false, .main .nothing), (false, .main .nothing),
    (true, .main .nothing), (true, .main .nothing), (true, .rx false), (true, .rx false),
    (true, .rx false), (true, .rx false)]

theorem not_hung_leaveWhileWaiting : ∃ s,
    runFrom Chat.step .init (leaveWhileWaiting ++ [(true, .deliver)]) = some s ∧
      (s.party true).usr1 = .delivered ∧ ∀ x, ¬ s.Hung x := by
  have hrun :
      (runFrom Chat.step .init (leaveWhileWaiting ++ [(true, .deliver)])).isSome = true := by
    decide
  have husr1 : (runFrom Chat.step .init (leaveWhileWaiting ++ [(true, .deliver)])).map
      (fun s => (s.party true).usr1) = some .delivered := by decide
  have hmain : (runFrom Chat.step .init leaveWhileWaiting).map
      (fun s => (s.party true).main) = some (.fgets true) := by decide
  obtain ⟨s, hs⟩ := Option.isSome_iff_exists.1 hrun
  obtain ⟨t, ht, -⟩ := runFrom_concat.1 hs
  simp only [hs, ht, Option.map_some, Option.some.injEq] at husr1 hmain
  refine ⟨s, hs, husr1, (not_hung hs).1 (StepsMeet.concat (stepsMeet_of_forall ?_ _) ht ?_)⟩
  · intro a ha t
    simp only [leaveWhileWaiting, List.mem_cons, List.not_mem_nil, or_false] at ha
    rcases ha with rfl | rfl | rfl | rfl | rfl | rfl | rfl | rfl | rfl | rfl <;> trivial
  · rintro ⟨hbefore, -⟩
    simp [MainPc.BeforeCall, hmain] at hbefore

/-- A user fills the queue with ten lines that nobody reads; the other process leaves, and `SIGUSR1`
comes just before the user's next `fgets`. -/
def elevenLines : List (Bool × Move) :=
  (List.replicate 10 [(true, .main .nothing), (true, .main (.line (ascii "h\n"))),
    (true, .main .nothing)]).flatten ++
    [(true, .main .nothing), (false, .main .nothing), (false, .main .eof), (false, .main .nothing),
      (false, .main .nothing), (true, .rx false), (true, .rx false), (true, .rx false),
      (true, .rx false), (true, .deliver), (true, .main (.line (ascii "h\n"))),
      (true, .main .nothing), (false, .main .nothing), (false, .rx false)]

/-- In `elevenLines`, the main thread waits for ever in the eleventh `mq_send`. -/
theorem hung_elevenLines : ¬ ∀ as s x, runFrom Chat.step .init as = some s → ¬ s.Hung x := by
  intro hlaw
  have hrun : (runFrom Chat.step .init elevenLines).map (fun s =>
      ((s.party true).rx, (s.party true).usr1, (s.party true).main, (s.queue true).length,
        (s.party false).rx)) =
      some (.returned, .delivered, .send (ascii "h") true, 10, .cancelled) := by decide
  obtain ⟨s, hs, hfields⟩ := Option.map_eq_some_iff.1 hrun
  simp only [Prod.mk.injEq] at hfields
  obtain ⟨hrx, husr1, hmain, hlen, hpeer⟩ := hfields
  exact hlaw _ s true hs ⟨hrx, husr1, Or.inl ⟨_, hmain⟩, hlen.ge, Or.inr (Or.inr hpeer)⟩

end EltexPractice.P2pChat
