import EltexPractice.Foundations.Entries
import EltexPractice.Foundations.Schedule
import EltexPractice.KernelModules.LedMask
import Mathlib.Data.List.Chain

/-!
# The LED module

The timer function of the LED module, processes at `/sys/kernel/systest/test`, `insmod` and `rmmod`,
access by access to `test`, `_kbledstatus` and the timer.

The timer function puts its own timer back. `del_timer` takes the timer out of the list of the
kernel and does not wait for the function; `sysfs_remove_file` waits for the calls on the file.

* `Driver.moves`: what one step can do.
* `Driver.Inv`: what holds between two steps.
* `Driver.blinking_law`: the LEDs, the calls and the timer in every run.
* `Driver.endangered_iff`: when code of the module runs behind its end.
-/

namespace EltexPractice.KbLeds

/-! ## The parties -/

/-- `RESTORE_LEDS` -/
def restoreLeds : ℤ := 255

/-- The next `_kbledstatus`. -/
def blink (kbledstatus currentMask : ℤ) : ℤ :=
  if kbledstatus = currentMask then restoreLeds else currentMask

/-- Where `my_timer_func` is. -/
inductive TimerPc
  | idle
  /-- Before `current_mask = test`. -/
  | mask
  /-- Before the assignment to `*pstatus`. -/
  | status (currentMask : ℤ)
  | ioctl
  | addTimer
  /-- Behind `add_timer`. -/
  | leaving
  deriving DecidableEq

/-- The function is going to put the timer back. -/
def TimerPc.willAdd : TimerPc → Bool
  | .idle => false
  | .leaving => false
  | _ => true

/-- Where `kbleds_sysfs_init` and `kbleds_sysfs_exit` are. -/
inductive MainPc
  | consoles
  | addTimer
  | kobject
  | file
  /-- Before `kobject_put`, when the file could not be created. -/
  | putFailed
  /-- Before `del_timer`, when there is no kobject. -/
  | delFailed
  | live
  | delTimer
  | restore
  | removeFile
  /-- `sysfs_remove_file` waits for the calls. -/
  | drain
  | put
  | gone
  deriving DecidableEq

/-- What a process does with the file. -/
inductive Request
  | show
  | store (buf : List UInt8)

inductive Reply
  | text (buf : List UInt8)
  | code (n : ℤ)

/-- A call as a whole. -/
def perform (test : ℤ) : Request → ℤ × Reply
  | .show => (test, .text (fooShow test))
  | .store buf => ((fooStore test buf).2, .code (fooStore test buf).1)

inductive CallPc
  | entered
  /-- Before `test = temp_val`. -/
  | assign (tempVal : ℤ)
  | returned (reply : Reply)

structure Call where
  request : Request
  pc : CallPc

/-- The call is over. -/
def Call.isOver (c : Call) : Bool :=
  match c.pc with
  | .returned _ => true
  | _ => false

/-- The accesses to `test`. -/
inductive Event
  | call (i : ℕ) (request : Request) (reply : Reply)
  | mask (currentMask : ℤ)

/-- The next access of a call to `test`: the value of `test` and the call behind it. -/
def Call.turn (test : ℤ) (c : Call) : Option (ℤ × Call) :=
  match c.pc, c.request with
  | .entered, .show => some (test, { c with pc := .returned (.text (fooShow test)) })
  | .entered, .store buf =>
    match tempVal buf with
    | none => some (test, { c with pc := .returned (.code (-EINVAL)) })
    | some tempVal => some (test, { c with pc := .assign tempVal })
  | .assign tempVal, .store buf =>
    some (tempVal, { c with pc := .returned (.code buf.length) })
  | _, _ => none

/-! ## The module in the kernel -/

structure Driver where
  test : ℤ
  kbledstatus : ℤ
  /-- `my_timer` is in the list of the kernel. -/
  pending : Bool
  timer : TimerPc
  main : MainPc
  /-- `/sys/kernel/systest/test` is there. -/
  file : Bool
  calls : List Call
  /-- The arguments of `KDSETLED`. -/
  leds : List ℤ
  /-- What the timer function has stored in `_kbledstatus`. -/
  ticks : List ℤ
  history : List Event
  /-- The timer function was going to put the timer back when `del_timer` took it out. -/
  caught : Bool
  /-- `kbleds_sysfs_exit` has set the LEDs. -/
  restored : Bool
  /-- Code of the module has been run that is no longer there. -/
  fault : Bool

def Driver.init : Driver :=
  ⟨3, 0, false, .idle, .consoles, false, [], [], [], [], false, false, false⟩

inductive Action
  /-- The next step of `insmod` or `rmmod`, and whether what it asks for is there. -/
  | main (ok : Bool)
  | rmmod
  /-- The time of the timer has come. -/
  | expire
  /-- The next step of the timer function, and whether there is a console. -/
  | timer (tty : Bool)
  | request (r : Request)
  | call (i : ℕ)

namespace Driver

/-- `del_timer` -/
def delTimer (s : Driver) (main : MainPc) : Driver :=
  { s with main, pending := false, caught := s.timer.willAdd }

/-- The next step of `kbleds_sysfs_init` or `kbleds_sysfs_exit`. -/
def mainTurn (s : Driver) (ok : Bool) : Option Driver :=
  match s.main with
  | .consoles => some { s with main := if ok then .addTimer else .gone }
  | .addTimer => some { s with main := .kobject, pending := true }
  | .kobject => some { s with main := if ok then .file else .delFailed }
  | .file => if ok then some { s with main := .live, file := true } else
      some { s with main := .putFailed }
  | .putFailed => some { s with main := .delFailed }
  | .delFailed => some (s.delTimer .gone)
  | .live => none
  | .delTimer => some (s.delTimer .restore)
  | .restore =>
    some { s with
      main := .removeFile
      leds := if ok then s.leds ++ [restoreLeds] else s.leds
      restored := ok }
  | .removeFile => some { s with main := .drain, file := false }
  | .drain => if s.calls.all Call.isOver then some { s with main := .put } else none
  | .put => some { s with main := .gone }
  | .gone => none

/-- The next step of `my_timer_func`. -/
def timerTurn (s : Driver) (tty : Bool) : Option Driver :=
  match s.timer with
  | .idle => none
  | .mask => some { s with timer := .status s.test, history := s.history ++ [.mask s.test] }
  | .status currentMask =>
    let kbledstatus := blink s.kbledstatus currentMask
    some { s with timer := .ioctl, kbledstatus, ticks := s.ticks ++ [kbledstatus] }
  | .ioctl =>
    some { s with
      timer := .addTimer
      leds := if tty then s.leds ++ [s.kbledstatus] else s.leds }
  | .addTimer => some { s with timer := .leaving, pending := true }
  | .leaving => some { s with timer := .idle }

/-- What is recorded when the call `i` has taken a step. -/
def record (i : ℕ) (c : Call) (history : List Event) : List Event :=
  match c.pc with
  | .returned reply => history ++ [.call i c.request reply]
  | _ => history

/-- What an action does with the module in memory. -/
def act (s : Driver) : Action → Option Driver
  | .main ok => s.mainTurn ok
  | .rmmod => if s.main = .live then some { s with main := .delTimer } else none
  | .expire =>
    if s.pending ∧ s.timer = .idle then some { s with pending := false, timer := .mask } else none
  | .timer tty => s.timerTurn tty
  | .request r => if s.file then some { s with calls := s.calls ++ [⟨r, .entered⟩] } else none
  | .call i => do
    let c ← s.calls[i]?
    let (test, c') ← c.turn s.test
    return { s with test, calls := s.calls.set i c', history := record i c' s.history }

/-- The action runs code of the module. -/
def needsModule : Action → Bool
  | .expire => true
  | .timer _ => true
  | .call _ => true
  | _ => false

/-- One action. After a fault there is none. -/
def step (s : Driver) (a : Action) : Option Driver :=
  if s.fault then none
  else (s.act a).map fun t => if s.main = .gone ∧ needsModule a then { s with fault := true } else t

end Driver

/-! ## What one step can do -/

/-- A step of `insmod` or `rmmod` that changes nothing else. -/
inductive MainPc.Next : MainPc → MainPc → Prop
  | consoles : Next .consoles .addTimer
  | noConsole : Next .consoles .gone
  | kobject : Next .kobject .file
  | noKobject : Next .kobject .delFailed
  | noFile : Next .file .putFailed
  | putFailed : Next .putFailed .delFailed
  | rmmod : Next .live .delTimer
  | put : Next .put .gone

/-- A call of `del_timer`. -/
inductive MainPc.Deletes : MainPc → MainPc → Prop
  | failed : Deletes .delFailed .gone
  | exit : Deletes .delTimer .restore

inductive Call.Moves (test : ℤ) (c : Call) : ℤ → Call → Prop
  | valid (buf : List UInt8) (tempVal : ℤ) (hrequest : c.request = .store buf)
      (hpc : c.pc = .entered) (hvalid : KbLeds.tempVal buf = some tempVal) :
      Moves test c test { c with pc := .assign tempVal }
  | answer (test' : ℤ) (reply : Reply) (hover : c.isOver = false)
      (hperform : (∀ buf tempVal, c.request = .store buf → c.pc = .assign tempVal →
          KbLeds.tempVal buf = some tempVal) → perform test c.request = (test', reply)) :
      Moves test c test' { c with pc := .returned reply }

theorem Call.moves {test test' : ℤ} {c c' : Call} (h : c.turn test = some (test', c')) :
    c.Moves test test' c' := by
  unfold turn at h
  split at h
  · rename_i hpc hrequest
    cases h
    refine .answer _ _ (by rw [isOver, hpc]) fun _ => ?_
    rw [hrequest, perform]
  · rename_i buf hpc hrequest
    split at h
    · rename_i hnone
      cases h
      refine .answer _ _ (by rw [isOver, hpc]) fun _ => ?_
      rw [hrequest, perform, fooStore, hnone]
    · rename_i tempVal hsome
      cases h
      exact .valid buf tempVal hrequest hpc hsome
  · rename_i tempVal buf hpc hrequest
    cases h
    refine .answer _ _ (by rw [isOver, hpc]) fun hassign => ?_
    rw [hrequest, perform, fooStore, hassign buf _ hrequest hpc]
  · cases h

namespace Driver

variable {s t : Driver}

inductive Moves (s : Driver) : Driver → Prop
  | next (main : MainPc) (h : s.main.Next main) : Moves s { s with main }
  | addFirst (hmain : s.main = .addTimer) : Moves s { s with main := .kobject, pending := true }
  | file (hmain : s.main = .file) : Moves s { s with main := .live, file := true }
  | deletes (main : MainPc) (h : s.main.Deletes main) : Moves s (s.delTimer main)
  | restore (ok : Bool) (hmain : s.main = .restore) : Moves s { s with
      main := .removeFile
      leds := if ok then s.leds ++ [restoreLeds] else s.leds
      restored := ok }
  | removeFile (hmain : s.main = .removeFile) : Moves s { s with main := .drain, file := false }
  | drain (hmain : s.main = .drain) (hover : ∀ c ∈ s.calls, c.isOver) :
      Moves s { s with main := .put }
  | expire (hpending : s.pending) (hidle : s.timer = .idle) :
      Moves s { s with pending := false, timer := .mask }
  | mask (htimer : s.timer = .mask) : Moves s { s with
      timer := .status s.test
      history := s.history ++ [.mask s.test] }
  | status (currentMask : ℤ) (htimer : s.timer = .status currentMask) : Moves s { s with
      timer := .ioctl
      kbledstatus := blink s.kbledstatus currentMask
      ticks := s.ticks ++ [blink s.kbledstatus currentMask] }
  | ioctl (tty : Bool) (htimer : s.timer = .ioctl) : Moves s { s with
      timer := .addTimer
      leds := if tty then s.leds ++ [s.kbledstatus] else s.leds }
  | add (htimer : s.timer = .addTimer) : Moves s { s with timer := .leaving, pending := true }
  | leave (htimer : s.timer = .leaving) : Moves s { s with timer := .idle }
  | request (r : Request) (hfile : s.file) : Moves s { s with calls := s.calls ++ [⟨r, .entered⟩] }
  | call (i : ℕ) (c : Call) (hget : s.calls[i]? = some c) (test : ℤ) (c' : Call)
      (h : c.Moves s.test test c') : Moves s { s with
        test
        calls := s.calls.set i c'
        history := record i c' s.history }

theorem moves_of_mainTurn {ok : Bool} (h : s.mainTurn ok = some t) : s.Moves t := by
  unfold mainTurn at h
  split at h
  · rename_i hmain
    obtain rfl := Option.some.inj h
    cases ok with
    | true => exact .next _ (hmain ▸ .consoles)
    | false => exact .next _ (hmain ▸ .noConsole)
  · rename_i hmain
    obtain rfl := Option.some.inj h
    exact .addFirst hmain
  · rename_i hmain
    obtain rfl := Option.some.inj h
    cases ok with
    | true => exact .next _ (hmain ▸ .kobject)
    | false => exact .next _ (hmain ▸ .noKobject)
  · rename_i hmain
    split at h
    · obtain rfl := Option.some.inj h
      exact .file hmain
    · obtain rfl := Option.some.inj h
      exact .next _ (hmain ▸ .noFile)
  · rename_i hmain
    obtain rfl := Option.some.inj h
    exact .next _ (hmain ▸ .putFailed)
  · rename_i hmain
    obtain rfl := Option.some.inj h
    exact .deletes _ (hmain ▸ .failed)
  · cases h
  · rename_i hmain
    obtain rfl := Option.some.inj h
    exact .deletes _ (hmain ▸ .exit)
  · rename_i hmain
    obtain rfl := Option.some.inj h
    exact .restore ok hmain
  · rename_i hmain
    obtain rfl := Option.some.inj h
    exact .removeFile hmain
  · rename_i hmain
    split at h
    · rename_i hover
      obtain rfl := Option.some.inj h
      exact .drain hmain (List.all_eq_true.1 hover)
    · cases h
  · rename_i hmain
    obtain rfl := Option.some.inj h
    exact .next _ (hmain ▸ .put)
  · cases h

theorem moves_of_timerTurn {tty : Bool} (h : s.timerTurn tty = some t) : s.Moves t := by
  unfold timerTurn at h
  split at h
  · cases h
  · rename_i htimer
    obtain rfl := Option.some.inj h
    exact .mask htimer
  · rename_i currentMask htimer
    obtain rfl := Option.some.inj h
    exact .status currentMask htimer
  · rename_i htimer
    obtain rfl := Option.some.inj h
    exact .ioctl tty htimer
  · rename_i htimer
    obtain rfl := Option.some.inj h
    exact .add htimer
  · rename_i htimer
    obtain rfl := Option.some.inj h
    exact .leave htimer

theorem moves {a : Action} (h : s.act a = some t) : s.Moves t := by
  cases a with
  | main ok => exact moves_of_mainTurn h
  | rmmod =>
    rw [act] at h
    split at h
    · rename_i hmain
      obtain rfl := Option.some.inj h
      exact .next _ (hmain ▸ .rmmod)
    · cases h
  | expire =>
    rw [act] at h
    split at h
    · rename_i hready
      obtain rfl := Option.some.inj h
      exact .expire hready.1 hready.2
    · cases h
  | timer tty => exact moves_of_timerTurn h
  | request r =>
    rw [act] at h
    split at h
    · rename_i hfile
      obtain rfl := Option.some.inj h
      exact .request r hfile
    · cases h
  | call i =>
    simp only [act, Option.bind_eq_bind, Option.bind_eq_some_iff] at h
    obtain ⟨c, hget, ⟨test, c'⟩, hturn, h⟩ := h
    obtain rfl := Option.some.inj h
    exact .call i c hget test c' (Call.moves hturn)

end Driver

/-! ## What holds between two steps -/

/-- `del_timer` has been called, or there never was a timer. -/
def MainPc.timerOver : MainPc → Bool
  | .restore => true
  | .removeFile => true
  | .drain => true
  | .put => true
  | .gone => true
  | _ => false

def MainPc.hasFile : MainPc → Bool
  | .live => true
  | .delTimer => true
  | .restore => true
  | .removeFile => true
  | _ => false

/-- Calls can be in progress. -/
def MainPc.hasCalls (main : MainPc) : Bool := main.hasFile || main = .drain

/-- What `KDSETLED` takes: three bits, or the LEDs back to the keyboard. -/
def IsLed (v : ℤ) : Prop := 0 ≤ v ∧ v ≤ 7 ∨ v = restoreLeds

/-- The accesses to `test` one after the other, and `test` behind them. -/
inductive Replays : List Event → ℤ → Prop
  | init : Replays [] 3
  | call {history : List Event} {test : ℤ} (i : ℕ) (request : Request) {test' : ℤ} {reply : Reply}
      (h : Replays history test) (hperform : perform test request = (test', reply)) :
      Replays (history ++ [.call i request reply]) test'
  | mask {history : List Event} {test : ℤ} (h : Replays history test) :
      Replays (history ++ [.mask test]) test

/-- The replies to the call `i`. -/
def answersOf (i : ℕ) (history : List Event) : List (Request × Reply) :=
  history.filterMap fun
    | .call j request reply => if j = i then some (request, reply) else none
    | .mask _ => none

/-- The masks that the timer function has read. -/
def masksOf (history : List Event) : List ℤ :=
  history.filterMap fun
    | .mask currentMask => some currentMask
    | .call _ _ _ => none

/-- The mask that is read and not used yet. -/
def TimerPc.unused : TimerPc → List ℤ
  | .status currentMask => [currentMask]
  | _ => []

/-- The reply of a call that is over. -/
def Call.answers (c : Call) : List (Request × Reply) :=
  match c.pc with
  | .returned reply => [(c.request, reply)]
  | _ => []

theorem Call.answers_of_not_isOver {c : Call} (h : c.isOver = false) : c.answers = [] := by
  rw [isOver] at h
  rw [answers]
  cases hpc : c.pc <;> first | rfl | (rw [hpc] at h; cases h)

/-- Everything a call does happens once. -/
def Answered (calls : List Call) (history : List Event) : Prop :=
  ∀ i, answersOf i history = (calls[i]?.map Call.answers).getD []

namespace Answered

variable {calls : List Call} {history : List Event}

theorem mask (h : Answered calls history) (currentMask : ℤ) :
    Answered calls (history ++ [.mask currentMask]) := fun i => by
  rw [← h i, answersOf, List.filterMap_append]
  simp [answersOf]

theorem request (h : Answered calls history) (r : Request) :
    Answered (calls ++ [⟨r, .entered⟩]) history := fun i => by
  rw [h i]
  rcases Nat.lt_trichotomy i calls.length with hlt | rfl | hgt
  · rw [List.getElem?_append_left hlt]
  · simp [Call.answers]
  · rw [List.getElem?_eq_none (by omega), List.getElem?_eq_none (by simp; omega)]

/-- A call takes a step. -/
theorem set (h : Answered calls history) {i : ℕ} {c c' : Call} (hget : calls[i]? = some c)
    (hover : c.isOver = false) :
    Answered (calls.set i c') (Driver.record i c' history) := fun j => by
  have hnone := h i
  rw [hget, Option.map_some, Option.getD_some, Call.answers_of_not_isOver hover] at hnone
  by_cases hj : j = i
  · rw [hj, List.getElem?_set_self (List.getElem?_eq_some_iff.1 hget).1, Option.map_some,
      Option.getD_some, Driver.record, Call.answers]
    cases c'.pc with
    | returned reply =>
      simp only
      rw [answersOf, List.filterMap_append, ← answersOf, hnone]
      simp
    | _ => exact hnone
  · rw [List.getElem?_set_ne (Ne.symm hj), ← h j, Driver.record]
    cases c'.pc with
    | returned reply =>
      simp only
      rw [answersOf, List.filterMap_append, ← answersOf]
      simp [Ne.symm hj]
    | _ => rfl

end Answered

theorem masksOf_mask (history : List Event) (currentMask : ℤ) :
    masksOf (history ++ [.mask currentMask]) = masksOf history ++ [currentMask] := by
  rw [masksOf, List.filterMap_append, ← masksOf]
  rfl

theorem masksOf_record (i : ℕ) (c : Call) (history : List Event) :
    masksOf (Driver.record i c history) = masksOf history := by
  rw [Driver.record]
  cases c.pc with
  | returned reply =>
    simp only
    rw [masksOf, List.filterMap_append, ← masksOf]
    exact List.append_nil _
  | _ => rfl

theorem isLed_blink {status mask : ℤ} (h : 0 ≤ mask ∧ mask ≤ 7) : IsLed (blink status mask) := by
  rw [blink]
  split
  · exact Or.inr rfl
  · exact Or.inl h

/-- The status changes with every tick. -/
theorem blink_ne {status mask : ℤ} (h : 0 ≤ mask ∧ mask ≤ 7) : status ≠ blink status mask := by
  rw [blink]
  split
  · rename_i heq
    rw [heq, restoreLeds]
    omega
  · rename_i hne
    exact hne

/-- A call keeps `test` within the three bits. -/
theorem perform_range {test test' : ℤ} {request : Request} {reply : Reply}
    (htest : 0 ≤ test ∧ test ≤ 7) (h : perform test request = (test', reply)) :
    0 ≤ test' ∧ test' ≤ 7 := by
  cases request with
  | «show» =>
    cases h
    exact htest
  | store buf =>
    rw [perform, fooStore] at h
    cases hvalid : tempVal buf with
    | none =>
      rw [hvalid] at h
      cases h
      exact htest
    | some v =>
      rw [hvalid] at h
      cases h
      exact tempVal_range hvalid

theorem MainPc.Next.spec {main main' : MainPc} (h : main.Next main') :
    main'.hasFile = main.hasFile ∧ main'.hasCalls = main.hasCalls ∧
      (main' = .consoles ∨ main' = .addTimer → main = .consoles) ∧
      (main.timerOver → main ≠ .restore → main'.timerOver ∧ main' ≠ .restore) ∧
      (main'.timerOver = main.timerOver ∨ main = .consoles ∧ main' = .gone) := by
  cases h <;> simp [hasFile, hasCalls, timerOver]

theorem MainPc.Deletes.spec {main main' : MainPc} (h : main.Deletes main') :
    main'.hasFile = main.hasFile ∧ main'.hasCalls = main.hasCalls ∧ main.timerOver = false ∧
      main'.timerOver ∧ ¬(main' = .consoles ∨ main' = .addTimer) := by
  cases h <;> simp [hasFile, hasCalls, timerOver]

namespace Driver

structure Inv (s : Driver) : Prop where
  test : 0 ≤ s.test ∧ s.test ≤ 7
  assign : ∀ c ∈ s.calls, ∀ buf tempVal, c.request = .store buf → c.pc = .assign tempVal →
    KbLeds.tempVal buf = some tempVal
  mask : ∀ currentMask, s.timer = .status currentMask → 0 ≤ currentMask ∧ currentMask ≤ 7
  status : IsLed s.kbledstatus
  leds : ∀ v ∈ s.leds, IsLed v
  ticks : (0 :: s.ticks).IsChain (· ≠ ·) ∧ (0 :: s.ticks).getLast? = some s.kbledstatus
  masks : (∃ masks, masksOf s.history = masks ++ s.timer.unused ∧
    0 :: s.ticks = masks.scanl blink 0) ∧ ∀ m ∈ masksOf s.history, 0 ≤ m ∧ m ≤ 7
  replays : Replays s.history s.test
  answered : Answered s.calls s.history
  early : s.main = .consoles ∨ s.main = .addTimer → s.pending = false ∧ s.timer = .idle
  adding : s.timer.willAdd → s.pending = false
  caught : if s.main.timerOver then s.caught = (s.pending || s.timer.willAdd) else s.caught = false
  file : s.file = s.main.hasFile
  calls : s.main.hasCalls = false → ∀ c ∈ s.calls, c.isOver
  restored : s.restored → (s.main.timerOver ∧ s.main ≠ .restore) ∧
    (s.caught = false → s.leds.getLast? = some restoreLeds)

namespace Inv

variable {s t : Driver}

theorem init : Driver.init.Inv where
  test := by simp [Driver.init]
  assign := by simp [Driver.init]
  mask := by simp [Driver.init]
  status := Or.inl ⟨le_rfl, by simp [Driver.init]⟩
  leds := by simp [Driver.init]
  ticks := ⟨by simp [Driver.init], rfl⟩
  masks := ⟨⟨[], rfl, rfl⟩, by simp [Driver.init, masksOf]⟩
  replays := .init
  answered i := by simp [Driver.init, answersOf]
  early _ := ⟨rfl, rfl⟩
  adding _ := rfl
  caught := rfl
  file := rfl
  calls _ c hc := by cases hc
  restored h := by cases h

/-- The LEDs are given back behind `del_timer`. -/
theorem not_restored (hs : s.Inv) (hbefore : s.main.timerOver = false) : ¬s.restored := by
  intro h
  have hover := (hs.restored h).1.1
  rw [hbefore] at hover
  cases hover

/-- The call `i` takes a step. -/
theorem call (hs : s.Inv) {i : ℕ} {c c' : Call} {test : ℤ} (hget : s.calls[i]? = some c)
    (h : c.Moves s.test test c') : Inv { s with
      test
      calls := s.calls.set i c'
      history := record i c' s.history } := by
  have hmem := List.mem_of_getElem? hget
  have hnotOver : c.isOver = false := by
    cases h with
    | valid buf tempVal hrequest hpc hvalid => rw [Call.isOver, hpc]
    | answer test' reply hover hperform => exact hover
  have hcalls : s.main.hasCalls = true := by
    by_contra hquiet
    rw [hs.calls (Bool.not_eq_true _ ▸ hquiet) c hmem] at hnotOver
    cases hnotOver
  have hanswered : Answered (s.calls.set i c') (record i c' s.history) :=
    hs.answered.set hget hnotOver
  have hmasks := hs.masks
  rw [← masksOf_record i c'] at hmasks
  cases h with
  | valid buf tempVal hrequest hpc hvalid =>
    refine { hs with
      assign := fun d hd buf' tempVal' hrequest' hpc' => ?_
      masks := hmasks
      answered := hanswered
      calls := fun h => by rw [hcalls] at h; cases h }
    rcases List.mem_or_eq_of_mem_set hd with hd | rfl
    · exact hs.assign d hd buf' tempVal' hrequest' hpc'
    · rw [hrequest] at hrequest'
      cases hrequest'
      cases hpc'
      exact hvalid
  | answer test reply hover hperform =>
    have hperform := hperform (hs.assign c hmem)
    refine { hs with
      test := ?_
      assign := fun d hd buf' tempVal' hrequest' hpc' => ?_
      masks := hmasks
      replays := hs.replays.call i c.request hperform
      answered := hanswered
      calls := fun h => by rw [hcalls] at h; cases h }
    · exact perform_range hs.test hperform
    · rcases List.mem_or_eq_of_mem_set hd with hd | rfl
      · exact hs.assign d hd buf' tempVal' hrequest' hpc'
      · cases hpc'

/-- A step of `insmod` or `rmmod` alone. -/
theorem next (hs : s.Inv) {main : MainPc} (h : s.main.Next main) : Inv { s with main } := by
  obtain ⟨hfile, hcalls, hearly, hover, hsame⟩ := h.spec
  refine { hs with
    early := fun hmain => hs.early (Or.inl (hearly hmain))
    caught := ?_
    file := hs.file.trans hfile.symm
    calls := fun hquiet => hs.calls (hcalls ▸ hquiet)
    restored := fun hrestored =>
      ⟨hover (hs.restored hrestored).1.1 (hs.restored hrestored).1.2, (hs.restored hrestored).2⟩ }
  have hcaught := hs.caught
  rcases hsame with hsame | ⟨hconsoles, rfl⟩
  · rwa [hsame]
  · obtain ⟨hpending, hidle⟩ := hs.early (Or.inl hconsoles)
    rw [hconsoles] at hcaught
    simp only [hpending, hidle]
    exact hcaught

theorem deletes (hs : s.Inv) {main : MainPc} (h : s.main.Deletes main) :
    (s.delTimer main).Inv := by
  obtain ⟨hfile, hcalls, hbefore, hover, hearly⟩ := h.spec
  refine { hs with
    early := fun hmain => absurd hmain hearly
    adding := fun _ => rfl
    caught := ?_
    file := hs.file.trans hfile.symm
    calls := fun hquiet => hs.calls (hcalls ▸ hquiet)
    restored := fun hrestored => absurd hrestored (hs.not_restored hbefore) }
  simp [delTimer, hover]

/-- A step of the timer function that leaves the timer where it is. -/
theorem timer (hs : s.Inv) (timer : TimerPc) (hwill : timer.willAdd = s.timer.willAdd)
    (hbusy : s.timer ≠ .idle) :
    (s.main = .consoles ∨ s.main = .addTimer → s.pending = false ∧ timer = .idle) ∧
      (timer.willAdd → s.pending = false) ∧
      if s.main.timerOver then s.caught = (s.pending || timer.willAdd) else s.caught = false := by
  refine ⟨fun hmain => absurd (hs.early hmain).2 hbusy, fun h => hs.adding (hwill ▸ h), ?_⟩
  rw [hwill]
  exact hs.caught

theorem moves (hs : s.Inv) (h : s.Moves t) : t.Inv := by
  cases h with
  | next main h => exact hs.next h
  | addFirst hmain =>
    obtain ⟨-, hidle⟩ := hs.early (Or.inr hmain)
    have hcaught := hs.caught
    have hfile := hs.file
    have hcalls := hs.calls
    rw [hmain] at hcaught hfile hcalls
    exact { hs with
      early := by simp
      adding := fun h => by rw [hidle] at h; cases h
      caught := hcaught
      file := hfile
      calls := fun _ => hcalls rfl
      restored := fun h => absurd h (hs.not_restored (by rw [hmain]; rfl)) }
  | file hmain =>
    have hcaught := hs.caught
    have hcalls := hs.calls
    rw [hmain] at hcaught hcalls
    exact { hs with
      early := by simp
      caught := hcaught
      file := rfl
      calls := fun _ => hcalls rfl
      restored := fun h => absurd h (hs.not_restored (by rw [hmain]; rfl)) }
  | deletes main h => exact hs.deletes h
  | restore ok hmain =>
    have hcaught := hs.caught
    have hfile := hs.file
    rw [hmain] at hcaught hfile
    refine { hs with
      early := by simp
      leds := ?_
      caught := hcaught
      file := hfile
      calls := fun h => by cases h
      restored := fun h => ⟨⟨rfl, by simp⟩, fun _ => ?_⟩ }
    · cases ok with
      | true =>
        exact List.forall_mem_append.2 ⟨hs.leds, fun v hv => Or.inr (List.mem_singleton.1 hv)⟩
      | false => exact hs.leds
    · simp only at h
      rw [h, if_pos rfl, List.getLast?_concat]
  | removeFile hmain =>
    have hcaught := hs.caught
    rw [hmain] at hcaught
    exact { hs with
      early := by simp
      caught := hcaught
      file := rfl
      calls := fun h => by cases h
      restored := fun h => ⟨⟨rfl, by simp⟩, (hs.restored h).2⟩ }
  | drain hmain hover =>
    have hcaught := hs.caught
    have hfile := hs.file
    rw [hmain] at hcaught hfile
    exact { hs with
      early := by simp
      caught := hcaught
      file := hfile
      calls := fun _ => hover
      restored := fun h => ⟨⟨rfl, by simp⟩, (hs.restored h).2⟩ }
  | expire hpending hidle =>
    have hmasks := hs.masks
    rw [hidle] at hmasks
    refine { hs with
      mask := fun m h => by cases h
      masks := hmasks
      early := fun hmain => ?_
      adding := fun _ => rfl
      caught := ?_ }
    · rw [(hs.early hmain).1] at hpending
      cases hpending
    · have hcaught := hs.caught
      rw [hpending] at hcaught
      exact hcaught
  | mask htimer =>
    obtain ⟨hearly, hadding, hcaught⟩ := hs.timer (.status s.test) (by rw [htimer]; rfl)
      (by rw [htimer]; simp)
    obtain ⟨⟨masks, hread, hscan⟩, hrange⟩ := hs.masks
    rw [htimer] at hread
    refine { hs with
      mask := fun m h => by
        cases h
        exact hs.test
      masks := ?_
      replays := hs.replays.mask
      answered := hs.answered.mask _
      early := hearly
      adding := hadding
      caught := hcaught }
    simp only [masksOf_mask]
    refine ⟨⟨masks, ?_, hscan⟩, List.forall_mem_append.2 ⟨hrange, fun m hm => ?_⟩⟩
    · rw [hread]
      simp [TimerPc.unused]
    · rw [List.mem_singleton.1 hm]
      exact hs.test
  | status currentMask htimer =>
    obtain ⟨hearly, hadding, hcaught⟩ := hs.timer .ioctl (by rw [htimer]; rfl)
      (by rw [htimer]; simp)
    have hmask := hs.mask currentMask htimer
    obtain ⟨hchain, hlast⟩ := hs.ticks
    obtain ⟨⟨masks, hread, hscan⟩, hrange⟩ := hs.masks
    rw [htimer] at hread
    have hstatus : masks.foldl blink 0 = s.kbledstatus := by
      rw [hscan, List.getLast?_scanl] at hlast
      exact Option.some.inj hlast
    have hnext : 0 :: (s.ticks ++ [blink s.kbledstatus currentMask]) =
        (masks ++ [currentMask]).scanl blink 0 := by
      rw [List.scanl_append, ← hscan, hstatus]
      rfl
    refine { hs with
      mask := fun m h => by cases h
      status := isLed_blink hmask
      ticks := ⟨?_, ?_⟩
      masks := ⟨⟨masks ++ [currentMask], by simpa [TimerPc.unused] using hread, hnext⟩, hrange⟩
      early := hearly
      adding := hadding
      caught := hcaught }
    · rw [← List.cons_append, List.isChain_append]
      refine ⟨hchain, List.isChain_singleton _, fun x hx y hy => ?_⟩
      rw [hlast] at hx
      cases hx
      cases hy
      exact blink_ne hmask
    · rw [← List.cons_append, List.getLast?_concat]
  | ioctl tty htimer =>
    obtain ⟨hearly, hadding, hcaught⟩ := hs.timer .addTimer (by rw [htimer]; rfl)
      (by rw [htimer]; simp)
    have hmasks := hs.masks
    rw [htimer] at hmasks
    refine { hs with
      mask := fun m h => by cases h
      leds := ?_
      masks := hmasks
      early := hearly
      adding := hadding
      caught := hcaught
      restored := fun h => ⟨(hs.restored h).1, fun hnot => ?_⟩ }
    · cases tty with
      | true =>
        exact List.forall_mem_append.2 ⟨hs.leds, fun v hv => List.mem_singleton.1 hv ▸ hs.status⟩
      | false => exact hs.leds
    · have hcaught := hs.caught
      rw [if_pos (hs.restored h).1.1, htimer, hnot] at hcaught
      simp [TimerPc.willAdd] at hcaught
  | add htimer =>
    have hmasks := hs.masks
    rw [htimer] at hmasks
    refine { hs with
      mask := fun m h => by cases h
      masks := hmasks
      early := fun hmain => ?_
      adding := fun h => by cases h
      caught := ?_ }
    · exact absurd (hs.early hmain).2 (by rw [htimer]; simp)
    · have hcaught := hs.caught
      rw [htimer] at hcaught
      simpa [TimerPc.willAdd] using hcaught
  | leave htimer =>
    have hmasks := hs.masks
    rw [htimer] at hmasks
    refine { hs with
      mask := fun m h => by cases h
      masks := hmasks
      early := fun hmain => ⟨(hs.early hmain).1, rfl⟩
      adding := fun h => by cases h
      caught := ?_ }
    have hcaught := hs.caught
    rw [htimer] at hcaught
    exact hcaught
  | request r hfile =>
    refine { hs with
      assign := ?_
      answered := hs.answered.request r
      calls := fun h => ?_ }
    · refine List.forall_mem_append.2 ⟨hs.assign, fun c hc buf tempVal _ hpc => ?_⟩
      rw [List.mem_singleton.1 hc] at hpc
      cases hpc
    · rw [hs.file] at hfile
      rw [MainPc.hasCalls, hfile] at h
      cases h
  | call i c hget test c' h => exact hs.call hget h

/-- Two ticks in a row by the same mask: the one shows it, the other gives the LEDs back. -/
theorem blinks (hs : s.Inv) {k : ℕ} {m a b : ℤ} (hm : (masksOf s.history)[k]? = some m)
    (hm' : (masksOf s.history)[k + 1]? = some m) (ha : s.ticks[k]? = some a)
    (hb : s.ticks[k + 1]? = some b) : a = m ∧ b = restoreLeds ∨ a = restoreLeds ∧ b = m := by
  obtain ⟨⟨masks, hread, hscan⟩, hrange⟩ := hs.masks
  have hle := hrange m (List.mem_of_getElem? hm)
  -- the masks of the two ticks are used
  have hlen : s.ticks.length = masks.length := by
    have h := congrArg List.length hscan
    rw [List.length_cons, List.length_scanl] at h
    exact Nat.succ.inj h
  have hused : k + 1 < masks.length := hlen ▸ (List.getElem?_eq_some_iff.1 hb).1
  rw [hread, List.getElem?_append_left (by omega)] at hm hm'
  have htick : ∀ j x, s.ticks[j]? = some x → ∃ status mask, (0 :: s.ticks)[j]? = some status ∧
      masks[j]? = some mask ∧ x = blink status mask := fun j x hx => by
    have h : (0 :: s.ticks)[j + 1]? = some x := hx
    rw [hscan, List.getElem?_succ_scanl, Option.bind_eq_some_iff] at h
    obtain ⟨status, hstatus, h⟩ := h
    obtain ⟨mask, hmask, rfl⟩ := Option.map_eq_some_iff.1 h
    exact ⟨status, mask, hscan ▸ hstatus, hmask, rfl⟩
  obtain ⟨status, mask, -, hmask, rfl⟩ := htick k a ha
  obtain ⟨status', mask', hstatus', hmask', rfl⟩ := htick (k + 1) b hb
  obtain rfl := Option.some.inj (hmask.symm.trans hm)
  obtain rfl := Option.some.inj (hmask'.symm.trans hm')
  obtain rfl := Option.some.inj (hstatus'.symm.trans ha)
  rw [blink, blink]
  unfold restoreLeds
  split
  · rw [if_neg (by omega)]
    exact Or.inr ⟨rfl, rfl⟩
  · rw [if_pos rfl]
    exact Or.inl ⟨rfl, rfl⟩

end Inv

/-- Only the timer can run code that is no longer there. -/
def Endangered (s : Driver) : Prop := s.caught ∨ s.timer ≠ .idle

theorem turn_of_isOver {c : Call} {test : ℤ} (h : c.isOver) : c.turn test = none := by
  rw [Call.isOver] at h
  rw [Call.turn]
  cases hpc : c.pc with
  | returned reply => rfl
  | _ => rw [hpc] at h; cases h

/-- What can still be done with a module that is gone. -/
theorem Inv.cases_of_gone {s t : Driver} (hs : s.Inv) (hgone : s.main = .gone) {a : Action}
    (h : s.act a = some t) : needsModule a ∧ s.Endangered := by
  have hcaught := hs.caught
  have hcalls := hs.calls
  rw [hgone] at hcaught hcalls
  cases a with
  | main ok =>
    rw [act, mainTurn, hgone] at h
    cases h
  | rmmod =>
    rw [act, if_neg (by rw [hgone]; simp)] at h
    cases h
  | expire =>
    rw [act] at h
    split at h
    · rename_i hready
      refine ⟨rfl, Or.inl ?_⟩
      rw [show s.caught = _ from hcaught, hready.1]
      rfl
    · cases h
  | timer tty =>
    refine ⟨rfl, Or.inr fun hidle => ?_⟩
    rw [act, timerTurn, hidle] at h
    cases h
  | request r =>
    rw [act, hs.file, hgone] at h
    cases h
  | call i =>
    simp only [act, Option.bind_eq_bind, Option.bind_eq_some_iff] at h
    obtain ⟨c, hget, ⟨test, c'⟩, hturn, -⟩ := h
    rw [turn_of_isOver (hcalls rfl c (List.mem_of_getElem? hget))] at hturn
    cases hturn

theorem step_cases {s t : Driver} {a : Action} (h : s.step a = some t) :
    s.fault = false ∧ ∃ u, s.act a = some u ∧
      (s.main = .gone ∧ needsModule a ∧ t = { s with fault := true } ∨
        ¬(s.main = .gone ∧ needsModule a) ∧ t = u) := by
  rw [step] at h
  split at h
  · cases h
  · rename_i hfault
    obtain ⟨u, hu, rfl⟩ := Option.map_eq_some_iff.1 h
    refine ⟨Bool.not_eq_true _ ▸ hfault, u, hu, ?_⟩
    split
    · rename_i hneeds
      exact Or.inl ⟨hneeds.1, hneeds.2, rfl⟩
    · rename_i hneeds
      exact Or.inr ⟨hneeds, rfl⟩

theorem fault_of_moves {s t : Driver} (h : s.Moves t) : t.fault = s.fault := by
  cases h <;> rfl

/-- A fault comes from the timer of a module that is gone. -/
def FaultLaw (s : Driver) : Prop := s.fault → s.main = .gone ∧ s.Endangered

theorem inv_of_run {actions : List Action} {s : Driver}
    (h : runFrom step init actions = some s) : s.Inv ∧ s.FaultLaw := by
  refine runFrom_invariant (P := fun s => s.Inv ∧ s.FaultLaw) (fun s a t hs hstep => ?_)
    ⟨Inv.init, fun h => by cases h⟩ h
  obtain ⟨hfault, u, hu, ⟨hgone, hneeds, rfl⟩ | ⟨-, rfl⟩⟩ := step_cases hstep
  · exact ⟨{ hs.1 with }, fun _ => ⟨hgone, (hs.1.cases_of_gone hgone hu).2⟩⟩
  · have hmoves := moves hu
    refine ⟨hs.1.moves hmoves, fun h => ?_⟩
    rw [fault_of_moves hmoves, hfault] at h
    cases h

/-! ## Runs -/

/-- What holds of the LEDs, the calls and the timer. -/
structure Law (s : Driver) : Prop where
  test : 0 ≤ s.test ∧ s.test ≤ 7
  leds : ∀ v ∈ s.leds, IsLed v
  /-- Every tick changes the status. -/
  changes : (0 :: s.ticks).IsChain (· ≠ ·)
  /-- While `test` stays the same, its LEDs are on and off in turn. -/
  blinks : ∀ k m a b, (masksOf s.history)[k]? = some m → (masksOf s.history)[k + 1]? = some m →
    s.ticks[k]? = some a → s.ticks[k + 1]? = some b →
      a = m ∧ b = restoreLeds ∨ a = restoreLeds ∧ b = m
  /-- The calls are whole calls one after the other, and the timer function reads between them. -/
  replays : Replays s.history s.test
  answered : Answered s.calls s.history
  /-- `add_timer` is not called for a timer in the list. -/
  adding : s.main = .addTimer ∨ s.timer.willAdd → s.pending = false
  /-- No call is left in a module that is gone. -/
  calls : s.main = .gone → ∀ c ∈ s.calls, c.isOver
  /-- `kbleds_sysfs_exit` gives the LEDs back, unless the timer function was caught. -/
  restored : s.restored → s.caught = false → s.leds.getLast? = some restoreLeds
  fault : s.FaultLaw

/-- **The LED module**, in every interleaving of its timer, of processes at the file and of
`insmod` and `rmmod`. -/
theorem blinking_law {actions : List Action} {s : Driver}
    (h : runFrom step init actions = some s) : s.Law := by
  obtain ⟨hs, hfault⟩ := inv_of_run h
  refine ⟨hs.test, hs.leds, hs.ticks.1, fun k m a b => hs.blinks, hs.replays, hs.answered, ?_, ?_,
    fun hrestored => (hs.restored hrestored).2, hfault⟩
  · rintro (hmain | hwill)
    · exact (hs.early (Or.inr hmain)).1
    · exact hs.adding hwill
  · intro hgone
    have hcalls := hs.calls
    rw [hgone] at hcalls
    exact hcalls rfl

/-- A mask is stored between two ticks, and the module is taken out. -/
theorem blinking_law_five : ∃ s : Driver, runFrom step init
    [.main true, .main true, .main true, .main true, .expire, .timer true, .timer true, .timer true,
      .timer true, .timer true, .request (.store [53, 10]), .call 0, .call 0, .expire, .timer true,
      .timer true, .timer true, .timer true, .timer true, .rmmod, .main true, .main true,
      .main true, .main true, .main true] = some s ∧ s.Law := by
  have h : runFrom step init
    [.main true, .main true, .main true, .main true, .expire, .timer true, .timer true, .timer true,
      .timer true, .timer true, .request (.store [53, 10]), .call 0, .call 0, .expire, .timer true,
      .timer true, .timer true, .timer true, .timer true, .rmmod, .main true, .main true,
      .main true, .main true, .main true] = some _ := rfl
  exact ⟨_, h, blinking_law h⟩

/-- **Code of the module runs behind its end** exactly when `del_timer` has found the timer function
before its `add_timer`, or the function has not returned yet. -/
theorem endangered_iff {actions : List Action} {s : Driver}
    (h : runFrom step init actions = some s) (hgone : s.main = .gone) (hfault : s.fault = false) :
    (∃ later t, runFrom step s later = some t ∧ t.fault) ↔ s.caught ∨ s.timer ≠ .idle := by
  have hs := (inv_of_run h).1
  constructor
  · rintro ⟨later, t, hrun, ht⟩
    cases later with
    | nil =>
      obtain rfl := Option.some.inj hrun
      rw [hfault] at ht
      cases ht
    | cons a later =>
      rw [runFrom_cons, Option.bind_eq_some_iff] at hrun
      obtain ⟨u, hstep, -⟩ := hrun
      obtain ⟨-, u, hu, -⟩ := step_cases hstep
      exact (hs.cases_of_gone hgone hu).2
  · intro hendangered
    have hrun : ∀ a u, s.act a = some u → needsModule a →
        ∃ later t, runFrom step s later = some t ∧ t.fault := fun a u hu hneeds => by
      refine ⟨[a], { s with fault := true }, ?_, rfl⟩
      rw [runFrom_singleton, step, hfault, hu]
      simp [hgone, hneeds]
    by_cases hidle : s.timer = .idle
    · -- the function has come to its end, and its timer is in the list
      have hcaught := hs.caught
      rw [hgone, hidle] at hcaught
      have hpending : s.pending = true := by
        rw [← Bool.or_false s.pending]
        exact (show s.caught = _ from hcaught) ▸ hendangered.resolve_right (not_not.2 hidle)
      exact hrun .expire _ (if_pos ⟨hpending, hidle⟩) rfl
    · have hturn : ∃ u, s.timerTurn true = some u := by
        rw [timerTurn]
        cases htimer : s.timer with
        | idle => exact absurd htimer hidle
        | _ => exact ⟨_, rfl⟩
      obtain ⟨u, hu⟩ := hturn
      exact hrun (.timer true) u hu rfl

/-- The timer function is about to call `add_timer` when the module is taken out. -/
theorem endangered_iff_caught : ∃ s : Driver, runFrom step init
    [.main true, .main true, .main true, .main true, .expire, .rmmod, .main true, .main true,
      .main true, .main true, .main true] = some s ∧
      ((∃ later t, runFrom step s later = some t ∧ t.fault) ↔ s.caught ∨ s.timer ≠ .idle) := by
  have h : runFrom step init
    [.main true, .main true, .main true, .main true, .expire, .rmmod, .main true, .main true,
      .main true, .main true, .main true] = some _ := rfl
  exact ⟨_, h, endangered_iff h rfl rfl⟩

end Driver

end EltexPractice.KbLeds
