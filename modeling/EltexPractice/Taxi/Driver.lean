import EltexPractice.Foundations.Timer
import Mathlib.Data.Int.Notation

/-!
# The taxi driver

`common.h` and `driver.c` of task 10. A driver reads messages from its request FIFO and answers each
through a dispatch table; the only state it keeps is its timer. `now` is the moment at which a
message is handled. The requests are the two messages the server writes; what a driver does with
one is decided by the time left on its timer (`driverRun_request`).
-/

namespace EltexPractice.Taxi

/-- `msg_type_t`. -/
inductive MsgType
  | task
  | statusReq
  | statusRsp
  | ack
  | busy
  deriving DecidableEq

/-- `ipc_msg_t`. -/
structure IpcMsg where
  type : MsgType
  payload : Int32
  driverPid : ℤ
  deriving DecidableEq

/-! ## The handlers -/

/-- `check_timer_state`: `is_busy` and `rem_time`. -/
def checkTimerState (tfd : Timer) (now : ℕ) : Bool × Int32 :=
  let curr := tfd.gettime now
  (0 < curr.sec || 0 < curr.nsec, Int32.ofInt (curr.sec + if 0 < curr.nsec then 1 else 0))

/-- `handle_task_cmd` of the process `pid`: the timer, and the reply it writes. -/
def handleTaskCmd (pid : ℤ) (tfd : Timer) (now : ℕ) (msg : IpcMsg) : Timer × IpcMsg :=
  let (isBusy, remTime) := checkTimerState tfd now
  if isBusy then (tfd, ⟨.busy, remTime, pid⟩)
  else (tfd.settime now msg.payload.toInt, ⟨.ack, 0, pid⟩)

/-- `handle_status_req_cmd`. -/
def handleStatusReqCmd (pid : ℤ) (tfd : Timer) (now : ℕ) (_ : IpcMsg) : Timer × IpcMsg :=
  let (isBusy, remTime) := checkTimerState tfd now
  (tfd, ⟨.statusRsp, if isBusy then remTime else 0, pid⟩)

/-- `driver_handlers`. -/
def driverHandlers : MsgType → Option (ℤ → Timer → ℕ → IpcMsg → Timer × IpcMsg)
  | .task => some handleTaskCmd
  | .statusReq => some handleStatusReqCmd
  | _ => none

/-- What the loop of `driver_run` does with a message it has read. -/
def driverRun (pid : ℤ) (tfd : Timer) (now : ℕ) (msg : IpcMsg) : Timer × Option IpcMsg :=
  match driverHandlers msg.type with
  | some handler =>
    let (tfd, reply) := handler pid tfd now msg
    (tfd, some reply)
  | none => (tfd, none)

/-! ## Requests -/

/-- What the server asks of a driver. -/
inductive Request
  | task (timer : Int32)
  | status
  deriving DecidableEq

/-- The message of a request, as `handle_send_task` and `handle_get_status` fill it. -/
def Request.msg : Request → IpcMsg
  | task timer => ⟨.task, timer, 0⟩
  | status => ⟨.statusReq, 0, 0⟩

/-- The timer after a request: a driver that is not busy takes the task. -/
def Request.serve (tfd : Timer) (now : ℕ) : Request → Timer
  | task timer => if 0 < tfd.remaining now then tfd else tfd.settime now timer.toInt
  | status => tfd

/-- The reply to a request. -/
def Request.reply (pid : ℤ) (tfd : Timer) (now : ℕ) : Request → IpcMsg
  | task _ =>
    if 0 < tfd.remaining now then ⟨.busy, Int32.ofNat (ceilSeconds (tfd.remaining now)), pid⟩
    else ⟨.ack, 0, pid⟩
  | status => ⟨.statusRsp, Int32.ofNat (ceilSeconds (tfd.remaining now)), pid⟩

theorem checkTimerState_eq (tfd : Timer) (now : ℕ) :
    checkTimerState tfd now =
      (decide (0 < tfd.remaining now), Int32.ofNat (ceilSeconds (tfd.remaining now))) := by
  have hbusy := tfd.running_iff now
  have hrem := tfd.sec_add_ceil now
  rw [checkTimerState, ← hrem]
  refine Prod.ext ?_ ?_
  · rw [← Bool.decide_or]
    exact decide_eq_decide.2 hbusy
  · rw [← Int32.ofInt_eq_ofNat]
    push_cast
    rfl

/-- **A request is decided by the time left** on the driver's timer. -/
theorem driverRun_request (pid : ℤ) (tfd : Timer) (now : ℕ) (req : Request) :
    driverRun pid tfd now req.msg = (req.serve tfd now, some (req.reply pid tfd now)) := by
  cases req with
  | task timer =>
    simp only [driverRun, Request.msg, driverHandlers, handleTaskCmd, checkTimerState_eq,
      decide_eq_true_eq, Request.serve, Request.reply]
    split <;> rfl
  | status =>
    simp only [driverRun, Request.msg, driverHandlers, handleStatusReqCmd, checkTimerState_eq,
      decide_eq_true_eq, Request.serve, Request.reply]
    split
    · rfl
    · rename_i hidle
      rw [Nat.le_zero.1 (Nat.not_lt.1 hidle)]
      rfl

/-- Remaining seconds of a task fit an `int`. -/
theorem toInt_ceilSeconds {ns : ℕ} (h : ns ≤ 2147483647 * nsPerSec) :
    (Int32.ofNat (ceilSeconds ns)).toInt = ceilSeconds ns := by
  have hle := ceilSeconds_le h
  exact Int32.toInt_ofNat_of_lt (by omega)

end EltexPractice.Taxi
