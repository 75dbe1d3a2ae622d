import EltexPractice.Foundations.Schedule
import EltexPractice.Foundations.Table
import EltexPractice.Taxi.Driver
import Mathlib.Logic.Function.Basic

/-!
# The taxi server and its drivers

`server.c` of task 10 and the processes it forks. The driver created as number `i` reads the FIFO
`taxi_req_i` and writes the FIFO `taxi_rsp_i`; the server holds both open, behind the descriptors of
its table. A FIFO is the list of the messages in it, since every read and write moves one whole
`ipc_msg_t`; with a capacity, a write to a full FIFO fails and is ignored.

An action is one CLI command, one turn of a driver, one `process_driver_message` on a descriptor
that `select` reports, or time that passes, so a schedule is an interleaving. Ghost fields keep the
requests written to each driver and what each driver has handled, with its timer at that moment.
-/

namespace EltexPractice.Taxi

/-- `MAX_DRIVERS` -/
def maxDrivers : ℕ := 100

/-! ## What the server prints -/

/-- A line about a driver: `Accepted task.`, `Busy <n>` or `Available`, each with a pid. -/
inductive Line
  | accepted (pid : ℤ)
  | busy (pid n : ℤ)
  | available (pid : ℤ)
  deriving DecidableEq

/-- The pid in a line. -/
def Line.pid : Line → ℤ
  | accepted pid => pid
  | busy pid _ => pid
  | available pid => pid

/-- The line says `Busy`. -/
def Line.isBusy : Line → Bool
  | busy _ _ => true
  | _ => false

/-- Everything the server prints. -/
inductive Output
  | line (l : Line)
  | created (pid : ℤ)
  | notFound (pid : ℤ)
  | noDrivers
  deriving DecidableEq

/-- `handle_ack`. -/
def handleAck (pid : ℤ) (_ : Int32) : Line := .accepted pid

/-- `handle_busy`. -/
def handleBusy (pid : ℤ) (payload : Int32) : Line := .busy pid payload.toInt

/-- `handle_status_rsp`. -/
def handleStatusRsp (pid : ℤ) (payload : Int32) : Line :=
  if payload > 0 then .busy pid payload.toInt else .available pid

/-- `resp_handlers`. -/
def respHandlers : MsgType → Option (ℤ → Int32 → Line)
  | .ack => some handleAck
  | .busy => some handleBusy
  | .statusRsp => some handleStatusRsp
  | _ => none

/-- The line printed for a message from the driver `pid`. -/
def printReply (pid : ℤ) (msg : IpcMsg) : Option Line :=
  (respHandlers msg.type).map fun handler => handler pid msg.payload

/-- The line that the time left on a driver's timer dictates. -/
def Request.line (pid : ℤ) (tfd : Timer) (now : ℕ) (req : Request) : Line :=
  if 0 < tfd.remaining now then .busy pid (ceilSeconds (tfd.remaining now))
  else
    match req with
    | task _ => .accepted pid
    | status => .available pid

/-- **The printed line is the one the timer dictates.** -/
theorem printReply_reply (pid pid' : ℤ) {tfd : Timer} {now : ℕ}
    (h : tfd.remaining now ≤ 2147483647 * nsPerSec) (req : Request) :
    printReply pid (req.reply pid' tfd now) = some (req.line pid tfd now) := by
  have hsec := toInt_ceilSeconds h
  cases req with
  | task timer =>
    simp only [Request.reply, Request.line]
    split
    · rw [← hsec]
      rfl
    · rfl
  | status =>
    have hpos : Int32.ofNat (ceilSeconds (tfd.remaining now)) > 0 ↔ 0 < tfd.remaining now := by
      rw [gt_iff_lt, Int32.lt_iff_toInt_lt, hsec, Int32.toInt_zero, Int.natCast_pos]
      refine ⟨fun hsec => ?_, ceilSeconds_pos⟩
      by_contra hidle
      rw [Nat.le_zero.1 (Nat.not_lt.1 hidle)] at hsec
      exact absurd hsec (by decide)
    change some (handleStatusRsp pid (Int32.ofNat (ceilSeconds (tfd.remaining now)))) = _
    rw [handleStatusRsp, Request.line, hsec]
    simp only [hpos]

/-! ## The state -/

/-- `driver_info_t`. -/
structure DriverInfo where
  pid : ℤ
  reqFd : ℕ
  rspFd : ℕ

/-- The files `/tmp/taxi_req_<i>` and `/tmp/taxi_rsp_<i>`. -/
inductive Fifo
  | req (i : ℕ)
  | rsp (i : ℕ)
  deriving DecidableEq

/-- Ghost: a request a driver has handled, with its timer and the time at that moment. -/
structure Handled where
  request : Request
  timer : Timer
  time : ℕ

/-- The process of a driver. -/
structure Driver where
  pid : ℤ
  tfd : Timer
  /-- Ghost: what it has handled so far. -/
  handled : List Handled

/-- The request a message carries. -/
def IpcMsg.request? (msg : IpcMsg) : Option Request :=
  match msg.type with
  | .task => some (.task msg.payload)
  | .statusReq => some .status
  | _ => none

/-- A driver handles a message it has read. -/
def Driver.turn (p : Driver) (now : ℕ) (msg : IpcMsg) : Driver × Option IpcMsg :=
  let (tfd, reply) := driverRun p.pid p.tfd now msg
  ({ p with tfd, handled := p.handled ++ (msg.request?.map (⟨·, p.tfd, now⟩)).toList }, reply)

theorem Driver.turn_request (p : Driver) (now : ℕ) (req : Request) :
    p.turn now req.msg = (⟨p.pid, req.serve p.tfd now, p.handled ++ [⟨req, p.tfd, now⟩]⟩,
      some (req.reply p.pid p.tfd now)) := by
  rw [Driver.turn, driverRun_request]
  cases req <;> rfl

structure System where
  drivers : Table DriverInfo maxDrivers
  /-- The FIFOs behind the server's descriptors. -/
  fds : ℕ → Option Fifo
  masterSet : List ℕ
  maxFd : ℕ
  /-- The messages in each FIFO. -/
  fifos : Fifo → List IpcMsg
  /-- The drivers, in the order of their creation. -/
  procs : List Driver
  now : ℕ
  output : List Output
  /-- Ghost: the requests written to each driver. -/
  issued : ℕ → List Request

/-- The server before the first command. -/
def System.init : System where
  drivers := .empty ⟨0, 0, 0⟩
  fds _ := none
  masterSet := [0]
  maxFd := 0
  fifos _ := []
  procs := []
  now := 0
  output := []
  issued _ := []

namespace System

/-- A write of a message to a FIFO of the capacity `cap`, `none` for a FIFO that never fills. -/
def writeFifo (cap : Option ℕ) (st : System) (f : Fifo) (msg : IpcMsg) : System :=
  if ∀ n ∈ cap, (st.fifos f).length < n then
    { st with fifos := Function.update st.fifos f (st.fifos f ++ [msg]) }
  else st

/-- The server prints. -/
def print (st : System) (out : Output) : System := { st with output := st.output ++ [out] }

/-! ## The commands -/

/-- `find_driver`. -/
def findDriver (st : System) (pid : ℤ) : Option DriverInfo :=
  st.drivers.toList.find? (·.pid == pid)

/-- `handle_create_driver`, when `fork` returns `pid` and the FIFOs are opened as `reqFd` and
`rspFd`. -/
def handleCreateDriver (st : System) (pid : ℤ) (reqFd rspFd : ℕ) : System :=
  if h : st.drivers.count < maxDrivers then
    let fds := Function.update st.fds reqFd (some (.req st.drivers.count))
    { st with
      drivers := st.drivers.push ⟨pid, reqFd, rspFd⟩ h
      fds := Function.update fds rspFd (some (.rsp st.drivers.count))
      masterSet := rspFd :: st.masterSet
      maxFd := if rspFd > st.maxFd then rspFd else st.maxFd
      procs := st.procs ++ [⟨pid, .disarmed, []⟩]
      output := st.output ++ [.created pid] }
  else st

/-- A request is written to the FIFO behind a descriptor. -/
def writeRequest (cap : Option ℕ) (st : System) (reqFd : ℕ) (req : Request) : System :=
  match st.fds reqFd with
  | some (.req i) =>
    ({ st with issued := Function.update st.issued i (st.issued i ++ [req]) }).writeFifo cap
      (.req i) req.msg
  | _ => st

/-- `handle_send_task`. -/
def handleSendTask (cap : Option ℕ) (st : System) (pid : ℤ) (timer : Int32) : System :=
  match st.findDriver pid with
  | none => st.print (.notFound pid)
  | some drv => st.writeRequest cap drv.reqFd (.task timer)

/-- `handle_get_status`. -/
def handleGetStatus (cap : Option ℕ) (st : System) (pid : ℤ) : System :=
  match st.findDriver pid with
  | none => st.print (.notFound pid)
  | some drv => st.writeRequest cap drv.reqFd .status

/-- `handle_get_drivers`. -/
def handleGetDrivers (cap : Option ℕ) (st : System) : System :=
  if st.drivers.count = 0 then st.print .noDrivers
  else st.drivers.toList.foldl (fun st drv => st.writeRequest cap drv.reqFd .status) st

/-! ## The replies -/

/-- `process_driver_message`: the pid is the one of the last driver with the descriptor. -/
def processDriverMessage (st : System) (fd : ℕ) : System :=
  match st.fds fd with
  | none => st
  | some f =>
    match st.fifos f with
    | [] => st
    | msg :: rest =>
      let pid := st.drivers.toList.foldl (fun pid drv => if drv.rspFd = fd then drv.pid else pid) (-1)
      let st := { st with fifos := Function.update st.fifos f rest }
      match printReply pid msg with
      | some l => st.print (.line l)
      | none => st

/-! ## The system -/

/-- A CLI command; what `fork` and `open` return is part of `create_driver`. -/
inductive Command
  | createDriver (pid : ℤ) (reqFd rspFd : ℕ)
  | sendTask (pid : ℤ) (timer : Int32)
  | getStatus (pid : ℤ)
  | getDrivers

inductive Action
  /-- The server handles a command line. -/
  | cli (cmd : Command)
  /-- The driver `i` reads a request and answers it. -/
  | driver (i : ℕ)
  /-- The server finds the response FIFO of the driver `i` readable. -/
  | read (i : ℕ)
  /-- Time passes. -/
  | tick (ns : ℕ)

/-- `process_cli_input`. A new process gets a pid no driver has, since the server waits for none,
and `open` returns descriptors that are not open; `0`, `1` and `2` are. -/
def processCliInput (cap : Option ℕ) (st : System) : Command → Option System
  | .createDriver pid reqFd rspFd =>
    if 0 < pid ∧ (∀ p ∈ st.procs, p.pid ≠ pid) ∧ reqFd ≠ rspFd ∧ 2 < reqFd ∧ 2 < rspFd ∧
        st.fds reqFd = none ∧ st.fds rspFd = none then
      some (st.handleCreateDriver pid reqFd rspFd)
    else none
  | .sendTask pid timer => some (st.handleSendTask cap pid timer)
  | .getStatus pid => some (st.handleGetStatus cap pid)
  | .getDrivers => some (st.handleGetDrivers cap)

/-- The loop of `driver_run` in the driver `i` finds a message in its FIFO. -/
def driverStep (cap : Option ℕ) (st : System) (i : ℕ) : Option System :=
  match st.procs[i]?, st.fifos (.req i) with
  | some p, msg :: rest =>
    let (p, reply) := p.turn st.now msg
    let st := { st with
      fifos := Function.update st.fifos (.req i) rest
      procs := st.procs.set i p }
    match reply with
    | some reply => some (st.writeFifo cap (.rsp i) reply)
    | none => some st
  | _, _ => none

/-- One action; reading is possible when `select` reports the descriptor. -/
def step (cap : Option ℕ) (st : System) : Action → Option System
  | .cli cmd => st.processCliInput cap cmd
  | .driver i => st.driverStep cap i
  | .read i =>
    match st.drivers.toList[i]? with
    | some drv =>
      if drv.rspFd ∈ st.masterSet ∧ drv.rspFd ≤ st.maxFd ∧
          ∃ f ∈ st.fds drv.rspFd, st.fifos f ≠ [] then
        some (st.processDriverMessage drv.rspFd)
      else none
    | none => none
  | .tick ns => some { st with now := st.now + ns }

end System

end EltexPractice.Taxi
