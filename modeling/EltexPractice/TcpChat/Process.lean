import EltexPractice.TcpChat.Descriptors

/-!
# The server process and its blocking calls

`server.c` and `common.c` of task 7, byte by byte. A connection is what the server's kernel knows of
it: the bytes received and not read yet, whether the peer has closed or reset it, and the bytes
written that the peer has not taken, at most `cap` of them. The program counter says in which call
of `read_all` or `write_all` the process is, so the actions of the clients fall between any two
system calls. `read` without a byte waits, unless the peer has closed or reset the connection;
`write` to a full buffer waits; `write` to a reset connection raises `SIGPIPE`, which the server
does not ignore. An action that has to wait is not possible.
-/

namespace EltexPractice.TcpChat

open Server (Accept)

/-- `sizeof(ChatPacket)` -/
def packetSize : ℕ := 1320

theorem packetSize_pos : 0 < packetSize := Nat.succ_pos _

/-- A connection at the server's end. -/
structure Conn where
  /-- Received and not read yet. -/
  rx : List UInt8
  /-- The peer has closed its side. -/
  fin : Bool
  /-- The peer has reset the connection. -/
  reset : Bool
  /-- Written and not taken by the peer yet. -/
  tx : List UInt8

/-- A connection on which nothing has happened yet. -/
def Conn.new : Conn := ⟨[], false, false, []⟩

/-- The peer can send. -/
def Conn.Alive (conn : Conn) : Prop := conn.fin = false ∧ conn.reset = false

instance (conn : Conn) : Decidable conn.Alive := inferInstanceAs (Decidable (_ ∧ _))

/-- `read` has something to return. -/
def Conn.Readable (conn : Conn) : Prop := conn.rx ≠ [] ∨ conn.fin = true ∨ conn.reset = true

instance (conn : Conn) : Decidable conn.Readable := inferInstanceAs (Decidable (_ ∨ _))

/-- Where the process is. -/
inductive Pc
  /-- Between two events. -/
  | loop
  /-- In `read_all`; `total` bytes of `packet` have been read. -/
  | readAll (fd : ℕ) (packet : List UInt8) (total : ℕ)
  /-- In `broadcast_packet`; `total` bytes have been written to `client_sockets[c]`. -/
  | broadcast (senderFd : ℕ) (packet : List UInt8) (c total : ℕ)
  /-- Ended by `SIGPIPE`. -/
  | killed

structure Process where
  desc : Descriptors
  /-- The connections that wait for `accept`. -/
  backlog : List ℕ
  /-- The number of clients that have connected. -/
  connected : ℕ
  conn : ℕ → Conn
  pc : Pc
  /-- What `log_packet` was given, with its connection. -/
  log : List (Option ℕ × List UInt8)

/-- The server before its first client. -/
def Process.init : Process where
  desc := .init
  backlog := []
  connected := 0
  conn _ := .new
  pc := .loop
  log := []

namespace Process

/-- A connection is changed. -/
def onConn (st : Process) (c : ℕ) (f : Conn → Conn) : Process :=
  { st with conn := Function.update st.conn c (f (st.conn c)) }

@[simp] theorem desc_onConn (st : Process) (c : ℕ) (f : Conn → Conn) :
    (st.onConn c f).desc = st.desc := rfl

@[simp] theorem pc_onConn (st : Process) (c : ℕ) (f : Conn → Conn) :
    (st.onConn c f).pc = st.pc := rfl

@[simp] theorem conn_onConn_self (st : Process) (c : ℕ) (f : Conn → Conn) :
    (st.onConn c f).conn c = f (st.conn c) := Function.update_self ..

theorem conn_onConn_of_ne (st : Process) {c c' : ℕ} (h : c' ≠ c) (f : Conn → Conn) :
    (st.onConn c f).conn c' = st.conn c' := Function.update_of_ne h ..

/-! ## The calls of the server -/

/-- `handle_client_data` after `read_all` has returned `n`. -/
def finishRead (st : Process) (fd : ℕ) (packet : List UInt8) (n : ℤ) (deleted : Bool) : Process :=
  if n ≤ 0 then { st with desc := st.desc.handleClientDisconnect fd deleted, pc := .loop }
  else { st with log := st.log ++ [(st.desc.sockets fd, packet)], pc := .broadcast fd packet 0 0 }

/-- The next `read` in `read_all`; it returns `k` bytes when there are some. -/
def readStep (st : Process) (fd : ℕ) (packet : List UInt8) (total k : ℕ) (deleted : Bool) :
    Option Process :=
  match st.desc.sockets fd with
  | none => some (st.finishRead fd packet (-1) deleted)
  | some c =>
    let conn := st.conn c
    if conn.rx ≠ [] then
      if 0 < k ∧ k ≤ conn.rx.length ∧ total + k ≤ packetSize then
        let st := st.onConn c fun conn => { conn with rx := conn.rx.drop k }
        let packet := packet.take total ++ conn.rx.take k ++ packet.drop (total + k)
        if total + k < packetSize then some { st with pc := .readAll fd packet (total + k) }
        else some (st.finishRead fd packet packetSize deleted)
      else none
    else if conn.reset then some (st.finishRead fd packet (-1) deleted)
    else if conn.fin then some (st.finishRead fd packet total deleted)
    else none

/-- The next step of the loop of `broadcast_packet`; a `write` takes `k` bytes. -/
def writeStep (cap : ℕ) (st : Process) (senderFd : ℕ) (packet : List UInt8) (c total k : ℕ) :
    Option Process :=
  match st.desc.clientSockets.toList[c]? with
  | none => some { st with pc := .loop }
  | some fd =>
    if fd ≠ senderFd ∧ total < packetSize then
      match st.desc.sockets fd with
      | none => some { st with pc := .broadcast senderFd packet (c + 1) 0 }
      | some i =>
        if (st.conn i).reset then some { st with pc := .killed }
        else if 0 < k ∧ total + k ≤ packetSize ∧ (st.conn i).tx.length + k ≤ cap then
          let st := st.onConn i fun conn => { conn with tx := conn.tx ++ (packet.drop total).take k }
          some { st with pc := .broadcast senderFd packet c (total + k) }
        else none
    else some { st with pc := .broadcast senderFd packet (c + 1) 0 }

/-- The next event of a batch; `stale` is what the variable `packet` holds before `read_all`. -/
def eventStep (listenFd : ℕ) (st : Process) (result : Accept) (stale : List UInt8) :
    Option Process :=
  match st.desc.events with
  | [] => none
  | fd :: events =>
    let desc := { st.desc with events }
    if fd = listenFd then
      match result, st.backlog with
      | .error, _ => some { st with desc }
      | .socket _ _, [] => none
      | .socket _ _, c :: backlog =>
        (desc.handleNewConnection listenFd c result).map fun desc => { st with desc, backlog }
    else some { st with desc, pc := .readAll fd stale 0 }

/-! ## The system -/

/-- A descriptor `epoll_wait` may report. -/
def Ready (listenFd : ℕ) (st : Process) (fd : ℕ) : Prop :=
  (fd = listenFd ∧ st.backlog ≠ []) ∨
    (fd ∈ st.desc.epoll ∧ ∃ c ∈ st.desc.sockets fd, (st.conn c).Readable)

instance (listenFd : ℕ) (st : Process) (fd : ℕ) : Decidable (st.Ready listenFd fd) :=
  inferInstanceAs (Decidable (_ ∨ _))

inductive Action
  /-- A client connects. -/
  | connect
  /-- The client `c` sends bytes, of whole or of partial packets. -/
  | send (c : ℕ) (bytes : List UInt8)
  /-- The client `c` takes `k` of the bytes written to it. -/
  | recv (c k : ℕ)
  /-- The client `c` closes its side. -/
  | close (c : ℕ)
  /-- The client `c` resets the connection; the server can still read `kept` bytes. -/
  | reset (c kept : ℕ)
  /-- `epoll_wait` returns. -/
  | wait (batch : List ℕ)
  /-- The handling of the next event begins. -/
  | event (result : Accept) (stale : List UInt8)
  /-- The server goes on in `read_all` or in `broadcast_packet`. -/
  | call (k : ℕ) (deleted : Bool)

/-- One action; an action that is not possible, or that has to wait, is `none`. -/
def step (listenFd cap : ℕ) (st : Process) : Action → Option Process
  | .connect =>
    some { st with backlog := st.backlog ++ [st.connected], connected := st.connected + 1 }
  | .send c bytes =>
    if c < st.connected ∧ (st.conn c).Alive then
      some (st.onConn c fun conn => { conn with rx := conn.rx ++ bytes })
    else none
  | .recv c k =>
    if c < st.connected ∧ k ≤ (st.conn c).tx.length then
      some (st.onConn c fun conn => { conn with tx := conn.tx.drop k })
    else none
  | .close c =>
    if c < st.connected then some (st.onConn c fun conn => { conn with fin := true }) else none
  | .reset c kept =>
    if c < st.connected then
      some (st.onConn c fun conn => { conn with rx := conn.rx.take kept, reset := true })
    else none
  | .wait batch =>
    match st.pc with
    | .loop =>
      if st.desc.events = [] ∧ batch.Nodup ∧ batch.length ≤ maxEvents ∧
          ∀ fd ∈ batch, st.Ready listenFd fd then
        some { st with desc := { st.desc with events := batch } }
      else none
    | _ => none
  | .event result stale =>
    match st.pc with
    | .loop => if stale.length = packetSize then st.eventStep listenFd result stale else none
    | _ => none
  | .call k deleted =>
    match st.pc with
    | .readAll fd packet total => st.readStep fd packet total k deleted
    | .broadcast senderFd packet c total => st.writeStep cap senderFd packet c total k
    | _ => none

/-! ## The state of the process -/

/-- The connection whose `read` or `write` the process waits for. -/
def waitsFor (cap : ℕ) (st : Process) : Option ℕ :=
  match st.pc with
  | .readAll fd _ _ =>
    match st.desc.sockets fd with
    | some c => if (st.conn c).Readable then none else some c
    | none => none
  | .broadcast senderFd _ c total =>
    match st.desc.clientSockets.toList[c]? with
    | some fd =>
      if fd ≠ senderFd ∧ total < packetSize then
        match st.desc.sockets fd with
        | some i => if (st.conn i).reset ∨ (st.conn i).tx.length < cap then none else some i
        | none => none
      else none
    | none => none
  | _ => none

/-- A client whose whole packet has arrived. -/
def Pending (st : Process) (c : ℕ) : Prop := packetSize ≤ (st.conn c).rx.length

/-- The server runs, and no client that has sent a packet waits for another one. -/
structure Serves (cap : ℕ) (st : Process) : Prop where
  running : st.pc ≠ .killed
  unblocked : ∀ c c', st.Pending c → st.waitsFor cap = some c' → c' = c

end Process

end EltexPractice.TcpChat
