import EltexPractice.Foundations.Schedule
import EltexPractice.Foundations.Table
import EltexPractice.TcpChat.Packet
import Mathlib.Data.List.Nodup
import Mathlib.Logic.Function.Basic

/-!
# The TCP chat server

`server.c` of task 7 with its clients. A client is one connection, numbered in the order of
`connect`; a stream is the list of its packets. The kernel's side is the queue of connections that
wait for `accept`, the open descriptors and the epoll interest list; the descriptor `accept`
returns and the failures of `accept` and `epoll_ctl` are part of an action.

An action is one of a client's, one `epoll_wait`, or the handling of the next event of the batch
`epoll_wait` returned, so a schedule is an interleaving. The ghost field `log` lists the packets
`handle_client_data` has read, each with the clients in the table at that moment.

How the table fits the open descriptors (`Holds`), and these the connections that wait (`Queued`),
is said of the bare data, so that every system around this table can use it.
-/

namespace EltexPractice.TcpChat

/-- `MAX_CLIENTS` -/
def maxClients : ℕ := 128

/-- `MAX_EVENTS` -/
def maxEvents : ℕ := 64

/-- A client: what it has sent, what of it is not read yet, what was written to it. -/
structure Client where
  sent : List ChatPacket
  inbox : List ChatPacket
  outbox : List ChatPacket
  closed : Bool

/-- A packet is written to the client. -/
def Client.receive (client : Client) (packet : ChatPacket) : Client :=
  { client with outbox := client.outbox ++ [packet] }

/-- A packet the server has processed. -/
structure Entry where
  sender : ℕ
  packet : ChatPacket
  members : List ℕ

/-- The sender is another client, and `c` was in the table. -/
def Entry.Reaches (e : Entry) (c : ℕ) : Prop := c ∈ e.members ∧ c ≠ e.sender

instance (e : Entry) (c : ℕ) : Decidable (e.Reaches c) := inferInstanceAs (Decidable (_ ∧ _))

structure Server where
  clientSockets : Table ℕ maxClients
  /-- The open descriptors and their clients. -/
  sockets : ℕ → Option ℕ
  /-- The interest list of the epoll instance, without `listen_fd`. -/
  epoll : List ℕ
  /-- What is left of the batch of `epoll_wait`. -/
  events : List ℕ
  /-- The clients that wait for `accept`. -/
  backlog : List ℕ
  /-- The number of clients that have connected. -/
  connected : ℕ
  client : ℕ → Client
  /-- Ghost: the packets processed so far. -/
  log : List Entry

/-- The server before its first client. -/
def Server.init : Server where
  clientSockets := .empty 0
  sockets _ := none
  epoll := []
  events := []
  backlog := []
  connected := 0
  client _ := ⟨[], [], [], false⟩
  log := []

namespace Server

/-! ## The kernel -/

/-- What `accept` and `epoll_ctl` return. -/
inductive Accept
  | error
  | socket (fd : ℕ) (added : Bool)

/-- A client is changed. -/
def onClient (st : Server) (c : ℕ) (f : Client → Client) : Server :=
  { st with client := Function.update st.client c (f (st.client c)) }

@[simp] theorem sockets_onClient (st : Server) (c : ℕ) (f : Client → Client) :
    (st.onClient c f).sockets = st.sockets := rfl

@[simp] theorem client_onClient_self (st : Server) (c : ℕ) (f : Client → Client) :
    (st.onClient c f).client c = f (st.client c) := Function.update_self ..

theorem client_onClient_of_ne (st : Server) {c c' : ℕ} (h : c' ≠ c) (f : Client → Client) :
    (st.onClient c f).client c' = st.client c' := Function.update_of_ne h ..

/-- `close` of a descriptor; a closed descriptor leaves the interest list. -/
def close (st : Server) (fd : ℕ) : Server :=
  { st with
    sockets := Function.update st.sockets fd none
    epoll := st.epoll.filter (· ≠ fd) }

/-- `write_all` of a packet. -/
def writeAll (st : Server) (fd : ℕ) (packet : ChatPacket) : Server :=
  match st.sockets fd with
  | none => st
  | some c => st.onClient c (·.receive packet)

/-- `read_all` of a packet, `none` when it has to wait; without a packet the result is not
positive. -/
def readAll (st : Server) (fd : ℕ) : Option (Option ChatPacket × Server) :=
  match st.sockets fd with
  | none => some (none, st)
  | some c =>
    match (st.client c).inbox with
    | packet :: inbox => some (some packet, st.onClient c fun client => { client with inbox })
    | [] => if (st.client c).closed then some (none, st) else none

/-! ## The server -/

/-- `remove_client`. -/
def removeClient (st : Server) (fd : ℕ) : Server :=
  match h : st.clientSockets.search (· == fd) with
  | none => st
  | some i =>
    { st with clientSockets := st.clientSockets.removeSwap i (Table.lt_count_of_search h) }

/-- `handle_new_connection`; not possible while there is nothing to accept, and no open
descriptor is returned. -/
def handleNewConnection (listenFd : ℕ) (st : Server) : Accept → Option Server
  | .error => some st
  | .socket fd added =>
    match st.backlog with
    | [] => none
    | c :: backlog =>
      if fd = listenFd ∨ (st.sockets fd).isSome then none
      else
        let st := { st with backlog, sockets := Function.update st.sockets fd (some c) }
        if h : st.clientSockets.count < maxClients then
          if added then
            some { st with
              epoll := fd :: st.epoll
              clientSockets := st.clientSockets.push fd h }
          else some (st.close fd)
        else some (st.close fd)

/-- The loop of `broadcast_packet` over a list of descriptors. -/
def broadcastLoop (senderFd : ℕ) (packet : ChatPacket) (st : Server) (fds : List ℕ) : Server :=
  fds.foldl (fun st fd => if fd ≠ senderFd then st.writeAll fd packet else st) st

/-- `broadcast_packet`. -/
def broadcastPacket (st : Server) (senderFd : ℕ) (packet : ChatPacket) : Server :=
  broadcastLoop senderFd packet st st.clientSockets.toList

/-- `handle_client_disconnect`. -/
def handleClientDisconnect (st : Server) (fd : ℕ) : Server :=
  (({ st with epoll := st.epoll.filter (· ≠ fd) }).close fd).removeClient fd

/-- The clients in the table. -/
def members (st : Server) : List ℕ := st.clientSockets.toList.filterMap st.sockets

/-- The ghost entry of a packet read from a descriptor. -/
def record (st : Server) (fd : ℕ) (packet : ChatPacket) : Server :=
  match st.sockets fd with
  | none => st
  | some c => { st with log := st.log ++ [⟨c, packet, st.members⟩] }

/-- `handle_client_data`. -/
def handleClientData (st : Server) (fd : ℕ) : Option Server :=
  match st.readAll fd with
  | none => none
  | some (none, st) => some (st.handleClientDisconnect fd)
  | some (some packet, st) => some ((st.record fd packet).broadcastPacket fd packet)

/-! ## The table and the open descriptors -/

section

variable {sockets : ℕ → Option ℕ} {fd fd' c c' : ℕ}

theorem sockets_close_iff :
    Function.update sockets fd none fd' = some c ↔ fd' ≠ fd ∧ sockets fd' = some c := by
  rcases eq_or_ne fd' fd with rfl | hne
  · simp
  · simp [hne]

theorem sockets_accept_iff (hfd : sockets fd = none) :
    Function.update sockets fd (some c) fd' = some c' ↔
      (fd' = fd ∧ c = c') ∨ sockets fd' = some c' := by
  rcases eq_or_ne fd' fd with rfl | hne
  · simp [hfd]
  · simp [hne]

/-- A descriptor is opened and closed again. -/
theorem sockets_accept_close (hfd : sockets fd = none) :
    Function.update (Function.update sockets fd (some c)) fd none = sockets := by
  rw [Function.update_idem, ← hfd, Function.update_eq_self]

/-- The table holds the open descriptors, once each. -/
structure Holds (table : Table ℕ maxClients) (sockets : ℕ → Option ℕ) : Prop where
  nodup : table.toList.Nodup
  mem_iff : ∀ fd, fd ∈ table.toList ↔ ∃ c, sockets fd = some c

namespace Holds

variable {table table' : Table ℕ maxClients}

theorem notMem (h : Holds table sockets) (hfd : sockets fd = none) : fd ∉ table.toList := by
  rw [h.mem_iff, hfd]
  simp

/-- A descriptor is closed and leaves the table. -/
theorem remove (h : Holds table sockets) (hperm : table'.toList.Perm (table.toList.erase fd)) :
    Holds table' (Function.update sockets fd none) ∧
      ∀ fd', fd' ∈ table'.toList ↔ fd' ≠ fd ∧ fd' ∈ table.toList := by
  have hmem : ∀ fd', fd' ∈ table'.toList ↔ fd' ≠ fd ∧ fd' ∈ table.toList := fun fd' =>
    hperm.mem_iff.trans h.nodup.mem_erase_iff
  refine ⟨⟨hperm.nodup_iff.2 (h.nodup.erase fd), fun fd' => ?_⟩, hmem⟩
  simp only [hmem, sockets_close_iff, h.mem_iff, exists_and_left]

/-- A descriptor is opened and enters the table. -/
theorem push (h : Holds table sockets) (hfd : sockets fd = none) (hroom : table.count < maxClients)
    (c : ℕ) : Holds (table.push fd hroom) (Function.update sockets fd (some c)) := by
  constructor
  · rw [Table.toList_push, ← List.concat_eq_append]
    exact h.nodup.concat (h.notMem hfd)
  · intro fd'
    rw [Table.toList_push, List.mem_append, List.mem_singleton, h.mem_iff]
    simp only [sockets_accept_iff hfd, exists_or, exists_and_left, exists_eq', and_true]
    exact or_comm

end Holds

/-- Each connection waits for `accept`, or is behind one descriptor at most. -/
structure Queued (sockets : ℕ → Option ℕ) (backlog : List ℕ) (connected : ℕ) : Prop where
  injective : ∀ fd fd' c, sockets fd = some c → sockets fd' = some c → fd = fd'
  accepted : ∀ fd c, sockets fd = some c → c < connected
  nodup : backlog.Nodup
  waiting : ∀ c ∈ backlog, c < connected ∧ ∀ fd, sockets fd ≠ some c

namespace Queued

variable {backlog : List ℕ} {connected : ℕ}

theorem connect (h : Queued sockets backlog connected) :
    Queued sockets (backlog ++ [connected]) (connected + 1) := by
  refine ⟨h.injective, fun fd c hc => (h.accepted fd c hc).trans (Nat.lt_succ_self _), ?_,
    fun c hc => ?_⟩
  · rw [← List.concat_eq_append]
    exact h.nodup.concat fun hc => lt_irrefl _ (h.waiting _ hc).1
  · rcases List.mem_append.1 hc with hc | hc
    · exact ⟨(h.waiting c hc).1.trans (Nat.lt_succ_self _), (h.waiting c hc).2⟩
    · obtain rfl := List.mem_singleton.1 hc
      exact ⟨Nat.lt_succ_self _, fun fd hfd => lt_irrefl _ (h.accepted fd _ hfd)⟩

theorem close (h : Queued sockets backlog connected) (fd : ℕ) :
    Queued (Function.update sockets fd none) backlog connected := by
  refine ⟨fun fd₁ fd₂ c h₁ h₂ => ?_, fun fd' c hc => ?_, h.nodup,
    fun c hc => ⟨(h.waiting c hc).1, fun fd' hfd' => ?_⟩⟩
  · exact h.injective fd₁ fd₂ c (sockets_close_iff.1 h₁).2 (sockets_close_iff.1 h₂).2
  · exact h.accepted fd' c (sockets_close_iff.1 hc).2
  · exact (h.waiting c hc).2 fd' (sockets_close_iff.1 hfd').2

/-- The first connection is turned away. -/
theorem refuse (h : Queued sockets (c :: backlog) connected) :
    Queued sockets backlog connected :=
  { h with
    nodup := (List.nodup_cons.1 h.nodup).2
    waiting := fun c' hc' => h.waiting c' (List.mem_cons_of_mem _ hc') }

/-- The first connection gets a new descriptor. -/
theorem accept (h : Queued sockets (c :: backlog) connected) (hfd : sockets fd = none) :
    Queued (Function.update sockets fd (some c)) backlog connected := by
  have hfirst := h.waiting c List.mem_cons_self
  refine ⟨fun fd₁ fd₂ c' h₁ h₂ => ?_, fun fd' c' hc' => ?_, h.refuse.nodup, fun c' hc' => ?_⟩
  · rcases (sockets_accept_iff hfd).1 h₁ with ⟨rfl, rfl⟩ | hold₁
    · rcases (sockets_accept_iff hfd).1 h₂ with ⟨rfl, -⟩ | hold₂
      · rfl
      · exact absurd hold₂ (hfirst.2 fd₂)
    · rcases (sockets_accept_iff hfd).1 h₂ with ⟨rfl, rfl⟩ | hold₂
      · exact absurd hold₁ (hfirst.2 fd₁)
      · exact h.injective _ _ _ hold₁ hold₂
  · rcases (sockets_accept_iff hfd).1 hc' with ⟨-, rfl⟩ | hc'
    · exact hfirst.1
    · exact h.accepted fd' c' hc'
  · have hold := h.refuse.waiting c' hc'
    refine ⟨hold.1, fun fd' hfd' => ?_⟩
    rcases (sockets_accept_iff hfd).1 hfd' with ⟨-, rfl⟩ | hfd'
    · exact (List.nodup_cons.1 h.nodup).1 hc'
    · exact hold.2 fd' hfd'

end Queued

end

/-! ## The system -/

/-- A descriptor `epoll_wait` may report. -/
def ready (listenFd : ℕ) (st : Server) (fd : ℕ) : Bool :=
  if fd = listenFd then !st.backlog.isEmpty
  else
    match st.sockets fd with
    | none => false
    | some c =>
      st.epoll.contains fd && (!(st.client c).inbox.isEmpty || (st.client c).closed)

inductive Action
  /-- A client connects. -/
  | connect
  /-- The client `c` sends a packet. -/
  | send (c : ℕ) (packet : ChatPacket)
  /-- The connection of `c` ends; the server can still read `kept` packets. -/
  | disconnect (c kept : ℕ)
  /-- `epoll_wait` returns. -/
  | wait (batch : List ℕ)
  /-- The next event is handled; `accept` returns `result` if it is called. -/
  | event (result : Accept)

/-- A client that can send. -/
def Alive (st : Server) (c : ℕ) : Prop := c < st.connected ∧ (st.client c).closed = false

instance (st : Server) (c : ℕ) : Decidable (st.Alive c) := inferInstanceAs (Decidable (_ ∧ _))

/-- One action; an action that is not possible, or that has to wait, is `none`. -/
def step (listenFd : ℕ) (st : Server) : Action → Option Server
  | .connect =>
    some { st with backlog := st.backlog ++ [st.connected], connected := st.connected + 1 }
  | .send c packet =>
    if st.Alive c then
      some (st.onClient c fun client =>
        { client with sent := client.sent ++ [packet], inbox := client.inbox ++ [packet] })
    else none
  | .disconnect c kept =>
    if st.Alive c then
      some (st.onClient c fun client =>
        { client with inbox := client.inbox.take kept, closed := true })
    else none
  | .wait batch =>
    if st.events = [] ∧ batch.Nodup ∧ batch.length ≤ maxEvents ∧
        batch.all (st.ready listenFd) = true then
      some { st with events := batch }
    else none
  | .event result =>
    match st.events with
    | [] => none
    | fd :: events =>
      if fd = listenFd then handleNewConnection listenFd { st with events } result
      else handleClientData { st with events } fd

end Server

end EltexPractice.TcpChat
