import EltexPractice.TcpChat.Server

/-!
# The descriptors of the TCP chat server

The table `client_sockets` of task 7 beside the open descriptors and the interest list of the epoll
instance, which `server.c` changes with separate calls. `accept` returns any descriptor that is not
open, also one closed earlier in the same batch; `accept` and `epoll_ctl` may fail, and what
`read_all` returns is part of an action. Between two events the three agree (`client_table`).

The server with its clients (`Server`) moves its descriptors by these steps (`Server.descriptors`).
-/

namespace EltexPractice.TcpChat

open Server (Accept Holds sockets_accept_close)

structure Descriptors where
  clientSockets : Table ℕ maxClients
  /-- The open descriptors and the connections behind them. -/
  sockets : ℕ → Option ℕ
  /-- The interest list of the epoll instance, without `listen_fd`. -/
  epoll : List ℕ
  /-- What is left of the batch of `epoll_wait`. -/
  events : List ℕ

/-- No client yet. -/
def Descriptors.init : Descriptors where
  clientSockets := .empty 0
  sockets _ := none
  epoll := []
  events := []

namespace Descriptors

/-! ## The calls -/

/-- `close` of a descriptor; a closed descriptor leaves the interest list. -/
def close (st : Descriptors) (fd : ℕ) : Descriptors :=
  { st with
    sockets := Function.update st.sockets fd none
    epoll := st.epoll.filter (· ≠ fd) }

/-- `epoll_ctl(EPOLL_CTL_DEL)`, which may fail. -/
def epollDel (st : Descriptors) (fd : ℕ) (deleted : Bool) : Descriptors :=
  if deleted then { st with epoll := st.epoll.filter (· ≠ fd) } else st

/-- `remove_client`. -/
def removeClient (st : Descriptors) (fd : ℕ) : Descriptors :=
  match h : st.clientSockets.search (· == fd) with
  | none => st
  | some i =>
    { st with clientSockets := st.clientSockets.removeSwap i (Table.lt_count_of_search h) }

/-- `handle_client_disconnect`. -/
def handleClientDisconnect (st : Descriptors) (fd : ℕ) (deleted : Bool) : Descriptors :=
  ((st.epollDel fd deleted).close fd).removeClient fd

/-- `handle_new_connection` for the connection `c`; no open descriptor is returned. -/
def handleNewConnection (listenFd c : ℕ) (st : Descriptors) : Accept → Option Descriptors
  | .error => some st
  | .socket fd added =>
    if fd = listenFd ∨ (st.sockets fd).isSome then none
    else
      let st := { st with sockets := Function.update st.sockets fd (some c) }
      if h : st.clientSockets.count < maxClients then
        if added then
          some { st with
            epoll := fd :: st.epoll
            clientSockets := st.clientSockets.push fd h }
        else some (st.close fd)
      else some (st.close fd)

/-- `handle_client_data`, when `read_all` returns `n`. -/
def handleClientData (st : Descriptors) (fd : ℕ) (n : ℤ) (deleted : Bool) : Descriptors :=
  if n ≤ 0 then st.handleClientDisconnect fd deleted else st

inductive Action
  /-- `epoll_wait` returns. -/
  | wait (batch : List ℕ)
  /-- The next event is a connection `c` for `accept`, or data for `read_all`. -/
  | event (c : ℕ) (result : Accept) (n : ℤ) (deleted : Bool)

/-- One action. -/
def step (listenFd : ℕ) (st : Descriptors) : Action → Option Descriptors
  | .wait batch =>
    if st.events = [] ∧ batch.Nodup ∧ batch.length ≤ maxEvents ∧
        ∀ fd ∈ batch, fd = listenFd ∨ fd ∈ st.epoll then
      some { st with events := batch }
    else none
  | .event c result n deleted =>
    match st.events with
    | [] => none
    | fd :: events =>
      if fd = listenFd then handleNewConnection listenFd c { st with events } result
      else some ({ st with events }.handleClientData fd n deleted)

/-! ## The invariant -/

/-- Table, open descriptors and interest list agree, and what is left of a batch is in them. -/
structure Inv (listenFd : ℕ) (st : Descriptors) : Prop where
  nodup : st.clientSockets.toList.Nodup
  mem_iff : ∀ fd, fd ∈ st.clientSockets.toList ↔ ∃ c, st.sockets fd = some c
  registered : ∀ fd, fd ∈ st.epoll ↔ fd ∈ st.clientSockets.toList
  listen : listenFd ∉ st.clientSockets.toList
  events_nodup : st.events.Nodup
  events_mem : ∀ fd ∈ st.events, fd = listenFd ∨ fd ∈ st.clientSockets.toList

variable {listenFd : ℕ} {st : Descriptors}

theorem inv_init (listenFd : ℕ) : init.Inv listenFd where
  nodup := by simp [init]
  mem_iff fd := by simp [init]
  registered fd := by simp [init]
  listen := by simp [init]
  events_nodup := List.nodup_nil
  events_mem fd hfd := by cases hfd

theorem removeClient_spec (st : Descriptors) (fd : ℕ) :
    ∃ table, st.removeClient fd = { st with clientSockets := table } ∧
      table.toList.Perm (st.clientSockets.toList.erase fd) := by
  unfold removeClient
  split
  · rename_i hsearch
    exact ⟨st.clientSockets, rfl, .of_eq (Table.erase_of_search_eq_none hsearch).symm⟩
  · rename_i i hsearch
    exact ⟨_, rfl, Table.toList_removeSwap_search hsearch⟩

/-- Whether `epoll_ctl` fails or not, `close` takes the descriptor out of the interest list. -/
theorem close_epollDel (st : Descriptors) (fd : ℕ) (deleted : Bool) :
    (st.epollDel fd deleted).close fd = st.close fd := by
  cases deleted with
  | false => rfl
  | true => simp [epollDel, close, List.filter_filter]

theorem handleClientDisconnect_spec (st : Descriptors) (fd : ℕ) (deleted : Bool) :
    ∃ table, st.handleClientDisconnect fd deleted =
        { clientSockets := table, sockets := Function.update st.sockets fd none,
          epoll := st.epoll.filter (· ≠ fd), events := st.events } ∧
      table.toList.Perm (st.clientSockets.toList.erase fd) := by
  rw [handleClientDisconnect, close_epollDel]
  exact removeClient_spec (st.close fd) fd

theorem Inv.holds (h : st.Inv listenFd) : Holds st.clientSockets st.sockets :=
  ⟨h.nodup, h.mem_iff⟩

/-- A client that leaves takes its descriptor out of all three, and no other. -/
theorem Inv.handleClientDisconnect (h : st.Inv listenFd) {fd : ℕ} (hfd : fd ∉ st.events)
    (deleted : Bool) : (st.handleClientDisconnect fd deleted).Inv listenFd := by
  obtain ⟨table, htable, hperm⟩ := st.handleClientDisconnect_spec fd deleted
  obtain ⟨hholds, hmem⟩ := h.holds.remove hperm
  rw [htable]
  refine ⟨hholds.nodup, hholds.mem_iff, fun fd' => ?_, fun hl => ?_, h.events_nodup,
    fun fd' hfd' => ?_⟩
  · rw [hmem, List.mem_filter, h.registered, decide_eq_true_eq]
    exact and_comm
  · exact h.listen ((hmem _).1 hl).2
  · have hne : fd' ≠ fd := fun heq => hfd (heq ▸ hfd')
    exact (h.events_mem fd' hfd').imp_right fun hin => (hmem fd').2 ⟨hne, hin⟩

/-- `accept` fails, or opens a descriptor that is closed again or enters all three. -/
theorem Inv.handleNewConnection (h : st.Inv listenFd) {c : ℕ} {result : Accept} {st' : Descriptors}
    (hs : handleNewConnection listenFd c st result = some st') : st'.Inv listenFd := by
  cases result with
  | error =>
    obtain rfl := Option.some.inj hs
    exact h
  | socket fd added =>
    rw [Descriptors.handleNewConnection] at hs
    split at hs
    · cases hs
    · rename_i hfd
      obtain ⟨hlisten, hclosed⟩ := not_or.1 hfd
      have hnone : st.sockets fd = none := Option.not_isSome_iff_eq_none.1 hclosed
      have hrefused : ({ st with sockets := Function.update st.sockets fd (some c) }.close fd) =
          st := by
        have hepoll : st.epoll.filter (· ≠ fd) = st.epoll := by
          refine List.filter_eq_self.2 fun fd' hfd' => decide_eq_true fun heq => ?_
          exact h.holds.notMem hnone ((h.registered fd).1 (heq ▸ hfd'))
        simp only [close, hepoll, sockets_accept_close hnone]
      simp only [hrefused] at hs
      split at hs
      · split at hs
        · obtain rfl := Option.some.inj hs
          have hholds := h.holds.push hnone ‹_› c
          refine ⟨hholds.nodup, hholds.mem_iff, fun fd' => ?_, ?_, h.events_nodup,
            fun fd' hfd' => ?_⟩
          · rw [Table.toList_push, List.mem_append, List.mem_singleton, List.mem_cons,
              h.registered]
            exact or_comm
          · rw [Table.toList_push, List.mem_append, List.mem_singleton, not_or]
            exact ⟨h.listen, Ne.symm hlisten⟩
          · rw [Table.toList_push, List.mem_append]
            exact (h.events_mem fd' hfd').imp_right Or.inl
        · obtain rfl := Option.some.inj hs
          exact h
      · obtain rfl := Option.some.inj hs
        exact h

/-- `accept` puts the connection behind a closed descriptor, or changes nothing. -/
theorem handleNewConnection_frame {c : ℕ} {result : Accept} {st' : Descriptors}
    (hs : handleNewConnection listenFd c st result = some st') :
    st'.events = st.events ∧ (st'.sockets = st.sockets ∨
      ∃ fd, st.sockets fd = none ∧ st'.sockets = Function.update st.sockets fd (some c)) := by
  cases result with
  | error =>
    obtain rfl := Option.some.inj hs
    exact ⟨rfl, Or.inl rfl⟩
  | socket fd added =>
    rw [Descriptors.handleNewConnection] at hs
    split at hs
    · cases hs
    · rename_i hfd
      have hnone : st.sockets fd = none := Option.not_isSome_iff_eq_none.1 (not_or.1 hfd).2
      simp only at hs
      split at hs
      · split at hs
        · obtain rfl := Option.some.inj hs
          exact ⟨rfl, Or.inr ⟨fd, hnone, rfl⟩⟩
        · obtain rfl := Option.some.inj hs
          exact ⟨rfl, Or.inl (sockets_accept_close hnone)⟩
      · obtain rfl := Option.some.inj hs
        exact ⟨rfl, Or.inl (sockets_accept_close hnone)⟩

/-- The head of a batch is handled. -/
theorem Inv.tail (h : st.Inv listenFd) {fd : ℕ} {events : List ℕ} (he : st.events = fd :: events) :
    { st with events : Descriptors }.Inv listenFd ∧ fd ∉ events := by
  have hnodup := h.events_nodup
  rw [he, List.nodup_cons] at hnodup
  refine ⟨{ h with events_nodup := hnodup.2, events_mem := fun fd' hfd' => ?_ }, hnodup.1⟩
  exact h.events_mem fd' (he ▸ List.mem_cons_of_mem _ hfd')

/-- A batch of `epoll_wait`. -/
theorem Inv.wait (h : st.Inv listenFd) {batch : List ℕ} (hnodup : batch.Nodup)
    (hmem : ∀ fd ∈ batch, fd = listenFd ∨ fd ∈ st.epoll) :
    { st with events := batch : Descriptors }.Inv listenFd :=
  { h with
    events_nodup := hnodup
    events_mem := fun fd hfd => (hmem fd hfd).imp_right (h.registered fd).1 }

theorem Inv.step (h : st.Inv listenFd) {a : Action} {st' : Descriptors}
    (hs : step listenFd st a = some st') : st'.Inv listenFd := by
  cases a with
  | wait batch =>
    rw [Descriptors.step] at hs
    split at hs
    · rename_i hwait
      obtain ⟨-, hnodup, -, hmem⟩ := hwait
      obtain rfl := Option.some.inj hs
      exact h.wait hnodup hmem
    · cases hs
  | event c result n deleted =>
    rw [Descriptors.step] at hs
    split at hs
    · cases hs
    · rename_i fd events he
      obtain ⟨htail, hfd⟩ := h.tail he
      split at hs
      · exact htail.handleNewConnection hs
      · obtain rfl := Option.some.inj hs
        rw [handleClientData]
        split
        · exact htail.handleClientDisconnect hfd deleted
        · exact htail

theorem inv_of_run {as : List Action} {st : Descriptors}
    (h : runFrom (step listenFd) init as = some st) : st.Inv listenFd :=
  runFrom_invariant (fun _ _ _ h hs => h.step hs) (inv_init listenFd) h

/-- **The client table.** Between two events the table has no duplicate, holds at most
`MAX_CLIENTS` descriptors and equals the set of those that are open and registered; the next
descriptor with data is in it, and whoever is removed, the others stay as they are. -/
theorem client_table {as : List Action} {st : Descriptors}
    (h : runFrom (step listenFd) init as = some st) :
    st.clientSockets.toList.Nodup ∧ st.clientSockets.toList.length ≤ 128 ∧
      (∀ fd, fd ∈ st.clientSockets.toList ↔ (∃ c, st.sockets fd = some c) ∧ fd ∈ st.epoll) ∧
      (∀ fd events, st.events = fd :: events → fd ≠ listenFd → fd ∈ st.clientSockets.toList) ∧
      ∀ fd deleted, ∃ table, st.handleClientDisconnect fd deleted =
          { clientSockets := table, sockets := Function.update st.sockets fd none,
            epoll := st.epoll.filter (· ≠ fd), events := st.events } ∧
        table.toList.Perm (st.clientSockets.toList.erase fd) := by
  have hinv := inv_of_run h
  refine ⟨hinv.nodup, st.clientSockets.length_toList_le, fun fd => ?_, fun fd events he hne => ?_,
    st.handleClientDisconnect_spec⟩
  · rw [hinv.registered, ← hinv.mem_iff, and_self]
  · exact (hinv.events_mem fd (he ▸ List.mem_cons_self)).resolve_left hne

/-- A client connects and leaves; in the same batch the next one gets its descriptor. -/
def reuse : List Action :=
  [.wait [3], .event 0 (.socket 5 true) 0 true, .wait [5, 3], .event 0 .error 0 false,
    .event 1 (.socket 5 true) 0 true]

theorem client_table_reuse : ∃ st, runFrom (step 3) init reuse = some st ∧ st.sockets 5 = some 1 ∧
    ∀ fd, fd ∈ st.clientSockets.toList ↔ (∃ c, st.sockets fd = some c) ∧ fd ∈ st.epoll := by
  refine ⟨_, rfl, rfl, ?_⟩
  have h : runFrom (step 3) init reuse = some _ := rfl
  exact (client_table h).2.2.1

end Descriptors

/-! ## The server -/

namespace Server

/-- The descriptors of the server. -/
def descriptors (st : Server) : Descriptors :=
  ⟨st.clientSockets, st.sockets, st.epoll, st.events⟩

theorem descriptors_removeClient (st : Server) (fd : ℕ) :
    (st.removeClient fd).descriptors = st.descriptors.removeClient fd := by
  unfold removeClient Descriptors.removeClient
  split
  · rename_i hsearch
    split
    · rfl
    · rename_i i hsome
      exact absurd (hsome.symm.trans hsearch) (Option.some_ne_none i)
  · rename_i i hsearch
    split
    · rename_i hnone
      exact absurd (hsearch.symm.trans hnone) (Option.some_ne_none i)
    · rename_i j hsome
      obtain rfl := Option.some.inj (hsearch.symm.trans hsome)
      rfl

theorem descriptors_handleClientDisconnect (st : Server) (fd : ℕ) :
    (st.handleClientDisconnect fd).descriptors =
      st.descriptors.handleClientDisconnect fd true := by
  rw [handleClientDisconnect, descriptors_removeClient]
  rfl

theorem descriptors_writeAll (st : Server) (fd : ℕ) (packet : ChatPacket) :
    (st.writeAll fd packet).descriptors = st.descriptors := by
  unfold writeAll
  split <;> rfl

theorem descriptors_broadcastPacket (st : Server) (fd : ℕ) (packet : ChatPacket) :
    (st.broadcastPacket fd packet).descriptors = st.descriptors := by
  have hloop : ∀ (fds : List ℕ) (st : Server),
      (broadcastLoop fd packet st fds).descriptors = st.descriptors := by
    intro fds
    induction fds with
    | nil => exact fun _ => rfl
    | cons fd' fds ih =>
      intro st
      refine (ih _).trans ?_
      by_cases hne : fd' ≠ fd
      · simp only [if_pos hne]
        exact descriptors_writeAll st fd' packet
      · simp only [if_neg hne]
  exact hloop _ st

theorem descriptors_record (st : Server) (fd : ℕ) (packet : ChatPacket) :
    (st.record fd packet).descriptors = st.descriptors := by
  unfold record
  split <;> rfl

theorem descriptors_readAll {st st' : Server} {fd : ℕ} {packet : Option ChatPacket}
    (h : st.readAll fd = some (packet, st')) : st'.descriptors = st.descriptors := by
  unfold readAll at h
  split at h
  · obtain ⟨rfl, rfl⟩ := Prod.mk.inj (Option.some.inj h)
    rfl
  · split at h
    · obtain ⟨rfl, rfl⟩ := Prod.mk.inj (Option.some.inj h)
      rfl
    · split at h
      · obtain ⟨rfl, rfl⟩ := Prod.mk.inj (Option.some.inj h)
        rfl
      · cases h

/-- What `read_all` returns: the size of a packet, or nothing that is positive. -/
theorem descriptors_handleClientData {st st' : Server} {fd : ℕ}
    (h : st.handleClientData fd = some st') :
    ∃ n, st'.descriptors = st.descriptors.handleClientData fd n true := by
  unfold handleClientData at h
  split at h
  · cases h
  · rename_i st₁ hread
    obtain rfl := Option.some.inj h
    refine ⟨0, ?_⟩
    rw [descriptors_handleClientDisconnect, descriptors_readAll hread]
    rfl
  · rename_i packet st₁ hread
    obtain rfl := Option.some.inj h
    refine ⟨1, ?_⟩
    rw [descriptors_broadcastPacket, descriptors_record, descriptors_readAll hread]
    rfl

theorem descriptors_handleNewConnection {listenFd : ℕ} {st st' : Server} {result : Accept}
    (h : handleNewConnection listenFd st result = some st') :
    ∃ c, st.descriptors.handleNewConnection listenFd c result = some st'.descriptors := by
  cases result with
  | error =>
    obtain rfl := Option.some.inj h
    exact ⟨0, rfl⟩
  | socket fd added =>
    rw [handleNewConnection] at h
    split at h
    · cases h
    · rename_i c backlog hbacklog
      refine ⟨c, ?_⟩
      unfold Descriptors.handleNewConnection
      split at h
      · cases h
      · rename_i hfd
        refine (if_neg hfd).trans ?_
        simp only at h
        split at h
        · rename_i hroom
          refine (dif_pos hroom).trans ?_
          cases added with
          | true =>
            obtain rfl := Option.some.inj h
            rfl
          | false =>
            obtain rfl := Option.some.inj h
            rfl
        · rename_i hroom
          obtain rfl := Option.some.inj h
          exact dif_neg hroom

/-- **The server moves its descriptors by the steps above**, or not at all. -/
theorem descriptors_step {listenFd : ℕ} {st st' : Server} {a : Action}
    (h : step listenFd st a = some st') : st'.descriptors = st.descriptors ∨
      ∃ b, Descriptors.step listenFd st.descriptors b = some st'.descriptors := by
  cases a with
  | connect =>
    obtain rfl := Option.some.inj h
    exact Or.inl rfl
  | send c packet =>
    rw [step] at h
    split at h
    · obtain rfl := Option.some.inj h
      exact Or.inl rfl
    · cases h
  | disconnect c kept =>
    rw [step] at h
    split at h
    · obtain rfl := Option.some.inj h
      exact Or.inl rfl
    · cases h
  | wait batch =>
    rw [step] at h
    split at h
    · rename_i hwait
      obtain ⟨hnil, hnodup, hlen, hready⟩ := hwait
      obtain rfl := Option.some.inj h
      refine Or.inr ⟨.wait batch, if_pos ⟨hnil, hnodup, hlen, fun fd hfd => ?_⟩⟩
      have hfd := List.all_eq_true.1 hready fd hfd
      unfold ready at hfd
      split at hfd
      · exact Or.inl ‹_›
      · split at hfd
        · cases hfd
        · rw [Bool.and_eq_true] at hfd
          exact Or.inr (List.contains_iff_mem.1 hfd.1)
    · cases h
  | event result =>
    rw [step] at h
    split at h
    · cases h
    · rename_i fd events he
      have he : st.descriptors.events = fd :: events := he
      split at h
      · rename_i hlisten
        obtain ⟨c, hc⟩ := descriptors_handleNewConnection h
        refine Or.inr ⟨.event c result 0 true, ?_⟩
        rw [Descriptors.step, he]
        simp only [if_pos hlisten]
        exact hc
      · rename_i hlisten
        obtain ⟨n, hn⟩ := descriptors_handleClientData h
        refine Or.inr ⟨.event 0 result n true, ?_⟩
        rw [Descriptors.step, he]
        simp only [if_neg hlisten]
        exact congrArg some hn.symm

/-- The descriptors of a server that runs with its clients agree. -/
theorem descriptors_inv {listenFd : ℕ} {as : List Action} {st : Server}
    (h : runFrom (step listenFd) init as = some st) : st.descriptors.Inv listenFd := by
  refine runFrom_invariant (P := fun st => st.descriptors.Inv listenFd)
    (fun st a st' hinv hs => ?_) (Descriptors.inv_init listenFd) h
  rcases descriptors_step hs with heq | ⟨b, hb⟩
  · rw [heq]
    exact hinv
  · exact hinv.step hb

end Server

end EltexPractice.TcpChat
