import EltexPractice.TcpChat.Server

/-!
# Broadcast order of the TCP chat

What was written to a client is exactly what the server processed while the client was in its
table and another client had sent, in the order of processing (`broadcast_order`). The table stays
free of duplicates and holds the open descriptors only (`Server.Inv`), so the loop of
`broadcast_packet` writes once to each member but the sender (`broadcastLoop_eq`).
-/

namespace EltexPractice.TcpChat

namespace Server

/-! ## The loop of `broadcast_packet` -/

/-- No two descriptors belong to one client. -/
def Injective (sockets : ℕ → Option ℕ) : Prop :=
  ∀ ⦃fd fd' c⦄, sockets fd = some c → sockets fd' = some c → fd = fd'

/-- **The loop writes once** to each client behind a descriptor other than the sender's. -/
theorem broadcastLoop_eq {st : Server} (hinj : Injective st.sockets) (senderFd : ℕ)
    (packet : ChatPacket) {fds : List ℕ} (hnodup : fds.Nodup) :
    broadcastLoop senderFd packet st fds =
      { st with
        client := fun c =>
          if ∃ fd ∈ fds, fd ≠ senderFd ∧ st.sockets fd = some c then (st.client c).receive packet
          else st.client c } := by
  induction fds generalizing st with
  | nil => simp [broadcastLoop]
  | cons fd fds ih =>
    obtain ⟨hfd, hnodup⟩ := List.nodup_cons.1 hnodup
    rw [broadcastLoop, List.foldl_cons, ← broadcastLoop]
    split
    · rename_i hne
      rw [writeAll]
      split
      · rename_i hnone
        rw [ih hinj hnodup]
        congr 1
        funext c
        simp [hnone]
      · rename_i c₀ hsome
        have hinj' : Injective (st.onClient c₀ (·.receive packet)).sockets := hinj
        rw [ih hinj' hnodup]
        congr 1
        funext c
        rcases eq_or_ne c c₀ with rfl | hc
        · -- the descriptor of `c` does not occur again
          have hagain : ¬ ∃ fd' ∈ fds, fd' ≠ senderFd ∧ st.sockets fd' = some c := by
            rintro ⟨fd', hmem, -, hfd'⟩
            exact hfd (hinj hsome hfd' ▸ hmem)
          refine (if_neg hagain).trans ?_
          rw [client_onClient_self, if_pos ⟨fd, List.mem_cons_self, hne, hsome⟩]
        · have hother := client_onClient_of_ne st hc (·.receive packet)
          rw [hother]
          refine if_congr ?_ rfl rfl
          simp only [sockets_onClient, List.exists_mem_cons_iff, hsome, Option.some.injEq,
            hc.symm, and_false, false_or]
    · rename_i heq
      rw [ih hinj hnodup]
      congr 1
      funext c
      simp [not_not.1 heq]

/-! ## The invariant -/

/-- The table holds the open descriptors, once each, and each client has one at most. -/
structure TableInv (st : Server) : Prop where
  nodup : st.clientSockets.toList.Nodup
  mem_iff : ∀ fd, fd ∈ st.clientSockets.toList ↔ ∃ c, st.sockets fd = some c
  injective : Injective st.sockets
  accepted : ∀ fd c, st.sockets fd = some c → c < st.connected
  backlog_nodup : st.backlog.Nodup
  waiting : ∀ c ∈ st.backlog, c < st.connected ∧ ∀ fd, st.sockets fd ≠ some c

/-- The packets of a client the server has processed. -/
def processed (st : Server) (c : ℕ) : List ChatPacket :=
  (st.log.filter (·.sender = c)).map (·.packet)

/-- The packets processed while `c` was in the table and another client had sent. -/
def deliveries (st : Server) (c : ℕ) : List Entry := st.log.filter (·.Reaches c)

/-- Each client has been written its deliveries, and each client's packets are read in order; only
a closed connection loses packets. -/
structure Inv (st : Server) : Prop extends TableInv st where
  outbox : ∀ c, (st.client c).outbox = (st.deliveries c).map (·.packet)
  stream : ∀ c, ∃ lost, (st.client c).sent = st.processed c ++ (st.client c).inbox ++ lost ∧
    ((st.client c).closed = false → lost = [])

theorem inv_init : init.Inv where
  nodup := by simp [init]
  mem_iff fd := by simp [init]
  injective fd fd' c h := by cases h
  accepted fd c h := by cases h
  backlog_nodup := List.nodup_nil
  waiting c hc := by cases hc
  outbox c := rfl
  stream c := ⟨[], rfl, fun _ => rfl⟩

variable {st : Server}

theorem TableInv.holds (h : st.TableInv) : Holds st.clientSockets st.sockets := ⟨h.nodup, h.mem_iff⟩

theorem TableInv.queued (h : st.TableInv) : Queued st.sockets st.backlog st.connected :=
  ⟨fun _ _ _ h₁ h₂ => h.injective h₁ h₂, h.accepted, h.backlog_nodup, h.waiting⟩

theorem TableInv.of_holds (hholds : Holds st.clientSockets st.sockets)
    (hqueued : Queued st.sockets st.backlog st.connected) : st.TableInv where
  nodup := hholds.nodup
  mem_iff := hholds.mem_iff
  injective := hqueued.injective
  accepted := hqueued.accepted
  backlog_nodup := hqueued.nodup
  waiting := hqueued.waiting

theorem TableInv.congr {st' : Server} (h : st.TableInv)
    (htable : st'.clientSockets = st.clientSockets) (hsockets : st'.sockets = st.sockets)
    (hbacklog : st'.backlog = st.backlog) (hconnected : st'.connected = st.connected) :
    st'.TableInv := by
  constructor
  · rw [htable]
    exact h.nodup
  · rw [htable, hsockets]
    exact h.mem_iff
  · rw [hsockets]
    exact h.injective
  · rw [hsockets, hconnected]
    exact h.accepted
  · rw [hbacklog]
    exact h.backlog_nodup
  · rw [hbacklog, hsockets, hconnected]
    exact h.waiting

/-- What is said of the clients is kept by whatever touches no client and no entry. -/
theorem Inv.congr {st' : Server} (h : st.Inv) (htable : st'.TableInv)
    (hclient : st'.client = st.client) (hlog : st'.log = st.log) : st'.Inv := by
  refine { htable with outbox := fun c => ?_, stream := fun c => ?_ }
  · rw [deliveries, hclient, hlog]
    exact h.outbox c
  · rw [processed, hclient, hlog]
    exact h.stream c

/-! ## The actions of the clients -/

theorem Inv.connect (h : st.Inv) :
    { st with backlog := st.backlog ++ [st.connected], connected := st.connected + 1 : Server }.Inv
    := h.congr (.of_holds h.holds h.queued.connect) rfl rfl

/-- A client is changed in a way that keeps what it has been written and its own stream. -/
theorem Inv.onClient (h : st.Inv) (c : ℕ) {f : Client → Client}
    (houtbox : (f (st.client c)).outbox = (st.client c).outbox)
    (hstream : ∃ lost, (f (st.client c)).sent =
      st.processed c ++ (f (st.client c)).inbox ++ lost ∧
        ((f (st.client c)).closed = false → lost = [])) : (st.onClient c f).Inv := by
  have htable : (st.onClient c f).TableInv := h.toTableInv.congr rfl rfl rfl rfl
  refine { htable with outbox := fun c' => ?_, stream := fun c' => ?_ }
  · rcases eq_or_ne c' c with rfl | hne
    · rw [client_onClient_self, houtbox]
      exact h.outbox c'
    · rw [client_onClient_of_ne _ hne]
      exact h.outbox c'
  · rcases eq_or_ne c' c with rfl | hne
    · rw [client_onClient_self]
      exact hstream
    · rw [client_onClient_of_ne _ hne]
      exact h.stream c'

theorem Inv.send (h : st.Inv) {c : ℕ} (hc : st.Alive c) (packet : ChatPacket) :
    (st.onClient c fun client =>
      { client with sent := client.sent ++ [packet], inbox := client.inbox ++ [packet] }).Inv := by
  obtain ⟨lost, hsent, hlost⟩ := h.stream c
  obtain rfl := hlost hc.2
  refine h.onClient c rfl ⟨[], ?_, fun _ => rfl⟩
  simp [hsent]

theorem Inv.disconnect (h : st.Inv) (c kept : ℕ) :
    (st.onClient c fun client =>
      { client with inbox := client.inbox.take kept, closed := true }).Inv := by
  obtain ⟨lost, hsent, -⟩ := h.stream c
  refine h.onClient c rfl ⟨(st.client c).inbox.drop kept ++ lost, ?_, fun hopen => ?_⟩
  · rw [hsent]
    conv_lhs => rw [← List.take_append_drop kept (st.client c).inbox]
    simp only [List.append_assoc]
  · cases hopen

/-! ## The table -/

theorem removeClient_spec (st : Server) (fd : ℕ) :
    ∃ table, st.removeClient fd = { st with clientSockets := table } ∧
      table.toList.Perm (st.clientSockets.toList.erase fd) := by
  unfold removeClient
  split
  · rename_i hsearch
    exact ⟨st.clientSockets, rfl, .of_eq (Table.erase_of_search_eq_none hsearch).symm⟩
  · rename_i i hsearch
    exact ⟨_, rfl, Table.toList_removeSwap_search hsearch⟩

/-- A descriptor that is closed leaves the table; the others stay. -/
theorem TableInv.handleClientDisconnect (h : st.TableInv) (fd : ℕ) :
    (st.handleClientDisconnect fd).TableInv := by
  obtain ⟨table, htable, hperm⟩ :=
    (({ st with epoll := st.epoll.filter (· ≠ fd) } : Server).close fd).removeClient_spec fd
  rw [Server.handleClientDisconnect, htable]
  exact .of_holds (h.holds.remove hperm).1 (h.queued.close fd)

theorem handleClientDisconnect_frame (st : Server) (fd : ℕ) :
    (st.handleClientDisconnect fd).client = st.client ∧
      (st.handleClientDisconnect fd).log = st.log := by
  obtain ⟨table, htable, -⟩ :=
    (({ st with epoll := st.epoll.filter (· ≠ fd) } : Server).close fd).removeClient_spec fd
  rw [handleClientDisconnect, htable]
  exact ⟨rfl, rfl⟩

/-- The first client that waits gets a new descriptor, and the descriptor a slot. -/
theorem TableInv.accept (h : st.TableInv) {c fd : ℕ} {backlog : List ℕ}
    (hbacklog : st.backlog = c :: backlog) (hfd : st.sockets fd = none)
    (hroom : st.clientSockets.count < maxClients) (epoll : List ℕ) :
    { st with
      backlog
      sockets := Function.update st.sockets fd (some c)
      epoll
      clientSockets := st.clientSockets.push fd hroom : Server }.TableInv := by
  have hqueued := h.queued
  rw [hbacklog] at hqueued
  exact .of_holds (h.holds.push hfd hroom c) (hqueued.accept hfd)

/-- A client that is turned away waits no more. -/
theorem TableInv.refuse (h : st.TableInv) {c fd : ℕ} {backlog : List ℕ}
    (hbacklog : st.backlog = c :: backlog) (hfd : st.sockets fd = none) :
    ({ st with backlog, sockets := Function.update st.sockets fd (some c) }.close fd).TableInv := by
  have hqueued := h.queued
  rw [hbacklog] at hqueued
  have hrest : { st with backlog : Server }.TableInv := .of_holds h.holds hqueued.refuse
  exact hrest.congr rfl (sockets_accept_close hfd) rfl rfl

theorem Inv.handleNewConnection {listenFd : ℕ} {result : Accept} {st' : Server} (h : st.Inv)
    (hs : handleNewConnection listenFd st result = some st') : st'.Inv := by
  unfold Server.handleNewConnection at hs
  split at hs
  · obtain rfl := Option.some.inj hs
    exact h
  · rename_i fd added
    split at hs
    · cases hs
    · rename_i c backlog hbacklog
      split at hs
      · cases hs
      · rename_i hfd
        have hclosed : st.sockets fd = none := by
          rw [not_or, Bool.not_eq_true, Option.isSome_eq_false_iff] at hfd
          exact Option.isNone_iff_eq_none.1 hfd.2
        simp only at hs
        split at hs
        · split at hs
          · obtain rfl := Option.some.inj hs
            exact h.congr (h.toTableInv.accept hbacklog hclosed _ _) rfl rfl
          · obtain rfl := Option.some.inj hs
            exact h.congr (h.toTableInv.refuse hbacklog hclosed) rfl rfl
        · obtain rfl := Option.some.inj hs
          exact h.congr (h.toTableInv.refuse hbacklog hclosed) rfl rfl

/-! ## The packets -/

theorem readAll_packet {fd : ℕ} {packet : ChatPacket} {st' : Server}
    (hs : st.readAll fd = some (some packet, st')) :
    ∃ s inbox, st.sockets fd = some s ∧ (st.client s).inbox = packet :: inbox ∧
      st' = st.onClient s fun client => { client with inbox } := by
  unfold readAll at hs
  split at hs
  · cases hs
  · rename_i s hsocket
    split at hs
    · rename_i packet' inbox hinbox
      cases hs
      exact ⟨s, inbox, hsocket, hinbox, rfl⟩
    · split at hs
      · cases hs
      · cases hs

theorem readAll_end {fd : ℕ} {st' : Server} (hs : st.readAll fd = some (none, st')) :
    st' = st := by
  unfold readAll at hs
  split at hs
  · cases hs
    rfl
  · split at hs
    · cases hs
    · split at hs
      · cases hs
        rfl
      · cases hs

theorem record_eq {fd s : ℕ} (h : st.sockets fd = some s) (packet : ChatPacket) :
    st.record fd packet = { st with log := st.log ++ [⟨s, packet, st.members⟩] } := by
  unfold record
  rw [h]

theorem mem_members {c : ℕ} :
    c ∈ st.members ↔ ∃ fd ∈ st.clientSockets.toList, st.sockets fd = some c :=
  List.mem_filterMap

/-- What `handle_client_data` has done when it returns: it has read a packet and written it to the
members of the table but the sender, or it has closed the connection. -/
theorem handleClientData_cases (h : st.TableInv) {fd : ℕ} {st' : Server}
    (hs : st.handleClientData fd = some st') :
    (∃ s packet inbox, st.sockets fd = some s ∧ (st.client s).inbox = packet :: inbox ∧
      st' = { st with
        log := st.log ++ [⟨s, packet, st.members⟩]
        client := fun c =>
          if c = s then { st.client s with inbox }
          else if c ∈ st.members then (st.client c).receive packet
          else st.client c }) ∨
    st' = st.handleClientDisconnect fd := by
  unfold handleClientData at hs
  split at hs
  · cases hs
  · rename_i st₁ hread
    obtain rfl := readAll_end hread
    exact Or.inr (Option.some.inj hs).symm
  · rename_i packet st₁ hread
    obtain ⟨s, inbox, hsocket, hinbox, rfl⟩ := readAll_packet hread
    refine Or.inl ⟨s, packet, inbox, hsocket, hinbox, ?_⟩
    rw [← Option.some.inj hs, record_eq (by exact hsocket)]
    refine (broadcastLoop_eq (by exact h.injective) fd packet h.nodup).trans ?_
    refine congrArg (fun client => { st with
      log := st.log ++ [⟨s, packet, st.members⟩]
      client := client : Server }) ?_
    funext c
    rcases eq_or_ne c s with rfl | hne
    · have hself : ¬ ∃ fd' ∈ st.clientSockets.toList, fd' ≠ fd ∧ st.sockets fd' = some c := by
        rintro ⟨fd', -, hne, hfd'⟩
        exact hne (h.injective hfd' hsocket)
      rw [if_pos rfl]
      refine (if_neg hself).trans ?_
      exact client_onClient_self st c fun client => { client with inbox }
    · have hother := client_onClient_of_ne st hne fun client => { client with inbox }
      rw [if_neg hne]
      have hiff : (∃ fd' ∈ st.clientSockets.toList, fd' ≠ fd ∧ st.sockets fd' = some c) ↔
          c ∈ st.members := by
        rw [mem_members]
        refine exists_congr fun fd' => and_congr_right fun _ => and_iff_right_of_imp ?_
        rintro hfd' rfl
        exact hne (Option.some.inj (hfd'.symm.trans hsocket))
      by_cases hmem : c ∈ st.members
      · rw [if_pos hmem]
        exact (if_pos (hiff.2 hmem)).trans (congrArg (·.receive packet) hother)
      · rw [if_neg hmem]
        exact (if_neg (mt hiff.1 hmem)).trans hother

theorem Inv.handleClientData (h : st.Inv) {fd : ℕ} {st' : Server}
    (hs : st.handleClientData fd = some st') : st'.Inv := by
  rcases handleClientData_cases h.toTableInv hs with
    ⟨s, packet, inbox, hsocket, hinbox, rfl⟩ | rfl
  · have hsender : s ∈ st.members :=
      mem_members.2 ⟨fd, (h.mem_iff fd).2 ⟨s, hsocket⟩, hsocket⟩
    refine { h.toTableInv.congr rfl rfl rfl rfl with outbox := fun c => ?_, stream := fun c => ?_ }
    · have hold := h.outbox c
      simp only [deliveries, List.filter_append, List.map_append] at hold ⊢
      rw [← hold]
      rcases eq_or_ne c s with rfl | hne
      · -- the sender gets nothing
        have hno : ¬ Entry.Reaches ⟨c, packet, st.members⟩ c := fun hr => hr.2 rfl
        simp [hno]
      · by_cases hmem : c ∈ st.members
        · have hyes : Entry.Reaches ⟨s, packet, st.members⟩ c := ⟨hmem, hne⟩
          simp [hne, hmem, hyes, Client.receive]
        · have hno : ¬ Entry.Reaches ⟨s, packet, st.members⟩ c := fun hr => hmem hr.1
          simp [hne, hmem, hno]
    · obtain ⟨lost, hsent, hlost⟩ := h.stream c
      simp only [processed, List.filter_append, List.map_append] at hsent ⊢
      refine ⟨lost, ?_⟩
      rcases eq_or_ne c s with rfl | hne
      · rw [hinbox] at hsent
        simp only [if_true]
        refine ⟨?_, hlost⟩
        simp [hsent]
      · have hother : ¬ s = c := fun heq => hne heq.symm
        simp only [hother, decide_false, Bool.false_eq_true, not_false_eq_true,
          List.filter_cons_of_neg, List.filter_nil, List.map_nil, List.append_nil, if_neg hne]
        split
        · exact ⟨hsent, hlost⟩
        · exact ⟨hsent, hlost⟩
  · have hframe := handleClientDisconnect_frame st fd
    exact h.congr (h.toTableInv.handleClientDisconnect fd) hframe.1 hframe.2

/-! ## Runs -/

/-- Every action keeps the invariant. -/
theorem Inv.step {listenFd : ℕ} {a : Action} {st' : Server} (h : st.Inv)
    (hs : Server.step listenFd st a = some st') : st'.Inv := by
  cases a with
  | connect =>
    obtain rfl := Option.some.inj hs
    exact h.connect
  | send c packet =>
    rw [Server.step] at hs
    split at hs
    · rename_i halive
      obtain rfl := Option.some.inj hs
      exact h.send halive packet
    · cases hs
  | disconnect c kept =>
    rw [Server.step] at hs
    split at hs
    · obtain rfl := Option.some.inj hs
      exact h.disconnect c kept
    · cases hs
  | wait batch =>
    rw [Server.step] at hs
    split at hs
    · obtain rfl := Option.some.inj hs
      exact h.congr (h.toTableInv.congr rfl rfl rfl rfl) rfl rfl
    · cases hs
  | event result =>
    rw [Server.step] at hs
    split at hs
    · cases hs
    · rename_i fd events hevents
      have hrest : { st with events : Server }.Inv :=
        h.congr (h.toTableInv.congr rfl rfl rfl rfl) rfl rfl
      split at hs
      · exact hrest.handleNewConnection hs
      · exact hrest.handleClientData hs

theorem inv_of_run {listenFd : ℕ} {as : List Action}
    (h : runFrom (step listenFd) init as = some st) : st.Inv :=
  runFrom_invariant (fun _ _ _ h hs => h.step hs) inv_init h

/-- The order of broadcasts, at one moment. -/
structure BroadcastLaw (st : Server) : Prop where
  /-- Each client has been written the packets processed while it was in the table, from other
  clients, once each and in the order of processing. -/
  outbox : ∀ c, (st.client c).outbox = (st.deliveries c).map (·.packet)
  /-- Two clients receive what both receive in one order. -/
  common : ∀ c d, (st.deliveries c).filter (·.Reaches d) = (st.deliveries d).filter (·.Reaches c)
  /-- The packets of a client are processed once each, in the order it sent them. -/
  processed : ∀ s, st.processed s <+: (st.client s).sent
  /-- The packets of a client arrive in the order it sent them. -/
  senderOrder : ∀ c s,
    (((st.deliveries c).filter (·.sender = s)).map (·.packet)).Sublist (st.client s).sent
  /-- No client receives its own packet. -/
  foreign : ∀ c, ∀ e ∈ st.deliveries c, e.sender ≠ c

/-- **Broadcast order**, in every state of every run. -/
theorem broadcast_order {listenFd : ℕ} {as : List Action}
    (h : runFrom (step listenFd) init as = some st) : st.BroadcastLaw := by
  have hinv := inv_of_run h
  have hprocessed : ∀ s, st.processed s <+: (st.client s).sent := fun s => by
    obtain ⟨lost, hsent, -⟩ := hinv.stream s
    rw [hsent, List.append_assoc]
    exact List.prefix_append _ _
  refine ⟨hinv.outbox, fun c d => ?_, hprocessed, fun c s => ?_, fun c e he => ?_⟩
  · exact List.filter_comm ..
  · refine List.Sublist.trans ?_ (hprocessed s).sublist
    rw [deliveries, List.filter_comm]
    exact List.filter_sublist.map _
  · obtain ⟨-, hreach⟩ := List.mem_filter.1 he
    exact fun heq => (of_decide_eq_true hreach).2 heq.symm

/-- A chat message of a user with a one-letter name. -/
def greeting (letter : UInt8) : ChatPacket := sendPacket .chat [letter] (some [104, 105]) none 0

/-- Three clients are accepted, two of them send, and one of these leaves before it is read. -/
def sampleRun : List Action :=
  [.connect, .connect, .connect, .wait [3], .event (.socket 5 true), .wait [3],
    .event (.socket 6 true), .wait [3], .event (.socket 7 true), .send 0 (greeting 97),
    .send 1 (greeting 98), .wait [6, 5], .event .error, .disconnect 0 0, .event .error,
    .send 1 (greeting 99), .wait [6], .event .error]

theorem broadcast_sampleRun : ∃ st, runFrom (step 3) init sampleRun = some st ∧
    st.clientSockets.toList = [7, 6] ∧ (st.client 2).outbox = [greeting 98, greeting 99] ∧
      st.BroadcastLaw := by
  have hend : (runFrom (step 3) init sampleRun).map
      (fun st => (st.clientSockets.toList, (st.client 2).outbox)) =
        some ([7, 6], [greeting 98, greeting 99]) := rfl
  obtain ⟨st, hrun, hst⟩ := Option.map_eq_some_iff.1 hend
  obtain ⟨htable, houtbox⟩ := Prod.mk.inj hst
  exact ⟨st, hrun, htable, houtbox, broadcast_order hrun⟩

end Server

end EltexPractice.TcpChat
