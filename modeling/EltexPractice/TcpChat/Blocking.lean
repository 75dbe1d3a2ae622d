import EltexPractice.TcpChat.Process

/-!
# What can stop the server

The server waits inside `read_all` for a client that has sent a part of a packet, waits inside
`write_all` for a client that does not take its packets, and is killed by a write to a connection
that was reset. A run in which no step meets one of the three keeps the server serving (`serves`);
each of the three leads to a state in which it is killed, or waits for one client while another has
a whole packet for it (`stalls_of_not_meets`).
-/

namespace EltexPractice.TcpChat

namespace Process

open Server (Accept Queued)

/-! ## One action -/

/-- What a client does to its connection: the bytes to read grow, unless the connection ends, and
those to take do not. -/
structure Advances (conn conn' : Conn) : Prop where
  rx : conn.rx.length ≤ conn'.rx.length ∨ ¬ conn'.Alive
  alive : conn'.Alive → conn.Alive
  tx : conn'.tx.length ≤ conn.tx.length

/-- What an action does. -/
inductive Moves (listenFd cap : ℕ) (st : Process) : Action → Process → Prop
  | connect : Moves listenFd cap st .connect
      { st with backlog := st.backlog ++ [st.connected], connected := st.connected + 1 }
  | client {a : Action} {c : ℕ} {f : Conn → Conn} (hc : c < st.connected)
      (hf : Advances (st.conn c) (f (st.conn c))) : Moves listenFd cap st a (st.onConn c f)
  | wait {batch : List ℕ} (hpc : st.pc = .loop) (hnodup : batch.Nodup)
      (hready : ∀ fd ∈ batch, st.Ready listenFd fd) :
      Moves listenFd cap st (.wait batch) { st with desc := { st.desc with events := batch } }
  | event {result : Accept} {stale : List UInt8} {st' : Process} (hpc : st.pc = .loop)
      (hstale : stale.length = packetSize) (hs : st.eventStep listenFd result stale = some st') :
      Moves listenFd cap st (.event result stale) st'
  | read {fd total k : ℕ} {packet : List UInt8} {deleted : Bool} {st' : Process}
      (hpc : st.pc = .readAll fd packet total)
      (hs : st.readStep fd packet total k deleted = some st') :
      Moves listenFd cap st (.call k deleted) st'
  | write {senderFd i total k : ℕ} {packet : List UInt8} {deleted : Bool} {st' : Process}
      (hpc : st.pc = .broadcast senderFd packet i total)
      (hs : st.writeStep cap senderFd packet i total k = some st') :
      Moves listenFd cap st (.call k deleted) st'

theorem moves_of_step {listenFd cap : ℕ} {st st' : Process} {a : Action}
    (hs : step listenFd cap st a = some st') : Moves listenFd cap st a st' := by
  cases a with
  | connect =>
    obtain rfl := Option.some.inj hs
    exact .connect
  | send c bytes =>
    obtain ⟨hc, hs⟩ := Option.ite_none_right_eq_some.1 hs
    obtain rfl := Option.some.inj hs
    exact .client hc.1 ⟨Or.inl (by simp), id, le_rfl⟩
  | recv c k =>
    obtain ⟨hc, hs⟩ := Option.ite_none_right_eq_some.1 hs
    obtain rfl := Option.some.inj hs
    exact .client hc.1 ⟨Or.inl le_rfl, id, by simp⟩
  | close c =>
    obtain ⟨hc, hs⟩ := Option.ite_none_right_eq_some.1 hs
    obtain rfl := Option.some.inj hs
    exact .client hc ⟨Or.inl le_rfl, fun hnew => absurd hnew.1 nofun, le_rfl⟩
  | reset c kept =>
    obtain ⟨hc, hs⟩ := Option.ite_none_right_eq_some.1 hs
    obtain rfl := Option.some.inj hs
    exact .client hc ⟨Or.inr fun hnew => absurd hnew.2 nofun, fun hnew => absurd hnew.2 nofun,
      le_rfl⟩
  | wait batch =>
    rw [step] at hs
    split at hs
    · obtain ⟨⟨-, hnodup, -, hready⟩, hs⟩ := Option.ite_none_right_eq_some.1 hs
      obtain rfl := Option.some.inj hs
      exact .wait ‹_› hnodup hready
    · cases hs
  | event result stale =>
    rw [step] at hs
    split at hs
    · obtain ⟨hstale, hs⟩ := Option.ite_none_right_eq_some.1 hs
      exact .event ‹_› hstale hs
    · cases hs
  | call k deleted =>
    rw [step] at hs
    split at hs
    · exact .read ‹_› hs
    · exact .write ‹_› hs
    · cases hs

/-! ## Every run -/

/-- What the process is doing is about an open connection and a whole packet. -/
def PcInv (st : Process) : Prop :=
  match st.pc with
  | .readAll fd packet total => fd ∉ st.desc.events ∧ packet.length = packetSize ∧
      total < packetSize ∧ ∃ c, st.desc.sockets fd = some c
  | .broadcast _ packet _ total => packet.length = packetSize ∧ total ≤ packetSize
  | _ => True

/-- What holds between two actions of every run. -/
structure Inv (listenFd : ℕ) (st : Process) : Prop where
  desc : st.desc.Inv listenFd
  injective : ∀ fd fd' c, st.desc.sockets fd = some c → st.desc.sockets fd' = some c → fd = fd'
  accepted : ∀ fd c, st.desc.sockets fd = some c → c < st.connected
  backlog_nodup : st.backlog.Nodup
  waiting : ∀ c ∈ st.backlog, c < st.connected ∧ ∀ fd, st.desc.sockets fd ≠ some c
  fresh : ∀ c, st.connected ≤ c → st.conn c = .new
  pc : st.PcInv

theorem inv_init (listenFd : ℕ) : init.Inv listenFd where
  desc := Descriptors.inv_init listenFd
  injective := nofun
  accepted := nofun
  backlog_nodup := List.nodup_nil
  waiting := nofun
  fresh _ _ := rfl
  pc := trivial

variable {listenFd cap : ℕ} {st : Process}

theorem Inv.queued (h : st.Inv listenFd) : Queued st.desc.sockets st.backlog st.connected :=
  ⟨h.injective, h.accepted, h.backlog_nodup, h.waiting⟩

/-- A connection is changed and nothing else. -/
theorem Inv.onConn (h : st.Inv listenFd) {c : ℕ} (hc : c < st.connected) (f : Conn → Conn) :
    (st.onConn c f).Inv listenFd := by
  refine { h with fresh := fun c' hc' => ?_, pc := h.pc }
  have hne : c' ≠ c := fun heq => absurd hc (Nat.not_lt.2 (heq ▸ hc'))
  exact (Function.update_of_ne hne ..).trans (h.fresh c' hc')

theorem Inv.connect (h : st.Inv listenFd) :
    { st with backlog := st.backlog ++ [st.connected], connected := st.connected + 1 : Process }.Inv
      listenFd := by
  have hqueued := h.queued.connect
  exact ⟨h.desc, hqueued.injective, hqueued.accepted, hqueued.nodup, hqueued.waiting,
    fun c hc => h.fresh c (Nat.le_of_succ_le hc), h.pc⟩

/-- Another program counter. -/
theorem Inv.goto (h : st.Inv listenFd) {pc : Pc} (hpc : { st with pc : Process }.PcInv) :
    { st with pc : Process }.Inv listenFd :=
  { h with pc := hpc }

theorem Inv.disconnect (h : st.Inv listenFd) {fd : ℕ} (hfd : fd ∉ st.desc.events) (deleted : Bool) :
    { st with desc := st.desc.handleClientDisconnect fd deleted, pc := .loop : Process }.Inv
      listenFd := by
  have hdesc := h.desc.handleClientDisconnect hfd deleted
  obtain ⟨table, htable, -⟩ := st.desc.handleClientDisconnect_spec fd deleted
  have hqueued := h.queued.close fd
  rw [htable] at hdesc ⊢
  exact ⟨hdesc, hqueued.injective, hqueued.accepted, hqueued.nodup, hqueued.waiting, h.fresh,
    trivial⟩

theorem Inv.finishRead (h : st.Inv listenFd) {fd : ℕ} {packet : List UInt8}
    (hfd : fd ∉ st.desc.events) (hpacket : packet.length = packetSize) (n : ℤ) (deleted : Bool) :
    (st.finishRead fd packet n deleted).Inv listenFd := by
  unfold Process.finishRead
  split
  · exact h.disconnect hfd deleted
  · exact { h with pc := ⟨hpacket, Nat.zero_le _⟩ }

/-- `read` moves bytes into the packet. -/
theorem length_fill {packet bytes : List UInt8} {total k : ℕ} (hpacket : packet.length = packetSize)
    (hk : k ≤ bytes.length) (hle : total + k ≤ packetSize) :
    (packet.take total ++ bytes.take k ++ packet.drop (total + k)).length = packetSize := by
  simp only [List.length_append, List.length_take, List.length_drop]
  omega

theorem Inv.readStep (h : st.Inv listenFd) {fd : ℕ} {packet : List UInt8} {total k : ℕ}
    {deleted : Bool} {st' : Process} (hpc : st.pc = .readAll fd packet total)
    (hs : st.readStep fd packet total k deleted = some st') : st'.Inv listenFd := by
  have hok := h.pc
  rw [PcInv, hpc] at hok
  obtain ⟨hfd, hpacket, htotal, c, hc⟩ := hok
  rw [Process.readStep, hc] at hs
  simp only at hs
  split at hs
  · split at hs
    · rename_i hk
      have hmoved := h.onConn (h.accepted fd c hc) fun conn => { conn with rx := conn.rx.drop k }
      have hlength := length_fill hpacket hk.2.1 hk.2.2
      split at hs
      · rename_i hlt
        obtain rfl := Option.some.inj hs
        exact hmoved.goto ⟨hfd, hlength, hlt, c, hc⟩
      · obtain rfl := Option.some.inj hs
        exact hmoved.finishRead hfd hlength _ deleted
    · cases hs
  · split at hs
    · obtain rfl := Option.some.inj hs
      exact h.finishRead hfd hpacket _ deleted
    · split at hs
      · obtain rfl := Option.some.inj hs
        exact h.finishRead hfd hpacket _ deleted
      · cases hs

theorem Inv.writeStep (h : st.Inv listenFd) {senderFd : ℕ} {packet : List UInt8} {c total k : ℕ}
    {st' : Process} (hpc : st.pc = .broadcast senderFd packet c total)
    (hs : st.writeStep cap senderFd packet c total k = some st') : st'.Inv listenFd := by
  have hok := h.pc
  rw [PcInv, hpc] at hok
  unfold Process.writeStep at hs
  split at hs
  · obtain rfl := Option.some.inj hs
    exact h.goto trivial
  · split at hs
    · split at hs
      · obtain rfl := Option.some.inj hs
        exact h.goto ⟨hok.1, Nat.zero_le _⟩
      · rename_i i hi
        split at hs
        · obtain rfl := Option.some.inj hs
          exact h.goto trivial
        · split at hs
          · rename_i hk
            obtain rfl := Option.some.inj hs
            exact (h.onConn (h.accepted _ i hi) _).goto ⟨hok.1, hk.2.1⟩
          · cases hs
    · obtain rfl := Option.some.inj hs
      exact h.goto ⟨hok.1, Nat.zero_le _⟩

theorem Inv.eventStep (h : st.Inv listenFd) {result : Accept} {stale : List UInt8} {st' : Process}
    (hpc : st.pc = .loop) (hstale : stale.length = packetSize)
    (hs : st.eventStep listenFd result stale = some st') : st'.Inv listenFd := by
  unfold Process.eventStep at hs
  split at hs
  · cases hs
  · rename_i fd events he
    obtain ⟨htail, hfd⟩ := h.desc.tail he
    have hpop : { st with desc := { st.desc with events } : Process }.Inv listenFd := by
      refine { h with desc := htail, pc := ?_ }
      rw [PcInv, hpc]
      trivial
    simp only at hs
    split at hs
    · split at hs
      · obtain rfl := Option.some.inj hs
        exact hpop
      · cases hs
      · rename_i c backlog hbacklog
        obtain ⟨desc, hdesc, rfl⟩ := Option.map_eq_some_iff.1 hs
        have hqueued := h.queued
        rw [hbacklog] at hqueued
        have hnext : Queued desc.sockets backlog st.connected := by
          rcases (Descriptors.handleNewConnection_frame hdesc).2 with hsame | ⟨new, hnone, hnew⟩
          · rw [hsame]
            exact hqueued.refuse
          · rw [hnew]
            exact hqueued.accept hnone
        refine ⟨htail.handleNewConnection hdesc, hnext.injective, hnext.accepted, hnext.nodup,
          hnext.waiting, h.fresh, ?_⟩
        rw [PcInv]
        simp only [hpc]
    · rename_i hlisten
      obtain rfl := Option.some.inj hs
      have hmem := (h.desc.events_mem fd (he ▸ List.mem_cons_self)).resolve_left hlisten
      exact { hpop with pc := ⟨hfd, hstale, packetSize_pos, (h.desc.mem_iff fd).1 hmem⟩ }

theorem Inv.step (h : st.Inv listenFd) {a : Action} {st' : Process}
    (hs : step listenFd cap st a = some st') : st'.Inv listenFd := by
  cases moves_of_step hs with
  | connect => exact h.connect
  | client hc _ => exact h.onConn hc _
  | wait hpc hnodup hready =>
    refine { h with desc := h.desc.wait hnodup fun fd hfd => ?_, pc := ?_ }
    · exact (hready fd hfd).imp And.left And.left
    · rw [PcInv, hpc]
      trivial
  | event hpc hstale hs => exact h.eventStep hpc hstale hs
  | read hpc hs => exact h.readStep hpc hs
  | write hpc hs => exact h.writeStep hpc hs

theorem inv_of_run {as : List Action} {st : Process}
    (h : runFrom (step listenFd cap) init as = some st) : st.Inv listenFd :=
  runFrom_invariant (fun _ _ _ h hs => h.step hs) (inv_init listenFd) h

/-! ## What keeps the server serving -/

/-- The next `read` lets `read_all` return what is a packet to the server. -/
def Returns (st : Process) (fd total k : ℕ) : Prop :=
  ∃ c, st.desc.sockets fd = some c ∧
    (((st.conn c).rx ≠ [] ∧ total + k = packetSize) ∨
      ((st.conn c).rx = [] ∧ (st.conn c).reset = false ∧ (st.conn c).fin = true ∧ 0 < total))

/-- Every other client in the table has room for a whole packet. -/
def Roomy (cap : ℕ) (st : Process) (senderFd : ℕ) : Prop :=
  ∀ fd ∈ st.desc.clientSockets.toList, fd ≠ senderFd → ∀ c, st.desc.sockets fd = some c →
    (st.conn c).tx.length + packetSize ≤ cap

/-- `handle_client_data` begins when a whole packet has arrived or the peer is gone, a packet is
passed on when there is room for it everywhere, and no reset connection is written to. -/
def Meets (listenFd cap : ℕ) (st : Process) : Action → Prop
  | .event _ _ => ∀ fd c, st.desc.events.head? = some fd → fd ≠ listenFd →
      st.desc.sockets fd = some c → packetSize ≤ (st.conn c).rx.length ∨ ¬ (st.conn c).Alive
  | .call k _ =>
    match st.pc with
    | .readAll fd _ total => st.Returns fd total k → st.Roomy cap fd
    | .broadcast senderFd _ i total => ∀ fd c, st.desc.clientSockets.toList[i]? = some fd →
        fd ≠ senderFd → total < packetSize → st.desc.sockets fd = some c →
        (st.conn c).reset = false
    | _ => True
  | _ => True

/-- What is being read arrives, and what is being written has room. -/
def Calm (cap : ℕ) (st : Process) : Prop :=
  match st.pc with
  | .loop => True
  | .readAll fd _ total => ∀ c, st.desc.sockets fd = some c →
      packetSize ≤ total + (st.conn c).rx.length ∨ ¬ (st.conn c).Alive
  | .broadcast senderFd _ i total => ∀ j fd c, st.desc.clientSockets.toList[j]? = some fd →
      fd ≠ senderFd → st.desc.sockets fd = some c → i ≤ j →
      (st.conn c).tx.length + (packetSize - if j = i then total else 0) ≤ cap
  | .killed => False

/-- For whom the server waits. -/
theorem waitsFor_eq_some_iff {c : ℕ} : st.waitsFor cap = some c ↔
    (∃ fd packet total, st.pc = .readAll fd packet total ∧ st.desc.sockets fd = some c ∧
      ¬ (st.conn c).Readable) ∨
    ∃ senderFd packet i total fd, st.pc = .broadcast senderFd packet i total ∧
      st.desc.clientSockets.toList[i]? = some fd ∧ (fd ≠ senderFd ∧ total < packetSize) ∧
      st.desc.sockets fd = some c ∧ ¬ ((st.conn c).reset = true ∨ (st.conn c).tx.length < cap) := by
  constructor
  · intro h
    unfold waitsFor at h
    split at h
    · rename_i fd packet total hpc
      split at h
      · rename_i c' hc
        obtain ⟨hread, h⟩ := Option.ite_none_left_eq_some.1 h
        obtain rfl := Option.some.inj h
        exact Or.inl ⟨fd, packet, total, hpc, hc, hread⟩
      · cases h
    · rename_i senderFd packet i total hpc
      split at h
      · rename_i fd hfd
        obtain ⟨hwriting, h⟩ := Option.ite_none_right_eq_some.1 h
        split at h
        · rename_i c' hc
          obtain ⟨hfull, h⟩ := Option.ite_none_left_eq_some.1 h
          obtain rfl := Option.some.inj h
          exact Or.inr ⟨senderFd, packet, i, total, fd, hpc, hfd, hwriting, hc, hfull⟩
        · cases h
      · cases h
    · cases h
  · rintro (⟨fd, packet, total, hpc, hc, hread⟩ |
      ⟨senderFd, packet, i, total, fd, hpc, hfd, hwriting, hc, hfull⟩)
    · simp only [waitsFor, hpc, hc, if_neg hread]
    · simp only [waitsFor, hpc, hfd, if_pos hwriting, hc, if_neg hfull]

/-- A calm server waits for nobody. -/
theorem Calm.serves_clients (h : st.Calm cap) (hinv : st.Inv listenFd) : st.Serves cap := by
  have hok := hinv.pc
  rw [PcInv] at hok
  rw [Calm] at h
  refine ⟨fun hpc => by rw [hpc] at h; exact h, fun c c' _ hwait => ?_⟩
  exfalso
  rcases waitsFor_eq_some_iff.1 hwait with ⟨fd, packet, total, hpc, hc, hread⟩ |
    ⟨senderFd, packet, i, total, fd, hpc, hfd, hwriting, hc, hfull⟩
  · rw [hpc] at h hok
    simp only [Conn.Readable, not_or, not_not, Bool.not_eq_true] at hread
    rcases h c' hc with hsize | halive
    · rw [hread.1, List.length_nil] at hsize
      exact absurd hok.2.2.1 (Nat.not_lt.2 hsize)
    · exact halive hread.2
  · rw [hpc] at h
    have hroom := h i fd c' hfd hwriting.1 hc le_rfl
    rw [if_pos rfl] at hroom
    have hpos := Nat.sub_pos_of_lt hwriting.2
    exact hfull (Or.inr (by omega))

theorem Calm.onConn (h : st.Calm cap) {c : ℕ} {f : Conn → Conn}
    (hf : Advances (st.conn c) (f (st.conn c))) : (st.onConn c f).Calm cap := by
  unfold Calm at h ⊢
  rw [pc_onConn, desc_onConn]
  cases hpc : st.pc with
  | loop => trivial
  | killed =>
    rw [hpc] at h
    exact h
  | readAll fd packet total =>
    rw [hpc] at h
    intro c' hc'
    have hold := h c' hc'
    rcases eq_or_ne c' c with rfl | hne
    · rw [conn_onConn_self]
      rcases hold with hold | hold
      · exact hf.rx.imp_left fun hle => hold.trans (Nat.add_le_add_left hle _)
      · exact Or.inr fun hnew => hold (hf.alive hnew)
    · rw [conn_onConn_of_ne _ hne]
      exact hold
  | broadcast senderFd packet i total =>
    rw [hpc] at h
    intro j fd c' hj hfd hc' hij
    have hold := h j fd c' hj hfd hc' hij
    rcases eq_or_ne c' c with rfl | hne
    · rw [conn_onConn_self]
      exact (Nat.add_le_add_right hf.tx _).trans hold
    · rw [conn_onConn_of_ne _ hne]
      exact hold

theorem Calm.finishRead {fd : ℕ} {packet : List UInt8} {n : ℤ} {deleted : Bool}
    (h : 0 < n → st.Roomy cap fd) : (st.finishRead fd packet n deleted).Calm cap := by
  unfold Process.finishRead
  split
  · trivial
  · rename_i hn
    intro j fd' c hj hfd' hc _
    rw [ite_self, Nat.sub_zero]
    exact h (not_le.1 hn) fd' (List.mem_of_getElem? hj) hfd' c hc

theorem Calm.readStep (h : st.Calm cap) (hinv : st.Inv listenFd) {fd : ℕ} {packet : List UInt8}
    {total k : ℕ} {deleted : Bool} {st' : Process} (hpc : st.pc = .readAll fd packet total)
    (hmeet : st.Returns fd total k → st.Roomy cap fd)
    (hs : st.readStep fd packet total k deleted = some st') : st'.Calm cap := by
  have hok := hinv.pc
  rw [PcInv, hpc] at hok
  obtain ⟨-, -, htotal, c, hc⟩ := hok
  rw [Calm, hpc] at h
  have hcalm := h c hc
  rw [Process.readStep, hc] at hs
  simp only at hs
  split at hs
  · rename_i hrx
    split at hs
    · rename_i hk
      split at hs
      · rename_i hlt
        obtain rfl := Option.some.inj hs
        intro c' hc'
        obtain rfl := Option.some.inj (hc.symm.trans hc')
        simp only [conn_onConn_self, List.length_drop]
        exact hcalm.imp_left fun hsize => by omega
      · rename_i hge
        obtain rfl := Option.some.inj hs
        refine Calm.finishRead fun _ fd' hfd' hne c' hc' => ?_
        have hfull : total + k = packetSize := le_antisymm hk.2.2 (not_lt.1 hge)
        have hother : c' ≠ c := fun heq => hne (hinv.injective fd' fd c (heq ▸ hc') hc)
        rw [conn_onConn_of_ne _ hother]
        exact hmeet ⟨c, hc, Or.inl ⟨hrx, hfull⟩⟩ fd' hfd' hne c' hc'
    · cases hs
  · rename_i hrx
    split at hs
    · obtain rfl := Option.some.inj hs
      exact Calm.finishRead fun hn => absurd hn (by decide)
    · rename_i hreset
      split at hs
      · rename_i hfin
        obtain rfl := Option.some.inj hs
        exact Calm.finishRead fun hn => hmeet ⟨c, hc, Or.inr ⟨not_not.1 hrx,
          Bool.not_eq_true _ ▸ hreset, hfin, Int.natCast_pos.1 hn⟩⟩
      · cases hs

theorem Calm.writeStep (h : st.Calm cap) (hinv : st.Inv listenFd) {senderFd : ℕ}
    {packet : List UInt8} {i total k : ℕ} {st' : Process}
    (hpc : st.pc = .broadcast senderFd packet i total)
    (hmeet : ∀ fd c, st.desc.clientSockets.toList[i]? = some fd → fd ≠ senderFd →
      total < packetSize → st.desc.sockets fd = some c → (st.conn c).reset = false)
    (hs : st.writeStep cap senderFd packet i total k = some st') : st'.Calm cap := by
  rw [Calm, hpc] at h
  -- the slots behind the one just served
  have hnext : { st with pc := .broadcast senderFd packet (i + 1) 0 : Process }.Calm cap := by
    intro j fd c hj hfd hc hij
    have hold := h j fd c hj hfd hc (Nat.le_of_succ_le hij)
    rw [if_neg (Nat.ne_of_gt hij)] at hold
    rwa [ite_self]
  unfold Process.writeStep at hs
  split at hs
  · obtain rfl := Option.some.inj hs
    trivial
  · rename_i fd hfd
    split at hs
    · rename_i hwriting
      split at hs
      · obtain rfl := Option.some.inj hs
        exact hnext
      · rename_i c hc
        rw [hmeet fd c hfd hwriting.1 hwriting.2 hc] at hs
        simp only [Bool.false_eq_true, if_false] at hs
        split at hs
        · rename_i hk
          obtain rfl := Option.some.inj hs
          intro j fd' c' hj hfd' hc' hij
          simp only [desc_onConn] at hj hc' ⊢
          have hold := h j fd' c' hj hfd' hc' hij
          rcases eq_or_ne j i with rfl | hne
          · obtain rfl := Option.some.inj (hfd.symm.trans hj)
            obtain rfl := Option.some.inj (hc.symm.trans hc')
            rw [if_pos rfl] at hold ⊢
            rw [conn_onConn_self, List.length_append]
            have hle := List.length_take_le k (packet.drop total)
            omega
          · have hother : c' ≠ c := fun heq => by
              have heq' := hinv.injective fd' fd c (heq ▸ hc') hc
              have hlt := (List.getElem?_eq_some_iff.1 hj).1
              exact hne ((List.getElem?_inj hlt hinv.desc.nodup).1 (by rw [hj, hfd, heq']))
            rw [if_neg hne] at hold ⊢
            rwa [conn_onConn_of_ne _ hother]
        · cases hs
    · obtain rfl := Option.some.inj hs
      exact hnext

theorem Calm.eventStep {result : Accept} {stale : List UInt8} {st' : Process}
    (hpc : st.pc = .loop) (hmeet : st.Meets listenFd cap (.event result stale))
    (hs : st.eventStep listenFd result stale = some st') : st'.Calm cap := by
  unfold Process.eventStep at hs
  split at hs
  · cases hs
  · rename_i fd events he
    simp only at hs
    split at hs
    · -- `accept` leaves the process in its loop
      split at hs
      · obtain rfl := Option.some.inj hs
        rw [Calm]
        simp only [hpc]
      · cases hs
      · obtain ⟨desc, -, rfl⟩ := Option.map_eq_some_iff.1 hs
        rw [Calm]
        simp only [hpc]
    · rename_i hlisten
      obtain rfl := Option.some.inj hs
      intro c hc
      rw [Nat.zero_add]
      exact hmeet fd c (by rw [he, List.head?_cons]) hlisten hc

theorem Calm.step (h : st.Calm cap) (hinv : st.Inv listenFd) {a : Action} {st' : Process}
    (hmeet : st.Meets listenFd cap a) (hs : step listenFd cap st a = some st') : st'.Calm cap := by
  cases moves_of_step hs with
  | connect => exact h
  | client _ hf => exact h.onConn hf
  | wait hpc _ _ =>
    rw [Calm]
    simp only [hpc]
  | event hpc _ hs => exact Calm.eventStep hpc hmeet hs
  | read hpc hs =>
    rw [Meets, hpc] at hmeet
    exact h.readStep hinv hpc hmeet hs
  | write hpc hs =>
    rw [Meets, hpc] at hmeet
    exact h.writeStep hinv hpc hmeet hs

/-! ## What stops it -/

/-- The run can go on to a state in which the server is killed, or waits for a client while another
one has sent a packet. -/
def CanStall (listenFd cap : ℕ) (st : Process) : Prop :=
  ∃ as st', runFrom (step listenFd cap) st as = some st' ∧ ¬ st'.Serves cap

theorem CanStall.of_step {a : Action} {st' : Process} (hs : step listenFd cap st a = some st')
    (h : st'.CanStall listenFd cap) : st.CanStall listenFd cap := by
  obtain ⟨as, st'', hrun, hstall⟩ := h
  refine ⟨a :: as, st'', ?_, hstall⟩
  rw [runFrom_cons, hs]
  exact hrun

theorem canStall_of_killed (h : st.pc = .killed) : st.CanStall listenFd cap :=
  ⟨[], st, rfl, fun hserves => hserves.running h⟩

theorem exists_socket_of_waitsFor {c : ℕ} (h : st.waitsFor cap = some c) :
    ∃ fd, st.desc.sockets fd = some c := by
  rcases waitsFor_eq_some_iff.1 h with ⟨fd, -, -, -, hc, -⟩ | ⟨-, -, -, -, fd, -, -, -, hc, -⟩
  · exact ⟨fd, hc⟩
  · exact ⟨fd, hc⟩

/-- Waiting for a client is not ended by what another one does. -/
theorem waitsFor_onConn {c c' : ℕ} (hne : c ≠ c') (f : Conn → Conn)
    (h : st.waitsFor cap = some c) : (st.onConn c' f).waitsFor cap = some c := by
  rw [waitsFor_eq_some_iff] at h ⊢
  rwa [conn_onConn_of_ne _ hne]

/-- While the server waits for one client, another one connects and sends a packet. -/
theorem canStall_of_waitsFor (h : st.Inv listenFd) {c : ℕ} (hwait : st.waitsFor cap = some c) :
    st.CanStall listenFd cap := by
  obtain ⟨fd, hfd⟩ := exists_socket_of_waitsFor hwait
  have hne : c ≠ st.connected := (h.accepted fd c hfd).ne
  have halive : (st.conn st.connected).Alive := by
    rw [h.fresh _ le_rfl]
    exact ⟨rfl, rfl⟩
  set st' : Process :=
    { st with backlog := st.backlog ++ [st.connected], connected := st.connected + 1 }
  have hwait' : st'.waitsFor cap = some c := hwait
  have hsend : step listenFd cap st' (.send st.connected (List.replicate packetSize 0)) = some
      (st'.onConn st.connected fun conn =>
        { conn with rx := conn.rx ++ List.replicate packetSize 0 }) :=
    if_pos ⟨Nat.lt_succ_self _, halive⟩
  refine CanStall.of_step (a := .connect) rfl
    (CanStall.of_step hsend ⟨[], _, rfl, fun hserves => ?_⟩)
  refine hne (hserves.unblocked st.connected c ?_ (waitsFor_onConn hne _ hwait'))
  rw [Pending, conn_onConn_self, List.length_append, List.length_replicate]
  exact Nat.le_add_left _ _

/-- The server waits for the rest of a packet. -/
theorem canStall_of_partial (h : st.Inv listenFd) {fd c total : ℕ} {packet : List UInt8}
    (hpc : st.pc = .readAll fd packet total) (hc : st.desc.sockets fd = some c)
    (hpart : total + (st.conn c).rx.length < packetSize) (halive : (st.conn c).Alive) :
    st.CanStall listenFd cap := by
  by_cases hrx : (st.conn c).rx = []
  · refine canStall_of_waitsFor (c := c) h (waitsFor_eq_some_iff.2 (Or.inl ?_))
    exact ⟨fd, packet, total, hpc, hc, by simp [Conn.Readable, hrx, halive.1, halive.2]⟩
  · have hpos : 0 < (st.conn c).rx.length := List.length_pos_iff.2 hrx
    have hs : step listenFd cap st (.call (st.conn c).rx.length true) = some
        { st.onConn c fun conn => { conn with rx := conn.rx.drop (st.conn c).rx.length } with
          pc := .readAll fd (packet.take total ++ (st.conn c).rx.take (st.conn c).rx.length ++
            packet.drop (total + (st.conn c).rx.length)) (total + (st.conn c).rx.length) } := by
      rw [Process.step, hpc]
      simp only [readStep, hc]
      rw [if_pos hrx, if_pos ⟨hpos, le_rfl, hpart.le⟩, if_pos hpart]
    refine CanStall.of_step hs (canStall_of_waitsFor (c := c) (h.step hs)
      (waitsFor_eq_some_iff.2 (Or.inl ⟨fd, _, _, rfl, hc, ?_⟩)))
    simp [Conn.Readable, halive.1, halive.2]

section

variable {senderFd : ℕ} {packet : List UInt8}

/-- A write to a connection that was reset. -/
theorem step_reset {i total fd c : ℕ} (hpc : st.pc = .broadcast senderFd packet i total)
    (hfd : st.desc.clientSockets.toList[i]? = some fd) (hne : fd ≠ senderFd)
    (htotal : total < packetSize) (hc : st.desc.sockets fd = some c)
    (hreset : (st.conn c).reset = true) (k : ℕ) (deleted : Bool) :
    step listenFd cap st (.call k deleted) = some { st with pc := .killed } := by
  rw [Process.step, hpc]
  simp only [writeStep, hfd, hc]
  rw [if_pos ⟨hne, htotal⟩, if_pos hreset]

/-- A write of `k` bytes. -/
theorem step_write {i total fd c k : ℕ} (hpc : st.pc = .broadcast senderFd packet i total)
    (hfd : st.desc.clientSockets.toList[i]? = some fd) (hne : fd ≠ senderFd)
    (htotal : total < packetSize) (hc : st.desc.sockets fd = some c)
    (hreset : (st.conn c).reset = false) (hk : 0 < k) (hle : total + k ≤ packetSize)
    (hroom : (st.conn c).tx.length + k ≤ cap) :
    step listenFd cap st (.call k true) = some
      { st.onConn c fun conn => { conn with tx := conn.tx ++ (packet.drop total).take k } with
        pc := .broadcast senderFd packet i (total + k) } := by
  rw [Process.step, hpc]
  simp only [writeStep, hfd, hc]
  rw [if_pos ⟨hne, htotal⟩, if_neg (by rw [hreset]; exact Bool.false_ne_true),
    if_pos ⟨hk, hle, hroom⟩]

/-- The loop of `broadcast_packet` goes on to the next slot. -/
theorem step_next {i total fd : ℕ} (hpc : st.pc = .broadcast senderFd packet i total)
    (hfd : st.desc.clientSockets.toList[i]? = some fd)
    (hdone : ¬ (fd ≠ senderFd ∧ total < packetSize)) :
    step listenFd cap st (.call 0 true) =
      some { st with pc := .broadcast senderFd packet (i + 1) 0 } := by
  rw [Process.step, hpc]
  simp only [writeStep, hfd]
  rw [if_neg hdone]

/-- The server waits in the middle of a packet. -/
theorem canStall_of_full (h : st.Inv listenFd) {i total fd c : ℕ}
    (hpc : st.pc = .broadcast senderFd packet i total)
    (hfd : st.desc.clientSockets.toList[i]? = some fd) (hne : fd ≠ senderFd)
    (htotal : total < packetSize) (hc : st.desc.sockets fd = some c)
    (hfull : cap < (st.conn c).tx.length + (packetSize - total)) : st.CanStall listenFd cap := by
  have hpacket := h.pc
  rw [PcInv, hpc] at hpacket
  cases hreset : (st.conn c).reset with
  | true =>
    exact CanStall.of_step (step_reset hpc hfd hne htotal hc hreset 0 true) (canStall_of_killed rfl)
  | false =>
    rcases Nat.lt_or_ge (st.conn c).tx.length cap with hroom | hnone
    · -- the buffer is filled first
      have hs : Process.step listenFd cap st (.call _ true) = some _ :=
        step_write hpc hfd hne htotal hc hreset (Nat.sub_pos_of_lt hroom)
          (show total + (cap - (st.conn c).tx.length) ≤ packetSize by omega)
          (show (st.conn c).tx.length + (cap - (st.conn c).tx.length) ≤ cap by omega)
      refine CanStall.of_step hs (canStall_of_waitsFor (c := c) (h.step hs) ?_)
      have hlen : ((packet.drop total).take (cap - (st.conn c).tx.length)).length =
          cap - (st.conn c).tx.length := by
        rw [List.length_take, List.length_drop, hpacket.1]
        omega
      have hlt : total + (cap - (st.conn c).tx.length) < packetSize := by omega
      have hcap : ¬ (st.conn c).tx.length + (cap - (st.conn c).tx.length) < cap := by omega
      rw [waitsFor]
      simp only [desc_onConn, hfd, if_pos (And.intro hne hlt), hc, conn_onConn_self, hreset,
        List.length_append, hlen, hcap, Bool.false_eq_true, or_self, if_false]
    · refine canStall_of_waitsFor (c := c) h ?_
      rw [waitsFor, hpc]
      simp only [hfd, if_pos (And.intro hne htotal), hc, hreset, Nat.not_lt.2 hnone,
        Bool.false_eq_true, or_self, if_false]

/-- The server gets to a slot without room for the packet, unless it stops before. -/
theorem canStall_of_slot {n i total j fd c : ℕ} {st : Process} (h : st.Inv listenFd)
    (hpc : st.pc = .broadcast senderFd packet i total) (hj : j = i + n)
    (hfd : st.desc.clientSockets.toList[j]? = some fd) (hne : fd ≠ senderFd)
    (hc : st.desc.sockets fd = some c) (htotal : n = 0 → total = 0)
    (hfull : cap < (st.conn c).tx.length + packetSize) : st.CanStall listenFd cap := by
  induction n generalizing st i total with
  | zero =>
    obtain rfl : j = i := hj
    obtain rfl := htotal rfl
    exact canStall_of_full h hpc hfd hne packetSize_pos hc hfull
  | succ n ih =>
    have hlt := (List.getElem?_eq_some_iff.1 hfd).1
    have hi : i < st.desc.clientSockets.toList.length := by omega
    obtain ⟨fd', hfd'⟩ : ∃ fd', st.desc.clientSockets.toList[i]? = some fd' :=
      ⟨_, List.getElem?_eq_getElem hi⟩
    -- from the end of the slot `i` on
    have hnext : ∀ {st₁ : Process} {total₁ : ℕ}, st₁.Inv listenFd → st₁.desc = st.desc →
        (st₁.conn c).tx = (st.conn c).tx → st₁.pc = .broadcast senderFd packet i total₁ →
        ¬ (fd' ≠ senderFd ∧ total₁ < packetSize) → st₁.CanStall listenFd cap := by
      intro st₁ total₁ h₁ hdesc htx hpc₁ hdone
      have hs : Process.step listenFd cap st₁ (.call 0 true) = some _ :=
        step_next hpc₁ (hdesc ▸ hfd') hdone
      refine CanStall.of_step hs (ih (h₁.step hs) rfl (by omega) ?_ ?_ (fun _ => rfl) ?_)
      · change st₁.desc.clientSockets.toList[j]? = some fd
        rw [hdesc, hfd]
      · change st₁.desc.sockets fd = some c
        rw [hdesc, hc]
      · change cap < (st₁.conn c).tx.length + packetSize
        rwa [htx]
    by_cases hwriting : fd' ≠ senderFd ∧ total < packetSize
    · obtain ⟨c', hc'⟩ := (h.desc.mem_iff fd').1 (List.mem_of_getElem? hfd')
      rcases Nat.lt_or_ge cap ((st.conn c').tx.length + (packetSize - total)) with hfull' | hroom
      · exact canStall_of_full h hpc hfd' hwriting.1 hwriting.2 hc' hfull'
      · cases hreset : (st.conn c').reset with
        | true =>
          exact CanStall.of_step (step_reset hpc hfd' hwriting.1 hwriting.2 hc' hreset 0 true)
            (canStall_of_killed rfl)
        | false =>
          have hend : total + (packetSize - total) = packetSize :=
            Nat.add_sub_cancel' hwriting.2.le
          have hs : Process.step listenFd cap st (.call _ true) = some _ :=
            step_write hpc hfd' hwriting.1 hwriting.2 hc' hreset (Nat.sub_pos_of_lt hwriting.2)
              hend.le hroom
          have hother : c ≠ c' := fun heq => by
            have hsame := h.injective fd fd' c hc (heq ▸ hc')
            have hij : j = i :=
              (List.getElem?_inj hlt h.desc.nodup).1 (by rw [hfd, hfd', hsame])
            omega
          refine CanStall.of_step hs (hnext (h.step hs) rfl ?_ rfl fun hmore => ?_)
          · simp only [conn_onConn_of_ne _ hother]
          · rw [hend] at hmore
            exact lt_irrefl _ hmore.2
    · exact hnext h rfl rfl hpc hwriting

end

/-- `read_all` returns to a broadcast of the packet. -/
theorem readStep_returns {fd total k : ℕ} {packet : List UInt8} {deleted : Bool} {st' : Process}
    (h : st.Returns fd total k) (hs : st.readStep fd packet total k deleted = some st') :
    ∃ packet', st'.pc = .broadcast fd packet' 0 0 ∧ st'.desc = st.desc ∧
      ∀ c, (st'.conn c).tx = (st.conn c).tx := by
  obtain ⟨c, hc, hreturn⟩ := h
  rw [readStep, hc] at hs
  simp only at hs
  rcases hreturn with ⟨hrx, hfull⟩ | ⟨hrx, hreset, hfin, hpos⟩
  · rw [if_pos hrx] at hs
    split at hs
    · rw [if_neg (hfull ▸ lt_irrefl _)] at hs
      obtain rfl := Option.some.inj hs
      rw [Process.finishRead, if_neg (by decide)]
      refine ⟨_, rfl, rfl, fun c' => ?_⟩
      rcases eq_or_ne c' c with rfl | hne
      · simp only [conn_onConn_self]
      · simp only [conn_onConn_of_ne _ hne]
    · cases hs
  · rw [if_neg (not_not.2 hrx), if_neg (by rw [hreset]; exact Bool.false_ne_true),
      if_pos hfin] at hs
    obtain rfl := Option.some.inj hs
    rw [Process.finishRead, if_neg (by omega)]
    exact ⟨_, rfl, rfl, fun _ => rfl⟩

/-- A step that does not meet the condition lets the run go on to where the server stops. -/
theorem canStall_of_not_meets (h : st.Inv listenFd) {a : Action} {st' : Process}
    (hs : step listenFd cap st a = some st') (hmeet : ¬ st.Meets listenFd cap a) :
    st'.CanStall listenFd cap := by
  have hinv := h.step hs
  cases a with
  | event result stale =>
    simp only [Meets, not_forall, not_or, not_not, Nat.not_le] at hmeet
    obtain ⟨fd, c, hfd, hlisten, hc, hpart, halive⟩ := hmeet
    rw [Process.step] at hs
    split at hs
    · split at hs
      · unfold Process.eventStep at hs
        split at hs
        · cases hs
        · rename_i fd' events he
          rw [he, List.head?_cons] at hfd
          obtain rfl := Option.some.inj hfd
          simp only [if_neg hlisten] at hs
          obtain rfl := Option.some.inj hs
          exact canStall_of_partial hinv rfl hc (by rwa [Nat.zero_add]) halive
      · cases hs
    · cases hs
  | call k deleted =>
    rw [Process.step] at hs
    rw [Meets] at hmeet
    split at hs
    · rename_i fd packet total hpc
      rw [hpc] at hmeet
      simp only [Classical.not_imp] at hmeet
      obtain ⟨hreturn, hroomy⟩ := hmeet
      obtain ⟨packet', hpc', hdesc, htx⟩ := readStep_returns hreturn hs
      simp only [Roomy, not_forall, Nat.not_le] at hroomy
      obtain ⟨fd', hmem, hne, c, hc, hfull⟩ := hroomy
      obtain ⟨j, hj⟩ := List.mem_iff_getElem?.1 hmem
      exact canStall_of_slot hinv hpc' (Nat.zero_add j).symm (by rw [hdesc, hj]) hne
        (by rw [hdesc, hc]) (fun _ => rfl) (by rwa [htx])
    · rename_i senderFd packet i total hpc
      rw [hpc] at hmeet
      simp only [not_forall, Bool.not_eq_false] at hmeet
      obtain ⟨fd, c, hfd, hne, htotal, hc, hreset⟩ := hmeet
      have hkill : Process.step listenFd cap _ (.call k deleted) = some _ :=
        step_reset hpc hfd hne htotal hc hreset k deleted
      rw [Process.step, hpc] at hkill
      obtain rfl := Option.some.inj (hs.symm.trans hkill)
      exact canStall_of_killed rfl
    · cases hs
  | _ => exact absurd trivial hmeet

/-! ## The server and its clients -/

/-- **When no client stops the server.** A run whose steps all meet the condition leaves the server
serving; a step that does not meet it lets the run go on to where the server is killed or waits for
one client while another one has sent a packet. -/
theorem serves {as : List Action} {st : Process}
    (h : runFrom (step listenFd cap) init as = some st) :
    (StepsMeet (step listenFd cap) (Meets listenFd cap) init as → st.Serves cap) ∧
      ∀ a st', step listenFd cap st a = some st' → ¬ st.Meets listenFd cap a →
        ∃ bs st'', runFrom (step listenFd cap) st' bs = some st'' ∧ ¬ st''.Serves cap := by
  refine ⟨fun hmeet => ?_, fun a st' hs hnot => canStall_of_not_meets (inv_of_run h) hs hnot⟩
  have hboth : st.Inv listenFd ∧ st.Calm cap :=
    runFrom_invariant_of_meet (P := fun st => st.Inv listenFd ∧ st.Calm cap)
      (fun _ _ _ hst hc hs => ⟨hst.1.step hs, hst.2.step hst.1 hc hs⟩)
      ⟨inv_init listenFd, trivial⟩ hmeet h
  exact hboth.2.serves_clients hboth.1

/-- A client connects and sends a packet, and the server begins to read it. -/
def onePacket : List Action :=
  [.connect, .wait [3], .event (.socket 5 true) (List.replicate packetSize 0),
    .send 0 (List.replicate packetSize 0), .wait [5], .event .error (List.replicate packetSize 0)]

set_option maxRecDepth 20000 in
theorem serves_onePacket : ∃ st, runFrom (step 3 65536) init onePacket = some st ∧
    st.Pending 0 ∧ st.Serves 65536 := by
  have h : runFrom (step 3 65536) init onePacket = some _ := rfl
  refine ⟨_, h, ?_, (serves h).1 ?_⟩
  · simp [Pending]
  · refine ⟨trivial, fun t ht => ?_⟩
    obtain rfl := Option.some.inj ht
    refine ⟨trivial, fun t ht => ?_⟩
    obtain rfl := Option.some.inj ht
    refine ⟨fun fd c hfd hlisten => absurd (Option.some.inj hfd).symm hlisten, fun t ht => ?_⟩
    obtain rfl := Option.some.inj ht
    refine ⟨trivial, fun t ht => ?_⟩
    obtain rfl := Option.some.inj ht
    refine ⟨trivial, fun t ht => ?_⟩
    obtain rfl := Option.some.inj ht
    refine ⟨fun fd c hfd _ hc => Or.inl ?_, fun _ _ => trivial⟩
    obtain rfl := Option.some.inj hfd
    obtain rfl := Option.some.inj hc
    exact (List.length_replicate (n := packetSize) (a := (0 : UInt8))).ge

/-- A client connects and sends a single byte, which the server begins to read; then another client
connects and sends a packet. -/
def stall : List Action :=
  [.connect, .wait [3], .event (.socket 5 true) (List.replicate packetSize 0), .send 0 [1],
    .wait [5], .event .error (List.replicate packetSize 0), .call 1 true, .connect,
    .send 1 (List.replicate packetSize 0)]

set_option maxRecDepth 20000 in
/-- The packet is not read, since the server waits for the first client. -/
theorem not_serves_stall : ∃ st, runFrom (step 3 65536) init stall = some st ∧ st.Pending 1 ∧
    st.waitsFor 65536 = some 0 ∧ ¬ st.Serves 65536 := by
  refine ⟨_, rfl, ?_, rfl, fun hserves => ?_⟩
  · simp [Pending]
  · refine absurd (hserves.unblocked 1 0 ?_ rfl) (by decide)
    simp [Pending]

end Process

end EltexPractice.TcpChat
