import EltexPractice.TcpChat.Presence
import EltexPractice.TcpChat.User

/-!
# Conversations of the TCP chat

Any number of users of one server of task 7. The connection of a user may break between any two
packets; then `read_all` fails, and a write fails or kills the process. What the server forwards
when a connection breaks inside a packet, with the read of it half done, is not a packet of the
user; such breaks are left to the model of the byte streams.

* `conversation`: what holds in every run, with connections that break between whole packets, of
  what each user sends, receives and displays.
-/

namespace EltexPractice.TcpChat

open CString LineInput

/-! ## The system -/

/-- The users' names, what they can create, and their files at the start. -/
structure Setting where
  nickname : ℕ → List UInt8
  creatable : ℕ → List UInt8 → Bool
  files : ℕ → List UInt8 → Option (List UInt8)

structure Chat where
  server : Server
  user : ℕ → User

namespace Chat

def init (S : Setting) : Chat := ⟨.init, fun c => .init (S.files c)⟩

def setUser (s : Chat) (c : ℕ) (u : User) : Chat := { s with user := Function.update s.user c u }

inductive Action
  /-- A user connects. -/
  | connect
  /-- The server's `epoll_wait`, and the handling of one event. -/
  | wait (batch : List ℕ)
  | event (result : Server.Accept)
  /-- The connection of `c` breaks between two packets; the server can still read `kept` packets. -/
  | reset (c kept : ℕ)
  | type (c : ℕ) (bytes : List UInt8)
  | hangup (c : ℕ)
  | sigint (c : ℕ) (interrupts : Bool)
  | turn (c : ℕ) (t : User.Turn)
  /-- `write_all` of the next packet. -/
  | write (c : ℕ)
  /-- It fails, or the process gets SIGPIPE. -/
  | writeFails (c : ℕ) (killed : Bool)
  /-- `close`; the server can still read `kept` packets. -/
  | close (c kept : ℕ)

variable (S : Setting) (listenFd : ℕ)

def step (s : Chat) : Action → Option Chat
  | .connect => (s.server.step listenFd .connect).map fun server => { s with server }
  | .wait batch => (s.server.step listenFd (.wait batch)).map fun server => { s with server }
  | .event result => (s.server.step listenFd (.event result)).map fun server => { s with server }
  | .reset c kept =>
    (s.server.step listenFd (.disconnect c kept)).map fun server => { s with server }
  | .type c bytes =>
    ((s.user c).console.type bytes).map fun console => s.setUser c { s.user c with console }
  | .hangup c => some (s.setUser c { s.user c with console := (s.user c).console.hangup })
  | .sigint c interrupts => ((s.user c).sigint (S.nickname c) interrupts).map (s.setUser c)
  | .turn c t =>
    if s.server.connected ≤ c then none
    else ((s.user c).turn (S.nickname c) (S.creatable c) (s.server.client c).outbox t).map
      (s.setUser c)
  | .write c =>
    match (s.user c).pc, (s.user c).out with
    | .killed _, _ => none
    | _, [] => none
    | _, packet :: out => (s.server.step listenFd (.send c packet)).map fun server =>
        { s.setUser c { s.user c with out } with server }
  | .writeFails c killed =>
    if (s.server.client c).closed = false then none
    else match (s.user c).pc, (s.user c).out with
      | .killed _, _ => none
      | _, [] => none
      | pc, _ :: out => some (s.setUser c { s.user c with
          out, pc := if killed then .killed (pc = .leaving) else pc })
  | .close c kept =>
    if (s.user c).pc = .leaving ∧ (s.user c).out = [] then
      if (s.server.client c).closed then some (s.setUser c { s.user c with pc := .closed })
      else (s.server.step listenFd (.disconnect c kept)).map fun server =>
        { s.setUser c { s.user c with pc := .closed } with server }
    else none

end Chat

/-! ## The server's side -/

/-- A client has not sent anything more, and has been written no less. -/
structure Client.Grows (client client' : Client) : Prop where
  sent : client'.sent = client.sent
  closed : client'.closed = false → client.closed = false
  outbox : client.outbox <+: client'.outbox

theorem Client.Grows.refl (client : Client) : client.Grows client := ⟨rfl, id, List.prefix_refl _⟩

theorem Server.grows_of_client {st st' : Server} (h : st'.client = st.client) (c : ℕ) :
    (st.client c).Grows (st'.client c) := by
  rw [h]
  exact .refl _

/-- But for `send`, no action adds to what a client has sent. -/
theorem Server.grows_of_step {st st' : Server} {listenFd : ℕ} {a : Server.Action} (h : st.Inv)
    (hsend : ∀ c packet, a ≠ .send c packet) (hs : st.step listenFd a = some st') (c : ℕ) :
    (st.client c).Grows (st'.client c) := by
  cases a with
  | connect =>
    obtain rfl := Option.some.inj hs
    exact .refl _
  | send c' packet => exact absurd rfl (hsend c' packet)
  | disconnect c' kept =>
    rw [Server.step] at hs
    split at hs
    · obtain rfl := Option.some.inj hs
      by_cases hc : c = c'
      · subst hc
        rw [Server.client_onClient_self]
        exact ⟨rfl, Bool.noConfusion, List.prefix_refl _⟩
      · rw [Server.client_onClient_of_ne _ hc]
        exact .refl _
    · cases hs
  | wait batch =>
    rw [Server.step] at hs
    split at hs
    · obtain rfl := Option.some.inj hs
      exact .refl _
    · cases hs
  | event result =>
    rw [Server.step] at hs
    split at hs
    · cases hs
    · rename_i fd events hevents
      have hrest : { st with events : Server }.Inv :=
        h.congr (h.toTableInv.congr rfl rfl rfl rfl) rfl rfl
      split at hs
      · exact Server.grows_of_client (Server.handleNewConnection_cases hs).2.1 c
      · rcases Server.handleClientData_cases hrest.toTableInv hs with
          ⟨s, packet, inbox, -, -, rfl⟩ | rfl
        · by_cases hc : c = s
          · subst hc
            simp only [if_true]
            exact ⟨rfl, id, List.prefix_refl _⟩
          · simp only [if_neg hc]
            split
            · exact ⟨rfl, id, List.prefix_append _ _⟩
            · exact .refl _
        · have hclient := (Server.handleClientDisconnect_frame { st with events : Server } fd).1
          exact Server.grows_of_client hclient c

/-- What a client sends is put behind what it has sent. -/
theorem Server.client_of_send {st st' : Server} {listenFd c : ℕ} {packet : ChatPacket}
    (hs : st.step listenFd (.send c packet) = some st') :
    (st.client c).closed = false ∧ (st'.client c).sent = (st.client c).sent ++ [packet] ∧
      (st'.client c).outbox = (st.client c).outbox ∧
      ∀ d, d ≠ c → st'.client d = st.client d := by
  rw [Server.step] at hs
  split at hs
  · rename_i halive
    obtain rfl := Option.some.inj hs
    refine ⟨halive.2, ?_, ?_, fun d hd => Server.client_onClient_of_ne _ hd _⟩
    · rw [Server.client_onClient_self]
    · rw [Server.client_onClient_self]
  · cases hs

theorem User.Said.grow {nickname : List UInt8} {client client' : Client} {u : User}
    (h : u.Said nickname client) (hgrows : client.Grows client') : u.Said nickname client' := by
  obtain ⟨dropped, hpackets, hdropped⟩ := h.packets
  refine { h with packets := ⟨dropped, ?_, fun hopen => hdropped (hgrows.closed hopen)⟩ }
  rw [hgrows.sent]
  exact hpackets

/-- What holds of the user `c` of a chat. -/
structure User.Inv (S : Setting) (c : ℕ) (client : Client) (u : User) : Prop where
  said : u.Said (S.nickname c) client
  heard : u.Heard (S.creatable c) (S.files c) client.outbox
  reads : u.Reads

theorem User.Inv.grow {S : Setting} {c : ℕ} {client client' : Client} {u : User}
    (h : u.Inv S c client) (hgrows : client.Grows client') : u.Inv S c client' :=
  ⟨h.said.grow hgrows, h.heard.grow hgrows.outbox, h.reads⟩

theorem User.Inv.moves {S : Setting} {c : ℕ} {client : Client} {u u' : User}
    (h : u.Inv S c client)
    (hm : User.Moves (S.nickname c) (S.creatable c) client.outbox u u') : u'.Inv S c client :=
  ⟨h.said.moves hm, h.heard.moves hm, h.reads.moves hm⟩

/-- A packet is written. -/
theorem User.Inv.write {S : Setting} {c : ℕ} {client client' : Client} {u : User}
    {packet : ChatPacket} {out : List ChatPacket} (h : u.Inv S c client)
    (hout : u.out = packet :: out) (hopen : client.closed = false)
    (hsent : client'.sent = client.sent ++ [packet]) (houtbox : client'.outbox = client.outbox) :
    User.Inv S c client' { u with out } where
  said := by
    obtain ⟨dropped, hpackets, hdropped⟩ := h.said.packets
    obtain rfl := hdropped hopen
    refine { h.said with packets := ⟨[], ?_, fun _ => rfl⟩, idle := fun hwrites => ?_ }
    · rw [hsent, List.append_assoc]
      refine hpackets.trans ?_
      rw [hout]
      rfl
    · have hnil := h.said.idle hwrites
      rw [hout] at hnil
      cases hnil
  heard := by
    rw [houtbox]
    exact h.heard.congr rfl rfl rfl
  reads := { h.reads with }

/-- The connection has broken, and a packet is dropped; the process may be killed. -/
theorem User.Inv.writeFails {S : Setting} {c : ℕ} {client : Client} {u : User}
    {packet : ChatPacket} {out : List ChatPacket} (h : u.Inv S c client)
    (hout : u.out = packet :: out) (hclosed : client.closed ≠ false)
    (hpc : ∀ leaving, u.pc ≠ .killed leaving) (killed : Bool) :
    User.Inv S c client
      { u with out, pc := if killed then .killed (u.pc = .leaving) else u.pc } := by
  have hwrites : u.pc = .sending ∨ u.pc = .leaving := by
    by_contra hnot
    rw [not_or] at hnot
    have hnil := h.said.idle (by
      rintro (heq | heq | ⟨leaving, heq⟩)
      · exact hnot.1 heq
      · exact hnot.2 heq
      · exact hpc leaving heq)
    rw [hout] at hnil
    cases hnil
  obtain ⟨dropped, hpackets, -⟩ := h.said.packets
  have htranscript : User.transcript (S.nickname c)
      { u with out, pc := if killed then .killed (u.pc = .leaving) else u.pc } =
        client.sent ++ ((dropped ++ [packet]) ++ out) := by
    rw [List.append_assoc, List.singleton_append, ← hout, ← hpackets]
    cases killed with
    | false => rfl
    | true =>
      rcases hwrites with heq | heq <;>
        simp [User.transcript, heq, User.Pc.opening, User.Pc.closing]
  refine ⟨⟨⟨_, htranscript, fun hopen => absurd hopen hclosed⟩, fun hnot => ?_, h.said.own,
    fun heq => ?_⟩, h.heard.congr rfl rfl rfl, ?_⟩
  · refine absurd ?_ hnot
    cases killed with
    | false => exact hwrites.imp_right Or.inl
    | true => exact Or.inr (Or.inr ⟨_, rfl⟩)
  · cases killed with
    | false => exact h.said.started heq
    | true => cases heq
  · refine h.reads.goto _ ?_ ?_ (fun hr => ?_) (Or.inl rfl) out u.screen u.handled u.receiver
    · rcases hwrites with heq | heq <;> rw [heq] <;> exact User.Pc.noConfusion
    · cases killed with
      | false => rcases hwrites with heq | heq <;> simp [heq]
      | true => exact User.Pc.noConfusion
    · cases killed with
      | false => exact Or.inr hr
      | true => exact hr.elim

/-- The last packet has been written, and the socket is closed. -/
theorem User.Inv.close {S : Setting} {c : ℕ} {client : Client} {u : User} (h : u.Inv S c client)
    (hpc : u.pc = .leaving) (hout : u.out = []) : User.Inv S c client { u with pc := .closed } := by
  refine ⟨?_, h.heard.congr rfl rfl rfl, ?_⟩
  · exact h.said.goto (by rw [hpc]; rfl) (by rw [hpc]; rfl) hout User.Pc.noConfusion u.console
  · exact h.reads.goto .closed (by rw [hpc]; exact User.Pc.noConfusion) User.Pc.noConfusion
      (fun hr => hr.elim) (Or.inl rfl) _ _ _ _

/-! ## Runs -/

namespace Chat

/-- What holds of the chat in every run. -/
structure Inv (S : Setting) (s : Chat) : Prop where
  server : s.server.Inv
  block : ∀ d, ∃ before during after, s.server.Block d before during after
  user : ∀ c, (s.user c).Inv S c (s.server.client c)

variable {S : Setting} {listenFd : ℕ} {s s' : Chat}

theorem inv_init (S : Setting) : (init S).Inv S where
  server := Server.inv_init
  block d := ⟨[], [], [], Server.block_init d⟩
  user c := ⟨User.said_init (S.nickname c) (S.files c),
    User.heard_init (S.creatable c) (S.files c), User.reads_init (S.files c)⟩

/-- The server takes a step, and no user does. -/
theorem Inv.serverStep {a : Server.Action} {server : Server} (h : s.Inv S)
    (hs : s.server.step listenFd a = some server)
    (huser : ∀ c, (s.user c).Inv S c (server.client c)) : { s with server : Chat }.Inv S where
  server := h.server.step hs
  block d := by
    obtain ⟨before, during, after, hb⟩ := h.block d
    exact hb.step h.server hs
  user := huser

theorem Inv.grow {a : Server.Action} {server : Server} (h : s.Inv S)
    (hsend : ∀ c packet, a ≠ .send c packet) (hs : s.server.step listenFd a = some server) :
    { s with server : Chat }.Inv S :=
  h.serverStep hs fun c => (h.user c).grow (Server.grows_of_step h.server hsend hs c)

/-- One user takes a step. -/
theorem Inv.setUser {c : ℕ} {u : User} (h : s.Inv S) (hu : u.Inv S c (s.server.client c)) :
    (s.setUser c u).Inv S where
  server := h.server
  block := h.block
  user d := by
    change (Function.update s.user c u d).Inv S d (s.server.client d)
    by_cases hd : d = c
    · subst hd
      rwa [Function.update_self]
    · rw [Function.update_of_ne hd]
      exact h.user d

theorem Inv.moves {c : ℕ} {u : User} (h : s.Inv S)
    (hm : User.Moves (S.nickname c) (S.creatable c) (s.server.client c).outbox (s.user c) u) :
    (s.setUser c u).Inv S :=
  h.setUser ((h.user c).moves hm)

theorem Inv.write {c : ℕ} {packet : ChatPacket} {out : List ChatPacket} {server : Server}
    (h : s.Inv S) (hout : (s.user c).out = packet :: out)
    (hs : s.server.step listenFd (.send c packet) = some server) :
    { s.setUser c { s.user c with out } with server : Chat }.Inv S := by
  obtain ⟨hopen, hsent, houtbox, hother⟩ := Server.client_of_send hs
  refine ⟨h.server.step hs, fun d => ?_, fun d => ?_⟩
  · obtain ⟨before, during, after, hb⟩ := h.block d
    exact hb.step h.server hs
  · change (Function.update s.user c { s.user c with out } d).Inv S d (server.client d)
    by_cases hd : d = c
    · subst hd
      rw [Function.update_self]
      exact (h.user d).write hout hopen hsent houtbox
    · rw [Function.update_of_ne hd, hother d hd]
      exact h.user d

/-- **Every action keeps the invariant.** -/
theorem Inv.step {a : Action} (h : s.Inv S) (hs : Chat.step S listenFd s a = some s') :
    s'.Inv S := by
  cases a with
  | connect =>
    rw [Chat.step] at hs
    obtain ⟨server, hserver, rfl⟩ := Option.map_eq_some_iff.1 hs
    exact h.grow (fun _ _ => Server.Action.noConfusion) hserver
  | wait batch =>
    obtain ⟨server, hserver, rfl⟩ := Option.map_eq_some_iff.1 hs
    exact h.grow (fun _ _ => Server.Action.noConfusion) hserver
  | event result =>
    obtain ⟨server, hserver, rfl⟩ := Option.map_eq_some_iff.1 hs
    exact h.grow (fun _ _ => Server.Action.noConfusion) hserver
  | reset c kept =>
    obtain ⟨server, hserver, rfl⟩ := Option.map_eq_some_iff.1 hs
    exact h.grow (fun _ _ => Server.Action.noConfusion) hserver
  | type c bytes =>
    obtain ⟨console, hconsole, rfl⟩ := Option.map_eq_some_iff.1 hs
    exact h.moves (.type bytes console hconsole)
  | hangup c =>
    obtain rfl := Option.some.inj hs
    exact h.moves .hangup
  | sigint c interrupts =>
    obtain ⟨u, hu, rfl⟩ := Option.map_eq_some_iff.1 hs
    exact h.moves (User.moves_of_sigint hu)
  | turn c t =>
    rw [Chat.step] at hs
    split at hs
    · cases hs
    · obtain ⟨u, hu, rfl⟩ := Option.map_eq_some_iff.1 hs
      exact h.moves (User.moves_of_turn hu)
  | write c =>
    rw [Chat.step] at hs
    split at hs
    · cases hs
    · cases hs
    · rename_i packet out hout hkilled
      obtain ⟨server, hserver, rfl⟩ := Option.map_eq_some_iff.1 hs
      exact h.write hout hserver
  | writeFails c killed =>
    rw [Chat.step] at hs
    split at hs
    · cases hs
    · rename_i hclosed
      split at hs
      · cases hs
      · cases hs
      · rename_i packet out hout hkilled
        obtain rfl := Option.some.inj hs
        exact h.setUser ((h.user c).writeFails hout hclosed hkilled killed)
  | close c kept =>
    rw [Chat.step] at hs
    split at hs
    · rename_i hleaving
      have hclose : (s.setUser c { s.user c with pc := .closed }).Inv S :=
        h.setUser ((h.user c).close hleaving.1 hleaving.2)
      split at hs
      · obtain rfl := Option.some.inj hs
        exact hclose
      · obtain ⟨server, hserver, rfl⟩ := Option.map_eq_some_iff.1 hs
        exact hclose.grow (fun _ _ => Server.Action.noConfusion) hserver
    · cases hs

theorem inv_of_run {actions : List Action}
    (h : runFrom (step S listenFd) (init S) actions = some s) : s.Inv S :=
  runFrom_invariant (fun _ _ _ h hs => h.step hs) (inv_init S) h

end Chat

/-! ## What a packet is about -/

/-- A field of a packet, read as a string. -/
theorem cstr_copyField {size : ℕ} (hsize : 0 < size) (s : List UInt8) :
    cstr ((copyField size (some s)).set (size - 1) 0) = (cstr s).take (size - 1) := by
  refine cstr_set_strncpy ?_ (zero_notMem_cstr s)
  rw [List.length_replicate]
  omega

/-- The name a user is seen by. -/
def shownName (nickname : List UInt8) : List UInt8 := (cstr nickname).take (maxNickLen - 1)

theorem uploadFile_type (nickname filepath buffer file : List UInt8) :
    ∀ p ∈ uploadFile nickname filepath buffer file, p.type ≠ MsgType.chat.code ∧
      p.type ≠ MsgType.leave.code := by
  intro p hp
  rw [uploadFile] at hp
  rcases List.mem_cons.1 hp with rfl | hp
  · simp [sendPacket, MsgType.code]
  · rcases List.mem_append.1 hp with hp | hp
    · rw [Upload.uploadLoop_type _ _ _ _ p hp]
      simp [MsgType.code]
    · obtain rfl := List.mem_singleton.1 hp
      simp [sendPacket, MsgType.code]

/-- A chat packet of an input carries its message; no input makes a leave packet. -/
theorem Input.packets_type {nickname : List UInt8} {i : Input} {p : ChatPacket}
    (hp : p ∈ i.packets nickname) : p.type ≠ MsgType.leave.code ∧
      (p.type = MsgType.chat.code →
        i.message = some i.text ∧ p = sendPacket .chat nickname (some i.text) none 0) := by
  rw [Input.packets] at hp
  split at hp
  · cases hp
  · rename_i hnot
    rw [not_or] at hnot
    split at hp
    · split at hp
      · cases hp
      · obtain ⟨hchat, hleave⟩ := uploadFile_type _ _ _ _ p hp
        exact ⟨hleave, fun h => absurd h hchat⟩
    · rename_i hfile
      obtain rfl := List.mem_singleton.1 hp
      refine ⟨by simp [sendPacket, MsgType.code], fun _ => ⟨?_, rfl⟩⟩
      exact if_neg (not_or.2 ⟨hnot.1, not_or.2 ⟨hnot.2, hfile⟩⟩)

/-- A chat packet of a transcript carries the message of an input. -/
theorem User.chat_of_mem_transcript {nickname : List UInt8} {u : User} {p : ChatPacket}
    (hp : p ∈ u.transcript nickname) (htype : p.type = MsgType.chat.code) :
    ∃ i ∈ u.inputs, i.message = some i.text ∧
      p = sendPacket .chat nickname (some i.text) none 0 := by
  rcases List.mem_append.1 hp with hp | hp
  · exfalso
    cases hpc : u.pc <;> simp [hpc, User.Pc.opening] at hp <;> subst hp <;> cases htype
  · rcases List.mem_append.1 hp with hp | hp
    · obtain ⟨i, hi, hp⟩ := List.mem_flatMap.1 hp
      exact ⟨i, hi, (Input.packets_type hp).2 htype⟩
    · exfalso
      rcases hpc : u.pc with _ | _ | _ | _ | _ | _ | _ | _ | (_ | _) <;>
        simp [hpc, User.Pc.closing] at hp <;> subst hp <;> cases htype

/-- A leave packet of a transcript is sent at the end. -/
theorem User.leave_of_mem_transcript {nickname : List UInt8} {u : User} {p : ChatPacket}
    (hp : p ∈ u.transcript nickname) (htype : p.type = MsgType.leave.code) :
    u.pc.closing nickname = [sendPacket .leave nickname none none 0] ∧
      p = sendPacket .leave nickname none none 0 := by
  rcases List.mem_append.1 hp with hp | hp
  · exfalso
    cases hpc : u.pc <;> simp [hpc, User.Pc.opening] at hp <;> subst hp <;> cases htype
  · rcases List.mem_append.1 hp with hp | hp
    · obtain ⟨i, hi, hp⟩ := List.mem_flatMap.1 hp
      exact absurd htype (Input.packets_type hp).1
    · rcases hpc : u.pc with _ | _ | _ | _ | _ | _ | _ | _ | (_ | _) <;>
        simp [hpc, User.Pc.closing] at hp ⊢ <;> exact hp

theorem mem_shownAll {creatable : List UInt8 → Bool} {x : Shown} {packets : List ChatPacket}
    {st : Receiver} (h : x ∈ shownAll creatable st packets) :
    ∃ st', ∃ p ∈ packets, shown creatable st' p = some x := by
  induction packets generalizing st with
  | nil => cases h
  | cons p packets ih =>
    rw [shownAll] at h
    rcases List.mem_append.1 h with h | h
    · exact ⟨st, p, List.mem_cons_self, Option.mem_toList.1 h⟩
    · obtain ⟨st', p', hp', hshown⟩ := ih h
      exact ⟨st', p', List.mem_cons_of_mem p hp', hshown⟩

theorem shown_said {creatable : List UInt8 → Bool} {st : Receiver} {p : ChatPacket}
    {nickname text : List UInt8} (h : shown creatable st p = some (.said nickname text)) :
    p.type = MsgType.chat.code ∧ nickname = cstr (p.nickname.set (maxNickLen - 1) 0) ∧
      text = cstr (p.payload.set (maxChunkSize - 1) 0) := by
  grind [shown, Option.map_eq_some_iff]

theorem shown_left {creatable : List UInt8 → Bool} {st : Receiver} {p : ChatPacket}
    {nickname : List UInt8} (h : shown creatable st p = some (.left nickname)) :
    p.type = MsgType.leave.code ∧ nickname = cstr (p.nickname.set (maxNickLen - 1) 0) := by
  grind [shown, Option.map_eq_some_iff]

/-- A message fits into the payload. -/
theorem Input.text_shown {i : Input} (hlen : i.line.length < maxChunkSize) :
    cstr ((copyField maxChunkSize (some i.text)).set (maxChunkSize - 1) 0) = i.text := by
  have hle := length_chomp_le i.line
  rw [cstr_copyField (by decide), Input.text, cstr_eq_self (zero_notMem_chomp i.line)]
  exact List.take_of_length_le (by omega)

/-! ## The conversation -/

namespace Chat

variable {S : Setting} {listenFd : ℕ} {s : Chat}

def transcript (S : Setting) (s : Chat) (c : ℕ) : List ChatPacket :=
  (s.user c).transcript (S.nickname c)

/-- What holds of a conversation at one moment. -/
structure Law (S : Setting) (s : Chat) : Prop where
  /-- A user sends its transcript in order: its join, the packets of its lines, its leave. -/
  sent : ∀ c, (s.server.client c).sent <+: transcript S s c
  /-- While it is connected, all of it but what it is writing. -/
  whole : ∀ c, (s.server.client c).closed = false →
    transcript S s c = (s.server.client c).sent ++ (s.user c).out
  outbox : ∀ d, (s.server.client d).outbox = (s.server.deliveries d).map (·.packet)
  /-- What `d` is written of `c` is a contiguous part of the transcript of `c`: nothing is lost,
  repeated or out of order in between. -/
  received : ∀ c d, c ≠ d → s.server.received c d <:+: transcript S s c
  /-- And while both are connected nothing is missing at the end. -/
  complete : ∀ c d, c ≠ d → (s.server.client c).closed = false → d ∈ s.server.members →
    s.server.received c d ++ ((s.server.client c).inbox ++ (s.user c).out) <:+ transcript S s c
  /-- The lines are what was typed, in pieces that fit into `buffer`. -/
  lines : ∀ c, ((s.user c).inputs.map (·.line)).flatten <+: (s.user c).console.typed ∧
    ∀ i ∈ (s.user c).inputs, i.line.length < maxChunkSize ∧ 10 ∉ i.line.dropLast
  /-- No line is handled behind `exit`. -/
  last : ∀ c, ∀ i ∈ (s.user c).inputs.dropLast, ¬ IsExit i.text
  /-- A user sees its own messages, and what the packets that it has handled say. -/
  own : ∀ c, (s.user c).screen.filterMap Piece.ownText = (s.user c).inputs.filterMap Input.message
  handled : ∀ c, (s.user c).screen.filterMap Piece.heardOf =
    shownAll (S.creatable c) ⟨S.files c, none⟩
      ((s.server.client c).outbox.take (s.user c).handled)
  /-- A message that it sees of another is the text that the other has seen, under its name. -/
  said : ∀ d nickname text, .heard (.said nickname text) ∈ (s.user d).screen → ∃ c, c ≠ d ∧
    nickname = shownName (S.nickname c) ∧ .own text ∈ (s.user c).screen
  /-- Who is said to have left has left. -/
  left : ∀ d nickname, .heard (.left nickname) ∈ (s.user d).screen → ∃ c, c ≠ d ∧
    nickname = shownName (S.nickname c) ∧ (s.user c).pc.closing (S.nickname c) ≠ []

/-- What is written to a client is of another's transcript. -/
theorem Inv.origin (h : s.Inv S) {d : ℕ} {p : ChatPacket}
    (hp : p ∈ (s.server.client d).outbox) : ∃ c, c ≠ d ∧ p ∈ transcript S s c := by
  rw [h.server.outbox] at hp
  obtain ⟨e, he, rfl⟩ := List.mem_map.1 hp
  obtain ⟨hlog, hreach⟩ := List.mem_filter.1 he
  refine ⟨e.sender, fun heq => (of_decide_eq_true hreach).2 heq.symm, ?_⟩
  obtain ⟨lost, hsent, -⟩ := h.server.stream e.sender
  obtain ⟨dropped, htranscript, -⟩ := (h.user e.sender).said.packets
  have hprocessed : e.packet ∈ s.server.processed e.sender :=
    List.mem_map.2 ⟨e, List.mem_filter.2 ⟨hlog, decide_eq_true rfl⟩, rfl⟩
  rw [transcript, htranscript, hsent, List.append_assoc, List.append_assoc]
  exact List.mem_append_left _ hprocessed

/-- What is shown on a screen was said by another. -/
theorem Inv.shown_origin (h : s.Inv S) {d : ℕ} {x : Shown}
    (hx : .heard x ∈ (s.user d).screen) : ∃ c, c ≠ d ∧ ∃ st, ∃ p ∈ transcript S s c,
      shown (S.creatable d) st p = some x := by
  have hmem : x ∈ (s.user d).screen.filterMap Piece.heardOf :=
    List.mem_filterMap.2 ⟨_, hx, rfl⟩
  rw [(h.user d).heard.screen] at hmem
  obtain ⟨st, p, hp, hshown⟩ := mem_shownAll hmem
  obtain ⟨c, hne, hc⟩ := h.origin (List.mem_of_mem_take hp)
  exact ⟨c, hne, st, p, hc, hshown⟩

/-- **Conversations**, in every state of every run in which connections break between whole
packets. -/
theorem conversation {actions : List Action}
    (h : runFrom (step S listenFd) (init S) actions = some s) : Law S s := by
  have hi := inv_of_run h
  have hsent : ∀ c, (s.server.client c).sent <+: transcript S s c := fun c => by
    obtain ⟨dropped, htranscript, -⟩ := (hi.user c).said.packets
    rw [transcript, htranscript]
    exact List.prefix_append _ _
  have hwhole : ∀ c, (s.server.client c).closed = false →
      transcript S s c = (s.server.client c).sent ++ (s.user c).out := fun c hopen => by
    obtain ⟨dropped, htranscript, hdropped⟩ := (hi.user c).said.packets
    obtain rfl := hdropped hopen
    exact htranscript
  have hlines : ∀ c, ∀ i ∈ (s.user c).inputs, i.line.length < maxChunkSize ∧
      10 ∉ i.line.dropLast := fun c i hmem => by
    have hfits := (hi.user c).reads.taken.fits i.line (by
      rw [(hi.user c).reads.lines]
      exact List.mem_map_of_mem hmem)
    exact ⟨hfits.2.length_lt, hfits.2.newline⟩
  refine {
    sent := hsent
    whole := hwhole
    outbox := hi.server.outbox
    received := fun c d hne => ?_
    complete := fun c d hne hopen hd => ?_
    lines := fun c => ⟨?_, hlines c⟩
    last := fun c => (hi.user c).reads.last
    own := fun c => (hi.user c).said.own
    handled := fun c => (hi.user c).heard.screen
    said := fun d nickname text hx => ?_
    left := fun d nickname hx => ?_ }
  · obtain ⟨before, during, after, hb⟩ := hi.block d
    obtain ⟨lost, hstream, -⟩ := hi.server.stream c
    have hprocessed : s.server.processed c <+: (s.server.client c).sent := by
      rw [hstream, List.append_assoc]
      exact List.prefix_append _ _
    exact (hb.received_infix hne).trans (hprocessed.trans (hsent c)).isInfix
  · obtain ⟨before, during, after, hb⟩ := hi.block d
    obtain ⟨lost, hstream, hlost⟩ := hi.server.stream c
    obtain rfl := hlost hopen
    obtain ⟨missed, hmissed⟩ := hb.received_suffix hne hd
    refine ⟨missed, ?_⟩
    rw [hwhole c hopen, hstream, ← hmissed]
    simp only [List.append_assoc, List.nil_append]
  · have htaken := (hi.user c).reads.taken.isPrefix
    rwa [(hi.user c).reads.lines] at htaken
  · obtain ⟨c, hne, st, p, hp, hshown⟩ := hi.shown_origin hx
    obtain ⟨htype, rfl, rfl⟩ := shown_said hshown
    obtain ⟨i, hmem, hmessage, rfl⟩ := User.chat_of_mem_transcript hp htype
    refine ⟨c, hne, cstr_copyField (by decide) _, ?_⟩
    have hown : i.text ∈ (s.user c).screen.filterMap Piece.ownText := by
      rw [(hi.user c).said.own]
      exact List.mem_filterMap.2 ⟨i, hmem, hmessage⟩
    obtain ⟨piece, hpiece, heq⟩ := List.mem_filterMap.1 hown
    cases piece with
    | own text =>
      obtain rfl := Option.some.inj heq
      change Piece.own (cstr ((copyField maxChunkSize (some i.text)).set (maxChunkSize - 1) 0)) ∈ _
      rwa [Input.text_shown (hlines c i hmem).1]
    | _ => cases heq
  · obtain ⟨c, hne, st, p, hp, hshown⟩ := hi.shown_origin hx
    obtain ⟨htype, rfl⟩ := shown_left hshown
    obtain ⟨hclosing, rfl⟩ := User.leave_of_mem_transcript hp htype
    refine ⟨c, hne, cstr_copyField (by decide) _, ?_⟩
    rw [hclosing]
    exact List.cons_ne_nil _ _

/-- Users called `a`, who can create any file. -/
def plainSetting : Setting := ⟨fun _ => [97], fun _ _ => true, fun _ _ => none⟩

/-- Two users join, the first types `hi`, and the second sees it. -/
def hiRun : List Action :=
  [.connect, .wait [3], .event (.socket 5 true), .connect, .wait [3], .event (.socket 6 true),
    .turn 0 .start, .write 0, .turn 0 .written, .turn 0 .loop, .type 0 [104, 105, 10],
    .turn 0 (.poll false false true), .turn 0 (.refill 3), .turn 0 (.line none []), .write 0,
    .wait [5], .event .error, .wait [5], .event .error, .turn 1 .start, .write 1,
    .turn 1 .written, .turn 1 .loop, .turn 1 (.poll false false false), .turn 1 (.message false),
    .turn 1 .loop, .turn 1 (.poll false false false), .turn 1 (.message false)]

theorem conversation_hi : ∃ s, runFrom (step plainSetting 3) (init plainSetting) hiRun = some s ∧
    (s.user 0).console.lines = [[104, 105, 10]] ∧ (s.user 1).handled = 2 ∧
      Law plainSetting s := by
  have h : runFrom (step plainSetting 3) (init plainSetting) hiRun = some _ := rfl
  exact ⟨_, h, rfl, rfl, conversation h⟩

end Chat

end EltexPractice.TcpChat
