import EltexPractice.TcpChat.Broadcast

/-!
# How long a client of the TCP chat is in the table

A client enters the table once, when it is accepted, and never comes back after it has left. So the
packets that were processed while it was in the table are one block of all that were processed
(`exists_block`), and what it receives of another client is a contiguous part of what that client
sends (`received_infix`): between two packets that reach it none is missing. While both are
connected nothing is missing at the end either (`received_suffix`).
-/

namespace EltexPractice.TcpChat

namespace Server

variable {st st' : Server} {listenFd : ℕ}

/-! ## One action -/

/-- A client that the server has not accepted yet. -/
def Waits (st : Server) (d : ℕ) : Prop := d ∈ st.backlog ∨ st.connected ≤ d

theorem TableInv.mem_members_iff (h : st.TableInv) {d : ℕ} :
    d ∈ st.members ↔ ∃ fd, st.sockets fd = some d := by
  rw [mem_members]
  refine exists_congr fun fd => and_iff_right_of_imp fun hfd => ?_
  exact (h.mem_iff fd).2 ⟨d, hfd⟩

theorem TableInv.notMem_members (h : st.TableInv) {d : ℕ} (hwaits : st.Waits d) :
    d ∉ st.members := by
  rw [h.mem_members_iff]
  rintro ⟨fd, hfd⟩
  rcases hwaits with hback | hle
  · exact (h.queued.waiting d hback).2 fd hfd
  · exact absurd (h.queued.accepted fd d hfd) (Nat.not_lt.2 hle)

/-- What `handle_new_connection` does: nothing, or the first client that waits gets a descriptor,
or it is turned away. -/
theorem handleNewConnection_cases {result : Accept}
    (hs : handleNewConnection listenFd st result = some st') :
    st'.log = st.log ∧ st'.client = st.client ∧ st'.connected = st.connected ∧
      (st'.sockets = st.sockets ∧ st'.backlog = st.backlog ∨
        ∃ c, st.backlog = c :: st'.backlog ∧ ((st'.sockets = st.sockets) ∨
          ∃ fd, st.sockets fd = none ∧ st'.sockets = Function.update st.sockets fd (some c))) := by
  unfold handleNewConnection at hs
  split at hs
  · obtain rfl := Option.some.inj hs
    exact ⟨rfl, rfl, rfl, Or.inl ⟨rfl, rfl⟩⟩
  · rename_i fd added
    split at hs
    · cases hs
    · rename_i c backlog hbacklog
      split at hs
      · cases hs
      · rename_i hfd
        have hclosed : st.sockets fd = none := by
          rw [not_or, Bool.not_eq_true, Option.isSome_eq_false_iff] at hfd
          exact Option.isNone_iff_eq_none.1 hfd.2
        simp only at hs
        split at hs
        · split at hs
          · obtain rfl := Option.some.inj hs
            exact ⟨rfl, rfl, rfl, Or.inr ⟨c, hbacklog, Or.inr ⟨fd, hclosed, rfl⟩⟩⟩
          · obtain rfl := Option.some.inj hs
            exact ⟨rfl, rfl, rfl, Or.inr ⟨c, hbacklog, Or.inl (sockets_accept_close hclosed)⟩⟩
        · obtain rfl := Option.some.inj hs
          exact ⟨rfl, rfl, rfl, Or.inr ⟨c, hbacklog, Or.inl (sockets_accept_close hclosed)⟩⟩

theorem handleClientDisconnect_sockets (st : Server) (fd : ℕ) :
    (st.handleClientDisconnect fd).sockets = Function.update st.sockets fd none ∧
      (st.handleClientDisconnect fd).backlog = st.backlog ∧
      (st.handleClientDisconnect fd).connected = st.connected := by
  obtain ⟨table, htable, -⟩ :=
    (({ st with epoll := st.epoll.filter (· ≠ fd) } : Server).close fd).removeClient_spec fd
  rw [handleClientDisconnect, htable]
  exact ⟨rfl, rfl, rfl⟩

/-- What an action does to the log and the table: a packet is processed, or the table changes and
only a client that has been waiting can come into it. -/
theorem log_step (h : st.Inv) {a : Action} (hs : step listenFd st a = some st') :
    (∃ s packet, st'.log = st.log ++ [⟨s, packet, st.members⟩] ∧ st'.sockets = st.sockets ∧
      st'.backlog = st.backlog ∧ st'.connected = st.connected) ∨
    st'.log = st.log ∧ (∀ d, st'.Waits d → st.Waits d) ∧
      ∀ fd d, st'.sockets fd = some d → (∃ fd', st.sockets fd' = some d) ∨ st.Waits d := by
  have hsame : ∀ fd d, st.sockets fd = some d → (∃ fd', st.sockets fd' = some d) ∨ st.Waits d :=
    fun fd d hfd => Or.inl ⟨fd, hfd⟩
  cases a with
  | connect =>
    obtain rfl := Option.some.inj hs
    refine Or.inr ⟨rfl, fun d hd => ?_, hsame⟩
    rcases hd with hd | hd
    · rcases List.mem_append.1 hd with hd | hd
      · exact Or.inl hd
      · obtain rfl := List.mem_singleton.1 hd
        exact Or.inr le_rfl
    · exact Or.inr (Nat.le_of_succ_le hd)
  | send c packet =>
    rw [step] at hs
    split at hs
    · obtain rfl := Option.some.inj hs
      exact Or.inr ⟨rfl, fun d hd => hd, hsame⟩
    · cases hs
  | disconnect c kept =>
    rw [step] at hs
    split at hs
    · obtain rfl := Option.some.inj hs
      exact Or.inr ⟨rfl, fun d hd => hd, hsame⟩
    · cases hs
  | wait batch =>
    rw [step] at hs
    split at hs
    · obtain rfl := Option.some.inj hs
      exact Or.inr ⟨rfl, fun d hd => hd, hsame⟩
    · cases hs
  | event result =>
    rw [step] at hs
    split at hs
    · cases hs
    · rename_i fd events hevents
      have hrest : { st with events : Server }.Inv :=
        h.congr (h.toTableInv.congr rfl rfl rfl rfl) rfl rfl
      split at hs
      · obtain ⟨hlog, -, hconnected, hcases⟩ := handleNewConnection_cases hs
        refine Or.inr ⟨hlog, fun d hd => ?_, fun fd' d hfd' => ?_⟩
        · rw [Waits, hconnected] at hd
          refine hd.imp_left fun hd => ?_
          rcases hcases with ⟨-, hback⟩ | ⟨c, hback, -⟩
          · rwa [hback] at hd
          · rw [show st.backlog = c :: st'.backlog from hback]
            exact List.mem_cons_of_mem c hd
        · rcases hcases with ⟨hsockets, -⟩ | ⟨c, hback, hsockets | ⟨fd₀, hfree, hsockets⟩⟩
          · rw [hsockets] at hfd'
            exact hsame fd' d hfd'
          · rw [hsockets] at hfd'
            exact hsame fd' d hfd'
          · rw [hsockets] at hfd'
            rcases (sockets_accept_iff hfree).1 hfd' with ⟨-, rfl⟩ | hold
            · refine Or.inr (Or.inl ?_)
              rw [show st.backlog = c :: st'.backlog from hback]
              exact List.mem_cons_self
            · exact hsame fd' d hold
      · rcases handleClientData_cases hrest.toTableInv hs with
          ⟨s, packet, inbox, -, -, rfl⟩ | rfl
        · exact Or.inl ⟨s, packet, rfl, rfl, rfl, rfl⟩
        · obtain ⟨hsockets, hback, hconnected⟩ :=
            handleClientDisconnect_sockets { st with events : Server } fd
          refine Or.inr ⟨(handleClientDisconnect_frame _ _).2, fun d hd => ?_, fun fd' d hfd' => ?_⟩
          · rwa [Waits, hback, hconnected] at hd
          · rw [hsockets] at hfd'
            exact hsame fd' d (sockets_close_iff.1 hfd').2

/-! ## The block of a client -/

/-- The packets that were processed while `d` was in the table are the block `during` of all that
were processed. -/
structure Block (st : Server) (d : ℕ) (before during after : List Entry) : Prop where
  log : st.log = before ++ (during ++ after)
  absent : ∀ e ∈ before, d ∉ e.members
  inside : ∀ e ∈ during, d ∈ e.members
  gone : ∀ e ∈ after, d ∉ e.members
  present : d ∈ st.members → after = []
  waits : st.Waits d → during = [] ∧ after = []

variable {d : ℕ} {before during after : List Entry}

/-- **An action keeps the block together.** -/
theorem Block.step (hb : st.Block d before during after) (h : st.Inv) {a : Action}
    (hs : Server.step listenFd st a = some st') :
    ∃ before' during' after', st'.Block d before' during' after' := by
  have h' := h.step hs
  rcases log_step h hs with ⟨s, packet, hlog, hsockets, hback, hconnected⟩ | ⟨hlog, hwaits, hmem⟩
  · have hmembers : d ∈ st'.members ↔ d ∈ st.members := by
      rw [h'.toTableInv.mem_members_iff, h.toTableInv.mem_members_iff, hsockets]
    have hwaits : st'.Waits d ↔ st.Waits d := by rw [Waits, Waits, hback, hconnected]
    have hnot : st.Waits d → d ∉ st.members := h.toTableInv.notMem_members
    by_cases hd : d ∈ st.members
    · obtain rfl := hb.present hd
      refine ⟨before, during ++ [⟨s, packet, st.members⟩], [], ?_, hb.absent, ?_, hb.gone,
        fun _ => rfl, fun hw => absurd hd (hnot (hwaits.1 hw))⟩
      · simp [hlog, hb.log]
      · exact List.forall_mem_append.2 ⟨hb.inside, List.forall_mem_singleton.2 hd⟩
    · by_cases hw : st.Waits d
      · obtain ⟨rfl, rfl⟩ := hb.waits hw
        refine ⟨before ++ [⟨s, packet, st.members⟩], [], [], ?_, ?_, hb.inside, hb.gone,
          fun _ => rfl, fun _ => ⟨rfl, rfl⟩⟩
        · simp [hlog, hb.log]
        · exact List.forall_mem_append.2 ⟨hb.absent, List.forall_mem_singleton.2 hd⟩
      · refine ⟨before, during, after ++ [⟨s, packet, st.members⟩], ?_, hb.absent, hb.inside, ?_,
          fun hd' => absurd (hmembers.1 hd') hd, fun hw' => absurd (hwaits.1 hw') hw⟩
        · simp [hlog, hb.log]
        · exact List.forall_mem_append.2 ⟨hb.gone, List.forall_mem_singleton.2 hd⟩
  · refine ⟨before, during, after, ?_, hb.absent, hb.inside, hb.gone, fun hd => ?_,
      fun hw => hb.waits (hwaits d hw)⟩
    · rw [hlog, hb.log]
    · obtain ⟨fd, hfd⟩ := h'.toTableInv.mem_members_iff.1 hd
      rcases hmem fd d hfd with hold | hw
      · exact hb.present (h.toTableInv.mem_members_iff.2 hold)
      · exact (hb.waits hw).2

theorem block_init (d : ℕ) : init.Block d [] [] [] where
  log := rfl
  absent e he := by cases he
  inside e he := by cases he
  gone e he := by cases he
  present _ := rfl
  waits _ := ⟨rfl, rfl⟩

/-- **The packets of the time in the table are one block**, in every state of every run. -/
theorem exists_block {as : List Action} (h : runFrom (step listenFd) init as = some st) (d : ℕ) :
    ∃ before during after, st.Block d before during after := by
  have hboth : st.Inv ∧ ∃ before during after, st.Block d before during after :=
    runFrom_invariant
      (P := fun st : Server => st.Inv ∧ ∃ before during after, st.Block d before during after)
      (fun _ _ _ ⟨hi, _, _, _, hb⟩ hs => ⟨hi.step hs, hb.step hi hs⟩)
      ⟨inv_init, [], [], [], block_init d⟩ h
  exact hboth.2

/-! ## What a client receives of another -/

/-- What `d` has been written of the packets of `c`. -/
def received (st : Server) (c d : ℕ) : List ChatPacket :=
  ((st.deliveries d).filter (·.sender = c)).map (·.packet)

theorem filter_reaches_of_notMem {es : List Entry} (h : ∀ e ∈ es, d ∉ e.members) :
    es.filter (·.Reaches d) = [] := by
  rw [List.filter_eq_nil_iff]
  exact fun e he hreaches => h e he (of_decide_eq_true hreaches).1

theorem Block.received_eq (hb : st.Block d before during after) {c : ℕ} (hne : c ≠ d) :
    st.received c d = (during.filter (·.sender = c)).map (·.packet) := by
  have hsplit : st.deliveries d = during.filter (·.Reaches d) := by
    rw [deliveries, hb.log, List.filter_append, List.filter_append,
      filter_reaches_of_notMem hb.absent, filter_reaches_of_notMem hb.gone, List.nil_append,
      List.append_nil]
  rw [received, hsplit, List.filter_filter]
  congr 1
  refine List.filter_congr fun e he => ?_
  by_cases hsender : e.sender = c
  · have hreaches : e.Reaches d := ⟨hb.inside e he, fun heq => hne (by rw [← hsender, heq])⟩
    simp [hsender, hreaches]
  · simp [hsender]

theorem Block.processed_eq (hb : st.Block d before during after) {c : ℕ} (hne : c ≠ d) :
    st.processed c = (before.filter (·.sender = c)).map (·.packet) ++
      (st.received c d ++ (after.filter (·.sender = c)).map (·.packet)) := by
  rw [hb.received_eq hne, processed, hb.log, List.filter_append, List.filter_append,
    List.map_append, List.map_append]

/-- **What is received is contiguous.** -/
theorem Block.received_infix (hb : st.Block d before during after) {c : ℕ} (hne : c ≠ d) :
    st.received c d <:+: st.processed c := by
  rw [hb.processed_eq hne]
  exact ⟨_, _, List.append_assoc ..⟩

theorem Block.received_suffix (hb : st.Block d before during after) {c : ℕ} (hne : c ≠ d)
    (hd : d ∈ st.members) : st.received c d <:+ st.processed c := by
  rw [hb.processed_eq hne, hb.present hd, List.filter_nil, List.map_nil, List.append_nil]
  exact List.suffix_append _ _

end Server

end EltexPractice.TcpChat
