import EltexPractice.Foundations.Entries
import EltexPractice.TcpChat.Blocking
import Mathlib.Logic.Relation

/-!
# What the server forwards of a stream of bytes

`handle_client_data` takes every positive result of `read_all` for a packet, also the short one at
the end of a stream. One connection is followed as a `Session` of its own: what was sent, what
`read_all` has of it, what was logged.

* `Session.Inv.logged_eq_slices`: when a client is gone, the packets logged are those of its stream,
  unless the stream ends in a part of one.
* `exists_session`: every run of the server shows every client such a session.
* `forwards_iff`: the whole packets of the stream, and nothing else, are logged and broadcast
  exactly when the length of the stream is a multiple of the size of a packet.
-/

namespace EltexPractice.TcpChat

open Relation (ReflTransGen)

/-! ## One connection -/

/-- Where a client is. -/
inductive Stage
  /-- Before `accept`. -/
  | waiting
  /-- In the table. -/
  | served
  /-- Closed by `handle_new_connection`. -/
  | refused
  /-- Disconnected by `handle_client_data`. -/
  | gone

/-- A connection with its history. -/
structure Session where
  stage : Stage
  sent : List UInt8
  rx : List UInt8
  fin : Bool
  /-- What `read_all` has read, when it reads from this client. -/
  reading : Option (List UInt8)
  logged : List (List UInt8)

namespace Session

def init : Session := ⟨.waiting, [], [], false, none, []⟩

/-- What can happen to a connection that is not reset. -/
inductive Step (s : Session) : Session → Prop
  | send (bytes : List UInt8) (alive : s.fin = false) :
      Step s { s with sent := s.sent ++ bytes, rx := s.rx ++ bytes }
  | close : Step s { s with fin := true }
  | accept (hstage : s.stage = .waiting) : Step s { s with stage := .served }
  | refuse (hstage : s.stage = .waiting) : Step s { s with stage := .refused }
  | start (hstage : s.stage = .served) (idle : s.reading = none) :
      Step s { s with reading := some [] }
  | read (part : List UInt8) (k : ℕ) (hpart : s.reading = some part) (hk : k ≤ s.rx.length)
      (hlt : part.length + k < packetSize) :
      Step s { s with rx := s.rx.drop k, reading := some (part ++ s.rx.take k) }
  | packet (part : List UInt8) (k : ℕ) (hpart : s.reading = some part) (hk : k ≤ s.rx.length)
      (hfull : part.length + k = packetSize) :
      Step s { s with
        rx := s.rx.drop k, reading := none, logged := s.logged ++ [part ++ s.rx.take k] }
  /-- At the end of the stream the part of a packet is taken for a whole one. -/
  | short (part packet : List UInt8) (hpart : s.reading = some part) (hne : part ≠ [])
      (hend : s.rx = [] ∧ s.fin = true) (hlen : packet.length = packetSize)
      (htake : packet.take part.length = part) :
      Step s { s with reading := none, logged := s.logged ++ [packet] }
  | leave (hpart : s.reading = some []) (hend : s.rx = [] ∧ s.fin = true) :
      Step s { s with stage := .gone, reading := none }

/-- The stream ends in the first `r` bytes of the last packet logged. -/
def Short (s : Session) : Prop :=
  ∃ full packet r, s.logged = full ++ [packet] ∧ 0 < r ∧ r < packetSize ∧
    s.sent = full.flatten ++ packet.take r

/-- Where the bytes sent are. -/
structure Inv (s : Session) : Prop where
  whole : ∀ packet ∈ s.logged, packet.length = packetSize
  part : ∀ part, s.reading = some part → s.stage = .served ∧ part.length < packetSize
  waiting : s.stage = .waiting → s.logged = [] ∧ s.rx = s.sent
  served : s.stage = .served → s.sent = s.logged.flatten ++ s.reading.getD [] ++ s.rx ∨
    (s.fin = true ∧ s.rx = [] ∧ s.reading.getD [] = [] ∧ s.Short)
  gone : s.stage = .gone → s.fin = true ∧ (s.sent = s.logged.flatten ∨ s.Short)

theorem inv_init : init.Inv where
  whole := fun packet hpacket => absurd hpacket List.not_mem_nil
  part := fun part hpart => by cases hpart
  waiting := fun _ => ⟨rfl, rfl⟩
  served := fun hstage => by cases hstage
  gone := fun hstage => by cases hstage

/-- Nothing is read for a client that is not served. -/
theorem Inv.idle {s : Session} (h : s.Inv) (hstage : s.stage ≠ .served) : s.reading = none :=
  Option.eq_none_iff_forall_ne_some.2 fun part hpart => hstage (h.part part hpart).1

/-- What is being read is followed by what is not read yet, unless the stream is over. -/
theorem Inv.reading {s : Session} (h : s.Inv) {part : List UInt8} (hpart : s.reading = some part) :
    s.sent = s.logged.flatten ++ part ++ s.rx ∨
      (s.fin = true ∧ s.rx = [] ∧ part = [] ∧ s.Short) := by
  have hserved := h.served (h.part part hpart).1
  rw [hpart] at hserved
  exact hserved

theorem Inv.step {s s' : Session} (h : s.Inv) (hs : Step s s') : s'.Inv := by
  cases hs with
  | send bytes alive =>
    have hopen : ¬ s.fin = true := by rw [alive]; exact Bool.false_ne_true
    refine ⟨h.whole, h.part, fun hstage => ?_, fun hstage => Or.inl ?_, fun hstage => ?_⟩
    · obtain ⟨hlogged, hrx⟩ := h.waiting hstage
      exact ⟨hlogged, by rw [hrx]⟩
    · rcases h.served hstage with hall | ⟨hfin, -⟩
      · change s.sent ++ bytes = s.logged.flatten ++ s.reading.getD [] ++ (s.rx ++ bytes)
        rw [hall, List.append_assoc]
      · exact absurd hfin hopen
    · exact absurd (h.gone hstage).1 hopen
  | close =>
    refine ⟨h.whole, h.part, h.waiting, fun hstage => ?_, fun hstage => ⟨rfl, (h.gone hstage).2⟩⟩
    exact (h.served hstage).imp_right fun hshort => ⟨rfl, hshort.2⟩
  | accept hstage =>
    have hidle := h.idle (by rw [hstage]; exact Stage.noConfusion)
    obtain ⟨hlogged, hrx⟩ := h.waiting hstage
    refine ⟨h.whole, fun part hpart => ?_, fun h' => ?_, fun _ => Or.inl ?_, fun h' => ?_⟩
    · rw [hidle] at hpart
      cases hpart
    · cases h'
    · change s.sent = s.logged.flatten ++ s.reading.getD [] ++ s.rx
      rw [hidle, hlogged, hrx]
      rfl
    · cases h'
  | refuse hstage =>
    have hidle := h.idle (by rw [hstage]; exact Stage.noConfusion)
    refine ⟨h.whole, fun part hpart => ?_, fun h' => ?_, fun h' => ?_, fun h' => ?_⟩
    · rw [hidle] at hpart
      cases hpart
    all_goals cases h'
  | start hstage idle =>
    refine ⟨h.whole, fun part hpart => ?_, h.waiting, fun _ => ?_, h.gone⟩
    · obtain rfl := Option.some.inj hpart
      exact ⟨hstage, packetSize_pos⟩
    · have hserved := h.served hstage
      rw [idle] at hserved
      exact hserved
  | read part k hpart hk hlt =>
    obtain ⟨hstage, -⟩ := h.part part hpart
    refine ⟨h.whole, fun part' hpart' => ?_, fun h' => ?_, fun _ => ?_, fun h' => ?_⟩
    · obtain rfl := Option.some.inj hpart'
      rw [List.length_append, List.length_take, Nat.min_eq_left hk]
      exact ⟨hstage, hlt⟩
    · rw [show s.stage = .waiting from h'] at hstage
      cases hstage
    · rcases h.reading hpart with hall | ⟨hfin, hrx, hnil, hshort⟩
      · refine Or.inl ?_
        change s.sent = s.logged.flatten ++ (part ++ s.rx.take k) ++ s.rx.drop k
        rw [hall, List.append_assoc, List.append_assoc, List.append_assoc, List.take_append_drop]
      · refine Or.inr ⟨hfin, ?_, ?_, hshort⟩
        · change s.rx.drop k = []
          rw [hrx, List.drop_nil]
        · change part ++ s.rx.take k = []
          rw [hnil, hrx, List.take_nil]
          rfl
    · rw [show s.stage = .gone from h'] at hstage
      cases hstage
  | packet part k hpart hk hfull =>
    obtain ⟨hstage, hlt⟩ := h.part part hpart
    have hlen : (part ++ s.rx.take k).length = packetSize := by
      rw [List.length_append, List.length_take, Nat.min_eq_left hk, hfull]
    refine ⟨fun packet hpacket => ?_, fun part' hpart' => ?_, fun h' => ?_, fun _ => Or.inl ?_,
      fun h' => ?_⟩
    · rcases List.mem_append.1 hpacket with hpacket | hpacket
      · exact h.whole packet hpacket
      · rw [List.mem_singleton.1 hpacket, hlen]
    · cases hpart'
    · rw [show s.stage = .waiting from h'] at hstage
      cases hstage
    · change s.sent = (s.logged ++ [part ++ s.rx.take k]).flatten ++ [] ++ s.rx.drop k
      rcases h.reading hpart with hall | ⟨-, hrx, -, -⟩
      · rw [hall, List.flatten_append, List.flatten_singleton, List.append_nil]
        simp only [List.append_assoc, List.take_append_drop]
      · -- nothing is left to fill the packet with
        rw [hrx, List.length_nil] at hk
        omega
    · rw [show s.stage = .gone from h'] at hstage
      cases hstage
  | short part packet hpart hne hend hlen htake =>
    obtain ⟨hstage, hlt⟩ := h.part part hpart
    refine ⟨fun packet' hpacket' => ?_, fun part' hpart' => ?_, fun h' => ?_, fun _ => Or.inr ?_,
      fun h' => ?_⟩
    · rcases List.mem_append.1 hpacket' with hpacket' | hpacket'
      · exact h.whole packet' hpacket'
      · rw [List.mem_singleton.1 hpacket', hlen]
    · cases hpart'
    · rw [show s.stage = .waiting from h'] at hstage
      cases hstage
    · refine ⟨hend.2, hend.1, rfl, s.logged, packet, part.length, rfl, ?_, hlt, ?_⟩
      · exact List.length_pos_iff.2 hne
      · rcases h.reading hpart with hall | ⟨-, -, hnil, -⟩
        · rw [htake]
          exact hall.trans (by rw [hend.1, List.append_nil])
        · exact absurd hnil hne
    · rw [show s.stage = .gone from h'] at hstage
      cases hstage
  | leave hpart hend =>
    refine ⟨h.whole, fun part' hpart' => ?_, fun h' => ?_, fun h' => ?_, fun _ => ⟨hend.2, ?_⟩⟩
    · cases hpart'
    · cases h'
    · cases h'
    · rcases h.reading hpart with hall | ⟨-, -, -, hshort⟩
      · refine Or.inl ?_
        rw [hend.1, List.append_nil, List.append_nil] at hall
        exact hall
      · exact Or.inr hshort

theorem Inv.steps {s s' : Session} (h : s.Inv) (hs : ReflTransGen Step s s') : s'.Inv := by
  induction hs with
  | refl => exact h
  | tail _ hstep ih => exact ih.step hstep

/-- Whoever is served stays so until `handle_client_data` disconnects. -/
theorem Inv.stage_steps {s s' : Session} (h : s.Inv) (hs : ReflTransGen Step s s')
    (hstage : s.stage = .served) : s'.stage = .served ∨ s'.stage = .gone := by
  induction hs with
  | refl => exact Or.inl hstage
  | tail hsteps hstep ih =>
    have hmid := h.steps hsteps
    cases hstep with
    | accept hwait => rcases ih with ih | ih <;> rw [ih] at hwait <;> cases hwait
    | refuse hwait => rcases ih with ih | ih <;> rw [ih] at hwait <;> cases hwait
    | leave => exact Or.inr rfl
    | _ => exact ih

/-! ## The slices of a stream -/

/-- The consecutive whole packets of a stream. -/
def slices (stream : List UInt8) : List (List UInt8) :=
  (List.range (stream.length / packetSize)).map fun i =>
    (stream.drop (packetSize * i)).take packetSize

theorem slices_of_lt {rest : List UInt8} (h : rest.length < packetSize) : slices rest = [] := by
  rw [slices, Nat.div_eq_of_lt h]
  rfl

theorem slices_append {packet : List UInt8} (h : packet.length = packetSize)
    (stream : List UInt8) : slices (packet ++ stream) = packet :: slices stream := by
  have hdiv : (packet ++ stream).length / packetSize = stream.length / packetSize + 1 := by
    rw [List.length_append, h, Nat.add_comm, Nat.add_div_right _ packetSize_pos]
  rw [slices, hdiv, List.range_succ_eq_map, List.map_cons, List.map_map]
  congr 1
  · rw [Nat.mul_zero, List.drop_zero, ← h, List.take_left]
  · refine List.map_congr_left fun i _ => ?_
    have hdrop : packetSize * Nat.succ i = packet.length + packetSize * i := by
      rw [Nat.mul_succ, Nat.add_comm, h]
    rw [Function.comp_apply, hdrop, ← List.drop_drop, List.drop_left]

theorem slices_flatten {packets : List (List UInt8)}
    (h : ∀ packet ∈ packets, packet.length = packetSize) {rest : List UInt8}
    (hrest : rest.length < packetSize) : slices (packets.flatten ++ rest) = packets := by
  induction packets with
  | nil => exact slices_of_lt hrest
  | cons packet packets ih =>
    rw [List.flatten_cons, List.append_assoc, slices_append (h packet List.mem_cons_self),
      ih fun packet' hpacket' => h packet' (List.mem_cons_of_mem _ hpacket')]

/-- **When the client is gone**, the packets logged are the whole ones of its stream exactly when
the stream ends with a whole packet. -/
theorem Inv.logged_eq_slices {s : Session} (h : s.Inv) (hstage : s.stage = .gone) :
    s.logged = slices s.sent ↔ packetSize ∣ s.sent.length := by
  rcases (h.gone hstage).2 with hall | ⟨full, packet, r, hlogged, hpos, hlt, hsent⟩
  · have hslices := @slices_flatten s.logged h.whole [] packetSize_pos
    rw [List.append_nil] at hslices
    rw [hall, hslices, length_flatten_of_forall h.whole]
    exact iff_of_true rfl (Nat.dvd_mul_right _ _)
  · -- the last packet logged is none of the stream
    have hwhole : ∀ packet' ∈ full, packet'.length = packetSize := fun packet' hpacket' =>
      h.whole packet' (hlogged ▸ List.mem_append_left _ hpacket')
    have hpacket : packet.length = packetSize :=
      h.whole packet (hlogged ▸ List.mem_append_right _ (List.mem_singleton_self _))
    have hrest : (packet.take r).length = r := by
      rw [List.length_take, Nat.min_eq_left (by omega)]
    rw [hlogged, hsent, slices_flatten hwhole (by omega), List.length_append,
      length_flatten_of_forall hwhole, hrest]
    refine iff_of_false (fun heq => ?_) fun hdvd => ?_
    · have := congrArg List.length heq
      rw [List.length_append, List.length_singleton] at this
      omega
    · have := Nat.le_of_dvd hpos ((Nat.dvd_add_right (Nat.dvd_mul_right _ _)).1 hdvd)
      omega

end Session

/-! ## The sessions of a run -/

namespace Process

open Server (Accept sockets_close_iff)
open Session (slices)

variable {listenFd cap : ℕ} {st st' : Process} {c : ℕ}

/-- The bytes the client `c` sends. -/
def sentBytes (c : ℕ) (as : List Action) : List UInt8 :=
  as.flatMap fun
    | .send c' bytes => if c' = c then bytes else []
    | _ => []

/-- What `read_all` has read, when it reads from the client `c`. -/
def readingOf (c : ℕ) (st : Process) : Option (List UInt8) :=
  match st.pc with
  | .readAll fd packet total =>
    if st.desc.sockets fd = some c then some (packet.take total) else none
  | _ => none

/-- The packets of the client `c` that were logged. -/
def loggedOf (c : ℕ) (st : Process) : List (List UInt8) :=
  (st.log.filter fun e => e.1 = some c).map (·.2)

/-- Where the client `c` is. -/
def Stands (c : ℕ) (st : Process) : Stage → Prop
  | .waiting => c ∈ st.backlog ∨ st.connected ≤ c
  | .served => ∃ fd, st.desc.sockets fd = some c
  | _ => c < st.connected ∧ c ∉ st.backlog ∧ ∀ fd, st.desc.sockets fd ≠ some c

/-- What there is of the connection of the client `c` in the state. -/
structure SameView (c : ℕ) (st st' : Process) : Prop where
  rx : (st'.conn c).rx = (st.conn c).rx
  fin : (st'.conn c).fin = (st.conn c).fin
  reset : (st'.conn c).reset = (st.conn c).reset
  reading : st'.readingOf c = st.readingOf c
  logged : st'.loggedOf c = st.loggedOf c
  stands : ∀ stage, st.Stands c stage → st'.Stands c stage

/-- The session `s` is that of the client `c` in the state after the actions `as`. -/
structure Shows (c : ℕ) (as : List Action) (st : Process) (s : Session) : Prop where
  stands : st.Stands c s.stage
  sent : s.sent = sentBytes c as
  rx : s.rx = (st.conn c).rx
  fin : s.fin = (st.conn c).fin
  reset : (st.conn c).reset = false
  reading : s.reading = st.readingOf c
  logged : s.logged = st.loggedOf c

theorem sentBytes_concat (c : ℕ) (as : List Action) (a : Action) :
    sentBytes c (as ++ [a]) = sentBytes c as ++ sentBytes c [a] := by
  rw [sentBytes, List.flatMap_append]
  rfl

theorem sentBytes_send (c c' : ℕ) (bytes : List UInt8) :
    sentBytes c [.send c' bytes] = if c' = c then bytes else [] := by
  simp [sentBytes]

/-- The server is not in `read_all`. -/
theorem readingOf_eq_none (h : ∀ fd packet total, st.pc ≠ .readAll fd packet total) :
    st.readingOf c = none := by
  unfold readingOf
  split
  · exact absurd ‹_› (h _ _ _)
  · rfl

/-- An action that changes nothing about the client. -/
theorem Shows.same {as : List Action} {s : Session} (h : Shows c as st s)
    (hview : SameView c st st') {a : Action} (ha : sentBytes c [a] = []) :
    Shows c (as ++ [a]) st' s where
  stands := hview.stands _ h.stands
  sent := by rw [sentBytes_concat, ha, List.append_nil, h.sent]
  rx := h.rx.trans hview.rx.symm
  fin := h.fin.trans hview.fin.symm
  reset := hview.reset.trans h.reset
  reading := h.reading.trans hview.reading.symm
  logged := h.logged.trans hview.logged.symm

/-- What another client does. -/
theorem sameView_onConn {c' : ℕ} {f : Conn → Conn} (hne : c ≠ c') :
    SameView c st (st.onConn c' f) := by
  have hconn := st.conn_onConn_of_ne hne f
  exact ⟨by rw [hconn], by rw [hconn], by rw [hconn], rfl, rfl, fun _ => id⟩

/-- The bytes written to a client say nothing about those it sent. -/
theorem sameView_tx {c' : ℕ} {f : Conn → List UInt8} :
    SameView c st (st.onConn c' fun conn => { conn with tx := f conn }) := by
  by_cases hne : c = c'
  · subst hne
    have hconn := st.conn_onConn_self c fun conn => { conn with tx := f conn }
    exact ⟨by rw [hconn], by rw [hconn], by rw [hconn], rfl, rfl, fun _ => id⟩
  · exact sameView_onConn hne

theorem SameView.trans {st'' : Process} (h : SameView c st st') (h' : SameView c st' st'') :
    SameView c st st'' :=
  ⟨h'.rx.trans h.rx, h'.fin.trans h.fin, h'.reset.trans h.reset, h'.reading.trans h.reading,
    h'.logged.trans h.logged, fun stage hstage => h'.stands stage (h.stands stage hstage)⟩

/-- The program counter moves outside of `read_all`. -/
theorem sameView_goto {pc : Pc} (h : ∀ fd packet total, st.pc ≠ .readAll fd packet total)
    (h' : ∀ fd packet total, pc ≠ .readAll fd packet total) :
    SameView c st { st with pc } := by
  refine ⟨rfl, rfl, rfl, ?_, rfl, fun _ => id⟩
  rw [readingOf_eq_none h, readingOf_eq_none h']

theorem sameView_connect :
    SameView c st
      { st with backlog := st.backlog ++ [st.connected], connected := st.connected + 1 } := by
  have hclosed : c < st.connected ∧ c ∉ st.backlog ∧ (∀ fd, st.desc.sockets fd ≠ some c) →
      c < st.connected + 1 ∧ c ∉ st.backlog ++ [st.connected] ∧
        ∀ fd, st.desc.sockets fd ≠ some c := by
    rintro ⟨hc, hback, htable⟩
    refine ⟨by omega, fun hmem => ?_, htable⟩
    rcases List.mem_append.1 hmem with hmem | hmem
    · exact hback hmem
    · rw [List.mem_singleton.1 hmem] at hc
      omega
  refine ⟨rfl, rfl, rfl, rfl, rfl, fun stage hstage => ?_⟩
  cases stage with
  | waiting =>
    rcases hstage with hback | hge
    · exact Or.inl (List.mem_append_left _ hback)
    · rcases Nat.eq_or_lt_of_le hge with rfl | hlt
      · exact Or.inl (List.mem_append_right _ (List.mem_singleton_self _))
      · exact Or.inr hlt
  | served => exact hstage
  | refused => exact hclosed hstage
  | gone => exact hclosed hstage

theorem sameView_writeStep {senderFd i total k : ℕ} {packet : List UInt8}
    (hpc : st.pc = .broadcast senderFd packet i total)
    (hs : st.writeStep cap senderFd packet i total k = some st') : SameView c st st' := by
  have hnot : ∀ fd packet total, st.pc ≠ .readAll fd packet total := by
    intro fd packet total h
    rw [hpc] at h
    cases h
  unfold writeStep at hs
  split at hs
  · obtain rfl := Option.some.inj hs
    exact sameView_goto hnot (fun _ _ _ => Pc.noConfusion)
  · split at hs
    · split at hs
      · obtain rfl := Option.some.inj hs
        exact sameView_goto hnot (fun _ _ _ => Pc.noConfusion)
      · split at hs
        · obtain rfl := Option.some.inj hs
          exact sameView_goto hnot (fun _ _ _ => Pc.noConfusion)
        · split at hs
          · obtain rfl := Option.some.inj hs
            exact sameView_tx.trans (sameView_goto hnot (fun _ _ _ => Pc.noConfusion))
          · cases hs
    · obtain rfl := Option.some.inj hs
      exact sameView_goto hnot (fun _ _ _ => Pc.noConfusion)

section

variable {as : List Action} {s : Session}

theorem Shows.served (h : Shows c as st s) (hinv : st.Inv listenFd) {fd : ℕ}
    (hfd : st.desc.sockets fd = some c) : s.stage = .served := by
  have hstands := h.stands
  cases hstage : s.stage with
  | served => rfl
  | waiting =>
    rw [hstage] at hstands
    rcases hstands with hback | hge
    · exact absurd hfd ((hinv.waiting c hback).2 fd)
    · have := hinv.accepted fd c hfd
      omega
  | refused =>
    rw [hstage] at hstands
    exact absurd hfd (hstands.2.2 fd)
  | gone =>
    rw [hstage] at hstands
    exact absurd hfd (hstands.2.2 fd)

theorem Shows.waiting (h : Shows c as st s) (hinv : st.Inv listenFd) (hback : c ∈ st.backlog) :
    s.stage = .waiting := by
  have hstands := h.stands
  cases hstage : s.stage with
  | waiting => rfl
  | served =>
    rw [hstage] at hstands
    obtain ⟨fd, hfd⟩ := hstands
    exact absurd hfd ((hinv.waiting c hback).2 fd)
  | refused =>
    rw [hstage] at hstands
    exact absurd hback hstands.2.1
  | gone =>
    rw [hstage] at hstands
    exact absurd hback hstands.2.1

/-- `handle_new_connection`, and the start of `handle_client_data`. -/
theorem Shows.eventStep (h : Shows c as st s) (hinv : st.Inv listenFd) {result : Accept}
    {stale : List UInt8} (hpc : st.pc = .loop)
    (hs : st.eventStep listenFd result stale = some st') {a : Action}
    (ha : sentBytes c [a] = []) :
    ∃ s', Shows c (as ++ [a]) st' s' ∧ ReflTransGen Session.Step s s' := by
  have hnot : ∀ fd packet total, st.pc ≠ .readAll fd packet total := by
    intro fd packet total h
    rw [hpc] at h
    cases h
  have hidle : s.reading = none := h.reading.trans (readingOf_eq_none hnot)
  have hsent : s.sent = sentBytes c (as ++ [a]) := by
    rw [sentBytes_concat, ha, List.append_nil, h.sent]
  unfold Process.eventStep at hs
  split at hs
  · cases hs
  · rename_i fd events he
    simp only at hs
    split at hs
    · split at hs
      · obtain rfl := Option.some.inj hs
        have hview : SameView c st { st with desc := { st.desc with events } } :=
          ⟨rfl, rfl, rfl, rfl, rfl, fun _ => id⟩
        exact ⟨s, h.same hview ha, .refl⟩
      · cases hs
      · rename_i new backlog hbacklog
        obtain ⟨desc, hdesc, rfl⟩ := Option.map_eq_some_iff.1 hs
        have hframe := (Descriptors.handleNewConnection_frame hdesc).2
        have hreading : { st with desc, backlog : Process }.readingOf c = none :=
          readingOf_eq_none hnot
        by_cases hnew : new = c
        · subst hnew
          have hmem : new ∈ st.backlog := hbacklog ▸ List.mem_cons_self
          have hwait := h.waiting hinv hmem
          obtain ⟨hconnected, htable⟩ := hinv.waiting new hmem
          rcases hframe with hsame | ⟨fd', -, hnew⟩
          · refine ⟨{ s with stage := .refused }, ⟨?_, hsent, h.rx, h.fin, h.reset,
              hidle.trans hreading.symm, h.logged⟩, .single (.refuse hwait)⟩
            have hnodup := hinv.backlog_nodup
            rw [hbacklog, List.nodup_cons] at hnodup
            refine ⟨hconnected, hnodup.1, fun fd' => ?_⟩
            change desc.sockets fd' ≠ some new
            rw [hsame]
            exact htable fd'
          · refine ⟨{ s with stage := .served }, ⟨⟨fd', ?_⟩, hsent, h.rx, h.fin, h.reset,
              hidle.trans hreading.symm, h.logged⟩, .single (.accept hwait)⟩
            change desc.sockets fd' = some new
            rw [hnew, Function.update_self]
        · -- another client is accepted
          have hsockets : ∀ fd', st.desc.sockets fd' = some c → desc.sockets fd' = some c := by
            intro fd' hfd'
            rcases hframe with hsame | ⟨fd₀, hnone, hupdate⟩
            · rw [hsame]
              exact hfd'
            · have hne : fd' ≠ fd₀ := fun heq => by
                rw [heq, hnone] at hfd'
                cases hfd'
              rw [hupdate, Function.update_of_ne hne]
              exact hfd'
          have hclosed : ∀ fd', desc.sockets fd' = some c → st.desc.sockets fd' = some c := by
            intro fd' hfd'
            rcases hframe with hsame | ⟨fd₀, hnone, hupdate⟩
            · rw [hsame] at hfd'
              exact hfd'
            · have hne : fd' ≠ fd₀ := fun heq => by
                rw [heq, hupdate, Function.update_self] at hfd'
                exact hnew (Option.some.inj hfd')
              rw [hupdate, Function.update_of_ne hne] at hfd'
              exact hfd'
          have hview : SameView c st { st with desc, backlog } := by
            refine ⟨rfl, rfl, rfl, hreading.trans (readingOf_eq_none hnot).symm, rfl,
              fun stage hstage => ?_⟩
            have hout : c < st.connected ∧ c ∉ st.backlog ∧
                (∀ fd', st.desc.sockets fd' ≠ some c) →
                c < st.connected ∧ c ∉ backlog ∧ ∀ fd', desc.sockets fd' ≠ some c :=
              fun ⟨hc, hback, htable⟩ => ⟨hc, fun hmem => hback (hbacklog ▸ List.mem_cons_of_mem _
                hmem), fun fd' hfd' => htable fd' (hclosed fd' hfd')⟩
            cases stage with
            | waiting =>
              refine hstage.imp_left fun hback => ?_
              rw [hbacklog] at hback
              exact (List.mem_cons.1 hback).resolve_left fun heq => hnew heq.symm
            | served => exact hstage.imp hsockets
            | refused => exact hout hstage
            | gone => exact hout hstage
          exact ⟨s, h.same hview ha, .refl⟩
    · obtain rfl := Option.some.inj hs
      by_cases hfd : st.desc.sockets fd = some c
      · refine ⟨_, ?_, .single (.start (h.served hinv hfd) hidle)⟩
        exact ⟨h.stands, hsent, h.rx, h.fin, h.reset, (if_pos hfd).symm, h.logged⟩
      · have hview : SameView c st
            { st with desc := { st.desc with events }, pc := .readAll fd stale 0 } :=
          ⟨rfl, rfl, rfl, (if_neg hfd).trans (readingOf_eq_none hnot).symm, rfl, fun _ => id⟩
        exact ⟨s, h.same hview ha, .refl⟩

/-- The log of a client after another entry. -/
theorem loggedOf_append {e : Option ℕ} {packet : List UInt8} {pc : Pc} :
    { st with log := st.log ++ [(e, packet)], pc : Process }.loggedOf c =
      st.loggedOf c ++ if e = some c then [packet] else [] := by
  rw [loggedOf, List.filter_append, List.map_append, ← loggedOf]
  congr 1
  by_cases he : e = some c
  · rw [if_pos he, List.filter_cons_of_pos (by simpa using he)]
    rfl
  · rw [if_neg he, List.filter_cons_of_neg (by simpa using he)]
    rfl

/-- `handle_client_data` for another client. -/
theorem sameView_finishRead {fd c' : ℕ} (hfd : st.desc.sockets fd = some c') (hne : c' ≠ c)
    (hreading : st.readingOf c = none) (packet : List UInt8) (n : ℤ) (deleted : Bool) :
    SameView c st (st.finishRead fd packet n deleted) := by
  unfold finishRead
  split
  · obtain ⟨table, htable, -⟩ := st.desc.handleClientDisconnect_spec fd deleted
    rw [htable]
    refine ⟨rfl, rfl, rfl, hreading.symm, rfl, fun stage hstage => ?_⟩
    have hout : c < st.connected ∧ c ∉ st.backlog ∧ (∀ fd', st.desc.sockets fd' ≠ some c) →
        c < st.connected ∧ c ∉ st.backlog ∧
          ∀ fd', Function.update st.desc.sockets fd none fd' ≠ some c := by
      rintro ⟨hc, hback, hclosed⟩
      exact ⟨hc, hback, fun fd' hfd' => hclosed fd' (sockets_close_iff.1 hfd').2⟩
    cases stage with
    | waiting => exact hstage
    | served =>
      obtain ⟨fd', hfd'⟩ := hstage
      have hother : fd' ≠ fd := fun heq => by
        rw [heq, hfd] at hfd'
        exact hne (Option.some.inj hfd')
      exact ⟨fd', (Function.update_of_ne hother ..).trans hfd'⟩
    | refused => exact hout hstage
    | gone => exact hout hstage
  · refine ⟨rfl, rfl, rfl, hreading.symm, ?_, fun _ => id⟩
    rw [loggedOf_append, if_neg (by rw [hfd]; exact fun heq => hne (Option.some.inj heq)),
      List.append_nil]

/-- A `read` in `read_all` from another client. -/
theorem sameView_readStep {fd c' total k : ℕ} (hfd : st.desc.sockets fd = some c') (hne : c' ≠ c)
    (hreading : st.readingOf c = none) {packet : List UInt8} {deleted : Bool}
    (hs : st.readStep fd packet total k deleted = some st') : SameView c st st' := by
  rw [Process.readStep, hfd] at hs
  simp only at hs
  split at hs
  · split at hs
    · have hmoved : SameView c st (st.onConn c' fun conn => { conn with rx := conn.rx.drop k }) :=
        sameView_onConn (Ne.symm hne)
      split at hs
      · obtain rfl := Option.some.inj hs
        refine hmoved.trans ⟨rfl, rfl, rfl, ?_, rfl, fun _ => id⟩
        rw [hmoved.reading, hreading]
        exact if_neg fun heq => hne (Option.some.inj (hfd.symm.trans heq))
      · obtain rfl := Option.some.inj hs
        have hfinish := @sameView_finishRead
          (st.onConn c' fun conn => { conn with rx := conn.rx.drop k }) c fd c' hfd hne
          (hmoved.reading.trans hreading)
          (packet.take total ++ (st.conn c').rx.take k ++ packet.drop (total + k)) packetSize
          deleted
        exact hmoved.trans hfinish
    · cases hs
  · split at hs
    · obtain rfl := Option.some.inj hs
      exact sameView_finishRead hfd hne hreading _ _ _
    · split at hs
      · obtain rfl := Option.some.inj hs
        exact sameView_finishRead hfd hne hreading _ _ _
      · cases hs

/-- The client behind a descriptor that is closed has no other one. -/
theorem Inv.sockets_closed (h : st.Inv listenFd) {fd : ℕ} (hfd : st.desc.sockets fd = some c)
    (fd' : ℕ) : Function.update st.desc.sockets fd none fd' ≠ some c := fun hfd' => by
  obtain ⟨hne, hold⟩ := sockets_close_iff.1 hfd'
  exact hne (h.injective fd' fd c hold hfd)

/-- A `read` in `read_all`. -/
theorem Shows.readStep (h : Shows c as st s) (hinv : st.Inv listenFd) {fd total k : ℕ}
    {packet : List UInt8} {deleted : Bool} (hpc : st.pc = .readAll fd packet total)
    (hs : st.readStep fd packet total k deleted = some st') {a : Action}
    (ha : sentBytes c [a] = []) :
    ∃ s', Shows c (as ++ [a]) st' s' ∧ ReflTransGen Session.Step s s' := by
  have hok := hinv.pc
  rw [PcInv, hpc] at hok
  obtain ⟨-, hpacket, htotal, c', hc'⟩ := hok
  have hreading : st.readingOf c = if some c' = some c then some (packet.take total) else none := by
    unfold readingOf
    rw [hpc]
    simp only [hc']
  have hsent : s.sent = sentBytes c (as ++ [a]) := by
    rw [sentBytes_concat, ha, List.append_nil, h.sent]
  by_cases hne : c' = c
  · subst hne
    rw [Process.readStep, hc'] at hs
    simp only at hs
    rw [if_pos rfl] at hreading
    have hpart : s.reading = some (packet.take total) := h.reading.trans hreading
    have hlen : (packet.take total).length = total := by
      rw [List.length_take, Nat.min_eq_left (by omega)]
    have htake (bytes : List UInt8) (k : ℕ) (hk : k ≤ bytes.length) :
        (packet.take total ++ bytes.take k ++ packet.drop (total + k)).take (total + k) =
          packet.take total ++ bytes.take k :=
      List.take_left' (by rw [List.length_append, hlen, List.length_take, Nat.min_eq_left hk])
    split at hs
    · split at hs
      · rename_i hk
        have hkrx : k ≤ s.rx.length := by rw [h.rx]; exact hk.2.1
        have hconn := st.conn_onConn_self c' fun conn => { conn with rx := conn.rx.drop k }
        have hrx' : s.rx.drop k = ((st.onConn c' fun conn =>
            { conn with rx := conn.rx.drop k }).conn c').rx := by rw [hconn, h.rx]
        have hfin' : s.fin = ((st.onConn c' fun conn =>
            { conn with rx := conn.rx.drop k }).conn c').fin := by rw [hconn, h.fin]
        have hreset' : ((st.onConn c' fun conn =>
            { conn with rx := conn.rx.drop k }).conn c').reset = false := by rw [hconn, h.reset]
        split at hs
        · rename_i hlt
          obtain rfl := Option.some.inj hs
          have hstep := Session.Step.read (packet.take total) k hpart hkrx (by rw [hlen]; exact hlt)
          refine ⟨_, ?_, .single hstep⟩
          refine ⟨h.stands, hsent, hrx', hfin', hreset', ?_, h.logged⟩
          refine Eq.trans (congrArg some ?_) (if_pos hc').symm
          rw [h.rx, htake _ _ hk.2.1]
        · rename_i hfull
          have hfull : total + k = packetSize := by omega
          obtain rfl := Option.some.inj hs
          rw [finishRead, if_neg (by decide)]
          have hstep := Session.Step.packet (packet.take total) k hpart hkrx (by rw [hlen, hfull])
          refine ⟨_, ?_, .single hstep⟩
          refine ⟨h.stands, hsent, hrx', hfin', hreset', rfl, ?_⟩
          have hdrop : packet.drop packetSize = [] := List.drop_eq_nil_of_le hpacket.le
          rw [loggedOf_append, desc_onConn, if_pos hc', hfull, hdrop, List.append_nil, h.rx]
          exact congrArg (· ++ _) h.logged
      · cases hs
    · rename_i hrx
      split at hs
      · rename_i hreset
        rw [h.reset] at hreset
        cases hreset
      · split at hs
        · rename_i hfin
          have hend : s.rx = [] ∧ s.fin = true := by
            rw [h.rx, h.fin]
            exact ⟨not_not.1 hrx, hfin⟩
          obtain rfl := Option.some.inj hs
          by_cases hzero : total = 0
          · -- nothing was read: the client is disconnected
            subst hzero
            obtain ⟨table, htable, -⟩ := st.desc.handleClientDisconnect_spec fd deleted
            rw [finishRead, if_pos (by decide), htable]
            refine ⟨_, ?_, .single (.leave hpart hend)⟩
            have hback : c' ∉ st.backlog := fun hback => (hinv.waiting c' hback).2 fd hc'
            exact ⟨⟨hinv.accepted fd c' hc', hback, hinv.sockets_closed hc'⟩, hsent, h.rx, h.fin,
              h.reset, rfl, h.logged⟩
          · -- the part that was read is taken for a packet
            have hne : packet.take total ≠ [] := by
              rw [← List.length_pos_iff, hlen]
              omega
            rw [finishRead, if_neg (by omega)]
            have hstep := Session.Step.short (packet.take total) packet hpart hne hend hpacket
              (by rw [hlen])
            refine ⟨_, ?_, .single hstep⟩
            refine ⟨h.stands, hsent, h.rx, h.fin, h.reset, rfl, ?_⟩
            rw [loggedOf_append, if_pos hc', h.logged]
        · cases hs
  · -- the server reads from another client
    rw [if_neg fun heq => hne (Option.some.inj heq)] at hreading
    exact ⟨s, h.same (sameView_readStep hc' hne hreading hs) ha, .refl⟩

theorem shows_init (c : ℕ) : Shows c [] init .init where
  stands := Or.inr (Nat.zero_le c)
  sent := rfl
  rx := rfl
  fin := rfl
  reset := rfl
  reading := rfl
  logged := rfl

theorem Shows.step (h : Shows c as st s) (hinv : st.Inv listenFd) {a : Action}
    (hreset : ∀ kept, a ≠ .reset c kept) (hs : step listenFd cap st a = some st') :
    ∃ s', Shows c (as ++ [a]) st' s' ∧ ReflTransGen Session.Step s s' := by
  cases a with
  | connect =>
    obtain rfl := Option.some.inj hs
    exact ⟨s, h.same sameView_connect rfl, .refl⟩
  | send c' bytes =>
    obtain ⟨hc, hs⟩ := Option.ite_none_right_eq_some.1 hs
    obtain rfl := Option.some.inj hs
    by_cases hne : c = c'
    · subst hne
      have hconn := st.conn_onConn_self c fun conn => { conn with rx := conn.rx ++ bytes }
      refine ⟨_, ?_, .single (.send bytes (h.fin.trans hc.2.1))⟩
      refine ⟨h.stands, ?_, ?_, ?_, ?_, h.reading, h.logged⟩
      · rw [sentBytes_concat, sentBytes_send, if_pos rfl, h.sent]
      · rw [hconn, h.rx]
      · rw [hconn, h.fin]
      · rw [hconn, h.reset]
    · exact ⟨s, h.same (sameView_onConn hne)
        ((sentBytes_send c c' bytes).trans (if_neg (Ne.symm hne))), .refl⟩
  | recv c' k =>
    obtain ⟨-, hs⟩ := Option.ite_none_right_eq_some.1 hs
    obtain rfl := Option.some.inj hs
    exact ⟨s, h.same sameView_tx rfl, .refl⟩
  | close c' =>
    obtain ⟨-, hs⟩ := Option.ite_none_right_eq_some.1 hs
    obtain rfl := Option.some.inj hs
    by_cases hne : c = c'
    · subst hne
      have hconn := st.conn_onConn_self c fun conn => { conn with fin := true }
      refine ⟨_, ?_, .single .close⟩
      refine ⟨h.stands, ?_, ?_, ?_, ?_, h.reading, h.logged⟩
      · exact h.sent.trans (by rw [sentBytes_concat]; exact (List.append_nil _).symm)
      · rw [hconn, h.rx]
      · rw [hconn]
      · rw [hconn, h.reset]
    · exact ⟨s, h.same (sameView_onConn hne) rfl, .refl⟩
  | reset c' kept =>
    obtain ⟨-, hs⟩ := Option.ite_none_right_eq_some.1 hs
    obtain rfl := Option.some.inj hs
    have hne : c ≠ c' := fun heq => hreset kept (by rw [heq])
    exact ⟨s, h.same (sameView_onConn hne) rfl, .refl⟩
  | wait batch =>
    rw [Process.step] at hs
    split at hs
    · obtain ⟨-, hs⟩ := Option.ite_none_right_eq_some.1 hs
      obtain rfl := Option.some.inj hs
      have hview : SameView c st { st with desc := { st.desc with events := batch } } :=
        ⟨rfl, rfl, rfl, rfl, rfl, fun _ => id⟩
      exact ⟨s, h.same hview rfl, .refl⟩
    · cases hs
  | event result stale =>
    rw [Process.step] at hs
    split at hs
    · obtain ⟨-, hs⟩ := Option.ite_none_right_eq_some.1 hs
      exact h.eventStep hinv ‹_› hs rfl
    · cases hs
  | call k deleted =>
    rw [Process.step] at hs
    split at hs
    · exact h.readStep hinv ‹_› hs rfl
    · exact ⟨s, h.same (sameView_writeStep ‹_› hs) rfl, .refl⟩
    · cases hs

/-- **The session goes on** with the run. -/
theorem Shows.run (h : Shows c as st s) (hinv : st.Inv listenFd) {bs : List Action}
    (hreset : ∀ kept, .reset c kept ∉ bs)
    (hrun : runFrom (Process.step listenFd cap) st bs = some st') :
    ∃ s', Shows c (as ++ bs) st' s' ∧ ReflTransGen Session.Step s s' := by
  induction bs generalizing as st s with
  | nil =>
    obtain rfl := Option.some.inj hrun
    rw [List.append_nil]
    exact ⟨s, h, .refl⟩
  | cons a bs ih =>
    rw [runFrom_cons] at hrun
    obtain ⟨mid, hmid, hrun⟩ := Option.bind_eq_some_iff.1 hrun
    have ha : ∀ kept, a ≠ .reset c kept := fun kept heq =>
      hreset kept (heq ▸ List.mem_cons_self)
    obtain ⟨s₁, h₁, hs₁⟩ := h.step hinv ha hmid
    obtain ⟨s₂, h₂, hs₂⟩ := ih h₁ (hinv.step hmid)
      (fun kept hmem => hreset kept (List.mem_cons_of_mem _ hmem)) hrun
    rw [List.append_assoc] at h₂
    exact ⟨s₂, h₂, hs₁.trans hs₂⟩

end

theorem exists_session {as : List Action} (h : runFrom (step listenFd cap) init as = some st)
    (hreset : ∀ kept, .reset c kept ∉ as) :
    ∃ s, Shows c as st s ∧ ReflTransGen Session.Step .init s :=
  (shows_init c).run (inv_init listenFd) hreset h

/-! ## What is broadcast -/

/-- The packet that is broadcast was logged. -/
def Logged (st : Process) : Prop :=
  ∀ fd packet i total, st.pc = .broadcast fd packet i total → (st.desc.sockets fd, packet) ∈ st.log

theorem logged_of_pc (h : ∀ fd packet i total, st.pc ≠ .broadcast fd packet i total) : st.Logged :=
  fun fd packet i total hpc => absurd hpc (h fd packet i total)

theorem logged_finishRead (fd : ℕ) (packet : List UInt8) (n : ℤ) (deleted : Bool) :
    (st.finishRead fd packet n deleted).Logged ∧
      st.log <+: (st.finishRead fd packet n deleted).log := by
  unfold finishRead
  split
  · exact ⟨logged_of_pc fun _ _ _ _ => Pc.noConfusion, List.prefix_rfl⟩
  · refine ⟨fun fd' packet' i total hpc => ?_, List.prefix_append _ _⟩
    obtain ⟨rfl, rfl, -, -⟩ := Pc.broadcast.inj hpc
    exact List.mem_append_right _ (List.mem_singleton_self _)

theorem logged_readStep {fd total k : ℕ} {packet : List UInt8} {deleted : Bool}
    (hs : st.readStep fd packet total k deleted = some st') : st'.Logged ∧ st.log <+: st'.log := by
  unfold Process.readStep at hs
  split at hs
  · obtain rfl := Option.some.inj hs
    exact logged_finishRead ..
  · simp only at hs
    split at hs
    · split at hs
      · split at hs
        · obtain rfl := Option.some.inj hs
          exact ⟨logged_of_pc fun _ _ _ _ => Pc.noConfusion, List.prefix_rfl⟩
        · obtain rfl := Option.some.inj hs
          exact logged_finishRead ..
      · cases hs
    · split at hs
      · obtain rfl := Option.some.inj hs
        exact logged_finishRead ..
      · split at hs
        · obtain rfl := Option.some.inj hs
          exact logged_finishRead ..
        · cases hs

theorem Logged.writeStep (h : st.Logged) {senderFd i total k : ℕ} {packet : List UInt8}
    (hpc : st.pc = .broadcast senderFd packet i total)
    (hs : st.writeStep cap senderFd packet i total k = some st') :
    st'.Logged ∧ st.log <+: st'.log := by
  have hentry := h senderFd packet i total hpc
  unfold Process.writeStep at hs
  split at hs
  · obtain rfl := Option.some.inj hs
    exact ⟨logged_of_pc fun _ _ _ _ => Pc.noConfusion, List.prefix_rfl⟩
  · have hnext (st₁ : Process) (hsockets : st₁.desc.sockets = st.desc.sockets)
        (hlog : st₁.log = st.log) (i' total' : ℕ) :
        { st₁ with pc := .broadcast senderFd packet i' total' : Process }.Logged := by
      intro fd' packet' i total hpc'
      obtain ⟨rfl, rfl, -, -⟩ := Pc.broadcast.inj hpc'
      change (st₁.desc.sockets senderFd, packet) ∈ st₁.log
      rw [hsockets, hlog]
      exact hentry
    split at hs
    · split at hs
      · obtain rfl := Option.some.inj hs
        exact ⟨hnext st rfl rfl _ _, List.prefix_rfl⟩
      · split at hs
        · obtain rfl := Option.some.inj hs
          exact ⟨logged_of_pc fun _ _ _ _ => Pc.noConfusion, List.prefix_rfl⟩
        · split at hs
          · obtain rfl := Option.some.inj hs
            exact ⟨hnext (st.onConn ..) rfl rfl _ _, List.prefix_rfl⟩
          · cases hs
    · obtain rfl := Option.some.inj hs
      exact ⟨hnext st rfl rfl _ _, List.prefix_rfl⟩

theorem logged_eventStep {result : Accept} {stale : List UInt8} (hpc : st.pc = .loop)
    (hs : st.eventStep listenFd result stale = some st') : st'.Logged ∧ st.log <+: st'.log := by
  have hloop : ∀ fd packet i total, st.pc ≠ .broadcast fd packet i total := by
    intro fd packet i total h
    rw [hpc] at h
    cases h
  unfold Process.eventStep at hs
  split at hs
  · cases hs
  · simp only at hs
    split at hs
    · split at hs
      · obtain rfl := Option.some.inj hs
        exact ⟨logged_of_pc hloop, List.prefix_rfl⟩
      · cases hs
      · obtain ⟨desc, -, rfl⟩ := Option.map_eq_some_iff.1 hs
        exact ⟨logged_of_pc hloop, List.prefix_rfl⟩
    · obtain rfl := Option.some.inj hs
      exact ⟨logged_of_pc fun _ _ _ _ => Pc.noConfusion, List.prefix_rfl⟩

theorem Logged.step (h : st.Logged) {a : Action}
    (hs : Process.step listenFd cap st a = some st') :
    st'.Logged ∧ st.log <+: st'.log := by
  cases moves_of_step hs with
  | connect => exact ⟨h, List.prefix_rfl⟩
  | client => exact ⟨h, List.prefix_rfl⟩
  | wait => exact ⟨h, List.prefix_rfl⟩
  | event hpc _ hs => exact logged_eventStep hpc hs
  | read _ hs => exact logged_readStep hs
  | write hpc hs => exact h.writeStep hpc hs

theorem Logged.run (h : st.Logged) {as : List Action}
    (hrun : runFrom (Process.step listenFd cap) st as = some st') :
    st'.Logged ∧ st.log <+: st'.log :=
  runFrom_invariant (P := fun st' => st'.Logged ∧ st.log <+: st'.log)
    (fun _ _ _ hst hs => (hst.1.step hs).imp_right hst.2.trans) ⟨h, List.prefix_rfl⟩ hrun

/-- **Whatever is broadcast of a client** at any time is one of the packets logged by the end. -/
theorem mem_loggedOf {bs ds : List Action} (hbs : runFrom (step listenFd cap) init bs = some st)
    (hds : runFrom (step listenFd cap) st ds = some st') {fd i total : ℕ} {packet : List UInt8}
    (hpc : st.pc = .broadcast fd packet i total) (hfd : st.desc.sockets fd = some c) :
    packet ∈ st'.loggedOf c := by
  have hinit : init.Logged := logged_of_pc fun _ _ _ _ => Pc.noConfusion
  have hlogged := (hinit.run hbs).1
  have hentry := (hlogged.run hds).2.subset (hlogged fd packet i total hpc)
  rw [hfd] at hentry
  exact List.mem_map_of_mem (List.mem_filter.2 ⟨hentry, decide_eq_true rfl⟩)

/-! ## The stream of a client that has closed its side -/

/-- What is made of the stream of the client `c`, in a run that ends with `st`. -/
structure Forwards (listenFd cap c : ℕ) (as : List Action) (st : Process) : Prop where
  logged : st.loggedOf c = slices (sentBytes c as)
  broadcast : ∀ bs ds st', as = bs ++ ds → runFrom (step listenFd cap) init bs = some st' →
    ∀ fd packet i total, st'.pc = .broadcast fd packet i total → st'.desc.sockets fd = some c →
      packet ∈ slices (sentBytes c as)
  /-- The closed connection is reported, and disconnected when nothing of it is left to read. -/
  disconnected : ∀ bs ds st' fd, as = bs ++ ds → runFrom (step listenFd cap) init bs = some st' →
    st'.desc.sockets fd = some c → (st'.conn c).fin = true →
      st'.Ready listenFd fd ∧ ∀ packet k deleted st'', st'.pc = .readAll fd packet 0 →
        (st'.conn c).rx = [] → step listenFd cap st' (.call k deleted) = some st'' →
          ∀ fd', st''.desc.sockets fd' ≠ some c

theorem Inv.ready (h : st.Inv listenFd) {fd : ℕ} (hfd : st.desc.sockets fd = some c)
    (hfin : (st.conn c).fin = true) : st.Ready listenFd fd :=
  Or.inr ⟨(h.desc.registered fd).2 ((h.desc.mem_iff fd).2 ⟨c, hfd⟩), c, hfd, Or.inr (Or.inl hfin)⟩

theorem Inv.disconnected (h : st.Inv listenFd) {fd k : ℕ} {packet : List UInt8} {deleted : Bool}
    (hfd : st.desc.sockets fd = some c) (hfin : (st.conn c).fin = true)
    (hpc : st.pc = .readAll fd packet 0) (hrx : (st.conn c).rx = [])
    (hs : Process.step listenFd cap st (.call k deleted) = some st') (fd' : ℕ) :
    st'.desc.sockets fd' ≠ some c := by
  have hclosed (n : ℤ) (hn : n ≤ 0) :
      (st.finishRead fd packet n deleted).desc.sockets fd' ≠ some c := by
    obtain ⟨table, htable, -⟩ := st.desc.handleClientDisconnect_spec fd deleted
    rw [Process.finishRead, if_pos hn, htable]
    exact h.sockets_closed hfd fd'
  rw [Process.step, hpc] at hs
  simp only [Process.readStep, hfd, hrx, ne_eq, not_true_eq_false, if_false, hfin, if_true] at hs
  split at hs <;> obtain rfl := Option.some.inj hs
  · exact hclosed _ (by decide)
  · exact hclosed _ (by decide)

/-- **Only whole packets are forwarded** of a client that was served to the end of its stream
exactly when the stream is made of whole packets. -/
theorem forwards_iff {bs ds : List Action} {fd : ℕ}
    (hbs : runFrom (step listenFd cap) init bs = some st)
    (hds : runFrom (step listenFd cap) st ds = some st') (hserved : st.desc.sockets fd = some c)
    (hgone : ∀ fd, st'.desc.sockets fd ≠ some c) (hreset : ∀ kept, .reset c kept ∉ bs ++ ds) :
    Forwards listenFd cap c (bs ++ ds) st' ↔ packetSize ∣ (sentBytes c (bs ++ ds)).length := by
  have hinv := inv_of_run hbs
  obtain ⟨s, hshow, hs⟩ := exists_session (c := c) hbs fun kept hmem =>
    hreset kept (List.mem_append_left _ hmem)
  obtain ⟨s', hshow', hs'⟩ := hshow.run hinv
    (fun kept hmem => hreset kept (List.mem_append_right _ hmem)) hds
  have hstage : s'.stage = .gone := by
    refine ((Session.inv_init.steps hs).stage_steps hs' (hshow.served hinv hserved)).resolve_left
      fun hstage => ?_
    have hstands := hshow'.stands
    rw [hstage] at hstands
    obtain ⟨fd', hfd'⟩ := hstands
    exact hgone fd' hfd'
  have hslices := ((Session.inv_init.steps hs).steps hs').logged_eq_slices hstage
  rw [hshow'.logged, hshow'.sent] at hslices
  rw [← hslices]
  refine ⟨Forwards.logged, fun hlogged => ⟨hlogged, ?_, ?_⟩⟩
  · intro bs' ds' st₁ hsplit hbs' fd packet i total hpc hfd
    have hrun : runFrom (step listenFd cap) init (bs ++ ds) = some st' := by
      rw [runFrom_append, hbs]
      exact hds
    rw [hsplit, runFrom_append, hbs'] at hrun
    rw [← hlogged]
    exact mem_loggedOf hbs' hrun hpc hfd
  · intro bs' ds' st₁ fd' _ hbs' hfd hfin
    have hinv' := inv_of_run hbs'
    exact ⟨hinv'.ready hfd hfin, fun packet k deleted st₂ hpc hrx hstep =>
      hinv'.disconnected hfd hfin hpc hrx hstep⟩

/-- Two clients are accepted. -/
def twoClients : List Action :=
  [.connect, .wait [3], .event (.socket 5 true) (List.replicate packetSize 0), .connect,
    .wait [3], .event (.socket 6 true) (List.replicate packetSize 0)]

/-- The first client sends the bytes and closes its side; the server reads them, writes a packet to
the other client, and disconnects the first one. -/
def sendAndClose (bytes : List UInt8) (calls : List Action) : List Action :=
  [.send 0 bytes, .close 0, .wait [5], .event .error (List.replicate packetSize 0)] ++ calls ++
    [.call 0 true, .call packetSize true, .call 0 true, .call 0 true, .wait [5],
      .event .error (List.replicate packetSize 0), .call 0 true]

theorem gone_update (fd : ℕ) :
    Function.update (Function.update (Function.update (fun _ => none) 5 (some 0)) 6 (some 1)) 5 none
      fd ≠ some 0 := by
  intro h
  by_cases h5 : fd = 5
  · rw [h5, Function.update_self] at h
    cases h
  · rw [Function.update_of_ne h5] at h
    by_cases h6 : fd = 6
    · rw [h6, Function.update_self] at h
      cases h
    · rw [Function.update_of_ne h6, Function.update_of_ne h5] at h
      cases h

set_option maxRecDepth 20000 in
theorem forwards_whole : ∃ st st', runFrom (step 3 65536) init twoClients = some st ∧
    runFrom (step 3 65536) st
      (sendAndClose (List.replicate packetSize 1) [.call packetSize true]) = some st' ∧
    Forwards 3 65536 0
      (twoClients ++ sendAndClose (List.replicate packetSize 1) [.call packetSize true]) st' := by
  have hbs : runFrom (step 3 65536) init twoClients = some _ := rfl
  refine ⟨_, _, hbs, rfl, (@forwards_iff 3 65536 _ _ 0 _ _ 5 hbs rfl rfl gone_update ?_).2 ?_⟩
  · intro kept hmem
    simp [twoClients, sendAndClose] at hmem
  · exact ⟨1, rfl⟩

set_option maxRecDepth 20000 in
/-- One byte and the end of the stream become a packet of `1320` bytes at the other client. -/
theorem not_forwards_part : ∃ st, runFrom (step 3 65536) init
      (twoClients ++ sendAndClose [1] [.call 1 true, .call 0 true]) = some st ∧
    (∀ fd, st.desc.sockets fd ≠ some 0) ∧
    (sentBytes 0 (twoClients ++ sendAndClose [1] [.call 1 true, .call 0 true])).length = 1 ∧
    (st.conn 1).tx.length = packetSize ∧
    ¬ Forwards 3 65536 0 (twoClients ++ sendAndClose [1] [.call 1 true, .call 0 true]) st := by
  refine ⟨_, rfl, gone_update, rfl, rfl, fun h => ?_⟩
  have hlen := congrArg List.length h.logged
  cases hlen

end Process

end EltexPractice.TcpChat
