import EltexPractice.Foundations.Entries
import EltexPractice.Foundations.Fairness
import EltexPractice.TcpChat.Process

/-!
# Packets over a stream

`write_all` and `read_all` of `common.c` at the two ends of one connection. The sender hands packet
after packet to `write_all`, the receiver calls `read_all` for a packet until it returns nothing.
The connection holds at most `cap` bytes; `write` and `read` move any part of what they could, wait
when they can move nothing, or are interrupted; the sender closes the connection at any time, also
inside a packet. A schedule says whose turn it is and how much is moved.

* `Link.Inv`: what was written is what the calls of `read_all` have returned, then what the call
  that runs has in `buf`, then what is under way.
* `Link.Framed`: the `k`-th call returns the `k`-th packet, and the call behind the last whole one
  the bytes left over.
* `packets_framed`: this holds under every schedule, and every schedule that does not interrupt an
  end for ever ends both loops.
-/

namespace EltexPractice.TcpChat

/-! ## The loops -/

/-- What `read` or `write` answers. -/
inductive Answer
  /-- `-1`, with `EINTR` in `errno`. -/
  | interrupted
  /-- `-1`, with another error in `errno`. -/
  | failed
  /-- A number of bytes. -/
  | count (n : ℕ)

/-- Where a loop over `total` is. -/
inductive Loop
  | running (total : ℕ)
  | returned (value : ℤ)

/-- `while (total < size)`, with the `return total` behind it. -/
def Loop.check (size total : ℕ) : Loop := if total < size then .running total else .returned total

/-- One turn of the loop of `read_all`. -/
def readAllTurn (size total : ℕ) : Answer → Loop
  | .interrupted => .check size total
  | .failed => .returned (-1)
  | .count n => if n = 0 then .returned total else .check size (total + n)

/-- One turn of the loop of `write_all`. -/
def writeAllTurn (size total : ℕ) : Answer → Loop
  | .interrupted => .check size total
  | .failed => .returned (-1)
  | .count n => .check size (total + n)

/-- A `read` to `ptr + total`. -/
def place (buf : List UInt8) (total : ℕ) (bytes : List UInt8) : List UInt8 :=
  buf.take total ++ bytes ++ buf.drop (total + bytes.length)

theorem length_place {buf bytes : List UInt8} {total : ℕ}
    (h : total + bytes.length ≤ buf.length) : (place buf total bytes).length = buf.length := by
  simp only [place, List.length_append, List.length_take, List.length_drop]
  omega

theorem take_place {buf bytes : List UInt8} {total : ℕ} (h : total ≤ buf.length) :
    (place buf total bytes).take (total + bytes.length) = buf.take total ++ bytes := by
  refine List.take_left' ?_
  rw [List.length_append, List.length_take, Nat.min_eq_left h]

/-- The server's `read_all` takes these turns. -/
theorem Process.readStep_eq (st : Process) {fd c total k : ℕ} {packet : List UInt8} (deleted : Bool)
    (hc : st.desc.sockets fd = some c) (hpos : 0 < k) (hrx : k ≤ (st.conn c).rx.length)
    (hle : total + k ≤ packetSize) :
    st.readStep fd packet total k deleted =
      let st' := st.onConn c fun conn => { conn with rx := conn.rx.drop k }
      let packet' := place packet total ((st.conn c).rx.take k)
      some (match readAllTurn packetSize total (.count k) with
        | .running total' => { st' with pc := .readAll fd packet' total' }
        | .returned value => st'.finishRead fd packet' value deleted) := by
  have hne : (st.conn c).rx ≠ [] := List.ne_nil_of_length_pos (by omega)
  have hk : 0 < k ∧ k ≤ (st.conn c).rx.length ∧ total + k ≤ packetSize := ⟨hpos, hrx, hle⟩
  have hlen : ((st.conn c).rx.take k).length = k := by rw [List.length_take, Nat.min_eq_left hrx]
  simp only [Process.readStep, hc, if_pos hne, if_pos hk, readAllTurn, if_neg hpos.ne', Loop.check,
    place, hlen]
  by_cases hlt : total + k < packetSize
  · rw [if_pos hlt, if_pos hlt]
  · rw [if_neg hlt, if_neg hlt, show total + k = packetSize by omega]

/-! ## The two ends of a connection -/

/-- The bytes of a `ChatPacket`. -/
abbrev PacketBytes := { bytes : List UInt8 // bytes.length = packetSize }

/-- Packets, one behind the other. -/
def stream (packets : List PacketBytes) : List UInt8 := (packets.map Subtype.val).flatten

structure Link where
  /-- The packets to send, from the one that `write_all` was given last. -/
  sending : List PacketBytes
  /-- `total` of `write_all`. -/
  sent : ℕ
  /-- What the calls of `write_all` have returned. -/
  writes : List ℤ
  /-- The sender has not closed the connection. -/
  isOpen : Bool
  /-- What `write` has taken. -/
  written : List UInt8
  /-- Written and not read. -/
  wire : List UInt8
  /-- `buf` of `read_all`. -/
  buf : List UInt8
  /-- `total` of `read_all`; `none` when it is not called any more. -/
  reading : Option ℕ
  /-- What the calls of `read_all` have returned, and left in `buf`. -/
  reads : List (ℤ × List UInt8)

/-- Who has the next turn, and how it goes. -/
inductive Turn
  | writeInterrupted
  /-- A `write` of at most `k + 1` bytes. -/
  | write (k : ℕ)
  | close
  | readInterrupted
  /-- A `read` of at most `k + 1` bytes. -/
  | read (k : ℕ)

inductive Side
  | sender
  | receiver

/-- The turn is a call of this side that is not interrupted. -/
def Turn.By : Side → Turn → Prop
  | .sender, .write _ => True
  | .receiver, .read _ => True
  | _, _ => False

namespace Link

/-- Nothing is sent; `stale` is what the receiver's variable holds. -/
def init (packets : List PacketBytes) (stale : PacketBytes) : Link where
  sending := packets
  sent := 0
  writes := []
  isOpen := true
  written := []
  wire := []
  buf := stale.1
  reading := some 0
  reads := []

/-- `write_all` goes on, or the sender to its next packet. -/
def afterWrite (link : Link) : Loop → Link
  | .running total => { link with sent := total }
  | .returned value =>
    { link with sending := link.sending.tail, sent := 0, writes := link.writes ++ [value] }

/-- `read_all` goes on, or is called again when it has returned something. -/
def afterRead (link : Link) : Loop → Link
  | .running total => { link with reading := some total }
  | .returned value =>
    { link with
      reading := if 0 < value then some 0 else none
      reads := link.reads ++ [(value, link.buf)] }

def turn (cap : ℕ) (link : Link) : Turn → Link
  | .writeInterrupted =>
    if link.isOpen = true ∧ link.sending ≠ [] then
      link.afterWrite (writeAllTurn packetSize link.sent .interrupted)
    else link
  | .write k =>
    match link.isOpen, link.sending with
    | true, packet :: _ =>
      let n := min (min (k + 1) (packetSize - link.sent)) (cap - link.wire.length)
      if n = 0 then link  -- no room
      else
        let chunk := (packet.1.drop link.sent).take n
        let link' := { link with written := link.written ++ chunk, wire := link.wire ++ chunk }
        link'.afterWrite (writeAllTurn packetSize link.sent (.count n))
    | _, _ => link
  | .close => { link with isOpen := false }
  | .readInterrupted =>
    match link.reading with
    | some total => link.afterRead (readAllTurn packetSize total .interrupted)
    | none => link
  | .read k =>
    match link.reading with
    | some total =>
      if link.wire = [] ∧ link.isOpen = true then link  -- nothing to read
      else
        let n := min (min (k + 1) (packetSize - total)) link.wire.length
        let link' := { link with
          wire := link.wire.drop n, buf := place link.buf total (link.wire.take n) }
        link'.afterRead (readAllTurn packetSize total (.count n))
    | none => link

/-! ## What a turn can do -/

/-- The turns that move something. -/
inductive Move (link : Link) : Link → Prop
  /-- A `write` inside a packet, -/
  | write (packet : PacketBytes) (rest : List PacketBytes) (n : ℕ) (hopen : link.isOpen = true)
      (hsending : link.sending = packet :: rest) (hpos : 0 < n) (hlt : link.sent + n < packetSize) :
      Move link { link with
        written := link.written ++ (packet.1.drop link.sent).take n
        wire := link.wire ++ (packet.1.drop link.sent).take n
        sent := link.sent + n }
  /-- and the last one of a packet. -/
  | writeLast (packet : PacketBytes) (rest : List PacketBytes) (n : ℕ) (hopen : link.isOpen = true)
      (hsending : link.sending = packet :: rest) (hend : link.sent + n = packetSize) :
      Move link { link with
        written := link.written ++ (packet.1.drop link.sent).take n
        wire := link.wire ++ (packet.1.drop link.sent).take n
        sending := rest
        sent := 0
        writes := link.writes ++ [(packetSize : ℤ)] }
  | close (hopen : link.isOpen = true) : Move link { link with isOpen := false }
  /-- A `read` inside a packet, -/
  | read (total n : ℕ) (hreading : link.reading = some total) (hpos : 0 < n)
      (hwire : n ≤ link.wire.length) (hlt : total + n < packetSize) :
      Move link { link with
        wire := link.wire.drop n
        buf := place link.buf total (link.wire.take n)
        reading := some (total + n) }
  /-- and one that lets `read_all` return: it fills `buf`, or is at the end. -/
  | return (total n : ℕ) (hreading : link.reading = some total) (hwire : n ≤ link.wire.length)
      (hend : total + n = packetSize ∨ (link.isOpen = false ∧ link.wire = [])) :
      Move link { link with
        wire := link.wire.drop n
        buf := place link.buf total (link.wire.take n)
        reading := if (0 : ℤ) < (total + n : ℕ) then some 0 else none
        reads := link.reads ++ [(((total + n : ℕ) : ℤ), place link.buf total (link.wire.take n))] }

/-! ## Where the bytes are -/

/-- The bytes that the `k`-th call of `read_all` is for. -/
def slice (bytes : List UInt8) (k : ℕ) : List UInt8 :=
  (bytes.drop (packetSize * k)).take packetSize

/-- A call of `read_all` has returned these bytes. -/
structure HasRead (bytes : List UInt8) (call : ℤ × List UInt8) : Prop where
  buf_length : call.2.length = packetSize
  value : call.1 = bytes.length
  bytes : call.2.take bytes.length = bytes

/-- The sender's part: what is written and what is left are the packets. -/
structure Sent (packets : List PacketBytes) (link : Link) : Prop where
  sent_lt : link.sent < packetSize
  left : link.written ++ (stream link.sending).drop link.sent = stream packets
  writes : ∀ value ∈ link.writes, value = packetSize
  calls : link.writes.length + link.sending.length = packets.length

/-- The receiver's part: what is written and not returned is in `buf` and under way. -/
structure Received (link : Link) : Prop where
  buf_length : link.buf.length = packetSize
  reading_lt : ∀ total, link.reading = some total → total < packetSize
  left : link.written.drop (packetSize * link.reads.length) =
    link.buf.take (link.reading.getD 0) ++ link.wire
  calls : ∀ k call, link.reads[k]? = some call → HasRead (slice link.written k) call
  whole : link.isOpen = true → packetSize * link.reads.length ≤ link.written.length
  ended : link.reading = none → link.isOpen = false ∧
    link.written.length < packetSize * link.reads.length

structure Inv (packets : List PacketBytes) (link : Link) : Prop where
  sender : link.Sent packets
  receiver : link.Received

variable {packets : List PacketBytes} {link : Link} {cap : ℕ}

theorem move_write {packet : PacketBytes} {rest : List PacketBytes} (h : link.Inv packets)
    (hopen : link.isOpen = true) (hsending : link.sending = packet :: rest)
    (hroom : link.wire.length < cap) (k : ℕ) : Move link (link.turn cap (.write k)) := by
  have hsent := h.sender.sent_lt
  simp only [turn, hopen, hsending, writeAllTurn, Loop.check]
  generalize hn : min (min (k + 1) (packetSize - link.sent)) (cap - link.wire.length) = n
  rw [if_neg (by omega)]
  by_cases hlt : link.sent + n < packetSize
  · rw [if_pos hlt]
    simpa only [afterWrite, hopen, hsending] using
      Move.write packet rest n hopen hsending (by omega) hlt
  · have hend : link.sent + n = packetSize := by omega
    rw [if_neg hlt, hend]
    simpa only [afterWrite, hopen, List.tail_cons] using
      Move.writeLast packet rest n hopen hsending hend

theorem move_read {total : ℕ} (h : link.Inv packets) (hreading : link.reading = some total)
    (hwait : ¬ (link.wire = [] ∧ link.isOpen = true)) (k : ℕ) :
    Move link (link.turn cap (.read k)) := by
  have htotal := h.receiver.reading_lt total hreading
  simp only [turn, hreading, if_neg hwait, readAllTurn, Loop.check]
  generalize hn : min (min (k + 1) (packetSize - total)) link.wire.length = n
  have hwire : n ≤ link.wire.length := by omega
  by_cases hzero : n = 0
  · subst hzero
    have hempty : link.wire = [] := List.eq_nil_of_length_eq_zero (by omega)
    have hclosed : link.isOpen = false := Bool.eq_false_iff.2 fun hopen => hwait ⟨hempty, hopen⟩
    rw [if_pos rfl]
    exact .return total 0 hreading hwire (Or.inr ⟨hclosed, hempty⟩)
  · rw [if_neg hzero]
    by_cases hlt : total + n < packetSize
    · rw [if_pos hlt]
      exact .read total n hreading (by omega) hwire hlt
    · rw [if_neg hlt]
      exact .return total n hreading hwire (Or.inl (by omega))

/-- A turn that moves nothing changes nothing. -/
theorem turn_eq_or_move (h : link.Inv packets) (t : Turn) :
    link.turn cap t = link ∨ Move link (link.turn cap t) := by
  cases t with
  | writeInterrupted =>
    refine Or.inl ?_
    simp only [turn, writeAllTurn, Loop.check, if_pos h.sender.sent_lt, afterWrite, ite_self]
  | write k =>
    rcases hopen : link.isOpen with - | -
    · exact Or.inl (by simp only [turn, hopen])
    rcases hsending : link.sending with - | ⟨packet, rest⟩
    · exact Or.inl (by simp only [turn, hopen, hsending])
    by_cases hroom : link.wire.length < cap
    · exact Or.inr (move_write h hopen hsending hroom k)
    · have hfull : min (min (k + 1) (packetSize - link.sent)) (cap - link.wire.length) = 0 := by
        omega
      exact Or.inl (by simp only [turn, hopen, hsending, if_pos hfull])
  | close =>
    rcases hopen : link.isOpen with - | -
    · refine Or.inl ?_
      rw [turn, ← hopen]
    · exact Or.inr (.close hopen)
  | readInterrupted =>
    refine Or.inl ?_
    rcases hreading : link.reading with - | total
    · simp only [turn, hreading]
    · have hlt := h.receiver.reading_lt total hreading
      simp only [turn, hreading, readAllTurn, Loop.check, if_pos hlt, afterRead]
      rw [← hreading]
  | read k =>
    rcases hreading : link.reading with - | total
    · exact Or.inl (by simp only [turn, hreading])
    by_cases hwait : link.wire = [] ∧ link.isOpen = true
    · exact Or.inl (by simp only [turn, hreading, if_pos hwait])
    · exact Or.inr (move_read h hreading hwait k)

/-! ## A step keeps the bytes where they belong -/

theorem stream_cons (packet : PacketBytes) (rest : List PacketBytes) :
    stream (packet :: rest) = packet.1 ++ stream rest := rfl

theorem inv_init (packets : List PacketBytes) (stale : PacketBytes) :
    (init packets stale).Inv packets where
  sender := {
    sent_lt := packetSize_pos
    left := rfl
    writes := fun value hvalue => absurd hvalue List.not_mem_nil
    calls := Nat.zero_add _ }
  receiver := {
    buf_length := stale.2
    reading_lt := by
      rintro total ⟨⟩
      exact packetSize_pos
    left := rfl
    calls := fun k call hcall => by cases hcall
    whole := fun _ => Nat.le_refl 0
    ended := fun hended => by cases hended }

/-- What the sender's part is about. -/
theorem Sent.congr {link' : Link} (h : link.Sent packets) (hsending : link'.sending = link.sending)
    (hsent : link'.sent = link.sent) (hwrites : link'.writes = link.writes)
    (hwritten : link'.written = link.written) : link'.Sent packets := by
  refine ⟨hsent ▸ h.sent_lt, ?_, hwrites ▸ h.writes, ?_⟩
  · rw [hsending, hsent, hwritten]
    exact h.left
  · rw [hsending, hwrites]
    exact h.calls

/-- A slice that is full stays when more is written. -/
theorem slice_append {bytes : List UInt8} {k : ℕ} (h : packetSize * (k + 1) ≤ bytes.length)
    (more : List UInt8) : slice (bytes ++ more) k = slice bytes k := by
  rw [Nat.mul_succ] at h
  rw [slice, slice, List.drop_append_of_le_length (by omega), List.take_append_of_le_length]
  rw [List.length_drop]
  omega

/-- What is left after a `write`. -/
theorem Sent.write (h : link.Sent packets) {packet : PacketBytes} {rest : List PacketBytes} {n : ℕ}
    (hsending : link.sending = packet :: rest) (hn : link.sent + n ≤ packetSize) :
    link.written ++ (packet.1.drop link.sent).take n ++
      (packet.1.drop (link.sent + n) ++ stream rest) = stream packets := by
  have hpacket := packet.2
  rw [← h.left, hsending, stream_cons, List.drop_append_of_le_length (by omega),
    List.append_assoc, ← List.append_assoc (List.take _ _), ← List.drop_drop,
    List.take_append_drop]

/-- The receiver's part is kept while the connection is open and more is written. -/
theorem Received.write {link' : Link} (h : link.Received) (hopen : link.isOpen = true)
    {more : List UInt8} (hwritten : link'.written = link.written ++ more)
    (hwire : link'.wire = link.wire ++ more) (hbuf : link'.buf = link.buf)
    (hreading : link'.reading = link.reading) (hreads : link'.reads = link.reads) :
    link'.Received where
  buf_length := hbuf ▸ h.buf_length
  reading_lt := hreading ▸ h.reading_lt
  left := by
    rw [hwritten, hreads, hbuf, hreading, hwire,
      List.drop_append_of_le_length (h.whole hopen), h.left, List.append_assoc]
  calls := fun k call hcall => by
    rw [hreads] at hcall
    obtain ⟨hk, -⟩ := List.getElem?_eq_some_iff.1 hcall
    have hle : packetSize * (k + 1) ≤ link.written.length :=
      le_trans (Nat.mul_le_mul_left _ hk) (h.whole hopen)
    rw [hwritten, slice_append hle]
    exact h.calls k call hcall
  whole := fun _ => by
    rw [hwritten, hreads, List.length_append]
    exact le_trans (h.whole hopen) (Nat.le_add_right _ _)
  ended := fun hended => by
    obtain ⟨hclosed, -⟩ := h.ended (hreading ▸ hended)
    rw [hclosed] at hopen
    cases hopen

/-- A `read` moves bytes from the wire to `buf`. -/
theorem Received.read (h : link.Received) {total n : ℕ} (hreading : link.reading = some total)
    (hwire : n ≤ link.wire.length) (hle : total + n ≤ packetSize) :
    (place link.buf total (link.wire.take n)).length = packetSize ∧
      link.written.drop (packetSize * link.reads.length) =
        (place link.buf total (link.wire.take n)).take (total + n) ++ link.wire.drop n := by
  have hlen : (link.wire.take n).length = n := by rw [List.length_take, Nat.min_eq_left hwire]
  have hbuf := h.buf_length
  refine ⟨?_, ?_⟩
  · rw [length_place (by omega), hbuf]
  · have htake := @take_place link.buf (link.wire.take n) total (by omega)
    rw [hlen] at htake
    rw [htake, List.append_assoc, List.take_append_drop, h.left, hreading, Option.getD_some]

/-- Bytes that fill a slice or end the stream are the slice. -/
theorem cut_append {bytes rest : List UInt8} {size : ℕ} (hle : bytes.length ≤ size)
    (h : bytes.length = size ∨ rest = []) :
    (bytes ++ rest).take size = bytes ∧ (bytes ++ rest).drop size = rest := by
  rcases h with hfull | rfl
  · exact ⟨List.take_left' hfull, List.drop_left' hfull⟩
  · rw [List.append_nil]
    exact ⟨List.take_of_length_le hle, List.drop_of_length_le hle⟩

/-- `read_all` returns with the next slice. -/
theorem Received.return (h : link.Received) {total n : ℕ} (hreading : link.reading = some total)
    (hwire : n ≤ link.wire.length)
    (hend : total + n = packetSize ∨ (link.isOpen = false ∧ link.wire = [])) :
    ({ link with
      wire := link.wire.drop n
      buf := place link.buf total (link.wire.take n)
      reading := if (0 : ℤ) < (total + n : ℕ) then some 0 else none
      reads := link.reads ++ [(((total + n : ℕ) : ℤ), place link.buf total (link.wire.take n))] } :
        Link).Received := by
  have htotal := h.reading_lt total hreading
  have hn : total + n ≤ packetSize := by
    rcases hend with hfull | ⟨-, hempty⟩
    · exact hfull.le
    · rw [hempty, List.length_nil] at hwire
      omega
  obtain ⟨hbuf, hleft⟩ := h.read hreading hwire hn
  have hpos := packetSize_pos
  have hpart : ((place link.buf total (link.wire.take n)).take (total + n)).length = total + n := by
    rw [List.length_take, hbuf, Nat.min_eq_left hn]
  have hlen := congrArg List.length hleft
  rw [List.length_append, hpart, List.length_drop, List.length_drop] at hlen
  have hnext : packetSize * (link.reads.length + 1) = packetSize * link.reads.length + packetSize :=
    Nat.mul_succ _ _
  obtain ⟨htake, hdrop⟩ := cut_append (hpart.le.trans hn) (hend.imp hpart.trans fun hclosed =>
    show link.wire.drop n = [] by rw [hclosed.2, List.drop_nil])
  have hslice : slice link.written link.reads.length =
      (place link.buf total (link.wire.take n)).take (total + n) := by
    rw [slice, hleft, htake]
  have hrest : link.written.drop (packetSize * (link.reads.length + 1)) = link.wire.drop n := by
    rw [hnext, ← List.drop_drop, hleft, hdrop]
  refine ⟨hbuf, fun total' htotal' => ?_, ?_, fun k call hcall => ?_, fun hopen => ?_,
    fun hended => ?_⟩
  · dsimp only at htotal'
    split at htotal'
    · obtain rfl := Option.some.inj htotal'
      exact hpos
    · cases htotal'
  · have hzero : (if (0 : ℤ) < (total + n : ℕ) then some 0 else none).getD 0 = 0 := by
      split <;> rfl
    simp only [List.length_append, List.length_singleton, hrest, hzero, List.take_zero,
      List.nil_append]
  · rcases cases_of_getElem?_concat hcall with hcall | ⟨rfl, rfl⟩
    · exact h.calls k call hcall
    · refine ⟨hbuf, ?_, ?_⟩
      · rw [hslice, hpart]
      · rw [hslice, hpart]
  · have hfull := hend.resolve_right fun hclosed => Bool.false_ne_true (hclosed.1.symm.trans hopen)
    simp only [List.length_append, List.length_singleton, hnext]
    omega
  · dsimp only at hended
    split at hended
    · cases hended
    · obtain ⟨hclosed, hempty⟩ := hend.resolve_left (by omega)
      refine ⟨hclosed, ?_⟩
      rw [hempty, List.length_nil] at hlen
      simp only [List.length_append, List.length_singleton, hnext]
      omega

theorem Inv.move {link' : Link} (h : link.Inv packets) (hmove : Move link link') :
    link'.Inv packets := by
  cases hmove with
  | write packet rest n hopen hsending hpos hlt =>
    have hleft := h.sender.write hsending hlt.le
    have hpacket := packet.2
    refine ⟨⟨hlt, ?_, h.sender.writes, h.sender.calls⟩,
      h.receiver.write hopen rfl rfl rfl rfl rfl⟩
    change _ ++ (stream link.sending).drop (link.sent + n) = _
    rw [← hleft, hsending, stream_cons, List.drop_append_of_le_length (by omega)]
  | writeLast packet rest n hopen hsending hend =>
    have hleft := h.sender.write hsending hend.le
    refine ⟨⟨packetSize_pos, ?_, fun value hvalue => ?_, ?_⟩,
      h.receiver.write hopen rfl rfl rfl rfl rfl⟩
    · rw [← hleft, hend, List.drop_of_length_le packet.2.le]
      rfl
    · rcases List.mem_append.1 hvalue with hvalue | hvalue
      · exact h.sender.writes value hvalue
      · exact List.mem_singleton.1 hvalue
    · have hcalls := h.sender.calls
      rw [hsending, List.length_cons] at hcalls
      simp only [List.length_append, List.length_singleton]
      omega
  | close hopen =>
    have hr := h.receiver
    refine ⟨h.sender.congr rfl rfl rfl rfl, ⟨hr.buf_length, hr.reading_lt, hr.left, hr.calls,
      fun hopen' => ?_, fun hended => ⟨rfl, (hr.ended hended).2⟩⟩⟩
    cases hopen'
  | read total n hreading hpos hwire hlt =>
    obtain ⟨hbuf, hleft⟩ := h.receiver.read hreading hwire hlt.le
    have hr := h.receiver
    refine ⟨h.sender.congr rfl rfl rfl rfl,
      ⟨hbuf, fun total' htotal' => ?_, hleft, hr.calls, hr.whole, fun hended => ?_⟩⟩
    · obtain rfl := Option.some.inj htotal'
      exact hlt
    · cases hended
  | «return» total n hreading hwire hend =>
    exact ⟨h.sender.congr rfl rfl rfl rfl, h.receiver.return hreading hwire hend⟩

theorem Inv.turn (h : link.Inv packets) (t : Turn) : (link.turn cap t).Inv packets := by
  rcases turn_eq_or_move h t with hsame | hmove
  · rw [hsame]
    exact h
  · exact h.move hmove

/-! ## The packets arrive -/

theorem length_of_mem_map {bytes : List UInt8} (h : bytes ∈ packets.map Subtype.val) :
    bytes.length = packetSize := by
  obtain ⟨packet, -, rfl⟩ := List.mem_map.1 h
  exact packet.2

theorem length_stream (packets : List PacketBytes) :
    (stream packets).length = packetSize * packets.length := by
  rw [stream, length_flatten_of_forall fun _ => length_of_mem_map, List.length_map]

theorem slice_stream {packet : PacketBytes} {k : ℕ} (h : packets[k]? = some packet) :
    slice (stream packets) k = packet.1 := by
  refine take_drop_flatten (fun _ => length_of_mem_map) ?_
  rw [List.getElem?_map, h, Option.map_some]

/-- What the calls of the two functions return. -/
structure Framed (packets : List PacketBytes) (link : Link) : Prop where
  writes : ∀ value ∈ link.writes, value = packetSize
  taken : link.written <+: stream packets
  /-- A call for a packet that is written returns the size and the packet. -/
  packet : ∀ (k : ℕ) (call : ℤ × List UInt8), link.reads[k]? = some call →
    k < link.written.length / packetSize →
      call.1 = packetSize ∧ packets[k]?.map Subtype.val = some call.2
  /-- The call behind them returns when the connection is closed, with the bytes left over. -/
  leftover : ∀ call : ℤ × List UInt8, link.reads[link.written.length / packetSize]? = some call →
    link.isOpen = false ∧ call.1 = (link.written.length % packetSize : ℕ) ∧
      call.2.take (link.written.length % packetSize) =
        link.written.drop (packetSize * (link.written.length / packetSize))
  /-- A further call returns 0. -/
  later : ∀ (k : ℕ) (call : ℤ × List UInt8), link.reads[k]? = some call →
    link.written.length / packetSize < k → link.isOpen = false ∧ call.1 = 0

/-- Both ends are done: with all packets, or with the closed connection. -/
structure Finished (packets : List PacketBytes) (link : Link) : Prop where
  delivered : link.isOpen = true →
    link.writes.length = packets.length ∧ link.reads.length = packets.length
  closed : link.isOpen = false →
    link.reading = none ∧ link.written.length / packetSize < link.reads.length

/-- A call that is not for a written packet has returned behind the close. -/
theorem Received.isOpen_eq_false (h : link.Received) {k : ℕ} {call : ℤ × List UInt8}
    (hcall : link.reads[k]? = some call) (hk : link.written.length / packetSize ≤ k) :
    link.isOpen = false := by
  refine Bool.eq_false_iff.2 fun hopen => ?_
  obtain ⟨hlt, -⟩ := List.getElem?_eq_some_iff.1 hcall
  have hle : packetSize * (k + 1) ≤ link.written.length :=
    le_trans (Nat.mul_le_mul_left _ hlt) (h.whole hopen)
  have hdiv := (Nat.le_div_iff_mul_le packetSize_pos).2 (Nat.mul_comm _ _ ▸ hle)
  omega

theorem Inv.framed (h : link.Inv packets) : link.Framed packets where
  writes := h.sender.writes
  taken := ⟨_, h.sender.left⟩
  packet := fun k call hcall hk => by
    have hread := h.receiver.calls k call hcall
    have hle : packetSize * (k + 1) ≤ link.written.length := by
      rw [Nat.mul_comm]
      exact (Nat.le_div_iff_mul_le packetSize_pos).1 hk
    -- the slice is one of the packets
    have hslice : slice link.written k = slice (stream packets) k := by
      rw [← h.sender.left, slice_append hle]
    have hlen := (List.IsPrefix.length_le ⟨_, h.sender.left⟩).trans_eq (length_stream packets)
    have hk : k < packets.length := Nat.lt_of_mul_lt_mul_left (a := packetSize) (by
      rw [Nat.mul_succ] at hle
      have := packetSize_pos
      omega)
    have hpacket := List.getElem?_eq_getElem hk
    rw [hslice, slice_stream hpacket] at hread
    have hsize := packets[k].2
    have hbytes := hread.bytes
    rw [hsize, List.take_of_length_le hread.buf_length.le] at hbytes
    refine ⟨?_, ?_⟩
    · rw [hread.value, hsize]
    · rw [hpacket, Option.map_some, hbytes]
  leftover := fun call hcall => by
    have hread := h.receiver.calls _ call hcall
    have hrest : (link.written.drop (packetSize * (link.written.length / packetSize))).length =
        link.written.length % packetSize := by
      have := Nat.div_add_mod link.written.length packetSize
      rw [List.length_drop]
      omega
    have hmod := Nat.mod_lt link.written.length packetSize_pos
    rw [slice, List.take_of_length_le (by omega)] at hread
    refine ⟨h.receiver.isOpen_eq_false hcall le_rfl, ?_, ?_⟩
    · rw [hread.value, hrest]
    · have hbytes := hread.bytes
      rw [hrest] at hbytes
      exact hbytes
  later := fun k call hcall hk => by
    have hread := h.receiver.calls k call hcall
    have hle : link.written.length ≤ packetSize * k := by
      have := (Nat.div_lt_iff_lt_mul packetSize_pos).1 hk
      rw [Nat.mul_comm]
      exact this.le
    rw [slice, List.drop_of_length_le hle] at hread
    exact ⟨h.receiver.isOpen_eq_false hcall hk.le, hread.value⟩

/-! ## Both loops end -/

/-- What is still to be done: every byte is written and read once, and `total` is returned once. -/
def work (link : Link) : ℕ :=
  3 * ((stream link.sending).drop link.sent).length + 2 * link.wire.length +
    link.reading.elim 0 (· + 1) + if link.isOpen = true then 1 else 0

theorem Move.work_lt {link' : Link} (h : link.Inv packets) (hmove : Move link link') :
    link'.work < link.work := by
  have hsent := h.sender.sent_lt
  cases hmove with
  | write packet rest n hopen hsending hpos hlt =>
    have hpacket := packet.2
    simp only [work, hsending, stream_cons, List.length_append, List.length_take, List.length_drop]
    omega
  | writeLast packet rest n hopen hsending hend =>
    have hpacket := packet.2
    simp only [work, hsending, stream_cons, List.length_append, List.length_take, List.length_drop]
    omega
  | close hopen =>
    simp only [work, hopen, if_true, Bool.false_eq_true, if_false]
    omega
  | read total n hreading hpos hwire hlt =>
    simp only [work, hreading, Option.elim_some, List.length_drop]
    omega
  | «return» total n hreading hwire hend =>
    have htotal := h.receiver.reading_lt total hreading
    simp only [work, hreading, Option.elim_some, List.length_drop]
    split
    · rw [Option.elim_some]
      rcases hend with hfull | ⟨-, hempty⟩
      · omega
      · rw [hempty, List.length_nil] at hwire ⊢
        omega
    · rw [Option.elim_none]
      omega

/-- Nothing is left to do for either end. -/
def AtRest (link : Link) : Prop :=
  (link.isOpen = true ∧ link.sending = [] ∧ link.wire = []) ∨ link.reading = none

/-- While there is something to do, one of the ends can do it. -/
theorem Inv.exists_side (h : link.Inv packets) (hcap : 0 < cap) (hrest : ¬ link.AtRest) :
    ∃ side, ∀ t, Turn.By side t → (link.turn cap t).work < link.work := by
  obtain ⟨total, hreading⟩ := Option.ne_none_iff_exists'.1 fun hnone => hrest (Or.inr hnone)
  by_cases hwait : link.wire = [] ∧ link.isOpen = true
  · obtain ⟨hempty, hopen⟩ := hwait
    have hsending : link.sending ≠ [] := fun hnil => hrest (Or.inl ⟨hopen, hnil, hempty⟩)
    obtain ⟨packet, rest, hsending⟩ := List.exists_cons_of_ne_nil hsending
    have hroom : link.wire.length < cap := by
      rw [hempty]
      exact hcap
    refine ⟨.sender, fun t ht => ?_⟩
    cases t with
    | write k => exact (move_write h hopen hsending hroom k).work_lt h
    | _ => exact ht.elim
  · refine ⟨.receiver, fun t ht => ?_⟩
    cases t with
    | read k => exact (move_read h hreading hwait k).work_lt h
    | _ => exact ht.elim

theorem Inv.finished (h : link.Inv packets) (hrest : link.AtRest) : link.Finished packets := by
  have hpos := packetSize_pos
  rcases hrest with ⟨hopen, hsending, hempty⟩ | hended
  · refine ⟨fun _ => ?_, fun hclosed => ?_⟩
    · have hleft := h.sender.left
      have hcalls := h.sender.calls
      have hunread := congrArg List.length h.receiver.left
      have hwhole := h.receiver.whole hopen
      have htotal : link.reading.getD 0 < packetSize := by
        rcases hreading : link.reading with - | total
        · exact hpos
        · exact h.receiver.reading_lt total hreading
      rw [hsending] at hleft hcalls
      have hlen : link.written.length = packetSize * packets.length := by
        rw [← length_stream, ← hleft, stream, List.map_nil, List.flatten_nil, List.drop_nil,
          List.append_nil]
      rw [hempty, List.append_nil, List.length_drop, List.length_take, h.receiver.buf_length,
        Nat.min_eq_left htotal.le, hlen] at hunread
      rw [hlen] at hwhole
      -- the call that runs has nothing, as less than a packet is left
      have hle : link.reads.length ≤ packets.length := Nat.le_of_mul_le_mul_left hwhole hpos
      have hge : packets.length < link.reads.length + 1 := by
        refine Nat.lt_of_mul_lt_mul_left (a := packetSize) ?_
        rw [Nat.mul_succ]
        omega
      exact ⟨hcalls, by omega⟩
    · rw [hopen] at hclosed
      cases hclosed
  · obtain ⟨hclosed, hlt⟩ := h.receiver.ended hended
    refine ⟨fun hopen => ?_, fun _ => ⟨hended, ?_⟩⟩
    · rw [hclosed] at hopen
      cases hopen
    · rw [Nat.mul_comm] at hlt
      exact (Nat.div_lt_iff_lt_mul hpos).2 hlt

end Link

open Link in
/-- **Packets over a stream.** Under every schedule the calls of `read_all` return the packets that
the calls of `write_all` were given, and at the end of the connection what is left over; a schedule
in which neither end is interrupted for ever ends both loops. -/
theorem packets_framed {cap : ℕ} (hcap : 0 < cap) (packets : List PacketBytes)
    (stale : PacketBytes) (turns : ℕ → Turn) :
    (∀ n, Framed packets (stateAfter (turn cap) (init packets stale) turns n)) ∧
      ((∀ side, Recurs (Turn.By side) turns) →
        ∃ n, ∀ m, n ≤ m →
          Finished packets (stateAfter (turn cap) (init packets stale) turns m)) := by
  have hinv : ∀ n, Inv packets (stateAfter (turn cap) (init packets stale) turns n) :=
    stateAfter_invariant (fun link t h => h.turn t) (inv_init packets stale)
  refine ⟨fun n => (hinv n).framed, fun fair => ?_⟩
  obtain ⟨n, hrest, hsame⟩ := exists_rest (fun link t h => h.turn t)
    (fun link t h => (turn_eq_or_move h t).imp_right (Move.work_lt h))
    (fun link h => h.exists_side hcap) fair (inv_init packets stale)
  refine ⟨n, fun m hm => ?_⟩
  rw [hsame m hm]
  exact (hinv n).finished hrest

/-- The two ends take turns, a byte at a time. -/
def alternating (n : ℕ) : Turn := if n % 2 = 0 then .write 0 else .read 0

theorem recurs_alternating (side : Side) : Recurs (Turn.By side) alternating := by
  intro n
  cases side with
  | sender =>
    refine ⟨2 * n, by omega, ?_⟩
    rw [alternating, if_pos (by omega)]
    trivial
  | receiver =>
    refine ⟨2 * n + 1, by omega, ?_⟩
    rw [alternating, if_neg (by omega)]
    trivial

/-- A packet of zeros. -/
def zeros : PacketBytes := ⟨List.replicate packetSize 0, List.length_replicate⟩

/-- Two packets arrive through a connection that holds one byte. -/
theorem packets_framed_bytewise :
    ∃ n, ∀ m, n ≤ m → Link.Finished [zeros, zeros]
      (stateAfter (Link.turn 1) (.init [zeros, zeros] zeros) alternating m) :=
  (packets_framed Nat.one_pos [zeros, zeros] zeros alternating).2 recurs_alternating

end EltexPractice.TcpChat
