import EltexPractice.Sniffer.Parser

/-!
# The parser stays in bounds

Every field of a captured packet is read after a comparison with `packet_size`, whatever the bytes
say: the offsets of the IP and the UDP header come from the link layer and from `ihl`, and the UDP
length decides only whether a payload is reported. `parseUdpPacket_bounds`: all reads are below
`packet_size`, and so is the payload.
-/

namespace EltexPractice.Sniffer

/-- The payload is `NULL`, or not empty and within the first `n` bytes. -/
def ParsedPacket.PayloadWithin (pkt : ParsedPacket) (n : ℕ) : Prop :=
  (pkt.payload = none ∧ pkt.payloadLen = 0) ∨
    ∃ offset : ℕ, pkt.payload = some offset ∧ 0 < pkt.payloadLen ∧ offset + pkt.payloadLen ≤ n

/-- After a part of the parser: the reads so far are below `n`, and so is the payload of a packet
that is accepted. -/
def InBounds (n : ℕ) (r : Bool × ParsedPacket) (s : Mem) : Prop :=
  s.Within {i | i < n} ∧ (r.1 = true → r.2.PayloadWithin n)

section

variable {n : ℕ} {s : Mem}

/-- A packet that is not accepted. -/
theorem inBounds_false (h : s.Within {i | i < n}) (pkt : ParsedPacket) :
    InBounds n (false, pkt) s := ⟨h, nofun⟩

theorem wp_parseFields_inBounds {ipOffset udpOffset : ℕ} (h : s.Within {i | i < n})
    (hip : ipOffset + 20 ≤ n) (hudp : udpOffset + 8 ≤ n) (pkt : ParsedPacket) :
    (parseFields n ipOffset udpOffset pkt).wp (InBounds n) s := by
  simp only [parseFields, MemM.wp_bind, MemM.wp_load]
  have hreads := ((((h.touch (a := ipOffset + 12) (n := 4) (by omega)).touch
    (a := ipOffset + 16) (n := 4) (by omega)).touch (a := udpOffset) (n := 2) (by omega)).touch
    (a := udpOffset + 2) (n := 2) (by omega)).touch (a := udpOffset + 4) (n := 2) (by omega)
  split
  · rename_i hpayload
    refine ⟨hreads, fun _ => Or.inr ⟨udpOffset + 8, rfl, hpayload.1, ?_⟩⟩
    have hle := hpayload.2
    push_cast at hle ⊢
    exact hle
  · exact ⟨hreads, fun _ => Or.inl ⟨rfl, rfl⟩⟩

theorem wp_parseIp_inBounds {ipOffset : ℕ} (h : s.Within {i | i < n}) (pkt : ParsedPacket) :
    (parseIp n ipOffset pkt).wp (InBounds n) s := by
  rw [parseIp]
  split
  · exact inBounds_false h pkt
  · rename_i hip
    have hip' : ipOffset + 20 ≤ n := by
      unfold sizeofIphdr at hip
      omega
    rw [MemM.wp_bind, MemM.wp_load]
    have hprotocol := h.touch (a := ipOffset + 9) (n := 1) (by omega)
    split
    · exact inBounds_false hprotocol pkt
    · rw [MemM.wp_bind, MemM.wp_load]
      have hihl := hprotocol.touch (a := ipOffset) (n := 1) (by omega)
      dsimp only
      split
      · exact inBounds_false hihl pkt
      · rename_i hudp
        refine wp_parseFields_inBounds hihl hip' ?_ pkt
        unfold sizeofUdphdr at hudp
        omega

theorem wp_copyMacs_inBounds (h : s.Within {i | i < n}) (hn : 14 ≤ n) (pkt : ParsedPacket) :
    (copyMacs pkt).wp (fun _ s' => s'.Within {i | i < n}) s := by
  simp only [copyMacs, MemM.wp_bind, MemM.wp_loadBytes]
  exact (h.touch (by omega)).touch (by omega)

theorem wp_parseUdpPacket_inBounds (h : s.Within {i | i < n}) (pkt : ParsedPacket) :
    (parseUdpPacket n pkt).wp (InBounds n) s := by
  rw [parseUdpPacket]
  split
  · exact inBounds_false h pkt
  · rename_i hn
    have hn' : 14 ≤ n := by omega
    rw [MemM.wp_bind, MemM.wp_load]
    have htype := h.touch (a := 12) (n := 2) (by omega)
    split
    · -- Ethernet II
      rw [MemM.wp_bind]
      exact MemM.wp_mono (wp_copyMacs_inBounds htype hn' pkt) fun pkt' _ hs =>
        wp_parseIp_inBounds hs pkt'
    · split
      · -- an 802.1Q tag
        split
        · exact inBounds_false htype pkt
        · rename_i htag
          rw [MemM.wp_bind, MemM.wp_load]
          have hinner := htype.touch (a := 16) (n := 2) (by omega)
          split
          · exact inBounds_false hinner pkt
          · rw [MemM.wp_bind]
            exact MemM.wp_mono (wp_copyMacs_inBounds hinner hn' pkt) fun pkt' _ hs =>
              wp_parseIp_inBounds hs pkt'
      · -- no link header
        rw [MemM.wp_bind, MemM.wp_load]
        have hversion := htype.touch (a := 0) (n := 1) (by omega)
        split
        · exact wp_parseIp_inBounds hversion _
        · exact inBounds_false hversion pkt

end

/-- **The parser stays in bounds**: for every buffer and every size, what is read is below the size,
and a payload that is reported lies in the first `packet_size` bytes. -/
theorem parseUdpPacket_bounds (buffer : Bytes) (packetSize : ℕ) (pkt : ParsedPacket) :
    let out := (parseUdpPacket packetSize pkt).run ⟨buffer, []⟩
    out.2.Within {i | i < packetSize} ∧
      (out.1.1 = true →
        (out.1.2.payload = none ∧ out.1.2.payloadLen = 0) ∨
          ∃ offset : ℕ, out.1.2.payload = some offset ∧ 0 < out.1.2.payloadLen ∧
            offset + out.1.2.payloadLen ≤ packetSize) :=
  wp_parseUdpPacket_inBounds (s := ⟨buffer, []⟩) nofun pkt

end EltexPractice.Sniffer
