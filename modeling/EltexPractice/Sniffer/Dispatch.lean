import EltexPractice.Sniffer.Encapsulation
import Mathlib.Data.List.GetD

/-!
# Framing and acceptance

What `parse_udp_packet` makes of any captured bytes: where it takes the IP header to be
(`linkOffset`), when it accepts what is there (`Segment`) and what it stores (`report`).

* `dispatch_iff`: bytes 12 and 13 of a packet without link header are the first two of its source
  address, and byte 0 of a frame is the first one of its destination address, so the framing can
  be guessed wrong; exactly when.
* `accepted_frame`: what is accepted behind a type of `0x0800`. The version, the least header
  length, the fragment offset and the total length of the IP header are not looked at.
-/

namespace EltexPractice.Sniffer

/-! ## Fields -/

/-- A 16-bit field in network order. -/
def netWord (l : List UInt8) (k : ℕ) : ℕ := 256 * (l.getD k 0).toNat + (l.getD (k + 1) 0).toNat

theorem leValue_bytesAt_one (m : Bytes) (a : ℕ) : leValue (bytesAt m a 1) = (m a).toNat := rfl

theorem ntohs_leValue_bytesAt (m : Bytes) (a : ℕ) :
    ntohs (leValue (bytesAt m a 2)) = 256 * (m a).toNat + (m (a + 1)).toNat := by
  have h₁ := (m a).toNat_lt
  have h₂ := (m (a + 1)).toNat_lt
  simp only [bytesAt, leValue, ntohs]
  omega

/-- A byte of what was received. -/
theorem received_append (stale : Bytes) (link content : List UInt8) {k : ℕ}
    (h : k < content.length) : received stale (link ++ content) (link.length + k) =
      content.getD k 0 := by
  rw [received, writeBytes, if_pos (Nat.zero_le _), Nat.sub_zero,
    List.getElem?_append_right (Nat.le_add_right _ _), Nat.add_sub_cancel_left,
    List.getD_eq_getElem?_getD, List.getElem?_eq_getElem h, Option.getD_some, Option.getD_some]

theorem netWord_received {stale : Bytes} {link content : List UInt8} {k : ℕ}
    (h : k + 2 ≤ content.length) :
    ntohs (leValue (bytesAt (received stale (link ++ content)) (link.length + k) 2)) =
      netWord content k := by
  rw [ntohs_leValue_bytesAt, received_append _ _ _ (by omega), Nat.add_assoc,
    received_append _ _ _ (by omega), netWord]

/-! ## What is accepted -/

/-- Where the UDP header is taken to be, behind an IP header at `off`. -/
def udpOffset (m : Bytes) (off : ℕ) : ℕ := off + (m off).toNat % 16 * 4

/-- What is accepted at `off`, in a packet of `n` bytes. -/
def Segment (m : Bytes) (n off : ℕ) : Prop :=
  off + 20 ≤ n ∧ m (off + 9) = 17 ∧ udpOffset m off + 8 ≤ n

instance (m : Bytes) (n off : ℕ) : Decidable (Segment m n off) :=
  inferInstanceAs (Decidable (_ ∧ _))

/-- The UDP length. -/
def udpLength (m : Bytes) (off : ℕ) : ℕ := ntohs (leValue (bytesAt m (udpOffset m off + 4) 2))

/-- What is stored about the segment. -/
def report (m : Bytes) (n off : ℕ) (pkt : ParsedPacket) : ParsedPacket :=
  { pkt with
    srcIp := leValue (bytesAt m (off + 12) 4)
    destIp := leValue (bytesAt m (off + 16) 4)
    srcPort := ntohs (leValue (bytesAt m (udpOffset m off) 2))
    destPort := ntohs (leValue (bytesAt m (udpOffset m off + 2) 2))
    payload :=
      if 8 < udpLength m off ∧ udpOffset m off + udpLength m off ≤ n then
        some (udpOffset m off + 8)
      else none
    payloadLen :=
      if 8 < udpLength m off ∧ udpOffset m off + udpLength m off ≤ n then udpLength m off - 8
      else 0 }

theorem srcMac_report (m : Bytes) (n off : ℕ) (pkt : ParsedPacket) :
    (report m n off pkt).srcMac = pkt.srcMac := rfl

/-- The payload that is reported. -/
theorem payloadBytes_report (m : Bytes) (n off : ℕ) (pkt : ParsedPacket) :
    (report m n off pkt).payloadBytes m =
      if 8 < udpLength m off ∧ udpOffset m off + udpLength m off ≤ n then
        some (bytesAt m (udpOffset m off + 8) (udpLength m off - 8))
      else none := by
  rw [ParsedPacket.payloadBytes, report]
  split
  · rw [Option.map_some, show ((udpLength m off : ℤ) - 8).toNat = udpLength m off - 8 by omega]
  · rfl

theorem wp_parseFields_eq (m : Bytes) (n off : ℕ) (pkt : ParsedPacket) {s : Mem}
    (hs : s.bytes = m) :
    (parseFields n off (udpOffset m off) pkt).wp (fun r _ => r = (true, report m n off pkt)) s := by
  subst hs
  have hlen : toInt ((udpLength s.bytes off : ℤ) - sizeofUdphdr) = udpLength s.bytes off - 8 := by
    have hlt : udpLength s.bytes off < 65536 := ntohs_lt _
    rw [sizeofUdphdr, toInt_eq_self] <;> omega
  have hiff : (0 < (udpLength s.bytes off : ℤ) - 8 ∧
      (n : ℤ) ≥ ((udpOffset s.bytes off + 8 : ℕ) : ℤ) + (udpLength s.bytes off - 8)) ↔
      (8 < udpLength s.bytes off ∧ udpOffset s.bytes off + udpLength s.bytes off ≤ n) := by
    push_cast
    omega
  rw [udpLength] at hlen
  simp only [parseFields, MemM.wp_bind, MemM.wp_load, Mem.bytes_touch, hlen]
  rw [← udpLength]
  by_cases h : 8 < udpLength s.bytes off ∧ udpOffset s.bytes off + udpLength s.bytes off ≤ n
  · rw [if_pos (hiff.2 h), MemM.wp_pure, report, if_pos h, if_pos h]
  · rw [if_neg (mt hiff.1 h), MemM.wp_pure, report, if_neg h, if_neg h]

theorem wp_parseIp_eq (m : Bytes) (n off : ℕ) (pkt : ParsedPacket) {s : Mem} (hs : s.bytes = m) :
    (parseIp n off pkt).wp
      (fun r _ => r = if Segment m n off then (true, report m n off pkt) else (false, pkt)) s := by
  rw [parseIp]
  by_cases hip : off + 20 ≤ n
  · rw [if_neg (by rw [sizeofIphdr]; omega), MemM.wp_bind, MemM.wp_load, hs, leValue_bytesAt_one]
    by_cases hprotocol : m (off + 9) = 17
    · rw [hprotocol, if_neg (by decide), MemM.wp_bind, MemM.wp_load, Mem.bytes_touch, hs,
        leValue_bytesAt_one]
      dsimp only
      rw [← udpOffset]
      by_cases hudp : udpOffset m off + 8 ≤ n
      · rw [if_neg (by rw [sizeofUdphdr]; omega), if_pos ⟨hip, hprotocol, hudp⟩]
        exact wp_parseFields_eq m n off pkt hs
      · rw [if_pos (by rw [sizeofUdphdr]; omega), if_neg fun h : Segment m n off => hudp h.2.2]
        rfl
    · have hne : (m (off + 9)).toNat ≠ ipprotoUdp := fun h => hprotocol (UInt8.toNat_inj.1 h)
      rw [if_pos hne, if_neg fun h : Segment m n off => hprotocol h.2.1]
      rfl
  · rw [if_pos (by rw [sizeofIphdr]; omega), if_neg fun h : Segment m n off => hip h.1]
    rfl

/-! ## The framing -/

/-- Where the IP header is taken to be. -/
def linkOffset (m : Bytes) (n : ℕ) : Option ℕ :=
  if n < 14 then none
  else if ntohs (leValue (bytesAt m 12 2)) = ethPIp then some 14
  else if ntohs (leValue (bytesAt m 12 2)) = ethP8021Q then
    if 18 ≤ n ∧ ntohs (leValue (bytesAt m 16 2)) = ethPIp then some 18 else none
  else if (m 0).toNat / 16 = 4 then some 0
  else none

/-- The MAC addresses that go with the place of the IP header. -/
def storeMacs (m : Bytes) (off : ℕ) (pkt : ParsedPacket) : ParsedPacket :=
  if off = 0 then { pkt with srcMac := List.replicate 6 0, destMac := List.replicate 6 0 }
  else { pkt with srcMac := bytesAt m 6 6, destMac := bytesAt m 0 6 }

theorem wp_copyMacs_eq (m : Bytes) {off : ℕ} (hoff : off ≠ 0) (pkt : ParsedPacket) {s : Mem}
    (hs : s.bytes = m) :
    (copyMacs pkt).wp (fun r s' => r = storeMacs m off pkt ∧ s'.bytes = m) s := by
  simp only [copyMacs, MemM.wp_bind, MemM.wp_loadBytes, Mem.bytes_touch, hs]
  rw [storeMacs, if_neg hoff]
  exact ⟨rfl, hs⟩

/-- What the parser does, by the place of the IP header. -/
theorem wp_parseUdpPacket_eq (m : Bytes) (n : ℕ) (pkt : ParsedPacket) {s : Mem} (hs : s.bytes = m) :
    (parseUdpPacket n pkt).wp (fun r _ => r = match linkOffset m n with
      | some off =>
        if Segment m n off then (true, report m n off (storeMacs m off pkt))
        else (false, storeMacs m off pkt)
      | none => (false, pkt)) s := by
  -- the two framings with MAC addresses
  have hmacs : ∀ off s', off ≠ 0 → s'.bytes = m →
      (copyMacs pkt).wp (fun pkt' s' => (parseIp n off pkt').wp (fun r _ =>
        r = if Segment m n off then (true, report m n off (storeMacs m off pkt))
          else (false, storeMacs m off pkt)) s') s' := fun off s' hoff hs' => by
    refine MemM.wp_mono (wp_copyMacs_eq m hoff pkt hs') fun pkt' t h => ?_
    rw [h.1]
    exact wp_parseIp_eq m n off _ h.2
  rw [parseUdpPacket, linkOffset]
  by_cases hn : n < 14
  · rw [if_pos (by omega), if_pos hn]
    rfl
  · rw [if_neg (by omega), if_neg hn, MemM.wp_bind, MemM.wp_load, hs]
    by_cases hip : ntohs (leValue (bytesAt m 12 2)) = ethPIp
    · rw [if_pos hip, if_pos hip, MemM.wp_bind]
      exact hmacs 14 _ (by decide) hs
    · rw [if_neg hip, if_neg hip]
      by_cases htag : ntohs (leValue (bytesAt m 12 2)) = ethP8021Q
      · rw [if_pos htag, if_pos htag]
        by_cases hroom : 18 ≤ n
        · rw [if_neg (by omega), MemM.wp_bind, MemM.wp_load, Mem.bytes_touch, hs]
          by_cases hinner : ntohs (leValue (bytesAt m 16 2)) = ethPIp
          · rw [if_neg (not_not.2 hinner), if_pos ⟨hroom, hinner⟩, MemM.wp_bind]
            exact hmacs 18 _ (by decide) hs
          · rw [if_pos hinner, if_neg fun h => hinner h.2]
            rfl
        · rw [if_pos (by omega), if_neg fun h => hroom h.1]
          rfl
      · rw [if_neg htag, if_neg htag, MemM.wp_bind, MemM.wp_load, Mem.bytes_touch, hs,
          leValue_bytesAt_one]
        by_cases hversion : (m 0).toNat / 16 = 4
        · rw [if_pos hversion, if_pos hversion]
          exact wp_parseIp_eq m n 0 _ hs
        · rw [if_neg hversion, if_neg hversion]
          rfl

theorem parsed_eq {m : Bytes} {n off : ℕ} (h : linkOffset m n = some off) (pkt : ParsedPacket) :
    parsed m n pkt = if Segment m n off then (true, report m n off (storeMacs m off pkt))
      else (false, storeMacs m off pkt) := by
  have hout := wp_parseUdpPacket_eq m n pkt (s := ⟨m, []⟩) rfl
  rw [h] at hout
  exact hout

theorem parsed_eq_of_none {m : Bytes} {n : ℕ} (h : linkOffset m n = none) (pkt : ParsedPacket) :
    parsed m n pkt = (false, pkt) := by
  have hout := wp_parseUdpPacket_eq m n pkt (s := ⟨m, []⟩) rfl
  rw [h] at hout
  exact hout

/-- **When a packet is accepted.** -/
theorem parsed_fst_iff (m : Bytes) (n : ℕ) (pkt : ParsedPacket) :
    (parsed m n pkt).1 = true ↔ ∃ off, linkOffset m n = some off ∧ Segment m n off := by
  cases h : linkOffset m n with
  | none => simp [parsed_eq_of_none h]
  | some off =>
    rw [parsed_eq h]
    split <;> simp [*]

/-! ## Frames -/

/-- An Ethernet II frame; the content of a tagged one begins with the tag control information and
the inner type. -/
structure EtherFrame where
  destMac : Vector UInt8 6
  srcMac : Vector UInt8 6
  etherType : UInt16
  content : List UInt8

namespace EtherFrame

def bytes (F : EtherFrame) : List UInt8 :=
  F.destMac.toList ++ (F.srcMac.toList ++ (be16 F.etherType.toNat ++ F.content))

theorem length_bytes (F : EtherFrame) : F.bytes.length = 14 + F.content.length := by
  simp only [bytes, List.length_append, Vector.length_toList, length_be16]
  omega

/-- The frame carries IPv4, with or without a tag. -/
def CarriesIp (F : EtherFrame) : Prop :=
  F.etherType.toNat = ethPIp ∨
    (F.etherType.toNat = ethP8021Q ∧ 4 ≤ F.content.length ∧ netWord F.content 2 = ethPIp)

/-- Read from its first byte on, the frame has version 4, protocol 17 and room for the headers. -/
def LooksLikeIp (F : EtherFrame) : Prop :=
  F.destMac[0].toNat / 16 = 4 ∧ 6 ≤ F.content.length ∧ F.srcMac[3] = 17 ∧
    F.destMac[0].toNat % 16 * 4 + 8 ≤ 14 + F.content.length

variable {F : EtherFrame} {stale : Bytes}

theorem netWord_be16 {v : ℕ} (hv : v < 65536) (rest : List UInt8) :
    netWord (be16 v ++ rest) 0 = v := by
  simp only [netWord, be16, List.cons_append, List.getD_cons_zero, List.getD_cons_succ,
    UInt8.toNat_ofNat']
  omega

variable (F stale) in
/-- A field behind the MAC addresses. -/
theorem netWord_bytes {k : ℕ} (h : k ≤ F.content.length) :
    ntohs (leValue (bytesAt (received stale F.bytes) (12 + k) 2)) =
      netWord (be16 F.etherType.toNat ++ F.content) k := by
  have hlink : (F.destMac.toList ++ F.srcMac.toList).length = 12 := by simp
  rw [bytes, ← List.append_assoc, ← hlink,
    netWord_received (by rw [List.length_append, length_be16]; omega)]

theorem type_bytes :
    ntohs (leValue (bytesAt (received stale F.bytes) 12 2)) = F.etherType.toNat := by
  have h := netWord_bytes F stale (Nat.zero_le _)
  rw [netWord_be16 (UInt16.toNat_lt _)] at h
  exact h

theorem inner_bytes (h : 4 ≤ F.content.length) :
    ntohs (leValue (bytesAt (received stale F.bytes) 16 2)) = netWord F.content 2 :=
  netWord_bytes F stale (k := 4) h

variable (F stale) in
/-- The bytes at which the IP header would be without a link header. -/
theorem received_bytes :
    received stale F.bytes 0 = F.destMac[0] ∧ received stale F.bytes 9 = F.srcMac[3] := by
  have h₀ := received_append stale [] F.bytes (k := 0)
    (by rw [length_bytes]; omega)
  have h₉ := received_append stale F.destMac.toList
    (F.srcMac.toList ++ (be16 F.etherType.toNat ++ F.content)) (k := 3)
    (by simp only [List.length_append, Vector.length_toList]; omega)
  rw [Vector.length_toList] at h₉
  constructor
  · refine h₀.trans ?_
    rw [bytes, List.getD_append _ _ _ _ (by rw [Vector.length_toList]; decide),
      List.getD_eq_getElem _ _ (by rw [Vector.length_toList]; decide), Vector.getElem_toList]
  · refine h₉.trans ?_
    rw [List.getD_append _ _ _ _ (by rw [Vector.length_toList]; decide),
      List.getD_eq_getElem _ _ (by rw [Vector.length_toList]; decide), Vector.getElem_toList]

/-- Where the IP header of a frame is taken to be. -/
theorem linkOffset_bytes (F : EtherFrame) (stale : Bytes) :
    linkOffset (received stale F.bytes) F.bytes.length =
      if F.etherType.toNat = ethPIp then some 14
      else if F.etherType.toNat = ethP8021Q then
        if 4 ≤ F.content.length ∧ netWord F.content 2 = ethPIp then some 18 else none
      else if F.destMac[0].toNat / 16 = 4 then some 0 else none := by
  have hlen := F.length_bytes
  rw [linkOffset, if_neg (by omega), type_bytes, (received_bytes F stale).1]
  by_cases hroom : 4 ≤ F.content.length
  · have hroom' : 18 ≤ F.bytes.length := by omega
    simp only [inner_bytes hroom, hroom, hroom']
  · have hroom' : ¬ 18 ≤ F.bytes.length := by omega
    simp only [hroom, hroom', false_and]

/-- A frame whose first bytes are taken for an IP header is accepted if it looks like one. -/
theorem segment_bytes : Segment (received stale F.bytes) F.bytes.length 0 ↔
    6 ≤ F.content.length ∧ F.srcMac[3] = 17 ∧
      F.destMac[0].toNat % 16 * 4 + 8 ≤ 14 + F.content.length := by
  obtain ⟨h₀, h₉⟩ := received_bytes F stale
  rw [Segment, udpOffset, Nat.zero_add, Nat.zero_add, Nat.zero_add, h₀, h₉, length_bytes]
  constructor
  · rintro ⟨hip, hprotocol, hudp⟩
    exact ⟨by omega, hprotocol, hudp⟩
  · rintro ⟨hip, hprotocol, hudp⟩
    exact ⟨by omega, hprotocol, hudp⟩

/-- A frame that carries no IPv4 is rejected, whatever buffer it comes into. -/
def DispatchLaw (F : EtherFrame) : Prop :=
  ¬ F.CarriesIp → ∀ (stale : Bytes) (pkt : ParsedPacket),
    (parsed (received stale F.bytes) F.bytes.length pkt).1 = false

/-- It is rejected unless its destination address looks like the start of an IP header. -/
theorem dispatchLaw_iff (F : EtherFrame) :
    F.DispatchLaw ↔ F.etherType.toNat = ethPIp ∨ F.etherType.toNat = ethP8021Q ∨
      ¬ F.LooksLikeIp := by
  by_cases hip : F.etherType.toNat = ethPIp
  · exact iff_of_true (fun hnot => absurd (Or.inl hip) hnot) (Or.inl hip)
  · by_cases htag : F.etherType.toNat = ethP8021Q
    · refine iff_of_true (fun hnot stale pkt => ?_) (Or.inr (Or.inl htag))
      have hlink := F.linkOffset_bytes stale
      rw [if_neg hip, if_pos htag, if_neg fun h => hnot (Or.inr ⟨htag, h⟩)] at hlink
      rw [parsed_eq_of_none hlink]
    · have hnot : ¬ F.CarriesIp := fun h => h.elim hip fun h => htag h.1
      have hlink : ∀ stale, linkOffset (received stale F.bytes) F.bytes.length =
          if F.destMac[0].toNat / 16 = 4 then some 0 else none := fun stale => by
        rw [linkOffset_bytes, if_neg hip, if_neg htag]
      simp only [hip, htag, false_or]
      constructor
      · rintro hlaw ⟨hversion, hsegment⟩
        have hfalse := hlaw hnot (fun _ => 0) ⟨[], [], 0, 0, 0, 0, none, 0⟩
        rw [parsed_eq ((hlink _).trans (if_pos hversion)), if_pos (segment_bytes.2 hsegment)]
          at hfalse
        cases hfalse
      · intro hlooks _ stale pkt
        refine Bool.eq_false_iff.2 fun htrue => hlooks ?_
        obtain ⟨off, hoff, hsegment⟩ := (parsed_fst_iff _ _ pkt).1 htrue
        rw [hlink] at hoff
        split at hoff
        · rename_i hversion
          obtain rfl := Option.some.inj hoff
          exact ⟨hversion, segment_bytes.1 hsegment⟩
        · cases hoff

end EtherFrame

/-! ## Packets without link header -/

/-- The datagram, captured without a link header, is parsed from its first byte on. -/
def Datagram.LoopbackLaw (d : Datagram) : Prop :=
  ∀ (stale : Bytes) (pkt : ParsedPacket),
    let buffer := received stale d.bytes
    let result := parsed buffer d.bytes.length pkt
    result.1 = true ∧
      result.2.srcMac = List.replicate 6 0 ∧ result.2.destMac = List.replicate 6 0 ∧
      result.2.srcIp = leValue d.srcIp.toList ∧ result.2.destIp = leValue d.destIp.toList ∧
      result.2.srcPort = d.srcPort.toNat ∧ result.2.destPort = d.destPort.toNat ∧
      result.2.payloadLen = d.payload.length ∧
      result.2.payloadBytes buffer = if d.payload = [] then none else some d.payload

namespace Datagram

variable (d : Datagram) (stale : Bytes)

/-- The type is read from the source address. -/
theorem type_bytes : bytesAt (received stale d.bytes) 12 2 = d.srcIp.toList.take 2 := by
  have h := bytesAt_srcIp stale [] d []
  rw [List.nil_append, List.append_nil, List.length_nil, Nat.zero_add] at h
  exact bytesAt_slice h (k := 0) (j := 2) (by omega)

theorem received_ipHead {k : ℕ} (h : k < 12) {b : UInt8} (hb : (d.ipHead.drop k).take 1 = [b]) :
    received stale d.bytes k = b := by
  have hbytes := bytesAt_ipHead stale [] d [] (k := k) (n := 1) (by omega)
  rw [List.nil_append, List.append_nil, List.length_nil, Nat.zero_add, hb] at hbytes
  exact (List.cons.inj hbytes).1

/-- From its first byte on, a datagram is parsed. -/
theorem parsed_of_linkOffset
    (h : linkOffset (received stale d.bytes) d.bytes.length = some 0) (pkt : ParsedPacket) :
    parsed (received stale d.bytes) d.bytes.length pkt = (true, d.storedIn 0
      { pkt with srcMac := List.replicate 6 0, destMac := List.replicate 6 0 }) := by
  -- the two descriptions of one run
  have hout := wp_parseIp stale [] d [] (storeMacs (received stale d.bytes) 0 pkt)
    (s := ⟨received stale d.bytes, []⟩) (by rw [List.nil_append, List.append_nil])
  have hout' := wp_parseIp_eq (received stale d.bytes) d.bytes.length 0
    (storeMacs (received stale d.bytes) 0 pkt) (s := ⟨received stale d.bytes, []⟩) rfl
  rw [List.nil_append, List.append_nil] at hout
  rw [parsed_eq h]
  exact hout'.symm.trans hout

/-- Where the IP header of a datagram is taken to be. -/
theorem linkOffset_eq_zero (h₁ : d.srcIp.toList.take 2 ≠ be16 ethPIp)
    (h₂ : d.srcIp.toList.take 2 ≠ be16 ethP8021Q) :
    linkOffset (received stale d.bytes) d.bytes.length = some 0 := by
  have hlen := d.length_bytes
  have hihl := d.ihl_ge
  have hihl' := d.ihl_le
  have hne : ∀ v, d.srcIp.toList.take 2 ≠ be16 v →
      ntohs (leValue (d.srcIp.toList.take 2)) ≠ v := by
    intro v hne heq
    obtain ⟨a, b, hab⟩ : ∃ a b, d.srcIp.toList.take 2 = [a, b] :=
      List.length_eq_two.1 (by rw [List.length_take, Vector.length_toList]; rfl)
    refine hne ?_
    rw [← heq, hab, be16_ntohs_leValue]
  have hversion : (received stale d.bytes 0).toNat / 16 = 4 := by
    rw [d.received_ipHead stale (by omega) rfl, UInt8.toNat_ofNat']
    omega
  rw [linkOffset, if_neg (by omega), type_bytes, if_neg (hne _ h₁),
    if_neg (hne _ h₂), if_pos hversion]

/-- With the type of a frame, it does not get zero addresses. -/
theorem srcMac_ne_of_linkOffset {off : ℕ} (hoff : off ≠ 0)
    (h : linkOffset (received stale d.bytes) d.bytes.length = some off) (pkt : ParsedPacket) :
    (parsed (received stale d.bytes) d.bytes.length pkt).2.srcMac ≠ List.replicate 6 0 := by
  have hprotocol : received stale d.bytes 9 = 17 := d.received_ipHead stale (by omega) rfl
  have hmac : (storeMacs (received stale d.bytes) off pkt).srcMac =
      bytesAt (received stale d.bytes) 6 6 := by
    rw [storeMacs, if_neg hoff]
  have hne : bytesAt (received stale d.bytes) 6 6 ≠ List.replicate 6 0 := fun heq => by
    have h₃ := congrArg (fun l => l[3]?) heq
    simp only [bytesAt, hprotocol] at h₃
    cases h₃
  rw [parsed_eq h]
  split
  · dsimp only
    rw [srcMac_report, hmac]
    exact hne
  · exact hmac.trans_ne hne

/-- It is parsed unless its source address begins like a type. -/
theorem loopbackLaw_iff : d.LoopbackLaw ↔
    d.srcIp.toList.take 2 ≠ be16 ethPIp ∧ d.srcIp.toList.take 2 ≠ be16 ethP8021Q := by
  have hread : ∀ v, v < 65536 → d.srcIp.toList.take 2 = be16 v →
      ∀ stale, ntohs (leValue (bytesAt (received stale d.bytes) 12 2)) = v := fun v hv h stale => by
    rw [type_bytes, h, ntohs_leValue_be16 hv]
  have hlen := d.length_bytes
  have hihl := d.ihl_ge
  constructor
  · intro hlaw
    obtain ⟨htrue, hmac, -⟩ := hlaw (fun _ => 0) ⟨[], [], 0, 0, 0, 0, none, 0⟩
    obtain ⟨off, hoff, -⟩ := (parsed_fst_iff _ _ _).1 htrue
    have hzero : off = 0 := by_contra fun hne => d.srcMac_ne_of_linkOffset _ hne hoff _ hmac
    rw [linkOffset, if_neg (by omega)] at hoff
    constructor
    · intro h
      rw [if_pos (hread _ (by decide) h _)] at hoff
      cases (Option.some.inj hoff).trans hzero
    · intro h
      rw [hread _ (by decide) h, if_neg (by decide), if_pos rfl] at hoff
      split at hoff
      · cases (Option.some.inj hoff).trans hzero
      · cases hoff
  · rintro ⟨h₁, h₂⟩ stale pkt
    have hpayload := bytesAt_payload stale [] d []
    rw [List.nil_append, List.append_nil, List.length_nil] at hpayload
    intro buffer result
    have hresult : result = _ :=
      d.parsed_of_linkOffset stale (d.linkOffset_eq_zero stale h₁ h₂) pkt
    rw [hresult]
    refine ⟨rfl, rfl, rfl, rfl, rfl, rfl, rfl, rfl, ?_⟩
    rw [ParsedPacket.payloadBytes, storedIn]
    split
    · rfl
    · rw [Option.map_some, Int.toNat_natCast]
      exact congrArg some hpayload

end Datagram

/-- **When the framing is guessed right**: a frame that carries no IPv4 is rejected unless it is
neither typed as IPv4 nor tagged and its addresses look like an IP header; a datagram without link
header is parsed unless its source address begins with 8.0 or 129.0. -/
theorem dispatch_iff (F : EtherFrame) (d : Datagram) :
    (F.DispatchLaw ↔
      F.etherType.toNat = ethPIp ∨ F.etherType.toNat = ethP8021Q ∨ ¬ F.LooksLikeIp) ∧
    (d.LoopbackLaw ↔
      d.srcIp.toList.take 2 ≠ be16 ethPIp ∧ d.srcIp.toList.take 2 ≠ be16 ethP8021Q) :=
  ⟨F.dispatchLaw_iff, d.loopbackLaw_iff⟩

/-- An ARP frame to 44:00:00:00:00:01 from aa:bb:cc:11:ee:ff, padded to the least size. -/
def arpFrame : EtherFrame where
  destMac := #v[0x44, 0, 0, 0, 0, 1]
  srcMac := #v[0xaa, 0xbb, 0xcc, 0x11, 0xee, 0xff]
  etherType := 0x0806
  content := List.replicate 46 0

/-- The ARP frame is taken for a datagram, and an empty datagram from 8.0.0.1 for a frame. -/
theorem not_dispatchLaw : ¬ arpFrame.DispatchLaw ∧ ¬ ∀ d : Datagram, d.LoopbackLaw := by
  constructor
  · have hlooks : arpFrame.LooksLikeIp := ⟨rfl, by decide, rfl, by decide⟩
    rw [EtherFrame.dispatchLaw_iff]
    rintro (h | h | h)
    · exact absurd h (by decide)
    · exact absurd h (by decide)
    · exact h hlooks
  · intro hlaw
    have h := (Datagram.loopbackLaw_iff ⟨0, 1, true, 64, 0, #v[8, 0, 0, 1], #v[10, 0, 0, 1], [],
      5000, 6000, 0, [], ⟨0, rfl⟩, Nat.zero_le 40, by decide⟩).1 (hlaw _)
    exact h.1 rfl

/-! ## What is behind a type of `0x0800` -/

/-- The size of the IP header that `content` begins with. -/
def headerSize (content : List UInt8) : ℕ := (content.getD 0 0).toNat % 16 * 4

section

variable (stale : Bytes) (srcMac destMac : Vector UInt8 6) (f : Framing) (content : List UInt8)

theorem linkOffset_linkHeader :
    linkOffset (received stale (linkHeader srcMac destMac f ++ content))
      (linkHeader srcMac destMac f ++ content).length =
        some (linkHeader srcMac destMac f).length := by
  cases f with
  | ethernetII =>
    have hbytes : linkHeader srcMac destMac .ethernetII ++ content =
        (EtherFrame.mk destMac srcMac 0x0800 content).bytes := by
      simp only [linkHeader, EtherFrame.bytes, List.append_assoc]
      rfl
    have htype : (0x0800 : UInt16).toNat = ethPIp := rfl
    rw [hbytes, EtherFrame.linkOffset_bytes, if_pos htype, length_linkHeader]
    rfl
  | tagged tci =>
    have hbytes : linkHeader srcMac destMac (.tagged tci) ++ content =
        (EtherFrame.mk destMac srcMac 0x8100
          (be16 tci.toNat ++ (be16 ethPIp ++ content))).bytes := by
      simp only [linkHeader, EtherFrame.bytes, Framing.typeField, List.append_assoc]
      rfl
    have hinner : netWord (be16 tci.toNat ++ (be16 ethPIp ++ content)) 2 = ethPIp :=
      EtherFrame.netWord_be16 (by decide) content
    have hne : (0x8100 : UInt16).toNat ≠ ethPIp := by decide
    have htag : (0x8100 : UInt16).toNat = ethP8021Q := rfl
    rw [hbytes, EtherFrame.linkOffset_bytes, if_neg hne, if_pos htag,
      if_pos ⟨by simp only [List.length_append, length_be16]; omega, hinner⟩, length_linkHeader]
    rfl

theorem storeMacs_linkHeader (pkt : ParsedPacket) :
    storeMacs (received stale (linkHeader srcMac destMac f ++ content))
        (linkHeader srcMac destMac f).length pkt =
      { pkt with srcMac := srcMac.toList, destMac := destMac.toList } := by
  have hlen := length_linkHeader srcMac destMac f
  have hroom : 12 ≤ (linkHeader srcMac destMac f ++ content).length := by
    rw [List.length_append]
    omega
  rw [storeMacs, if_neg (by omega), bytesAt_received stale (by omega),
    bytesAt_received stale (by omega), List.drop_zero, linkHeader, List.append_assoc,
    List.drop_left' destMac.length_toList, List.take_left' destMac.length_toList,
    List.append_assoc, List.take_left' srcMac.length_toList]

end

/-- The UDP header behind a link header. -/
theorem udpOffset_content {stale : Bytes} {link content : List UInt8} (h : 0 < content.length) :
    udpOffset (received stale (link ++ content)) link.length =
      link.length + headerSize content := by
  have hihl := received_append stale link content h
  rw [Nat.add_zero] at hihl
  rw [udpOffset, hihl]
  rfl

/-- What is accepted behind a link header. -/
theorem segment_iff (stale : Bytes) (link content : List UInt8) :
    Segment (received stale (link ++ content)) (link ++ content).length link.length ↔
      20 ≤ content.length ∧ content.getD 9 0 = 17 ∧ headerSize content + 8 ≤ content.length := by
  rw [Segment, List.length_append]
  by_cases hip : 20 ≤ content.length
  · rw [received_append _ _ _ (by omega), udpOffset_content (by omega)]
    constructor
    · rintro ⟨-, hprotocol, hudp⟩
      exact ⟨hip, hprotocol, by omega⟩
    · rintro ⟨-, hprotocol, hudp⟩
      exact ⟨by omega, hprotocol, by omega⟩
  · exact iff_of_false (fun h => hip (by omega)) fun h => hip h.1

/-- Bytes read behind a link header. -/
theorem bytesAt_content {stale : Bytes} {link content : List UInt8} {k n : ℕ}
    (h : k + n ≤ content.length) :
    bytesAt (received stale (link ++ content)) (link.length + k) n = (content.drop k).take n := by
  rw [bytesAt_received stale (by rw [List.length_append]; omega), List.drop_length_add_append]

/-- A field of the UDP header behind a link header. -/
theorem udpField_content {stale : Bytes} {link content : List UInt8} {k : ℕ}
    (h : headerSize content + k + 2 ≤ content.length) :
    ntohs (leValue (bytesAt (received stale (link ++ content))
      (udpOffset (received stale (link ++ content)) link.length + k) 2)) =
      netWord content (headerSize content + k) := by
  rw [udpOffset_content (by omega), Nat.add_assoc, netWord_received (by omega)]

/-- What is reported of a segment behind a link header. -/
theorem report_content {stale : Bytes} {link content : List UInt8} (pkt : ParsedPacket)
    (hip : 20 ≤ content.length) (hudp : headerSize content + 8 ≤ content.length) :
    let buffer := received stale (link ++ content)
    let reported := report buffer (link ++ content).length link.length pkt
    let udp := headerSize content
    let udpLen := netWord content (udp + 4)
    reported.srcIp = leValue ((content.drop 12).take 4) ∧
      reported.destIp = leValue ((content.drop 16).take 4) ∧
      reported.srcPort = netWord content udp ∧ reported.destPort = netWord content (udp + 2) ∧
      reported.payloadBytes buffer =
        if 8 < udpLen ∧ udp + udpLen ≤ content.length then
          some ((content.drop (udp + 8)).take (udpLen - 8))
        else none := by
  intro buffer reported udp udpLen
  have hlen : udpLength buffer link.length = udpLen := udpField_content (by omega)
  have hlength : (link ++ content).length = link.length + content.length := List.length_append
  refine ⟨congrArg leValue (bytesAt_content (by omega)),
    congrArg leValue (bytesAt_content (by omega)), udpField_content (k := 0) (by omega),
    udpField_content (by omega), ?_⟩
  rw [payloadBytes_report, udpOffset_content (by omega), hlen]
  by_cases hpayload : 8 < udpLen ∧ udp + udpLen ≤ content.length
  · rw [if_pos hpayload, if_pos ⟨hpayload.1, by omega⟩, Nat.add_assoc,
      bytesAt_content (by omega)]
  · rw [if_neg hpayload, if_neg fun h => hpayload ⟨h.1, by omega⟩]

/-- **What is accepted behind a type of `0x0800`**: any content with protocol 17 in which the two
headers have room by its own `ihl`; what is reported is read there, a payload only as far as the
content goes. The version, the least `ihl`, the fragment offset and the total length do not
matter. -/
theorem accepted_frame (stale : Bytes) (srcMac destMac : Vector UInt8 6) (f : Framing)
    (content : List UInt8) (pkt : ParsedPacket) :
    let bytes := linkHeader srcMac destMac f ++ content
    let buffer := received stale bytes
    let result := parsed buffer bytes.length pkt
    let udp := headerSize content
    let udpLen := netWord content (udp + 4)
    (result.1 = true ↔ 20 ≤ content.length ∧ content.getD 9 0 = 17 ∧ udp + 8 ≤ content.length) ∧
      (result.1 = true →
        result.2.srcMac = srcMac.toList ∧ result.2.destMac = destMac.toList ∧
        result.2.srcIp = leValue ((content.drop 12).take 4) ∧
        result.2.destIp = leValue ((content.drop 16).take 4) ∧
        result.2.srcPort = netWord content udp ∧ result.2.destPort = netWord content (udp + 2) ∧
        result.2.payloadBytes buffer =
          if 8 < udpLen ∧ udp + udpLen ≤ content.length then
            some ((content.drop (udp + 8)).take (udpLen - 8))
          else none) := by
  intro bytes buffer result udp udpLen
  have hresult : result = if Segment buffer bytes.length (linkHeader srcMac destMac f).length then
      (true, report buffer bytes.length (linkHeader srcMac destMac f).length
        { pkt with srcMac := srcMac.toList, destMac := destMac.toList })
    else (false, { pkt with srcMac := srcMac.toList, destMac := destMac.toList }) := by
    have h := parsed_eq (linkOffset_linkHeader stale srcMac destMac f content) pkt
    rw [storeMacs_linkHeader] at h
    exact h
  have hiff := segment_iff stale (linkHeader srcMac destMac f) content
  by_cases hsegment : Segment buffer bytes.length (linkHeader srcMac destMac f).length
  · obtain ⟨hip, hprotocol, hudp⟩ := hiff.1 hsegment
    rw [if_pos hsegment] at hresult
    rw [hresult]
    exact ⟨iff_of_true rfl ⟨hip, hprotocol, hudp⟩, fun _ => ⟨rfl, rfl, report_content _ hip hudp⟩⟩
  · rw [if_neg hsegment] at hresult
    refine ⟨iff_of_false (by rw [hresult]; nofun) (mt hiff.2 hsegment), fun h => ?_⟩
    rw [hresult] at h
    cases h

/-- `content` begins with a UDP segment of an unfragmented datagram that ends within the total
length, with `payloadLen` bytes of payload. -/
structure RealSegment (content : List UInt8) (payloadLen : ℤ) : Prop where
  version : (content.getD 0 0).toNat / 16 = 4
  ihl : 5 ≤ (content.getD 0 0).toNat % 16
  fragment : netWord content 6 % 0x2000 = 0
  udpLen : 8 ≤ netWord content (headerSize content + 4)
  header : headerSize content + 8 ≤ netWord content 2
  payload : headerSize content + 8 + payloadLen ≤ netWord content 2

/-- The last fragment of a datagram of 1496 bytes: 16 bytes of its payload, and padding. -/
def lastFragment : List UInt8 :=
  [0x45, 0, 0, 36, 0, 1, 0, 185, 64, 17, 0, 0, 10, 0, 0, 1, 10, 0, 0, 2] ++
    (List.replicate 16 0x61 ++ List.replicate 10 0)

/-- The data of a last fragment is taken for a UDP header. -/
theorem not_realSegment : ¬ ∀ (stale : Bytes) (srcMac destMac : Vector UInt8 6) (f : Framing)
    (content : List UInt8) (pkt : ParsedPacket),
    let bytes := linkHeader srcMac destMac f ++ content
    let result := parsed (received stale bytes) bytes.length pkt
    result.1 = true → RealSegment content result.2.payloadLen := by
  intro hreal
  have hsegment := (segment_iff (fun _ => 0) (linkHeader #v[2, 0, 0, 0, 0, 1] #v[2, 0, 0, 0, 0, 2]
    .ethernetII) lastFragment).2 ⟨by decide, rfl, by decide⟩
  have h := hreal (fun _ => 0) #v[2, 0, 0, 0, 0, 1] #v[2, 0, 0, 0, 0, 2] .ethernetII lastFragment
    ⟨[], [], 0, 0, 0, 0, none, 0⟩
    ((parsed_fst_iff _ _ _).2 ⟨_, linkOffset_linkHeader _ _ _ _ _, hsegment⟩)
  exact absurd h.fragment (by decide)

end EltexPractice.Sniffer
