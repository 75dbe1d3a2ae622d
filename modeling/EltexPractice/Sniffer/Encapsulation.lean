import EltexPractice.Sniffer.Parser

/-!
# Parsing undoes encapsulation

An IPv4/UDP datagram (`Datagram`) in an Ethernet II or an 802.1Q frame (`frame`), captured into a
buffer with anything behind it, is parsed back to its addresses, ports and payload
(`parsed_frame`).
-/

namespace EltexPractice.Sniffer

/-! ## Encapsulation -/

/-- An unfragmented UDP datagram over IPv4, with any IP options. Addresses are in the order of the
wire. -/
structure Datagram where
  tos : UInt8
  identification : UInt16
  dontFragment : Bool
  ttl : UInt8
  headerChecksum : UInt16
  srcIp : Vector UInt8 4
  destIp : Vector UInt8 4
  options : List UInt8
  srcPort : UInt16
  destPort : UInt16
  udpChecksum : UInt16
  payload : List UInt8
  options_dvd : 4 ∣ options.length
  options_le : options.length ≤ 40
  fits : 20 + options.length + 8 + payload.length ≤ 65535

namespace Datagram

/-- The header length in 32-bit words. -/
def ihl (d : Datagram) : ℕ := 5 + d.options.length / 4

/-- The first 12 bytes of the IP header: version 4, fragment offset 0, protocol UDP. -/
def ipHead (d : Datagram) : List UInt8 :=
  [UInt8.ofNat (64 + d.ihl), d.tos] ++
    (be16 (20 + d.options.length + 8 + d.payload.length) ++
      (be16 d.identification.toNat ++
        (be16 (if d.dontFragment then 0x4000 else 0) ++
          ([d.ttl, 17] ++ be16 d.headerChecksum.toNat))))

/-- The IP header. -/
def ipHeader (d : Datagram) : List UInt8 :=
  d.ipHead ++ (d.srcIp.toList ++ (d.destIp.toList ++ d.options))

/-- The UDP header. -/
def udpHeader (d : Datagram) : List UInt8 :=
  be16 d.srcPort.toNat ++
    (be16 d.destPort.toNat ++ (be16 (8 + d.payload.length) ++ be16 d.udpChecksum.toNat))

/-- The datagram as sent. -/
def bytes (d : Datagram) : List UInt8 := d.ipHeader ++ (d.udpHeader ++ d.payload)

@[simp] theorem length_ipHead (d : Datagram) : d.ipHead.length = 12 := rfl

@[simp] theorem length_udpHeader (d : Datagram) : d.udpHeader.length = 8 := rfl

@[simp] theorem length_ipHeader (d : Datagram) : d.ipHeader.length = d.ihl * 4 := by
  have hdvd := Nat.div_mul_cancel d.options_dvd
  simp only [ipHeader, List.length_append, length_ipHead, Vector.length_toList, ihl]
  omega

theorem length_bytes (d : Datagram) : d.bytes.length = d.ihl * 4 + 8 + d.payload.length := by
  simp only [bytes, List.length_append, length_ipHeader, length_udpHeader]
  omega

theorem ihl_le (d : Datagram) : d.ihl ≤ 15 := by
  have := d.options_le
  unfold ihl
  omega

end Datagram

/-- How a datagram is framed. -/
inductive Framing
  | ethernetII
  /-- One 802.1Q tag with its control information. -/
  | tagged (tci : UInt16)

/-- What stands between the MAC addresses and the datagram. -/
def Framing.typeField : Framing → List UInt8
  | ethernetII => be16 ethPIp
  | tagged tci => be16 ethP8021Q ++ (be16 tci.toNat ++ be16 ethPIp)

/-- The link header of a frame. -/
def linkHeader (srcMac destMac : Vector UInt8 6) (f : Framing) : List UInt8 :=
  destMac.toList ++ (srcMac.toList ++ f.typeField)

@[simp] theorem length_linkHeader (srcMac destMac : Vector UInt8 6) (f : Framing) :
    (linkHeader srcMac destMac f).length = 12 + f.typeField.length := by
  simp only [linkHeader, List.length_append, Vector.length_toList]
  omega

/-- A frame, with its padding. -/
def frame (srcMac destMac : Vector UInt8 6) (f : Framing) (d : Datagram) (padding : List UInt8) :
    List UInt8 :=
  linkHeader srcMac destMac f ++ (d.bytes ++ padding)

theorem length_frame (srcMac destMac : Vector UInt8 6) (f : Framing) (d : Datagram)
    (padding : List UInt8) : (frame srcMac destMac f d padding).length =
      12 + f.typeField.length + (d.bytes ++ padding).length := by
  rw [frame, List.length_append, length_linkHeader]

/-! ## The fields of a captured datagram -/

section

variable (stale : Bytes) (link : List UInt8) (d : Datagram) (padding : List UInt8)

theorem bytesAt_datagram {k n : ℕ} (h : k + n ≤ d.bytes.length) :
    bytesAt (received stale (link ++ (d.bytes ++ padding))) (link.length + k) n =
      (d.bytes.drop k).take n := by
  rw [bytesAt_received stale (by simp only [List.length_append]; omega),
    List.drop_length_add_append, List.drop_append_of_le_length (by omega),
    List.take_append_of_le_length (by rw [List.length_drop]; omega)]

theorem Datagram.ihl_ge (d : Datagram) : 5 ≤ d.ihl := Nat.le_add_right 5 _

/-- A field of the first 12 bytes of the IP header. -/
theorem bytesAt_ipHead {k n : ℕ} (h : k + n ≤ 12) :
    bytesAt (received stale (link ++ (d.bytes ++ padding))) (link.length + k) n =
      (d.ipHead.drop k).take n := by
  have hlen := d.length_bytes
  have hihl := d.ihl_ge
  rw [bytesAt_datagram stale link d padding (by omega), Datagram.bytes, Datagram.ipHeader,
    List.append_assoc, List.drop_append_of_le_length (by rw [d.length_ipHead]; omega),
    List.take_append_of_le_length (by rw [List.length_drop, d.length_ipHead]; omega)]

theorem bytesAt_srcIp :
    bytesAt (received stale (link ++ (d.bytes ++ padding))) (link.length + 12) 4 =
      d.srcIp.toList := by
  have hlen := d.length_bytes
  have hihl := d.ihl_ge
  rw [bytesAt_datagram stale link d padding (by omega), Datagram.bytes, Datagram.ipHeader,
    List.append_assoc, List.drop_left' d.length_ipHead, List.append_assoc,
    List.take_left' (Vector.length_toList ..)]

theorem bytesAt_destIp :
    bytesAt (received stale (link ++ (d.bytes ++ padding))) (link.length + 16) 4 =
      d.destIp.toList := by
  have hlen := d.length_bytes
  have hihl := d.ihl_ge
  have hhead : (d.ipHead ++ d.srcIp.toList).length = 16 := by simp
  rw [bytesAt_datagram stale link d padding (by omega), Datagram.bytes, Datagram.ipHeader,
    List.append_assoc, List.append_assoc, ← List.append_assoc, List.drop_left' hhead,
    List.append_assoc, List.take_left' (Vector.length_toList ..)]

/-- A field of the UDP header. -/
theorem bytesAt_udpHeader {k n : ℕ} (h : k + n ≤ 8) :
    bytesAt (received stale (link ++ (d.bytes ++ padding))) (link.length + d.ihl * 4 + k) n =
      (d.udpHeader.drop k).take n := by
  have hlen := d.length_bytes
  rw [Nat.add_assoc, bytesAt_datagram stale link d padding (by omega), Datagram.bytes,
    ← d.length_ipHeader, List.drop_length_add_append,
    List.drop_append_of_le_length (by rw [d.length_udpHeader]; omega),
    List.take_append_of_le_length (by rw [List.length_drop, d.length_udpHeader]; omega)]

theorem bytesAt_payload :
    bytesAt (received stale (link ++ (d.bytes ++ padding))) (link.length + d.ihl * 4 + 8)
      d.payload.length = d.payload := by
  have hlen := d.length_bytes
  rw [Nat.add_assoc, bytesAt_datagram stale link d padding (by omega), Datagram.bytes,
    ← d.length_ipHeader, List.drop_length_add_append, List.drop_left' d.length_udpHeader,
    List.take_length]

/-! ## Parsing -/

/-- `pkt` with the addresses, the ports and the payload of the datagram behind a link header of
`n` bytes. -/
def Datagram.storedIn (d : Datagram) (n : ℕ) (pkt : ParsedPacket) : ParsedPacket :=
  { pkt with
    srcIp := leValue d.srcIp.toList
    destIp := leValue d.destIp.toList
    srcPort := d.srcPort.toNat
    destPort := d.destPort.toNat
    payload := if d.payload = [] then none else some (n + d.ihl * 4 + 8)
    payloadLen := d.payload.length }

theorem wp_parseFields (pkt : ParsedPacket) {s : Mem}
    (hs : s.bytes = received stale (link ++ (d.bytes ++ padding))) :
    (parseFields (link ++ (d.bytes ++ padding)).length link.length (link.length + d.ihl * 4)
      pkt).wp (fun r _ => r = (true, d.storedIn link.length pkt)) s := by
  have hsrcPort := bytesAt_udpHeader stale link d padding (k := 0) (n := 2) (by omega)
  have hdestPort := bytesAt_udpHeader stale link d padding (k := 2) (n := 2) (by omega)
  have hudpLen := bytesAt_udpHeader stale link d padding (k := 4) (n := 2) (by omega)
  rw [show (d.udpHeader.drop 0).take 2 = be16 d.srcPort.toNat from rfl, Nat.add_zero] at hsrcPort
  rw [show (d.udpHeader.drop 2).take 2 = be16 d.destPort.toNat from rfl] at hdestPort
  rw [show (d.udpHeader.drop 4).take 2 = be16 (8 + d.payload.length) from rfl] at hudpLen
  have hfits := d.fits
  have hlen := d.length_bytes
  have hpayloadLen :
      toInt (((8 + d.payload.length : ℕ) : ℤ) - sizeofUdphdr) = d.payload.length := by
    rw [sizeofUdphdr, toInt_eq_self] <;> omega
  simp only [parseFields, MemM.wp_bind, MemM.wp_load, Mem.bytes_touch, hs,
    bytesAt_srcIp stale link d padding, bytesAt_destIp stale link d padding, hsrcPort, hdestPort,
    hudpLen, ntohs_leValue_be16 (UInt16.toNat_lt _),
    ntohs_leValue_be16 (show 8 + d.payload.length < 65536 by omega), hpayloadLen]
  split
  · rename_i hpos
    rw [MemM.wp_pure, Datagram.storedIn, if_neg (by rintro h; simp [h] at hpos)]
  · rename_i hneg
    have hnil : d.payload = [] := by
      rw [← List.length_eq_zero_iff]
      simp only [List.length_append] at hneg
      omega
    rw [MemM.wp_pure, Datagram.storedIn, hnil, if_pos rfl]
    rfl

theorem wp_parseIp (pkt : ParsedPacket) {s : Mem}
    (hs : s.bytes = received stale (link ++ (d.bytes ++ padding))) :
    (parseIp (link ++ (d.bytes ++ padding)).length link.length pkt).wp
      (fun r _ => r = (true, d.storedIn link.length pkt)) s := by
  have hlen := d.length_bytes
  have hihl := d.ihl_ge
  have hihl' := d.ihl_le
  have hprotocol := bytesAt_ipHead stale link d padding (k := 9) (n := 1) (by omega)
  have hversionIhl := bytesAt_ipHead stale link d padding (k := 0) (n := 1) (by omega)
  rw [show (d.ipHead.drop 9).take 1 = [17] from rfl] at hprotocol
  rw [show (d.ipHead.drop 0).take 1 = [UInt8.ofNat (64 + d.ihl)] from rfl, Nat.add_zero]
    at hversionIhl
  have hvalue : leValue [UInt8.ofNat (64 + d.ihl)] % 16 = d.ihl := by
    simp only [leValue, UInt8.toNat_ofNat']
    omega
  have hroom : ((link ++ (d.bytes ++ padding)).length : ℤ) =
      link.length + d.ihl * 4 + 8 + d.payload.length + padding.length := by
    simp only [List.length_append]
    omega
  rw [parseIp, if_neg (by rw [hroom, sizeofIphdr]; omega)]
  simp only [MemM.wp_bind, MemM.wp_load, hs, hprotocol]
  rw [if_neg (by decide), MemM.wp_bind, MemM.wp_load, Mem.bytes_touch, hs, hversionIhl, hvalue,
    if_neg (by rw [hroom, sizeofUdphdr]; push_cast; omega)]
  exact wp_parseFields stale link d padding pkt hs

end

/-- The type of a frame. -/
theorem bytesAt_typeField (stale : Bytes) (srcMac destMac : Vector UInt8 6) (f : Framing)
    (d : Datagram) (padding : List UInt8) {k n : ℕ} (h : k + n ≤ f.typeField.length) :
    bytesAt (received stale (frame srcMac destMac f d padding)) (12 + k) n =
      (f.typeField.drop k).take n := by
  have hmacs : (destMac.toList ++ srcMac.toList).length = 12 := by simp
  have hlen := length_frame srcMac destMac f d padding
  rw [bytesAt_received stale (by omega), frame, linkHeader, ← List.append_assoc destMac.toList,
    List.append_assoc, ← hmacs, List.drop_length_add_append,
    List.drop_append_of_le_length (by omega),
    List.take_append_of_le_length (by rw [List.length_drop]; omega)]

/-- The MAC addresses of a frame. -/
theorem wp_copyMacs (stale : Bytes) (srcMac destMac : Vector UInt8 6) (f : Framing)
    (d : Datagram) (padding : List UInt8) (pkt : ParsedPacket) {s : Mem}
    (hs : s.bytes = received stale (frame srcMac destMac f d padding)) :
    (copyMacs pkt).wp (fun pkt' s' => s'.bytes = s.bytes ∧
      pkt' = { pkt with srcMac := srcMac.toList, destMac := destMac.toList }) s := by
  have hlen := length_frame srcMac destMac f d padding
  have hdest : bytesAt s.bytes 0 6 = destMac.toList := by
    rw [hs, bytesAt_received stale (by omega), List.drop_zero, frame, linkHeader, List.append_assoc,
      List.take_left' destMac.length_toList]
  have hsrc : bytesAt s.bytes 6 6 = srcMac.toList := by
    rw [hs, bytesAt_received stale (by omega), frame, linkHeader, List.append_assoc,
      List.drop_left' destMac.length_toList, List.append_assoc,
      List.take_left' srcMac.length_toList]
  simp only [copyMacs, MemM.wp_bind, MemM.wp_loadBytes, Mem.bytes_touch, hsrc, hdest,
    MemM.wp_pure, and_self]

theorem wp_parseUdpPacket (stale : Bytes) (srcMac destMac : Vector UInt8 6) (f : Framing)
    (d : Datagram) (padding : List UInt8) (pkt : ParsedPacket) {s : Mem}
    (hs : s.bytes = received stale (frame srcMac destMac f d padding)) :
    (parseUdpPacket (frame srcMac destMac f d padding).length pkt).wp
      (fun r _ => r = (true, d.storedIn (linkHeader srcMac destMac f).length
        { pkt with srcMac := srcMac.toList, destMac := destMac.toList })) s := by
  have hip := @wp_parseIp stale (linkHeader srcMac destMac f) d padding
    { pkt with srcMac := srcMac.toList, destMac := destMac.toList }
  have hfield := fun k n => bytesAt_typeField stale srcMac destMac f d padding (k := k) (n := n)
  have hlen := length_frame srcMac destMac f d padding
  rw [← frame] at hip
  cases f with
  | ethernetII =>
    have htype : bytesAt s.bytes 12 2 = be16 ethPIp := hs ▸ hfield 0 2 le_rfl
    rw [parseUdpPacket, if_neg (by simp [Framing.typeField] at hlen; omega)]
    simp only [MemM.wp_bind, MemM.wp_load, htype]
    rw [ntohs_leValue_be16 (by decide), if_pos rfl, MemM.wp_bind]
    refine MemM.wp_mono (wp_copyMacs stale srcMac destMac _ d padding pkt hs) fun pkt' s' h => ?_
    rw [h.2]
    rw [show (linkHeader srcMac destMac .ethernetII).length = 14 from length_linkHeader ..]
      at hip ⊢
    exact hip (h.1.trans hs)
  | tagged tci =>
    have htype : bytesAt s.bytes 12 2 = be16 ethP8021Q := hs ▸ hfield 0 2 (Nat.le_add_right 2 4)
    have hinner : bytesAt s.bytes 16 2 = be16 ethPIp := hs ▸ hfield 4 2 le_rfl
    rw [parseUdpPacket, if_neg (by simp [Framing.typeField] at hlen; omega)]
    simp only [MemM.wp_bind, MemM.wp_load, htype]
    rw [ntohs_leValue_be16 (by decide), if_neg (by decide), if_pos rfl,
      if_neg (by simp [Framing.typeField] at hlen; omega), MemM.wp_bind, MemM.wp_load,
      Mem.bytes_touch, hinner, ntohs_leValue_be16 (by decide), if_neg (by decide), MemM.wp_bind]
    refine MemM.wp_mono (wp_copyMacs stale srcMac destMac _ d padding pkt hs) fun pkt' s' h => ?_
    rw [h.2]
    rw [show (linkHeader srcMac destMac (.tagged tci)).length = 18 from length_linkHeader ..]
      at hip ⊢
    exact hip (h.1.trans hs)

/-- The result of the parser on a frame. -/
theorem parsed_eq_storedIn (stale : Bytes) (srcMac destMac : Vector UInt8 6) (f : Framing)
    (d : Datagram) (padding : List UInt8) (pkt : ParsedPacket) :
    parsed (received stale (frame srcMac destMac f d padding))
        (frame srcMac destMac f d padding).length pkt =
      (true, d.storedIn (linkHeader srcMac destMac f).length
        { pkt with srcMac := srcMac.toList, destMac := destMac.toList }) :=
  wp_parseUdpPacket stale srcMac destMac f d padding pkt (s := ⟨_, []⟩) rfl

/-- **Parsing undoes encapsulation**: whatever the buffer held before and the packet was. -/
theorem parsed_frame (stale : Bytes) (srcMac destMac : Vector UInt8 6) (f : Framing)
    (d : Datagram) (padding : List UInt8) (pkt : ParsedPacket) :
    let buffer := received stale (frame srcMac destMac f d padding)
    let result := parsed buffer (frame srcMac destMac f d padding).length pkt
    result.1 = true ∧
      result.2.srcMac = srcMac.toList ∧ result.2.destMac = destMac.toList ∧
      result.2.srcIp = leValue d.srcIp.toList ∧ result.2.destIp = leValue d.destIp.toList ∧
      result.2.srcPort = d.srcPort.toNat ∧ result.2.destPort = d.destPort.toNat ∧
      result.2.payloadLen = d.payload.length ∧
      result.2.payloadBytes buffer = if d.payload = [] then none else some d.payload := by
  intro buffer result
  have hresult : result = (true, d.storedIn (linkHeader srcMac destMac f).length
      { pkt with srcMac := srcMac.toList, destMac := destMac.toList }) :=
    parsed_eq_storedIn stale srcMac destMac f d padding pkt
  rw [hresult]
  refine ⟨rfl, rfl, rfl, rfl, rfl, rfl, rfl, rfl, ?_⟩
  rw [ParsedPacket.payloadBytes, Datagram.storedIn]
  split
  · rfl
  · rw [Option.map_some, Int.toNat_natCast]
    exact congrArg some (bytesAt_payload stale (linkHeader srcMac destMac f) d padding)

end EltexPractice.Sniffer
