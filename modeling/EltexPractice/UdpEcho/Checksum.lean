import EltexPractice.Foundations.OnesComplement
import EltexPractice.UdpEcho.Packet

/-!
# The checksum of what is sent

What `build_udp_packet` sends verifies (`buildUdpPacket_verifies`): its checksum is that of the
internet protocols, computed over host words with two foldings, and it completes the
one's-complement sum over pseudo header, UDP header and payload. It is sent as it is computed, also
where that is zero: when the plain sum of the words is a multiple of 65535
(`checksum_ne_zero_iff`).
-/

namespace EltexPractice.UdpEcho

open CString

/-! ## The sum -/

theorem sumWords_eq (bytes : List UInt8) : sumWords bytes = (leWords bytes).sum := by
  induction bytes using sumWords.induct with
  | case1 => rfl
  | case2 b => simp [sumWords, leWords, wordsBy, beValue, leValue]
  | case3 b b' bs ih =>
    simp only [sumWords, leWords, wordsBy, List.sum_cons, ih, beValue, leValue]
    omega

/-- **Two foldings suffice** for what fits into a datagram. -/
theorem calculateChecksum_eq {bytes : List UInt8} (h : bytes.length ≤ 131072) :
    calculateChecksum bytes = 65535 - onesSum 65536 (leWords bytes) := by
  have hsum : (leWords bytes).sum < 65536 * 65536 := by
    have := sum_leWords_le bytes
    omega
  have hfold := (endAround_fold (by decide) hsum).unique (endAround_leWords bytes)
  have hlt := (endAround_leWords bytes).lt
  have hword := foldCarry_add_one_lt (by decide) hsum
  rw [← hfold] at hlt ⊢
  rw [calculateChecksum, sumWords_eq]
  -- the last carry is not masked before the conversion to 16 bits
  simp only [foldCarry] at hlt hword ⊢
  omega

/-- What the checksum is computed over, with the checksum `sum` stored. -/
def pseudogram (srcIp destIp srcPort destPort : ℕ) (payload : List UInt8) (sum : ℕ) : List UInt8 :=
  pseudoHeader srcIp destIp (8 + payload.length) ++ udpPacket srcPort destPort sum payload

section

variable (srcIp destIp srcPort destPort : ℕ) (payload : List UInt8)

theorem length_pseudogram (sum : ℕ) :
    (pseudogram srcIp destIp srcPort destPort payload sum).length = 20 + payload.length := by
  simp only [pseudogram, pseudoHeader, udpPacket, udpHeader, List.length_append, length_leBytes,
    length_be16, List.length_cons, List.length_nil]
  omega

/-- The checksum is one word of the sum. -/
theorem sum_leWords_pseudogram {sum : ℕ} (h : sum < 65536) :
    (leWords (pseudogram srcIp destIp srcPort destPort payload sum)).sum =
      (leWords (pseudogram srcIp destIp srcPort destPort payload 0)).sum + sum := by
  have hsplit : ∀ s, pseudogram srcIp destIp srcPort destPort payload s =
      (pseudoHeader srcIp destIp (8 + payload.length) ++
        (be16 srcPort ++ (be16 destPort ++ be16 (8 + payload.length)))) ++
        (leBytes 2 s ++ payload) := fun s => by
    simp only [pseudogram, udpPacket, udpHeader, List.append_assoc]
  have heven : (pseudoHeader srcIp destIp (8 + payload.length) ++
      (be16 srcPort ++ (be16 destPort ++ be16 (8 + payload.length)))).length % 2 = 0 := by
    simp only [pseudoHeader, List.length_append, length_leBytes, length_be16, List.length_cons,
      List.length_nil]
  have hword : ∀ s, s < 65536 →
      (leWords (leBytes 2 s ++ payload)).sum = s + (leWords payload).sum := fun s hs => by
    simp only [leWords, leBytes, List.cons_append, List.nil_append, wordsBy, beValue,
      UInt8.toNat_ofNat', List.sum_cons]
    omega
  rw [hsplit, hsplit, leWords_append heven, leWords_append heven, List.sum_append, List.sum_append,
    hword sum h, hword 0 (by decide)]
  omega

/-- The packet that is built, with the checksum over its own fields. -/
theorem buildUdpPacket_eq_udpPacket :
    buildUdpPacket true srcIp destIp srcPort destPort payload payload.length =
      some (udpPacket srcPort destPort
        (calculateChecksum (pseudogram srcIp destIp srcPort destPort payload 0)) payload) := by
  rw [buildUdpPacket, List.take_length]
  rfl

end

/-- **The checksum verifies**: with the stored checksum the sum over pseudo header, UDP header and
payload is `0xFFFF`, and the checksum is that of the internet protocols. -/
theorem buildUdpPacket_verifies (srcIp destIp srcPort destPort : ℕ) (payload : List UInt8)
    (h : payload.length ≤ 65507) :
    let header := pseudoHeader srcIp destIp (8 + payload.length)
    ∃ sum, buildUdpPacket true srcIp destIp srcPort destPort payload payload.length =
        some (udpPacket srcPort destPort sum payload) ∧
      onesSum 65536 (beWords (header ++ udpPacket srcPort destPort sum payload)) = 0xFFFF ∧
      onesSum 65536 (leWords (header ++ udpPacket srcPort destPort sum payload)) = 0xFFFF ∧
      sum < 65536 ∧
      sum = 0xFFFF - onesSum 65536 (leWords (header ++ udpPacket srcPort destPort 0 payload)) ∧
      ntohs sum = internetChecksum (header ++ udpPacket srcPort destPort 0 payload) := by
  intro header
  have hlen := length_pseudogram srcIp destIp srcPort destPort payload 0
  have hrep := endAround_leWords (pseudogram srcIp destIp srcPort destPort payload 0)
  have hlt := hrep.lt
  have hsum := calculateChecksum_eq (show
    (pseudogram srcIp destIp srcPort destPort payload 0).length ≤ 131072 by omega)
  have hle : calculateChecksum (pseudogram srcIp destIp srcPort destPort payload 0) < 65536 := by
    omega
  -- the stored checksum completes the sum of the host words, and so that of the network words
  have hhost : onesSum 65536 (leWords (pseudogram srcIp destIp srcPort destPort payload
      (calculateChecksum (pseudogram srcIp destIp srcPort destPort payload 0)))) = 65535 := by
    refine (endAround_leWords _).unique ?_
    rw [sum_leWords_pseudogram _ _ _ _ _ hle, hsum]
    exact hrep.complement (by decide)
  refine ⟨_, buildUdpPacket_eq_udpPacket srcIp destIp srcPort destPort payload, ?_, hhost, hle,
    hsum, ?_⟩
  · exact (ntohs_onesSum_leWords _).symm.trans (congrArg ntohs hhost)
  · rw [internetChecksum, ← pseudogram, ← ntohs_onesSum_leWords, hsum]
    unfold ntohs
    omega

/-- A packet with a payload of odd length, between two programs of one host. -/
theorem helloPacket_verifies :
    let header := pseudoHeader 0x0100007F 0x0100007F 13
    (ascii "hello").length ≤ 65507 ∧
      ∃ sum, buildUdpPacket true 0x0100007F 0x0100007F 50000 8888 (ascii "hello") 5 =
          some (udpPacket 50000 8888 sum (ascii "hello")) ∧
        onesSum 65536 (beWords (header ++ udpPacket 50000 8888 sum (ascii "hello"))) = 0xFFFF ∧
        ntohs sum = internetChecksum (header ++ udpPacket 50000 8888 0 (ascii "hello")) := by
  intro header
  have hlen : (ascii "hello").length ≤ 65507 := by decide
  obtain ⟨sum, hbuild, hsum, -, -, -, hchecksum⟩ :=
    buildUdpPacket_verifies 0x0100007F 0x0100007F 50000 8888 (ascii "hello") hlen
  exact ⟨hlen, sum, hbuild, hsum, hchecksum⟩

/-! ## When it is zero -/

/-- The checksum field of a UDP packet. -/
def checksumField (packet : List UInt8) : ℕ := leValue ((packet.drop 6).take 2)

/-- The plain sum of the two words of an address, in network order. -/
def addressWords (ip : ℕ) : ℕ := (beWords (leBytes 4 ip)).sum

/-- The plain sum of the words in network order: the addresses, the protocol, the length twice, the
ports and the payload. -/
def plainSum (srcIp destIp srcPort destPort : ℕ) (payload : List UInt8) : ℕ :=
  addressWords srcIp + addressWords destIp + ipprotoUdp + 2 * (8 + payload.length) + srcPort +
    destPort + (beWords payload).sum

theorem sum_beWords_be16 {v : ℕ} (hv : v < 65536) : (beWords (be16 v)).sum = v := by
  simp only [beWords, be16, wordsBy, beValue, UInt8.toNat_ofNat', List.sum_cons, List.sum_nil]
  omega

theorem sum_beWords_pseudogram {srcIp destIp srcPort destPort : ℕ} {payload : List UInt8}
    (hsrc : srcPort < 65536) (hdest : destPort < 65536) (hlen : 8 + payload.length < 65536) :
    (beWords (pseudogram srcIp destIp srcPort destPort payload 0)).sum =
      plainSum srcIp destIp srcPort destPort payload := by
  have hword : ∀ v (rest : List UInt8), v < 65536 →
      (beWords (be16 v ++ rest)).sum = v + (beWords rest).sum := fun v rest hv => by
    rw [beWords_append (by rw [length_be16]), List.sum_append, sum_beWords_be16 hv]
  have haddress : ∀ ip (rest : List UInt8),
      (beWords (leBytes 4 ip ++ rest)).sum = addressWords ip + (beWords rest).sum :=
    fun ip rest => by
      rw [beWords_append (by rw [length_leBytes]), List.sum_append, addressWords]
  have hprotocol : ∀ rest : List UInt8, (beWords ([0, UInt8.ofNat ipprotoUdp] ++ rest)).sum =
      ipprotoUdp + (beWords rest).sum := fun _ => rfl
  have hfields : pseudogram srcIp destIp srcPort destPort payload 0 =
      leBytes 4 srcIp ++ (leBytes 4 destIp ++ ([0, UInt8.ofNat ipprotoUdp] ++
        (be16 (8 + payload.length) ++ (be16 srcPort ++ (be16 destPort ++
          (be16 (8 + payload.length) ++ (be16 0 ++ payload))))))) := by
    simp only [pseudogram, pseudoHeader, udpPacket, udpHeader, List.append_assoc]
    rfl
  rw [hfields, haddress, haddress, hprotocol, hword _ _ hlen, hword _ _ hsrc, hword _ _ hdest,
    hword _ _ hlen, hword 0 _ (by decide), plainSum]
  omega

/-- **When the checksum is not zero**: when the plain sum of the words is not a multiple of
65535. -/
theorem checksum_ne_zero_iff (srcIp destIp : ℕ) (srcPort destPort : UInt16) (payload : List UInt8)
    (h : payload.length ≤ 65507) :
    (∃ packet, buildUdpPacket true srcIp destIp srcPort.toNat destPort.toNat payload
        payload.length = some packet ∧ checksumField packet ≠ 0) ↔
      ¬ 65535 ∣ plainSum srcIp destIp srcPort.toNat destPort.toNat payload := by
  have hbuild :=
    buildUdpPacket_eq_udpPacket srcIp destIp srcPort.toNat destPort.toNat payload
  have hlen := length_pseudogram srcIp destIp srcPort.toNat destPort.toNat payload 0
  have hle := endAround_leWords (pseudogram srcIp destIp srcPort.toNat destPort.toNat payload 0)
  have hbe := endAround_beWords (pseudogram srcIp destIp srcPort.toNat destPort.toNat payload 0)
  have hsum := calculateChecksum_eq (show
    (pseudogram srcIp destIp srcPort.toNat destPort.toNat payload 0).length ≤ 131072 by omega)
  rw [← ntohs_onesSum_leWords, sum_beWords_pseudogram srcPort.toNat_lt destPort.toNat_lt
    (by omega)] at hbe
  set sum := calculateChecksum (pseudogram srcIp destIp srcPort.toNat destPort.toNat payload 0)
  have hfield : checksumField (udpPacket srcPort.toNat destPort.toNat sum payload) = sum := by
    have hlt : sum < 256 ^ 2 := by omega
    exact leValue_leBytes_of_lt hlt
  -- the complement of the sum is zero where the sum is the largest word
  have hzero : sum = 0 ↔ ntohs (onesSum 65536 (leWords (pseudogram srcIp destIp srcPort.toNat
      destPort.toNat payload 0))) = 65535 := by
    have := hle.lt
    unfold ntohs
    omega
  have hne : plainSum srcIp destIp srcPort.toNat destPort.toNat payload ≠ 0 := by
    simp only [plainSum, ipprotoUdp]
    omega
  have htop := hbe.eq_top_iff (by decide)
  rw [hbuild]
  constructor
  · rintro ⟨packet, hpacket, hfield'⟩ hdvd
    obtain rfl := Option.some.inj hpacket
    exact hfield' (hfield.trans (hzero.2 (htop.2 ⟨hne, hdvd⟩)))
  · intro hdvd
    exact ⟨_, rfl, fun hfield' => hdvd (htop.1 (hzero.1 (hfield.symm.trans hfield'))).2⟩

/-- The payload `hello`, between two programs of one host. -/
theorem checksum_ne_zero_hello : (ascii "hello").length ≤ 65507 ∧
    ((∃ packet, buildUdpPacket true 0x0100007F 0x0100007F 50000 8888 (ascii "hello") 5 =
        some packet ∧ checksumField packet ≠ 0) ↔
      ¬ 65535 ∣ plainSum 0x0100007F 0x0100007F 50000 8888 (ascii "hello")) :=
  ⟨by decide, checksum_ne_zero_iff 0x0100007F 0x0100007F 50000 8888 (ascii "hello") (by decide)⟩

/-- From port 30390 to port 8888 of the same host, `hi` is sent without a checksum. -/
theorem hi_checksum_eq_zero :
    buildUdpPacket true 0x0100007F 0x0100007F 30390 8888 (ascii "hi") 2 =
        some (udpPacket 30390 8888 0 (ascii "hi")) ∧
      checksumField (udpPacket 30390 8888 0 (ascii "hi")) = 0 := by
  decide

end EltexPractice.UdpEcho
