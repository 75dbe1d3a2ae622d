import EltexPractice.Foundations.ByteMemory
import EltexPractice.Foundations.CString

/-!
# Packets of the raw echo

The functions of `utils.c` of task 9: the checksum and the UDP packet a reply is sent in. An
`s_addr` is the host value of the four bytes of the address.
-/

namespace EltexPractice.UdpEcho

open CString

/-- `BUFFER_SIZE` -/
def bufferSize : ℕ := 65536

/-- `SHUTDOWN_MSG` -/
def shutdownMsg : List UInt8 := ascii "CLIENT_SHUTDOWN_SIGNAL"

/-- `IPPROTO_UDP` -/
def ipprotoUdp : ℕ := 17

/-- The sum of the loops of `calculate_checksum`: the 16-bit words in host order, the last byte of
an odd number of bytes on its own. -/
def sumWords : List UInt8 → ℕ
  | [] => 0
  | [b] => leValue [b]
  | b :: b' :: bs => leValue [b, b'] + sumWords bs

/-- `calculate_checksum`. -/
def calculateChecksum (bytes : List UInt8) : ℕ :=
  let sum := sumWords bytes
  let sum := sum / 65536 + sum % 65536
  let sum := sum + sum / 65536
  65535 - sum % 65536

/-- `struct pseudo_header`. -/
def pseudoHeader (srcIp destIp udpLength : ℕ) : List UInt8 :=
  leBytes 4 srcIp ++ (leBytes 4 destIp ++ ([0, UInt8.ofNat ipprotoUdp] ++ be16 udpLength))

/-- A UDP header, its checksum as stored. -/
def udpHeader (srcPort destPort udpLength : ℕ) (sum : List UInt8) : List UInt8 :=
  be16 srcPort ++ (be16 destPort ++ (be16 udpLength ++ sum))

/-- `build_udp_packet`, on the bytes at `payload`; `none` when `malloc` fails. -/
def buildUdpPacket (mallocOk : Bool) (srcIp destIp srcPort destPort : ℕ) (payload : List UInt8)
    (payloadLen : ℕ) : Option (List UInt8) :=
  let data := payload.take payloadLen
  let header := udpHeader srcPort destPort (8 + payloadLen)
  if mallocOk then
    let pseudogram := pseudoHeader srcIp destIp (8 + payloadLen) ++ (header (leBytes 2 0) ++ data)
    some (header (leBytes 2 (calculateChecksum pseudogram)) ++ data)
  else none

theorem length_udpHeader (srcPort destPort udpLength sum : ℕ) :
    (udpHeader srcPort destPort udpLength (leBytes 2 sum)).length = 8 := rfl

/-- A UDP packet with its payload. -/
def udpPacket (srcPort destPort sum : ℕ) (payload : List UInt8) : List UInt8 :=
  udpHeader srcPort destPort (8 + payload.length) (leBytes 2 sum) ++ payload

/-- A packet is built unless `malloc` fails. -/
theorem buildUdpPacket_eq (srcIp destIp srcPort destPort : ℕ) (payload : List UInt8) :
    ∃ sum, ∀ mallocOk,
      buildUdpPacket mallocOk srcIp destIp srcPort destPort payload payload.length =
        if mallocOk then some (udpPacket srcPort destPort sum payload) else none := by
  refine ⟨calculateChecksum (pseudoHeader srcIp destIp (8 + payload.length) ++
    udpPacket srcPort destPort 0 payload), fun mallocOk => ?_⟩
  rw [buildUdpPacket, List.take_length]
  rfl

end EltexPractice.UdpEcho
