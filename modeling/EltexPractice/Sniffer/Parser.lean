import EltexPractice.Foundations.ByteMemory

/-!
# The sniffer's parser

`parse_udp_packet` of task 8: the captured bytes are read through link layer, IP and UDP into a
`ParsedPacket`. A pointer into the capture buffer is its offset, `NULL` is `none`, an `in_addr` is
the host value of its four bytes. A `false` keeps what was stored in the packet before it.
-/

namespace EltexPractice.Sniffer

/-- `ParsedPacket`. -/
structure ParsedPacket where
  srcMac : List UInt8
  destMac : List UInt8
  srcIp : ℕ
  destIp : ℕ
  srcPort : ℕ
  destPort : ℕ
  payload : Option ℕ
  payloadLen : ℤ
  deriving DecidableEq

/-- `ETH_P_IP`. -/
def ethPIp : ℕ := 0x0800

/-- The type of an 802.1Q tag. -/
def ethP8021Q : ℕ := 0x8100

/-- `IPPROTO_UDP`. -/
def ipprotoUdp : ℕ := 17

/-- `sizeof(struct iphdr)`. -/
def sizeofIphdr : ℤ := 20

/-- `sizeof(struct udphdr)`. -/
def sizeofUdphdr : ℤ := 8

/-- The two `memcpy` of the MAC addresses. -/
def copyMacs (pkt : ParsedPacket) : MemM ParsedPacket := do
  let srcMac ← loadBytes 6 6
  let destMac ← loadBytes 6 0
  return { pkt with srcMac, destMac }

/-- The part of `parse_udp_packet` behind the UDP checks: addresses, ports and payload.
`ntohs(udp->len) - sizeof(struct udphdr)` is an unsigned difference, converted to `int`. -/
def parseFields (packetSize : ℤ) (ipOffset udpOffset : ℕ) (pkt : ParsedPacket) :
    MemM (Bool × ParsedPacket) := do
  let srcIp ← load 4 (ipOffset + 12)
  let destIp ← load 4 (ipOffset + 16)
  let srcPort ← load 2 udpOffset
  let destPort ← load 2 (udpOffset + 2)
  let payloadOffset := udpOffset + 8
  let udpLen ← load 2 (udpOffset + 4)
  let payloadLen := toInt (ntohs udpLen - sizeofUdphdr)
  let pkt := { pkt with srcIp, destIp, srcPort := ntohs srcPort, destPort := ntohs destPort }
  if 0 < payloadLen ∧ packetSize ≥ payloadOffset + payloadLen then
    return (true, { pkt with payload := some payloadOffset, payloadLen })
  else
    return (true, { pkt with payload := none, payloadLen := 0 })

/-- The part of `parse_udp_packet` behind the link layer. -/
def parseIp (packetSize : ℤ) (ipOffset : ℕ) (pkt : ParsedPacket) : MemM (Bool × ParsedPacket) := do
  if packetSize < ipOffset + sizeofIphdr then
    return (false, pkt)
  else
    let protocol ← load 1 (ipOffset + 9)
    if protocol ≠ ipprotoUdp then
      return (false, pkt)
    else
      let versionIhl ← load 1 ipOffset
      let udpOffset := ipOffset + versionIhl % 16 * 4
      if packetSize < udpOffset + sizeofUdphdr then
        return (false, pkt)
      else
        parseFields packetSize ipOffset udpOffset pkt

/-- `parse_udp_packet`. -/
def parseUdpPacket (packetSize : ℤ) (pkt : ParsedPacket) : MemM (Bool × ParsedPacket) := do
  if packetSize < 14 then
    return (false, pkt)
  else
    let ethProto ← load 2 12
    if ntohs ethProto = ethPIp then
      parseIp packetSize 14 (← copyMacs pkt)
    else if ntohs ethProto = ethP8021Q then
      if packetSize < 18 then
        return (false, pkt)
      else
        let inner ← load 2 16
        if ntohs inner ≠ ethPIp then
          return (false, pkt)
        else
          parseIp packetSize 18 (← copyMacs pkt)
    else
      let version ← load 1 0
      if version / 16 = 4 then
        -- the loopback interface, which has no link header
        parseIp packetSize 0
          { pkt with srcMac := List.replicate 6 0, destMac := List.replicate 6 0 }
      else
        return (false, pkt)

/-- What `parse_udp_packet` returns and stores in `pkt`, on a buffer. -/
def parsed (buffer : Bytes) (packetSize : ℤ) (pkt : ParsedPacket) : Bool × ParsedPacket :=
  ((parseUdpPacket packetSize pkt).run ⟨buffer, []⟩).1

/-- The bytes `pkt.payload` points to. -/
def ParsedPacket.payloadBytes (pkt : ParsedPacket) (buffer : Bytes) : Option (List UInt8) :=
  pkt.payload.map fun offset => bytesAt buffer offset pkt.payloadLen.toNat

end EltexPractice.Sniffer
