import EltexPractice.Foundations.Table
import EltexPractice.UdpEcho.Packet

/-!
# The echo server

`server_logic.c` of task 9: the table of client records and `process_incoming_packet`, which reads
the packet from the receive buffer. The bytes handed to `sendto`, with the destination address, are
the `Reply`.
-/

namespace EltexPractice.UdpEcho

open CString

/-- `MAX_CLIENTS` -/
def maxClients : ℕ := 128

/-- `struct ClientRecord`. -/
structure ClientRecord where
  ip : ℕ
  port : ℕ
  messageCount : ℤ
  deriving DecidableEq

/-- The static `client_db` with `client_count`. -/
abbrev ClientDb := Table ClientRecord maxClients

/-- `init_client_db`. -/
def initClientDb : ClientDb := .empty ⟨0, 0, 0⟩

/-- The comparison of the loops over the table. -/
def ClientRecord.is (ip port : ℕ) (r : ClientRecord) : Bool := r.ip == ip && r.port == port

/-- What `find_or_create_client` leaves and returns: the table and an index of it, `none` for
`-1`. -/
structure Found where
  db : ClientDb
  idx : Option (Fin db.count)

/-- `find_or_create_client`. -/
def findOrCreateClient (db : ClientDb) (ip port : ℕ) : Found :=
  match h : db.search (·.is ip port) with
  | some i => ⟨db, some ⟨i, Table.lt_count_of_search h⟩⟩
  | none =>
    if h : db.count < maxClients then
      ⟨db.push ⟨ip, port, 0⟩ h, some ⟨db.count, Nat.lt_succ_self _⟩⟩
    else ⟨db, none⟩

/-- `reset_client`. -/
def resetClient (db : ClientDb) (ip port : ℕ) : ClientDb :=
  match h : db.search (·.is ip port) with
  | some i => db.modify i (fun r => { r with messageCount := 0 }) (Table.lt_count_of_search h)
  | none => db

/-- `client_db[client_idx].message_count++` unless the index is `-1`: the table and
`current_count`. -/
def Found.increment (found : Found) : ClientDb × ℤ :=
  match found.idx with
  | some i =>
    let slot := found.db.slots[(⟨i, found.db.lt_cap i.2⟩ : Fin maxClients)]
    let count := toInt (slot.messageCount + 1)
    (found.db.modify i (fun r => { r with messageCount := count }) i.2, count)
  | none => (found.db, 0)

/-- A count is an `int`. -/
theorem natAbs_increment_lt (found : Found) : found.increment.2.natAbs < 10 ^ 10 := by
  have hint : ∀ v, (toInt v).natAbs < 10 ^ 10 := fun v => by
    have hle := Int.le_bmod (x := v) (m := 2 ^ 32) (by decide)
    have hlt := Int.bmod_lt (x := v) (m := 2 ^ 32) (by decide)
    rw [toInt]
    omega
  unfold Found.increment
  split
  · exact hint _
  · simp

/-- What `sendto` gets. -/
structure Reply where
  destIp : ℕ
  packet : List UInt8
  deriving DecidableEq

/-- `send_raw_reply`. -/
def sendRawReply (mallocOk : Bool) (srcIp destIp srcPort destPort : ℕ) (payloadStr : List UInt8)
    (currentCount : ℤ) : Option Reply :=
  let text := payloadStr ++ (ascii " " ++ decimal currentCount)
  (buildUdpPacket mallocOk srcIp destIp srcPort destPort (snprintf bufferSize text)
    text.length).map (⟨destIp, ·⟩)

/-- `process_incoming_packet`: the table it leaves and the reply it sends. `payload_len` is negative
for a UDP length below 8, and `memcpy` takes it as a `size_t`. -/
def processIncomingPacket (serverPort : ℕ) (mallocOk : Bool) (db : ClientDb) :
    MemM (ClientDb × Option Reply) := do
  let versionIhl ← load 1 0
  let ipHdrLen := versionIhl % 16 * 4
  let protocol ← load 1 9
  if protocol ≠ ipprotoUdp then
    return (db, none)
  else
    let destPort ← load 2 (ipHdrLen + 2)
    let srcPort ← load 2 ipHdrLen
    if ntohs destPort ≠ serverPort then
      return (db, none)
    else
      let udpLen ← load 2 (ipHdrLen + 4)
      let payloadLen : ℤ := toInt (ntohs udpLen - 8)
      let payload ← loadBytes (payloadLen % 2 ^ 64).toNat (ipHdrLen + 8)
      let payloadStr := cstr payload
      let saddr ← load 4 12
      if payloadStr = shutdownMsg then
        return (resetClient db saddr (ntohs srcPort), none)
      else
        let counted := (findOrCreateClient db saddr (ntohs srcPort)).increment
        let daddr ← load 4 16
        return (counted.1, sendRawReply mallocOk daddr saddr serverPort (ntohs srcPort) payloadStr
          counted.2)

end EltexPractice.UdpEcho
