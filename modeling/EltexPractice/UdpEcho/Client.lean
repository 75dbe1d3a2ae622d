import EltexPractice.UdpEcho.Server

/-!
# The echo client

`client_logic.c` of task 9, with the part of `main` that reads a line. The raw socket of the client
delivers the UDP packets of all flows, so `wait_for_server_reply` filters by the ports. `recv i` is
what the `i`-th call of `recvfrom` returns: a packet, or `none` when the call times out.
-/

namespace EltexPractice.UdpEcho

open CString

/-- What `main` reads from `stdin`: the message and what is left to read. -/
def readMessage (input : List UInt8) : Option (List UInt8 × List UInt8) :=
  (fgets 1024 input).map fun out => (cutAt (ascii "\r\n") (cstr out.1), out.2)

/-- `send_raw_message`: what `sendto` gets. -/
def sendRawMessage (mallocOk : Bool) (localIp destIp srcPort destPort : ℕ) (message : List UInt8) :
    Option Reply :=
  (buildUdpPacket mallocOk localIp destIp srcPort destPort message message.length).map
    (⟨destIp, ·⟩)

/-- The body of the loop of `wait_for_server_reply` behind `recvfrom`: the response it prints when
the packet is for this client and from the server. -/
def decodeReply (clientPort serverPort : ℕ) : MemM (Option (List UInt8)) := do
  let versionIhl ← load 1 0
  let ipHdrLen := versionIhl % 16 * 4
  let protocol ← load 1 9
  if protocol ≠ ipprotoUdp then
    return none
  else
    let dPort ← load 2 (ipHdrLen + 2)
    let sPort ← load 2 ipHdrLen
    if ntohs dPort = clientPort ∧ ntohs sPort = serverPort then
      let uLen ← load 2 (ipHdrLen + 4)
      let pLen : ℤ := toInt (ntohs uLen - 8)
      let response ← loadBytes (pLen % 2 ^ 64).toNat (ipHdrLen + 8)
      return some (cstr response)
    else
      return none

/-- The loop of `wait_for_server_reply` from the `i`-th call of `recvfrom` on: the response it
prints, and the number of calls so far. -/
def waitLoop (clientPort serverPort : ℕ) (recv : ℕ → Option (List UInt8)) :
    (retries i : ℕ) → (recvBuf : Bytes) → Option (List UInt8) × ℕ
  | 0, i, _ => (none, i)
  | retries + 1, i, recvBuf =>
    match recv i with
    | none => waitLoop clientPort serverPort recv retries (i + 1) recvBuf
    | some packet =>
      let out := (decodeReply clientPort serverPort).run ⟨received recvBuf packet, []⟩
      match out.1 with
      | some response => (some response, i + 1)
      | none => waitLoop clientPort serverPort recv retries (i + 1) out.2.bytes

/-- `wait_for_server_reply`; nothing is known about `recv_buf` before the first packet. -/
def waitForServerReply (clientPort serverPort : ℕ) (recvBuf : Bytes)
    (recv : ℕ → Option (List UInt8)) : Option (List UInt8) × ℕ :=
  waitLoop clientPort serverPort recv 5 0 recvBuf

end EltexPractice.UdpEcho
