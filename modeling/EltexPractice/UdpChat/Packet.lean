import EltexPractice.Foundations.ByteMemory
import EltexPractice.Foundations.CString

/-!
# Packets of the UDP chat

`ChatPacket` of task 6, `send_packet`, which builds one, and `handle_incoming_packet`, which shows
one. A datagram is the list of its bytes; what a participant prints is the list of the bytes
written to its standard output.

* `bytesAt_pid`, `bytesAt_nickname`, …: where the fields lie in a memory that holds a packet.
* `handleIncomingPacket_sendPacket`: what a participant prints for a packet of `send_packet`.
-/

namespace EltexPractice.UdpChat

open CString

/-- `MAX_NICK_LEN` -/
def maxNickLen : ℕ := 32

/-- `MAX_TEXT_LEN` -/
def maxTextLen : ℕ := 512

/-- `MsgType`. -/
inductive MsgType
  | join
  | chat
  | leave
  deriving DecidableEq

/-- The value of the enumerator. -/
def MsgType.code : MsgType → ℤ
  | join => 1
  | chat => 2
  | leave => 3

theorem MsgType.code_range (type : MsgType) : -2 ^ 31 ≤ type.code ∧ type.code < 2 ^ 31 := by
  cases type <;> decide

/-- `ChatPacket`; the strings are whole arrays. -/
structure ChatPacket where
  type : ℤ
  pid : Int32
  nickname : List UInt8
  text : List UInt8
  nickname_length : nickname.length = maxNickLen
  text_length : text.length = maxTextLen

/-- `sizeof(ChatPacket)` -/
def sizeofChatPacket : ℕ := 552

namespace ChatPacket

/-- The packet as it lies in memory. -/
def bytes (p : ChatPacket) : List UInt8 :=
  intBytes p.type ++ (intBytes p.pid.toInt ++ (p.nickname ++ p.text))

@[simp] theorem length_bytes (p : ChatPacket) : p.bytes.length = sizeofChatPacket := by
  simp [bytes, p.nickname_length, p.text_length, maxNickLen, maxTextLen, sizeofChatPacket]

end ChatPacket

/-- The packet `send_packet` hands to `sendto`; `text` is `none` for NULL. -/
def sendPacket (getpid : Int32) (type : MsgType) (nickname : List UInt8)
    (text : Option (List UInt8)) : ChatPacket where
  type := type.code
  pid := getpid
  nickname := strncpy (List.replicate maxNickLen 0) (cstr nickname) (maxNickLen - 1)
  text := match text with
    | some text => strncpy (List.replicate maxTextLen 0) (cstr text) (maxTextLen - 1)
    | none => List.replicate maxTextLen 0
  nickname_length := by rw [length_strncpy _ (by simp), List.length_replicate]
  text_length := by
    cases text with
    | some text => rw [length_strncpy _ (by simp), List.length_replicate]
    | none => exact List.length_replicate

/-- What `handle_incoming_packet` prints; `datagram` is `none` when `recvfrom` fails, and `stale`
is the uninitialised packet on the stack. -/
def handleIncomingPacket (getpid : Int32) (stale : Bytes) (datagram : Option (List UInt8)) :
    List UInt8 :=
  match datagram with
  | none => []
  | some datagram =>
    let packet := received stale (datagram.take sizeofChatPacket)
    let pid := toInt (leValue (bytesAt packet 4 4))
    if pid = getpid.toInt then []
    else
      let nickname := cstr ((bytesAt packet 8 maxNickLen).set (maxNickLen - 1) 0)
      let text := cstr ((bytesAt packet 40 maxTextLen).set (maxTextLen - 1) 0)
      let type := toInt (leValue (bytesAt packet 0 4))
      (if type = MsgType.join.code then
        utf8 "\r\x1b[32m[+] В сети появился новый участник: " ++ nickname ++ utf8 " (PID: " ++
          decimal pid ++ utf8 ")\x1b[0m\n"
      else if type = MsgType.chat.code then
        utf8 "\r\x1b[36m[" ++ nickname ++ utf8 "]:\x1b[0m " ++ text ++ utf8 "\n"
      else if type = MsgType.leave.code then
        utf8 "\r\x1b[31m[-] " ++ nickname ++ utf8 " (PID: " ++ decimal pid ++
          utf8 ") вышел из сети\x1b[0m\n"
      else []) ++ ascii "\r> "

/-! ## The fields of a packet in memory -/

section Fields

variable {m : Bytes} {a : ℕ} {p : ChatPacket}

theorem bytesAt_type (h : bytesAt m a sizeofChatPacket = p.bytes) :
    bytesAt m a 4 = intBytes p.type := by
  have hslice : bytesAt m a 4 = (p.bytes.drop 0).take 4 :=
    bytesAt_slice h (k := 0) (by decide)
  rw [hslice, List.drop_zero, ChatPacket.bytes, List.take_left' (length_intBytes _)]

theorem bytesAt_pid (h : bytesAt m a sizeofChatPacket = p.bytes) :
    bytesAt m (a + 4) 4 = intBytes p.pid.toInt := by
  rw [bytesAt_slice h (by decide), ChatPacket.bytes, List.drop_left' (length_intBytes _),
    List.take_left' (length_intBytes _)]

theorem bytesAt_nickname (h : bytesAt m a sizeofChatPacket = p.bytes) :
    bytesAt m (a + 8) maxNickLen = p.nickname := by
  have hhead : (intBytes p.type ++ intBytes p.pid.toInt).length = 8 := by simp
  rw [bytesAt_slice h (by decide), ChatPacket.bytes, ← List.append_assoc, List.drop_left' hhead,
    List.take_left' p.nickname_length]

theorem bytesAt_text (h : bytesAt m a sizeofChatPacket = p.bytes) :
    bytesAt m (a + 40) maxTextLen = p.text := by
  have hhead : (intBytes p.type ++ (intBytes p.pid.toInt ++ p.nickname)).length = 40 := by
    simp [p.nickname_length, maxNickLen]
  rw [bytesAt_slice h (by decide), ChatPacket.bytes, ← List.append_assoc (intBytes p.pid.toInt),
    ← List.append_assoc, List.drop_left' hhead, ← p.text_length, List.take_length]

end Fields

theorem toInt_intBytes_pid (pid : Int32) : toInt (leValue (intBytes pid.toInt)) = pid.toInt :=
  toInt_leValue_intBytes pid.le_toInt pid.toInt_lt

theorem toInt_intBytes_code (type : MsgType) :
    toInt (leValue (intBytes type.code)) = type.code :=
  toInt_leValue_intBytes type.code_range.1 type.code_range.2

/-! ## What a participant prints -/

/-- The nickname the others see: its first 31 bytes. -/
def shownNickname (nickname : List UInt8) : List UInt8 := (cstr nickname).take 31

/-- The text the others see: its first 511 bytes. -/
def shownText (text : Option (List UInt8)) : List UInt8 := (cstr (text.getD [])).take 511

theorem sendPacket_nickname (getpid : Int32) (type : MsgType) (nickname : List UInt8)
    (text : Option (List UInt8)) : (sendPacket getpid type nickname text).nickname =
      shownNickname nickname ++ 0 :: List.replicate (31 - (cstr nickname).length) 0 :=
  strncpy_zeros (cstr nickname) 31

theorem sendPacket_text (getpid : Int32) (type : MsgType) (nickname : List UInt8)
    (text : Option (List UInt8)) : (sendPacket getpid type nickname text).text =
      shownText text ++ 0 :: List.replicate (511 - (cstr (text.getD [])).length) 0 := by
  cases text with
  | some text => exact strncpy_zeros (cstr text) 511
  | none => rfl

theorem zero_notMem_shownNickname (nickname : List UInt8) : 0 ∉ shownNickname nickname :=
  fun h => zero_notMem_cstr nickname (List.mem_of_mem_take h)

theorem zero_notMem_shownText (text : Option (List UInt8)) : 0 ∉ shownText text :=
  fun h => zero_notMem_cstr _ (List.mem_of_mem_take h)

/-- What the handler prints for a packet of another process. -/
def shown (pid : Int32) (type : MsgType) (nickname : List UInt8) (text : Option (List UInt8)) :
    List UInt8 :=
  (match type with
    | .join => utf8 "\r\x1b[32m[+] В сети появился новый участник: " ++ shownNickname nickname ++
        utf8 " (PID: " ++ decimal pid.toInt ++ utf8 ")\x1b[0m\n"
    | .chat => utf8 "\r\x1b[36m[" ++ shownNickname nickname ++ utf8 "]:\x1b[0m " ++
        shownText text ++ utf8 "\n"
    | .leave => utf8 "\r\x1b[31m[-] " ++ shownNickname nickname ++ utf8 " (PID: " ++
        decimal pid.toInt ++ utf8 ") вышел из сети\x1b[0m\n") ++ ascii "\r> "

/-- Terminating a string that ends before the last byte of its array changes nothing. -/
theorem cstr_set_last {s : List UInt8} (h : 0 ∉ s) (n : ℕ) {k : ℕ} (hk : s.length ≤ k) :
    cstr ((s ++ 0 :: List.replicate n 0).set k 0) = s := by
  rw [List.set_append_right _ _ hk]
  rcases k - s.length with - | i
  · exact cstr_append_zero h _
  · exact cstr_append_zero h _

/-- **The handler on a packet of `send_packet`**: nothing when the numbers of the two processes
agree, and otherwise the line of its type. -/
theorem handleIncomingPacket_sendPacket (getpid pid : Int32) (stale : Bytes) (type : MsgType)
    (nickname : List UInt8) (text : Option (List UInt8)) :
    handleIncomingPacket getpid stale (some (sendPacket pid type nickname text).bytes) =
      if pid = getpid then [] else shown pid type nickname text := by
  set p := sendPacket pid type nickname text with hp
  have hmem : bytesAt (received stale p.bytes) 0 sizeofChatPacket = p.bytes := by
    rw [bytesAt_received stale (by simp), List.drop_zero, List.take_of_length_le (by simp)]
  have hpid : toInt (leValue (bytesAt (received stale p.bytes) 4 4)) = pid.toInt := by
    have h := bytesAt_pid hmem
    rw [Nat.zero_add] at h
    rw [h]
    exact toInt_intBytes_pid pid
  have htype : toInt (leValue (bytesAt (received stale p.bytes) 0 4)) = type.code := by
    rw [bytesAt_type hmem]
    exact toInt_intBytes_code type
  have hnickname : cstr ((bytesAt (received stale p.bytes) 8 maxNickLen).set (maxNickLen - 1) 0) =
      shownNickname nickname := by
    have h := bytesAt_nickname hmem
    rw [Nat.zero_add] at h
    rw [h, hp, sendPacket_nickname]
    exact cstr_set_last (zero_notMem_shownNickname nickname) _ (List.length_take_le ..)
  have htext : cstr ((bytesAt (received stale p.bytes) 40 maxTextLen).set (maxTextLen - 1) 0) =
      shownText text := by
    have h := bytesAt_text hmem
    rw [Nat.zero_add] at h
    rw [h, hp, sendPacket_text]
    exact cstr_set_last (zero_notMem_shownText text) _ (List.length_take_le ..)
  have hfull : p.bytes.take sizeofChatPacket = p.bytes := List.take_of_length_le (by simp)
  simp only [handleIncomingPacket, hfull, hpid, htype, hnickname, htext, Int32.toInt_inj]
  cases type <;> rfl

end EltexPractice.UdpChat
