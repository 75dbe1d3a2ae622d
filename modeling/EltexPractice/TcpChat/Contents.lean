import EltexPractice.Foundations.CheckedMemory
import EltexPractice.TcpChat.FileTransfer

/-!
# Packets of any contents

`log_packet` of the server and `handle_server_message` of the client on the 1320 bytes of a packet
as they were received, every access checked. The client terminates the strings it prints; the
server prints them as they came.

* `wp_logPacket`, `wp_handleServerMessage`: when the functions stay within the packet, and that the
  client then does what its model on decoded packets does.
* `contents_read_iff`: the packets that both tolerate.
-/

namespace EltexPractice.TcpChat.Checked

open CString CheckedM

/-- The buffer of both functions. -/
inductive Region
  | packet
  deriving DecidableEq

/-- `sizeof(ChatPacket)` -/
def sizeofChatPacket : ℕ := 1320

/-- The received packet. -/
def packetBuffer (m : Bytes) : Buffers Region := ⟨fun _ => sizeofChatPacket, fun _ => m⟩

/-! ## The functions on the packet -/

/-- The branches of `log_packet`: the line it prints. -/
def logType (type : ℤ) : CheckedM Region (List UInt8) := do
  if type = MsgType.join.code then
    let nickname ← readStrAt .packet 8
    return utf8 "[Вход] " ++ nickname ++ utf8 " вошел в чат\n"
  else if type = MsgType.leave.code then
    let nickname ← readStrAt .packet 8
    return utf8 "[Выход] " ++ nickname ++ utf8 " покинул чат\n"
  else if type = MsgType.chat.code then
    let nickname ← readStrAt .packet 8
    let payload ← readStrAt .packet 296
    return utf8 "[" ++ nickname ++ utf8 "]: " ++ payload ++ utf8 "\n"
  else if type = MsgType.fileStart.code then
    let nickname ← readStrAt .packet 8
    let filename ← readStrAt .packet 40
    return utf8 "[Файл] " ++ nickname ++ utf8 " инициировал отправку файла: " ++ filename ++
      utf8 "\n"
  else return []

/-- `log_packet` -/
def logPacket : CheckedM Region (List UInt8) := do
  logType (toInt (← readValue .packet 4 0))

/-! The cases of the `switch` of `handle_server_message`, each with the receiver afterwards and the
text it prints. -/

/-- `MSG_JOIN` and `MSG_LEAVE`: a line with the nickname between two texts. -/
def nicknameLine (st : Receiver) (before after : List UInt8) :
    CheckedM Region (Receiver × List UInt8) := do
  let nickname ← readStrAt .packet 8
  return (st, before ++ nickname ++ after)

/-- `MSG_CHAT` -/
def chatLine (st : Receiver) : CheckedM Region (Receiver × List UInt8) := do
  writeByte .packet (296 + 1023 : ℕ) 0
  let nickname ← readStrAt .packet 8
  let payload ← readStrAt .packet 296
  return (st, utf8 "\r\x1b[36m[" ++ nickname ++ utf8 "]:\x1b[0m " ++ payload ++ utf8 "\n")

/-- `MSG_FILE_START` -/
def startFile (creatable : List UInt8 → Bool) (st : Receiver) :
    CheckedM Region (Receiver × List UInt8) := do
  let filename ← readStrAt .packet 40
  if creatable (outPath filename) then
    let nickname ← readStrAt .packet 8
    return ({ files := Function.update st.files (outPath filename) (some [])
              rxFile := some (outPath filename) },
      utf8 "\r\x1b[32m[+] Принимаем файл '" ++ filename ++ utf8 "' от " ++ nickname ++
        utf8 "...\x1b[0m\n")
  else
    return ({ st with rxFile := none },
      utf8 "\r\x1b[31mОшибка создания файла " ++ outPath filename ++ utf8 " для записи\x1b[0m\n")

/-- `MSG_FILE_DATA` -/
def writeData (st : Receiver) : CheckedM Region (Receiver × List UInt8) :=
  match st.rxFile with
  | some path => do
    let dataLen ← readValue .packet 4 4
    let data ← readBytes .packet 296 dataLen
    let written := (st.files path).getD [] ++ data
    return ({ st with files := Function.update st.files path (some written) }, [])
  | none => return (st, [])

/-- `MSG_FILE_END` -/
def endFile (st : Receiver) : CheckedM Region (Receiver × List UInt8) :=
  match st.rxFile with
  | some _ => do
    let filename ← readStrAt .packet 40
    return ({ st with rxFile := none },
      utf8 "\r\x1b[32m[+] Файл сохранен: 'received_" ++ filename ++ utf8 "'\x1b[0m\n")
  | none => return (st, [])

/-- The `switch`. -/
def switchType (creatable : List UInt8 → Bool) (st : Receiver) (type : ℤ) :
    CheckedM Region (Receiver × List UInt8) :=
  if type = MsgType.join.code then
    nicknameLine st (utf8 "\r\x1b[32m[+] ") (utf8 " вошел в чат\x1b[0m\n")
  else if type = MsgType.chat.code then chatLine st
  else if type = MsgType.leave.code then
    nicknameLine st (utf8 "\r\x1b[31m[-] ") (utf8 " вышел из чата\x1b[0m\n")
  else if type = MsgType.fileStart.code then startFile creatable st
  else if type = MsgType.fileData.code then writeData st
  else if type = MsgType.fileEnd.code then endFile st
  else return (st, [])

/-- `handle_server_message` behind `read_all`. -/
def handleServerMessage (creatable : List UInt8 → Bool) (st : Receiver) :
    CheckedM Region (Receiver × List UInt8) := do
  writeByte .packet (8 + 31 : ℕ) 0
  writeByte .packet (40 + 255 : ℕ) 0
  let type := toInt (← readValue .packet 4 0)
  let out ← switchType creatable st type
  return (out.1, out.2 ++ utf8 "\r> ")

/-! ## The packet -/

/-- A string that starts at `a` ends within the packet. -/
def Terminated (m : Bytes) (a : ℕ) : Prop := 0 ∈ bytesAt m a (sizeofChatPacket - a)

/-- The field `type`. -/
def packetType (m : Bytes) : ℤ := toInt (leValue (bytesAt m 0 4))

/-- The field `data_len`. -/
def packetDataLen (m : Bytes) : ℕ := leValue (bytesAt m 4 4)

/-- The packet as it is decoded. -/
def packetAt (m : Bytes) : ChatPacket where
  type := packetType m
  dataLen := packetDataLen m
  nickname := bytesAt m 8 maxNickLen
  filename := bytesAt m 40 maxFilename
  payload := bytesAt m 296 maxChunkSize
  nickname_length := length_bytesAt ..
  filename_length := length_bytesAt ..
  payload_length := length_bytesAt ..

theorem packetAt_type (m : Bytes) : (packetAt m).type = packetType m := by rw [packetAt]

/-- The strings that `log_packet` prints end within the packet. -/
def LogTerminated (m : Bytes) : Prop :=
  (packetType m = MsgType.join.code ∨ packetType m = MsgType.leave.code → Terminated m 8) ∧
    (packetType m = MsgType.chat.code → Terminated m 296) ∧
    (packetType m = MsgType.fileStart.code → Terminated m 40)

/-- What is written of a chunk to an open file fits the payload. -/
def DataFits (m : Bytes) (st : Receiver) : Prop :=
  packetType m = MsgType.fileData.code → st.rxFile ≠ none → packetDataLen m ≤ maxChunkSize

theorem Terminated.mono {m : Bytes} {a a' : ℕ} (h : Terminated m a') (ha : a ≤ a') :
    Terminated m a := by
  obtain ⟨i, h₁, h₂, h0⟩ := mem_bytesAt.1 h
  exact mem_bytesAt.2 ⟨i, by omega, by omega, h0⟩

/-- The string that starts at `a`. -/
def stringAt (m : Bytes) (a : ℕ) : List UInt8 := cstr (bytesAt m a (sizeofChatPacket - a))

theorem wp_string {m : Bytes} {a : ℕ} {Q : List UInt8 → Buffers Region → Prop} :
    wp (readStrAt .packet a) Q (packetBuffer m) ↔
      Terminated m a ∧ Q (stringAt m a) (packetBuffer m) := wp_readStrAt

/-- A byte of the packet is set to NUL. -/
theorem wp_terminate {m : Bytes} {a : ℕ} (ha : a < sizeofChatPacket)
    {Q : Unit → Buffers Region → Prop} :
    wp (writeByte .packet a 0) Q (packetBuffer m) ↔ Q () (packetBuffer (writeBytes m a [0])) := by
  have hwrite : (packetBuffer m).write .packet a [0] = packetBuffer (writeBytes m a [0]) := by
    rw [packetBuffer, packetBuffer, Buffers.write, Buffers.mk.injEq]
    exact ⟨rfl, funext fun b => by cases b; exact Function.update_self ..⟩
  rw [wp_writeByte, Int.toNat_natCast, hwrite]
  exact ⟨fun h => h.2.2, fun h => ⟨Int.natCast_nonneg a, ha, h⟩⟩

/-- A string ends at the latest at a NUL in its field. -/
theorem string_of_zero {m : Bytes} {a : ℕ} (n : ℕ) (h : m (a + n) = 0)
    (hn : a + n < sizeofChatPacket) :
    Terminated m a ∧ stringAt m a = cstr (bytesAt m a n) := by
  obtain ⟨k, hk⟩ := Nat.exists_eq_add_of_lt hn
  have hlen : sizeofChatPacket - a = n + (k + 1) := by omega
  refine ⟨mem_bytesAt.2 ⟨a + n, by omega, by omega, h⟩, ?_⟩
  rw [stringAt, hlen, bytesAt_add, bytesAt, h]
  exact cstr_append_cons_zero _ _

/-! ## The server -/

/-- **The server stays within the packet** exactly when the strings it prints end there. -/
theorem wp_logPacket {m : Bytes} :
    wp logPacket (fun _ _ => True) (packetBuffer m) ↔ LogTerminated m := by
  have hchat : Terminated m 296 → Terminated m 8 := fun h => h.mono (by decide)
  have hstart : Terminated m 40 → Terminated m 8 := fun h => h.mono (by decide)
  have htype : Buffers.Fits (packetBuffer m) .packet 0 4 := Or.inr (show 0 + 4 ≤ 1320 by decide)
  rw [logPacket, wp_bind, wp_readValue, and_iff_right htype]
  change wp (logType (packetType m)) _ _ ↔ _
  simp only [logType, wp_ite, wp_bind, wp_string, wp_pure, and_true]
  rw [LogTerminated, and_iff_right_of_imp hchat, and_iff_right_of_imp hstart]
  by_cases hj : packetType m = MsgType.join.code
  · simp [hj, MsgType.code]
  by_cases hl : packetType m = MsgType.leave.code
  · simp [hl, MsgType.code]
  by_cases hc : packetType m = MsgType.chat.code
  · simp [hc, MsgType.code]
  by_cases hs : packetType m = MsgType.fileStart.code
  · simp [hs, MsgType.code]
  · simp [hj, hl, hc, hs]

/-! ## The client -/

/-- The packet after the client terminated the nickname and the file name. -/
def terminated (m : Bytes) : Bytes := writeBytes (writeBytes m (8 + 31) [0]) (40 + 255) [0]

theorem writeBytes_singleton (m : Bytes) (a : ℕ) (b : UInt8) : writeBytes m a [b] a = b := by
  have h := bytesAt_writeBytes m a [b]
  rw [List.length_singleton] at h
  exact (List.cons.inj h).1

theorem terminated_nickname (m : Bytes) : terminated m (8 + 31) = 0 := by
  rw [terminated, writeBytes_of_notMem (Or.inl (by decide)), writeBytes_singleton]

theorem terminated_filename (m : Bytes) : terminated m (40 + 255) = 0 :=
  writeBytes_singleton _ _ _

/-- The other bytes stay. -/
theorem bytesAt_terminated {m : Bytes} {a n : ℕ}
    (h : a + n ≤ 39 ∨ 40 ≤ a ∧ a + n ≤ 295 ∨ 296 ≤ a) :
    bytesAt (terminated m) a n = bytesAt m a n := by
  rw [terminated, bytesAt_writeBytes_of_disjoint (by rw [List.length_singleton]; omega),
    bytesAt_writeBytes_of_disjoint (by rw [List.length_singleton]; omega)]

theorem nickname_terminated (m : Bytes) : Terminated (terminated m) 8 :=
  (string_of_zero 31 (terminated_nickname m) (by decide)).1

/-- The name the client reads is the one of the decoded packet. -/
theorem filename_terminated (m : Bytes) :
    Terminated (terminated m) 40 ∧
      stringAt (terminated m) 40 = cstr ((packetAt m).filename.set (maxFilename - 1) 0) := by
  obtain ⟨hends, hstring⟩ := string_of_zero 255 (terminated_filename m) (by decide)
  refine ⟨hends, hstring.trans ?_⟩
  have hlen : maxFilename - 1 < (packetAt m).filename.length := by
    rw [(packetAt m).filename_length]
    decide
  have htake : (packetAt m).filename.take (maxFilename - 1) = bytesAt m 40 255 :=
    (bytesAt_slice (rfl : bytesAt m 40 maxFilename = _) (k := 0) (by decide)).symm
  rw [cstr_set hlen, htake, bytesAt_terminated (Or.inr (Or.inl ⟨le_rfl, le_rfl⟩))]

section

variable {creatable : List UInt8 → Bool} {st : Receiver} {m : Bytes}

/-- The client stays within the packet, and the receiver is `st'` afterwards. -/
def Yields (c : CheckedM Region (Receiver × List UInt8)) (m : Bytes) (st' : Receiver) : Prop :=
  wp c (fun out _ => out.1 = st') (packetBuffer (terminated m))

theorem yields_nicknameLine (before after : List UInt8) :
    Yields (nicknameLine st before after) m st := by
  rw [Yields, nicknameLine, wp_bind, wp_string]
  exact ⟨nickname_terminated m, (wp_pure _).2 rfl⟩

theorem yields_chatLine : Yields (chatLine st) m st := by
  have hfits : (296 + 1023 : ℕ) < sizeofChatPacket := by decide
  set m' := writeBytes (terminated m) (296 + 1023) [0] with hm'
  have hnick : m' (8 + 31) = 0 := by
    rw [hm', writeBytes_of_notMem (Or.inl (by decide))]
    exact terminated_nickname m
  have hpayload : m' (296 + 1023) = 0 := writeBytes_singleton _ _ _
  rw [Yields, chatLine, wp_bind, wp_terminate hfits]
  simp only [wp_bind, wp_string, wp_pure, and_true]
  exact ⟨(string_of_zero 31 hnick (by decide)).1, (string_of_zero 1023 hpayload (by decide)).1⟩

theorem yields_startFile (h : packetType m = MsgType.fileStart.code) :
    Yields (startFile creatable st) m
      (TcpChat.handleServerMessage creatable st (packetAt m)) := by
  obtain ⟨hends, hstring⟩ := filename_terminated m
  rw [Yields, startFile, wp_bind, wp_string, hstring]
  refine ⟨hends, ?_⟩
  rw [handleServerMessage_start ((packetAt_type m).trans h) rfl, wp_ite]
  split
  · rw [wp_bind, wp_string, wp_pure]
    exact ⟨nickname_terminated m, rfl⟩
  · rw [wp_pure]

theorem yields_endFile (h : packetType m = MsgType.fileEnd.code) :
    Yields (endFile st) m (TcpChat.handleServerMessage creatable st (packetAt m)) := by
  rw [handleServerMessage_end ((packetAt_type m).trans h), Yields, endFile]
  split
  · rw [wp_bind, wp_string, wp_pure]
    exact ⟨(filename_terminated m).1, rfl⟩
  · rename_i hnone
    rw [wp_pure, ← hnone]

/-- `MSG_FILE_DATA` on an open file reads `data_len` bytes of the payload. -/
theorem wp_writeData {path : List UInt8} (hopen : st.rxFile = some path)
    {Q : Receiver × List UInt8 → Buffers Region → Prop} :
    wp (writeData st) Q (packetBuffer (terminated m)) ↔ packetDataLen m ≤ maxChunkSize ∧
      Q ({ st with
        files := Function.update st.files path
          (some ((st.files path).getD [] ++ bytesAt m 296 (packetDataLen m))) }, [])
        (packetBuffer (terminated m)) := by
  have hfits : Buffers.Fits (packetBuffer (terminated m)) .packet 4 4 :=
    Or.inr (show 4 + 4 ≤ 1320 by decide)
  have hdata : (packetBuffer (terminated m)).Fits .packet 296 (packetDataLen m) ↔
      packetDataLen m ≤ maxChunkSize := by
    change packetDataLen m = 0 ∨ 296 + packetDataLen m ≤ 1320 ↔ packetDataLen m ≤ 1024
    omega
  have hlen : leValue (bytesAt ((packetBuffer (terminated m)).bytes .packet) 4 4) =
      packetDataLen m := congrArg leValue (bytesAt_terminated (by omega))
  have hchunk : bytesAt ((packetBuffer (terminated m)).bytes .packet) 296 (packetDataLen m) =
      bytesAt m 296 (packetDataLen m) := bytesAt_terminated (Or.inr (Or.inr le_rfl))
  rw [writeData, hopen]
  dsimp only
  rw [wp_bind, wp_readValue, and_iff_right hfits, hlen, wp_bind, wp_readBytes, Int.toNat_natCast,
    wp_pure, hdata, and_iff_right (Int.natCast_nonneg _), hchunk]

/-- What holds afterwards is what holds of `st'`. -/
theorem Yields.iff {c : CheckedM Region (Receiver × List UInt8)} {st' : Receiver}
    (h : Yields c m st') {P : Receiver → Prop} :
    wp c (fun out _ => P out.1) (packetBuffer (terminated m)) ↔ P st' := by
  obtain ⟨out, hout, rfl⟩ := h
  constructor
  · rintro ⟨out', hout', hP⟩
    rw [hout] at hout'
    exact Option.some.inj hout' ▸ hP
  · exact fun hP => ⟨out, hout, hP⟩

/-- **The client stays within the packet** exactly when the chunk fits, and then does what its model
on decoded packets does. -/
theorem wp_switchType {P : Receiver → Prop} :
    wp (switchType creatable st (packetType m)) (fun out _ => P out.1)
        (packetBuffer (terminated m)) ↔
      DataFits m st ∧ P (TcpChat.handleServerMessage creatable st (packetAt m)) := by
  -- every packet but a chunk is read without a condition
  have hyields : ∀ {c : CheckedM Region (Receiver × List UInt8)},
      Yields c m (TcpChat.handleServerMessage creatable st (packetAt m)) →
      packetType m ≠ MsgType.fileData.code →
      (wp c (fun out _ => P out.1) (packetBuffer (terminated m)) ↔
        DataFits m st ∧ P (TcpChat.handleServerMessage creatable st (packetAt m))) := by
    intro c hc hne
    have hfits : DataFits m st := fun h => absurd h hne
    rw [hc.iff, and_iff_right hfits]
  have hsame : packetType m ≠ MsgType.fileStart.code → packetType m ≠ MsgType.fileEnd.code →
      (packetType m = MsgType.fileData.code → st.rxFile = none) →
      TcpChat.handleServerMessage creatable st (packetAt m) = st := by
    rw [← packetAt_type]
    exact fun h₁ h₃ h₂ => handleServerMessage_other h₁ h₂ h₃
  have hother : ∀ {c : CheckedM Region (Receiver × List UInt8)}, Yields c m st →
      packetType m ≠ MsgType.fileStart.code → packetType m ≠ MsgType.fileData.code →
      packetType m ≠ MsgType.fileEnd.code →
      (wp c (fun out _ => P out.1) (packetBuffer (terminated m)) ↔
        DataFits m st ∧ P (TcpChat.handleServerMessage creatable st (packetAt m))) := by
    intro c hc h₁ h₂ h₃
    exact hyields ((hsame h₁ h₃ fun h => absurd h h₂).symm ▸ hc) h₂
  rw [switchType]
  split
  · rename_i h
    apply hother (yields_nicknameLine _ _) <;> rw [h] <;> decide
  split
  · rename_i h
    apply hother yields_chatLine <;> rw [h] <;> decide
  split
  · rename_i h
    apply hother (yields_nicknameLine _ _) <;> rw [h] <;> decide
  split
  · rename_i h
    exact hyields (yields_startFile h) (by rw [h]; decide)
  split
  · rename_i h
    cases hopen : st.rxFile with
    | none =>
      have hpure : Yields (writeData st) m st := by
        rw [Yields, writeData, hopen]
        exact (wp_pure _).2 rfl
      have hfits : DataFits m st := fun _ hsome => absurd hopen hsome
      rw [hpure.iff, and_iff_right hfits,
        hsame (by rw [h]; decide) (by rw [h]; decide) fun _ => hopen]
    | some path =>
      have hfits : DataFits m st ↔ packetDataLen m ≤ maxChunkSize :=
        ⟨fun hle => hle h (by rw [hopen]; exact Option.some_ne_none path), fun hle _ _ => hle⟩
      rw [wp_writeData hopen, hfits, handleServerMessage_data ((packetAt_type m).trans h) hopen]
      refine and_congr_right fun hle => ?_
      have hslice := bytesAt_slice (rfl : bytesAt m 296 maxChunkSize = _) (k := 0)
        ((Nat.zero_add (packetDataLen m)).symm ▸ hle)
      rw [List.drop_zero, Nat.add_zero] at hslice
      rw [hslice, packetAt]
  split
  · rename_i h
    exact hyields (yields_endFile h) (by rw [h]; decide)
  · rename_i h₁ h₂ h₃
    exact hother ((wp_pure _).2 rfl) h₁ h₂ h₃

end

theorem wp_handleServerMessage (creatable : List UInt8 → Bool) (st : Receiver) (m : Bytes)
    {P : Receiver → Prop} :
    wp (handleServerMessage creatable st) (fun out _ => P out.1) (packetBuffer m) ↔
      DataFits m st ∧ P (TcpChat.handleServerMessage creatable st (packetAt m)) := by
  have hfits : Buffers.Fits (packetBuffer (terminated m)) .packet 0 4 :=
    Or.inr (show 0 + 4 ≤ 1320 by decide)
  have htype : toInt (leValue (bytesAt ((packetBuffer (terminated m)).bytes .packet) 0 4)) =
      packetType m :=
    congrArg (fun l => toInt (leValue l)) (bytesAt_terminated (by omega))
  have hrun : wp (handleServerMessage creatable st) (fun out _ => P out.1) (packetBuffer m) ↔
      wp (switchType creatable st (packetType m)) (fun out _ => P out.1)
        (packetBuffer (terminated m)) := by
    rw [handleServerMessage, wp_bind, wp_terminate (show 8 + 31 < sizeofChatPacket by decide),
      wp_bind, wp_terminate (show 40 + 255 < sizeofChatPacket by decide), ← terminated, wp_bind,
      wp_readValue, and_iff_right hfits, htype, wp_bind]
    simp only [wp_pure]
  rw [hrun, wp_switchType]

/-! ## Both -/

/-- **Both programs read only bytes of the packet** exactly when the strings the server prints end
there and the chunk the client writes fits. -/
theorem contents_read_iff (creatable : List UInt8 → Bool) (st : Receiver) (m : Bytes) :
    (logPacket.run (packetBuffer m)).isSome ∧
        ((handleServerMessage creatable st).run (packetBuffer m)).isSome ↔
      LogTerminated m ∧ DataFits m st := by
  rw [isSome_run, isSome_run, wp_logPacket,
    wp_handleServerMessage creatable st m (P := fun _ => True), and_true]

/-- A chat message without a NUL behind `data_len`. -/
def fullChat : Bytes := fun i => if i = 0 then 2 else if i < 8 then 0 else 65

/-- A chunk of 2000 bytes. -/
def largeChunk : Bytes := writeBytes (fun _ => 0) 0 (leBytes 4 5 ++ leBytes 4 2000)

theorem packetType_fullChat : packetType fullChat = MsgType.chat.code := by
  have hbytes : bytesAt fullChat 0 4 = [2, 0, 0, 0] := rfl
  have hvalue : leValue [2, 0, 0, 0] = 2 := rfl
  rw [packetType, hbytes, hvalue]
  exact toInt_eq_self (by decide) (by decide)

theorem largeChunk_fields :
    packetType largeChunk = MsgType.fileData.code ∧ packetDataLen largeChunk = 2000 := by
  have hheader : bytesAt largeChunk 0 8 = leBytes 4 5 ++ leBytes 4 2000 :=
    bytesAt_writeBytes _ 0 (leBytes 4 5 ++ leBytes 4 2000)
  have htype : bytesAt largeChunk 0 4 = leBytes 4 5 := bytesAt_slice hheader (k := 0) (by decide)
  have hlen : bytesAt largeChunk 4 4 = leBytes 4 2000 := bytesAt_slice hheader (k := 4) (by decide)
  rw [packetType, htype, packetDataLen, hlen, leValue_leBytes_of_lt (by decide),
    leValue_leBytes_of_lt (by decide)]
  exact ⟨toInt_eq_self (by decide) (by decide), rfl⟩

/-- The server prints past the end of a message without a NUL, and the client writes 2000 bytes from
the payload to an open file. -/
theorem not_contents_read :
    (logPacket.run (packetBuffer fullChat)).isSome = false ∧
      ((handleServerMessage (fun _ => true) ⟨fun _ => none, some (ascii "received_f")⟩).run
        (packetBuffer largeChunk)).isSome = false := by
  constructor
  · rw [← Bool.not_eq_true, isSome_run, wp_logPacket]
    intro h
    obtain ⟨i, hi, -, h0⟩ := mem_bytesAt.1 (h.2.1 packetType_fullChat)
    rw [fullChat, if_neg (by omega), if_neg (by omega)] at h0
    cases h0
  · rw [← Bool.not_eq_true, isSome_run]
    intro h
    have hfits := ((wp_handleServerMessage _ _ _ (P := fun _ => True)).1 h).1
    have hle := hfits largeChunk_fields.1 (Option.some_ne_none _)
    rw [largeChunk_fields.2] at hle
    exact absurd hle (by decide)

end EltexPractice.TcpChat.Checked
