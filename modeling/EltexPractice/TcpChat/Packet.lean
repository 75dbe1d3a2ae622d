import EltexPractice.Foundations.CString

/-!
# Packets of the TCP chat

`ChatPacket` of task 7 and the functions of `client.c` that build packets: `send_packet` and
`upload_file`. What `upload_file` writes to its socket is the list of its packets; the file is the
list of its bytes, read by `fread` in chunks of `MAX_CHUNK_SIZE`.
-/

namespace EltexPractice.TcpChat

open CString

/-- `MAX_NICK_LEN` -/
def maxNickLen : ℕ := 32

/-- `MAX_CHUNK_SIZE` -/
def maxChunkSize : ℕ := 1024

/-- `MAX_FILENAME` -/
def maxFilename : ℕ := 256

/-- `MsgType`. -/
inductive MsgType
  | join
  | chat
  | leave
  | fileStart
  | fileData
  | fileEnd
  deriving DecidableEq

/-- The value of the enumerator. -/
def MsgType.code : MsgType → ℤ
  | join => 1
  | chat => 2
  | leave => 3
  | fileStart => 4
  | fileData => 5
  | fileEnd => 6

/-- `ChatPacket`; the strings are whole arrays. -/
structure ChatPacket where
  type : ℤ
  dataLen : ℕ
  nickname : List UInt8
  filename : List UInt8
  payload : List UInt8
  nickname_length : nickname.length = maxNickLen
  filename_length : filename.length = maxFilename
  payload_length : payload.length = maxChunkSize

/-- `strncpy` of a string into a zeroed array of `size` bytes that keeps its last byte. -/
def copyField (size : ℕ) (src : Option (List UInt8)) : List UInt8 :=
  match src with
  | some s => strncpy (List.replicate size 0) (cstr s) (size - 1)
  | none => List.replicate size 0

theorem length_copyField (size : ℕ) (src : Option (List UInt8)) :
    (copyField size src).length = size := by
  unfold copyField
  split
  · rw [length_strncpy _ (by rw [List.length_replicate]; omega), List.length_replicate]
  · exact List.length_replicate

/-- The packet `send_packet` writes; `text` is the buffer the argument points to. -/
def sendPacket (type : MsgType) (nickname : List UInt8) (text filename : Option (List UInt8))
    (dataLen : ℕ) : ChatPacket where
  type := type.code
  dataLen
  nickname := copyField maxNickLen (some nickname)
  filename := copyField maxFilename filename
  payload := copyField maxChunkSize text
  nickname_length := length_copyField _ _
  filename_length := length_copyField _ _
  payload_length := length_copyField _ _

/-- `get_base_filename`. -/
def getBaseFilename (path : List UInt8) : List UInt8 :=
  match strrchr path 47 with
  | some base => base.drop 1
  | none =>
    match strrchr path 92 with
    | some base => base.drop 1
    | none => path

/-- A chunk makes what is left of a file shorter. -/
theorem length_drop_chunk {file : List UInt8} (h : file ≠ []) :
    (file.drop maxChunkSize).length < file.length := by
  have hpos := List.length_pos_iff.2 h
  rw [List.length_drop, maxChunkSize]
  omega

/-- The loop of `upload_file` on what is left of the file; `buffer` is the array `fread` reads
into. -/
def uploadLoop (nickname filename buffer file : List UInt8) : List ChatPacket :=
  if file = [] then []
  else
    let chunk := file.take maxChunkSize
    sendPacket .fileData nickname (some (chunk ++ buffer.drop chunk.length)) (some filename)
        chunk.length ::
      uploadLoop nickname filename (List.replicate maxChunkSize 0) (file.drop maxChunkSize)
termination_by file.length
decreasing_by exact length_drop_chunk ‹_›

/-- The packets of `upload_file` for a file that can be opened. -/
def uploadFile (nickname filepath buffer file : List UInt8) : List ChatPacket :=
  let filename := getBaseFilename filepath
  sendPacket .fileStart nickname none (some filename) 0 ::
    (uploadLoop nickname filename buffer file ++
      [sendPacket .fileEnd nickname none (some filename) 0])

end EltexPractice.TcpChat
