import EltexPractice.TcpChat.Packet
import Mathlib.Logic.Function.Basic

/-!
# File transfer over the TCP chat

The receiving side, `handle_server_message` of `client.c`, and what a file uploaded by
`upload_file` looks like when it has been received. `send_packet` copies a chunk with `strncpy`, so
a chunk arrives as its bytes before the first NUL, at most 1023 of them, followed by NULs. The file
is received unchanged exactly when no chunk has more than that to lose (`upload_received_iff`).

A file system is the content of each path; `creatable` says on which paths `fopen(path, "wb")`
succeeds. A stream that is replaced without `fclose` is written no more.
-/

namespace EltexPractice.TcpChat

open CString

/-! ## The receiver -/

/-- The files and the open stream `rx_file` with its path. -/
structure Receiver where
  files : List UInt8 → Option (List UInt8)
  rxFile : Option (List UInt8)

/-- The path `handle_server_message` opens for a file name. -/
def outPath (filename : List UInt8) : List UInt8 := snprintf 512 (ascii "received_" ++ filename)

/-- `handle_server_message` on a packet it has read. -/
def handleServerMessage (creatable : List UInt8 → Bool) (st : Receiver) (packet : ChatPacket) :
    Receiver :=
  let filename := cstr (packet.filename.set (maxFilename - 1) 0)
  if packet.type = MsgType.fileStart.code then
    if creatable (outPath filename) then
      { files := Function.update st.files (outPath filename) (some [])
        rxFile := some (outPath filename) }
    else { st with rxFile := none }
  else if packet.type = MsgType.fileData.code then
    match st.rxFile with
    | some path =>
      let written := (st.files path).getD [] ++ packet.payload.take packet.dataLen
      { st with files := Function.update st.files path (some written) }
    | none => st
  else if packet.type = MsgType.fileEnd.code then { st with rxFile := none }
  else st

/-- The receiver after packets in order. -/
def receiveAll (creatable : List UInt8 → Bool) (st : Receiver) (packets : List ChatPacket) :
    Receiver :=
  packets.foldl (handleServerMessage creatable) st

theorem receiveAll_cons (creatable : List UInt8 → Bool) (st : Receiver) (packet : ChatPacket)
    (packets : List ChatPacket) : receiveAll creatable st (packet :: packets) =
      receiveAll creatable (handleServerMessage creatable st packet) packets := rfl

theorem receiveAll_concat (creatable : List UInt8 → Bool) (st : Receiver) (packet : ChatPacket)
    (packets : List ChatPacket) : receiveAll creatable st (packets ++ [packet]) =
      handleServerMessage creatable (receiveAll creatable st packets) packet :=
  List.foldl_concat ..

section

variable {creatable : List UInt8 → Bool} {st : Receiver} {packet : ChatPacket}

theorem handleServerMessage_start (h : packet.type = MsgType.fileStart.code)
    {path : List UInt8}
    (hpath : outPath (cstr (packet.filename.set (maxFilename - 1) 0)) = path) :
    handleServerMessage creatable st packet =
      if creatable path then ⟨Function.update st.files path (some []), some path⟩
      else { st with rxFile := none } := by
  subst hpath
  exact if_pos h

theorem handleServerMessage_data (h : packet.type = MsgType.fileData.code) {path : List UInt8}
    (hopen : st.rxFile = some path) :
    handleServerMessage creatable st packet =
      { st with
        files := Function.update st.files path
          (some ((st.files path).getD [] ++ packet.payload.take packet.dataLen)) } := by
  have hne : packet.type ≠ MsgType.fileStart.code := by rw [h]; decide
  rw [handleServerMessage, if_neg hne, if_pos h, hopen]

theorem handleServerMessage_end (h : packet.type = MsgType.fileEnd.code) :
    handleServerMessage creatable st packet = { st with rxFile := none } := by
  have hne₁ : packet.type ≠ MsgType.fileStart.code := by rw [h]; decide
  have hne₂ : packet.type ≠ MsgType.fileData.code := by rw [h]; decide
  rw [handleServerMessage, if_neg hne₁, if_neg hne₂, if_pos h]

/-- The other packets, and a chunk without an open file, change nothing. -/
theorem handleServerMessage_other (h₁ : packet.type ≠ MsgType.fileStart.code)
    (h₂ : packet.type = MsgType.fileData.code → st.rxFile = none)
    (h₃ : packet.type ≠ MsgType.fileEnd.code) : handleServerMessage creatable st packet = st := by
  rw [handleServerMessage, if_neg h₁, if_neg h₃]
  split
  · rename_i hdata
    rw [h₂ hdata]
  · rfl

end

/-! ## One chunk -/

/-- A chunk as it arrives: cut at its first NUL, at 1023 bytes at most, and filled with NULs. -/
def received (chunk : List UInt8) : List UInt8 :=
  (cstr chunk).take (maxChunkSize - 1) ++
    List.replicate (chunk.length - ((cstr chunk).take (maxChunkSize - 1)).length) 0

/-- A text followed by NULs, with at least one NUL when the chunk is full. -/
def ChunkSurvives (chunk : List UInt8) : Prop :=
  chunk = cstr chunk ++ List.replicate (chunk.length - (cstr chunk).length) 0 ∧
    (chunk.length = maxChunkSize → 0 ∈ chunk)

instance (chunk : List UInt8) : Decidable (ChunkSurvives chunk) :=
  inferInstanceAs (Decidable (_ ∧ _))

/-- A copied string is followed by NULs up to the end of its array. -/
theorem copyField_some {size : ℕ} (hsize : 0 < size) (s : List UInt8) :
    copyField size (some s) = (cstr s).take (size - 1) ++
      List.replicate (size - ((cstr s).take (size - 1)).length) 0 := by
  rw [copyField, strncpy, List.drop_replicate, List.append_assoc, List.replicate_append_replicate,
    List.length_take]
  congr 2
  omega

/-- The first `n` bytes of a text that is filled with NULs. -/
theorem take_fill {t : List UInt8} {n m : ℕ} (ht : t.length ≤ n) (hnm : n ≤ t.length + m) :
    (t ++ List.replicate m 0).take n = t ++ List.replicate (n - t.length) 0 := by
  rw [List.take_append, List.take_of_length_le ht, List.take_replicate, Nat.min_eq_left (by omega)]

/-- What a chunk arrives as does not depend on what follows it in the sender's buffer. -/
theorem take_copyField {chunk : List UInt8} (hlen : chunk.length ≤ maxChunkSize)
    (tail : List UInt8) :
    (copyField maxChunkSize (some (chunk ++ tail))).take chunk.length = received chunk := by
  rw [copyField_some (by decide), received]
  unfold maxChunkSize at hlen ⊢
  by_cases hzero : 0 ∈ chunk
  · have hlt := length_cstr_lt hzero
    rw [cstr_append_of_mem hzero, take_fill]
    · rw [List.length_take]
      omega
    · rw [List.length_take]
      omega
  · rw [cstr_append_of_notMem hzero, cstr_eq_self hzero]
    rcases Nat.lt_or_ge chunk.length 1024 with hlt | hge
    · -- the chunk and what follows it in the text are cut behind the chunk
      rw [List.take_of_length_le (show chunk.length ≤ 1024 - 1 by omega), Nat.sub_self,
        List.replicate_zero, List.append_nil, List.take_append_of_le_length, List.take_take,
        Nat.min_eq_left (by omega), List.take_append_of_le_length le_rfl, List.take_length]
      rw [List.length_take, List.length_append]
      omega
    · rw [List.take_append_of_le_length (show 1024 - 1 ≤ chunk.length by omega), take_fill]
      · rw [List.length_take]
        omega
      · rw [List.length_take]
        omega

theorem length_received (chunk : List UInt8) : (received chunk).length = chunk.length := by
  have h := length_cstr_le chunk
  simp only [received, List.length_append, List.length_take, List.length_replicate]
  omega

theorem received_eq_iff {chunk : List UInt8} (hlen : chunk.length ≤ maxChunkSize) :
    received chunk = chunk ↔ ChunkSurvives chunk := by
  unfold ChunkSurvives received
  unfold maxChunkSize at hlen ⊢
  by_cases hzero : 0 ∈ chunk
  · have hlt := length_cstr_lt hzero
    rw [List.take_of_length_le (by omega)]
    exact ⟨fun h => ⟨h.symm, fun _ => hzero⟩, fun h => h.1.symm⟩
  · rw [cstr_eq_self hzero]
    rcases Nat.lt_or_ge chunk.length 1024 with hlt | hge
    · rw [List.take_of_length_le (by omega), Nat.sub_self, List.replicate_zero, List.append_nil]
      exact ⟨fun _ => ⟨rfl, fun h => absurd h hlt.ne⟩, fun _ => rfl⟩
    · refine ⟨fun h => absurd ?_ hzero, fun h => absurd (h.2 (by omega)) hzero⟩
      rw [← h]
      refine List.mem_append_right _ (List.mem_replicate.2 ⟨?_, rfl⟩)
      rw [List.length_take]
      omega

/-! ## The whole file -/

/-- A file as it arrives. -/
def arrived (file : List UInt8) : List UInt8 :=
  if file = [] then []
  else received (file.take maxChunkSize) ++ arrived (file.drop maxChunkSize)
termination_by file.length
decreasing_by exact length_drop_chunk ‹_›

/-- Every chunk `upload_file` reads survives. -/
def Survives (file : List UInt8) : Prop :=
  ∀ i, ChunkSurvives ((file.drop (maxChunkSize * i)).take maxChunkSize)

theorem chunkSurvives_nil : ChunkSurvives [] := by decide

theorem survives_iff_drop {file : List UInt8} :
    Survives file ↔
      ChunkSurvives (file.take maxChunkSize) ∧ Survives (file.drop maxChunkSize) := by
  unfold Survives
  constructor
  · intro h
    refine ⟨by simpa using h 0, fun i => ?_⟩
    rw [List.drop_drop]
    simpa [Nat.mul_succ, Nat.add_comm] using h (i + 1)
  · rintro ⟨hfirst, hrest⟩ i
    cases i with
    | zero => simpa using hfirst
    | succ i =>
      have hi := hrest i
      rw [List.drop_drop] at hi
      rwa [Nat.mul_succ, Nat.add_comm]

theorem survives_nil : Survives [] := fun i => by
  rw [List.drop_nil, List.take_nil]
  exact chunkSurvives_nil

/-- A file arrives unchanged exactly when every chunk survives. -/
theorem arrived_eq_iff (file : List UInt8) : arrived file = file ↔ Survives file := by
  induction file using arrived.induct with
  | case1 =>
    rw [arrived, if_pos rfl]
    exact iff_of_true rfl survives_nil
  | case2 file hne ih =>
    have hlen : (file.take maxChunkSize).length ≤ maxChunkSize := List.length_take_le _ _
    rw [arrived, if_neg hne, survives_iff_drop, ← ih, ← received_eq_iff hlen]
    constructor
    · intro h
      have hsplit : received (file.take maxChunkSize) ++ arrived (file.drop maxChunkSize) =
          file.take maxChunkSize ++ file.drop maxChunkSize := by
        rw [h, List.take_append_drop]
      exact List.append_inj hsplit (length_received _)
    · rintro ⟨hfirst, hrest⟩
      rw [hfirst, hrest, List.take_append_drop]

/-! ## The transfer -/

theorem cstr_filename (s : List UInt8) (hs : 0 ∉ s) :
    cstr ((copyField maxFilename (some s)).set (maxFilename - 1) 0) = s.take 255 := by
  have hcopy : copyField maxFilename (some s) = strncpy (List.replicate 256 0) s 255 := by
    rw [copyField, cstr_eq_self hs]
    rfl
  rw [hcopy]
  refine cstr_set_strncpy ?_ hs
  rw [List.length_replicate]
  omega

/-- The path a file name is received under; the receiver keeps its first 255 bytes. -/
theorem outPath_take (s : List UInt8) : outPath (s.take 255) = ascii "received_" ++ s.take 255 := by
  refine snprintf_eq_self ?_
  rw [List.length_append, List.length_take, show (ascii "received_").length = 9 from rfl]
  omega

section

variable (creatable : List UInt8 → Bool) (nickname filename : List UInt8)

/-- The chunks of a file are appended to the open file as they arrive. -/
theorem receiveAll_uploadLoop (buffer file path : List UInt8)
    (files : List UInt8 → Option (List UInt8)) {written : List UInt8}
    (hpath : files path = some written) :
    receiveAll creatable ⟨files, some path⟩ (uploadLoop nickname filename buffer file) =
      ⟨Function.update files path (some (written ++ arrived file)), some path⟩ := by
  induction file using arrived.induct generalizing buffer files written with
  | case1 =>
    rw [uploadLoop, if_pos rfl, arrived, if_pos rfl, List.append_nil, ← hpath,
      Function.update_eq_self]
    rfl
  | case2 file hne ih =>
    have hlen : (file.take maxChunkSize).length ≤ maxChunkSize := List.length_take_le _ _
    have hstep : handleServerMessage creatable ⟨files, some path⟩
        (sendPacket .fileData nickname
          (some (file.take maxChunkSize ++ buffer.drop (file.take maxChunkSize).length))
          (some filename) (file.take maxChunkSize).length) =
        ⟨Function.update files path (some (written ++ received (file.take maxChunkSize))),
          some path⟩ := by
      rw [← take_copyField hlen (buffer.drop (file.take maxChunkSize).length)]
      simp only [handleServerMessage, sendPacket, hpath]
      rfl
    have hrest := ih (List.replicate maxChunkSize 0)
      (Function.update files path (some (written ++ received (file.take maxChunkSize))))
      (Function.update_self ..)
    rw [uploadLoop, if_neg hne, receiveAll_cons, hstep, hrest,
      Function.update_idem, List.append_assoc]
    conv_rhs => rw [arrived, if_neg hne]

/-- Without an open file the chunks are dropped. -/
theorem receiveAll_uploadLoop_none (buffer file : List UInt8)
    (files : List UInt8 → Option (List UInt8)) :
    receiveAll creatable ⟨files, none⟩ (uploadLoop nickname filename buffer file) =
      ⟨files, none⟩ := by
  induction file using arrived.induct generalizing buffer with
  | case1 =>
    rw [uploadLoop, if_pos rfl]
    rfl
  | case2 file hne ih =>
    rw [uploadLoop, if_neg hne, receiveAll_cons]
    exact ih _

/-- The receiver of an uploaded file, from the name in its packets. -/
theorem receiveAll_uploadFile {filepath : List UInt8} (hzero : 0 ∉ getBaseFilename filepath)
    (buffer file : List UInt8) (files : List UInt8 → Option (List UInt8)) :
    receiveAll creatable ⟨files, none⟩ (uploadFile nickname filepath buffer file) =
      let path := ascii "received_" ++ (getBaseFilename filepath).take 255
      ⟨if creatable path then Function.update files path (some (arrived file)) else files,
        none⟩ := by
  set base := getBaseFilename filepath with hbase
  have hname : outPath (cstr ((copyField maxFilename (some base)).set (maxFilename - 1) 0)) =
      ascii "received_" ++ base.take 255 := by
    rw [cstr_filename base hzero, outPath_take]
  have hend : ∀ st : Receiver, handleServerMessage creatable st
      (sendPacket .fileEnd nickname none (some base) 0) = { st with rxFile := none } :=
    fun st => rfl
  have hstart : handleServerMessage creatable ⟨files, none⟩
      (sendPacket .fileStart nickname none (some base) 0) =
      if creatable (ascii "received_" ++ base.take 255) then
        ⟨Function.update files (ascii "received_" ++ base.take 255) (some []),
          some (ascii "received_" ++ base.take 255)⟩
      else ⟨files, none⟩ := by
    rw [← hname]
    rfl
  rw [uploadFile, ← hbase, receiveAll_cons, receiveAll_concat, hend, hstart]
  split
  · rename_i hopen
    rw [receiveAll_uploadLoop _ _ _ _ _ _ _ (Function.update_self ..), Function.update_idem,
      List.nil_append]
    simp only [hopen, if_true]
  · rename_i hopen
    rw [receiveAll_uploadLoop_none]
    simp only [hopen, Bool.false_eq_true, if_false]

/-! ## The received file -/

theorem zero_notMem_getBaseFilename {filepath : List UInt8} (hzero : 0 ∉ filepath) :
    0 ∉ getBaseFilename filepath := by
  have hdrop : ∀ {c : UInt8} {base : List UInt8}, strrchr filepath c = some base →
      0 ∉ base.drop 1 := fun h hmem =>
    hzero ((suffix_of_strrchr h).subset (List.mem_of_mem_drop hmem))
  unfold getBaseFilename
  split
  · rename_i base hslash
    exact hdrop hslash
  · split
    · rename_i base hbackslash
      exact hdrop hbackslash
    · exact hzero

/-- **The received file has the bytes of the uploaded file** exactly when its name fits the packet
and can be created, and every chunk is a text followed by NULs, with a NUL in it when it is
full. -/
theorem upload_received_iff {filepath : List UInt8} (hzero : 0 ∉ filepath)
    (buffer file : List UInt8) :
    (∀ files, (receiveAll creatable ⟨files, none⟩
        (uploadFile nickname filepath buffer file)).files
          (ascii "received_" ++ getBaseFilename filepath) = some file) ↔
      (getBaseFilename filepath).length ≤ 255 ∧
        creatable (ascii "received_" ++ getBaseFilename filepath) = true ∧ Survives file := by
  simp only [receiveAll_uploadFile creatable nickname (zero_notMem_getBaseFilename hzero)]
  set base := getBaseFilename filepath
  constructor
  · intro h
    have hnone := h fun _ => none
    have hlen : base.length ≤ 255 := by
      by_contra hlong
      have hne : ascii "received_" ++ base ≠ ascii "received_" ++ base.take 255 := fun heq => by
        have hlength := congrArg List.length (List.append_cancel_left heq)
        rw [List.length_take] at hlength
        omega
      split at hnone
      · rw [Function.update_of_ne hne] at hnone
        cases hnone
      · cases hnone
    rw [List.take_of_length_le hlen] at hnone
    split at hnone
    · rename_i hopen
      rw [Function.update_self] at hnone
      exact ⟨hlen, hopen, (arrived_eq_iff file).1 (Option.some.inj hnone)⟩
    · cases hnone
  · rintro ⟨hlen, hopen, hfile⟩ files
    rw [List.take_of_length_le hlen, if_pos hopen, Function.update_self,
      (arrived_eq_iff file).2 hfile]

end

/-- A short text arrives. -/
theorem upload_received_text :
    (receiveAll (fun _ => true) ⟨fun _ => none, none⟩
      (uploadFile (ascii "ann") (ascii "docs/f.txt") (List.replicate maxChunkSize 0)
        (ascii "hi"))).files (ascii "received_" ++ getBaseFilename (ascii "docs/f.txt")) =
      some (ascii "hi") :=
  (upload_received_iff (fun _ => true) (ascii "ann") (by decide) _ (ascii "hi")).2
    ⟨by decide, rfl, survives_iff_drop.2 ⟨by decide, survives_nil⟩⟩ fun _ => none

/-- A file of two bytes of which the first is NUL does not arrive. -/
theorem not_upload_received :
    (receiveAll (fun _ => true) ⟨fun _ => none, none⟩
      (uploadFile (ascii "ann") (ascii "docs/f.bin") (List.replicate maxChunkSize 0)
        [0, 1])).files (ascii "received_" ++ getBaseFilename (ascii "docs/f.bin")) ≠
      some [0, 1] := by
  have hzero : 0 ∉ getBaseFilename (ascii "docs/f.bin") := by decide
  rw [receiveAll_uploadFile _ _ hzero]
  intro h
  have harrived : arrived [0, 1] = [0, 1] := Option.some.inj h
  exact absurd ((arrived_eq_iff _).1 harrived 0) (by decide)

end EltexPractice.TcpChat
