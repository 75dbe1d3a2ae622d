import EltexPractice.TcpChat.FileTransfer
import Mathlib.Data.List.Induction

/-!
# The names of received files

`handle_server_message` opens a file for every `MSG_FILE_START`, under the name in the packet with
`received_` in front. `upload_file` sends the part of a path behind its last `/`, so what it sends
contains none; the receiver does not look.

* `receiveAll_congr`, `mem_pathsOpened`: no other path is opened, and no other file is changed.
* `stays_iff`: the paths have no `/` exactly when the names in the packets have none.
-/

namespace EltexPractice.TcpChat

open CString

/-- The name in a packet as the receiver terminates it. -/
def packetName (packet : ChatPacket) : List UInt8 :=
  cstr (packet.filename.set (maxFilename - 1) 0)

/-- The path `handle_server_message` opens. -/
def openedPath (packet : ChatPacket) : Option (List UInt8) :=
  if packet.type = MsgType.fileStart.code then some (outPath (packetName packet)) else none

/-- The paths opened over a sequence of packets. -/
def pathsOpened (packets : List ChatPacket) : List (List UInt8) := packets.filterMap openedPath

/-- No `/` in any path that is opened, and none in the name of any packet of `upload_file`, which is
the base name of the path cut to 255 bytes. -/
def StaysInDirectory (packets : List ChatPacket) (filepath : List UInt8) : Prop :=
  (∀ path ∈ pathsOpened packets, 47 ∉ path) ∧
    ∀ nickname buffer file, ∀ packet ∈ uploadFile nickname filepath buffer file,
      cstr packet.filename = (getBaseFilename filepath).take 255 ∧ 47 ∉ cstr packet.filename

/-! ## What is opened -/

theorem packetName_eq (packet : ChatPacket) :
    packetName packet = cstr (packet.filename.take 255) := by
  have hlen : maxFilename - 1 < packet.filename.length := by
    rw [packet.filename_length]
    decide
  exact cstr_set hlen

theorem length_packetName (packet : ChatPacket) : (packetName packet).length ≤ 255 := by
  rw [packetName_eq]
  exact (length_cstr_le _).trans (List.length_take_le _ _)

/-- The path fits `out_path`. -/
theorem outPath_packetName (packet : ChatPacket) :
    outPath (packetName packet) = ascii "received_" ++ packetName packet := by
  have h := outPath_take (packetName packet)
  rwa [List.take_of_length_le (length_packetName packet)] at h

/-- A packet opens one path at most. -/
theorem handleServerMessage_congr {creatable creatable' : List UInt8 → Bool} (st : Receiver)
    {packet : ChatPacket}
    (h : ∀ path ∈ openedPath packet, creatable path = creatable' path) :
    handleServerMessage creatable st packet = handleServerMessage creatable' st packet := by
  by_cases htype : packet.type = MsgType.fileStart.code
  · have hpath := h (outPath (packetName packet)) (by rw [openedPath, if_pos htype]; rfl)
    rw [packetName] at hpath
    simp only [handleServerMessage, hpath]
  · simp only [handleServerMessage, if_neg htype]

/-- **Only these paths are opened**: what `fopen` answers to any other one does not matter. -/
theorem receiveAll_congr {creatable creatable' : List UInt8 → Bool} (st : Receiver)
    {packets : List ChatPacket}
    (h : ∀ path ∈ pathsOpened packets, creatable path = creatable' path) :
    receiveAll creatable st packets = receiveAll creatable' st packets := by
  induction packets generalizing st with
  | nil => rfl
  | cons packet packets ih =>
    have hone : ∀ path ∈ openedPath packet, creatable path = creatable' path := fun path hpath =>
      h path (List.mem_filterMap.2 ⟨packet, List.mem_cons_self, hpath⟩)
    rw [receiveAll_cons, receiveAll_cons, handleServerMessage_congr st hone]
    refine ih _ fun path hpath => h path ?_
    obtain ⟨later, hlater, hopened⟩ := List.mem_filterMap.1 hpath
    exact List.mem_filterMap.2 ⟨later, List.mem_cons_of_mem _ hlater, hopened⟩

/-- A packet writes to the open stream or to the path it opens. -/
theorem handleServerMessage_writes (creatable : List UInt8 → Bool) (st : Receiver)
    (packet : ChatPacket) :
    let st' := handleServerMessage creatable st packet
    (∀ path, st'.rxFile = some path → st.rxFile = some path ∨ openedPath packet = some path) ∧
      ∀ path, st'.files path ≠ st.files path →
        st.rxFile = some path ∨ openedPath packet = some path := by
  intro st'
  by_cases hstart : packet.type = MsgType.fileStart.code
  · have hopen : openedPath packet = some (outPath (packetName packet)) := if_pos hstart
    have hst' := @handleServerMessage_start creatable st packet hstart _ rfl
    change st' = if creatable (outPath (packetName packet)) then
      ⟨Function.update st.files (outPath (packetName packet)) (some []),
        some (outPath (packetName packet))⟩ else { st with rxFile := none } at hst'
    rw [hopen, hst']
    split
    · refine ⟨fun path hpath => Or.inr hpath, fun path hpath => Or.inr ?_⟩
      by_contra hother
      exact hpath (Function.update_of_ne (fun h => hother (by rw [h])) ..)
    · refine ⟨fun path hpath => ?_, fun path hpath => absurd rfl hpath⟩
      cases hpath
  by_cases hend : packet.type = MsgType.fileEnd.code
  · have hst' : st' = { st with rxFile := none } := handleServerMessage_end hend
    rw [hst']
    refine ⟨fun path hpath => ?_, fun path hpath => absurd rfl hpath⟩
    cases hpath
  by_cases hdata : packet.type = MsgType.fileData.code ∧ st.rxFile ≠ none
  · obtain ⟨path, hopen⟩ := Option.ne_none_iff_exists'.1 hdata.2
    have hst' := @handleServerMessage_data creatable st packet hdata.1 path hopen
    change st' = _ at hst'
    rw [hst']
    refine ⟨fun path' hpath' => Or.inl hpath', fun path' hpath' => Or.inl ?_⟩
    by_contra hother
    rw [hopen] at hother
    exact hpath' (Function.update_of_ne (fun h => hother (by rw [h])) ..)
  · have hst' : st' = st := handleServerMessage_other hstart
      (fun h => by_contra fun hopen => hdata ⟨h, hopen⟩) hend
    rw [hst']
    exact ⟨fun path hpath => Or.inl hpath, fun path hpath => absurd rfl hpath⟩

/-- **Only paths that were opened are written to**, when no stream was open before. -/
theorem mem_pathsOpened (creatable : List UInt8 → Bool) (files : List UInt8 → Option (List UInt8))
    (packets : List ChatPacket) :
    let st := receiveAll creatable ⟨files, none⟩ packets
    (∀ path, st.rxFile = some path → path ∈ pathsOpened packets) ∧
      ∀ path, st.files path ≠ files path → path ∈ pathsOpened packets := by
  induction packets using List.reverseRecOn with
  | nil =>
    intro st
    refine ⟨fun path hpath => ?_, fun path hpath => absurd rfl hpath⟩
    cases hpath
  | append_singleton packets packet ih =>
    obtain ⟨hstream, hfiles⟩ := ih
    rw [receiveAll_concat]
    set st := receiveAll creatable ⟨files, none⟩ packets
    obtain ⟨hstream', hfiles'⟩ := handleServerMessage_writes creatable st packet
    have hmem : ∀ {path}, st.rxFile = some path ∨ openedPath packet = some path →
        path ∈ pathsOpened (packets ++ [packet]) := by
      intro path hpath
      rw [pathsOpened, List.filterMap_append]
      rcases hpath with hpath | hpath
      · exact List.mem_append_left _ (hstream path hpath)
      · exact List.mem_append_right _ (by simp [hpath])
    refine ⟨fun path hpath => hmem (hstream' path hpath), fun path hpath => ?_⟩
    by_cases hsame : (handleServerMessage creatable st packet).files path = st.files path
    · rw [hsame] at hpath
      rw [pathsOpened, List.filterMap_append]
      exact List.mem_append_left _ (hfiles path hpath)
    · exact hmem (hfiles' path hsame)

theorem forall_pathsOpened {packets : List ChatPacket} {P : List UInt8 → Prop} :
    (∀ path ∈ pathsOpened packets, P path) ↔
      ∀ packet ∈ packets, packet.type = MsgType.fileStart.code →
        P (outPath (packetName packet)) := by
  simp only [pathsOpened, List.mem_filterMap, openedPath]
  constructor
  · intro h packet hmem hstart
    exact h _ ⟨packet, hmem, if_pos hstart⟩
  · rintro h path ⟨packet, hmem, hpath⟩
    split at hpath
    · rename_i hstart
      obtain rfl := Option.some.inj hpath
      exact h packet hmem hstart
    · cases hpath

/-! ## What is sent -/

/-- Behind its last `/` a path has none. -/
theorem slash_notMem_getBaseFilename (path : List UInt8) : 47 ∉ getBaseFilename path := by
  unfold getBaseFilename
  split
  · rename_i base hslash
    exact notMem_drop_strrchr hslash
  · rename_i hnone
    have hno := notMem_of_strrchr hnone
    split
    · rename_i base hbackslash
      exact fun h => hno ((suffix_of_strrchr hbackslash).subset (List.mem_of_mem_drop h))
    · exact hno

/-- Every packet of an upload carries the base name. -/
theorem filename_uploadFile {filepath : List UInt8} (hzero : 0 ∉ filepath)
    {nickname buffer file : List UInt8} {packet : ChatPacket}
    (h : packet ∈ uploadFile nickname filepath buffer file) :
    cstr packet.filename = (getBaseFilename filepath).take 255 := by
  have hbase := zero_notMem_getBaseFilename hzero
  have hfield : cstr (copyField maxFilename (some (getBaseFilename filepath))) =
      (getBaseFilename filepath).take 255 := by
    rw [copyField, cstr_eq_self hbase]
    exact (congrArg cstr (strncpy_zeros _ 255)).trans
      (cstr_append_zero (fun h => hbase (List.mem_of_mem_take h)) _)
  have hloop : ∀ buffer file, packet ∈ uploadLoop nickname (getBaseFilename filepath) buffer file →
      cstr packet.filename = (getBaseFilename filepath).take 255 := by
    intro buffer file
    induction file using arrived.induct generalizing buffer with
    | case1 =>
      intro hmem
      rw [uploadLoop, if_pos rfl] at hmem
      cases hmem
    | case2 file hne ih =>
      intro hmem
      rw [uploadLoop, if_neg hne] at hmem
      rcases List.mem_cons.1 hmem with rfl | hmem
      · exact hfield
      · exact ih _ hmem
  rw [uploadFile] at h
  rcases List.mem_cons.1 h with rfl | h
  · exact hfield
  · rcases List.mem_append.1 h with h | h
    · exact hloop _ _ h
    · rw [List.mem_singleton.1 h]
      exact hfield

/-- **Received files stay in the directory** exactly when the names in the packets that start a
file contain no `/`; what is sent never does. -/
theorem stays_iff (packets : List ChatPacket) (filepath : List UInt8) (hzero : 0 ∉ filepath) :
    StaysInDirectory packets filepath ↔
      ∀ packet ∈ packets, packet.type = MsgType.fileStart.code →
        47 ∉ cstr (packet.filename.take 255) := by
  have hprefix : 47 ∉ ascii "received_" := by decide
  have hsent : ∀ nickname buffer file, ∀ packet ∈ uploadFile nickname filepath buffer file,
      cstr packet.filename = (getBaseFilename filepath).take 255 ∧ 47 ∉ cstr packet.filename := by
    intro nickname buffer file packet hmem
    have hname := filename_uploadFile hzero hmem
    refine ⟨hname, ?_⟩
    rw [hname]
    exact fun h => slash_notMem_getBaseFilename filepath (List.mem_of_mem_take h)
  rw [StaysInDirectory, and_iff_left hsent, forall_pathsOpened]
  refine forall₃_congr fun packet _ _ => ?_
  rw [outPath_packetName, packetName_eq, List.mem_append, not_or, and_iff_right hprefix]

/-- The packet that starts a file, with the name as it is given. -/
def startPacket (filename : List UInt8) : ChatPacket :=
  sendPacket .fileStart (ascii "ann") none (some filename) 0

theorem packetName_startPacket {filename : List UInt8} (hzero : 0 ∉ filename) :
    packetName (startPacket filename) = filename.take 255 := cstr_filename filename hzero

/-- An upload by its own path, received. -/
theorem stays_upload : StaysInDirectory [startPacket (ascii "f.txt")] (ascii "docs/f.txt") := by
  refine (stays_iff _ _ (by decide)).2 fun packet hmem _ => ?_
  rw [List.mem_singleton.1 hmem, ← packetName_eq, packetName_startPacket (by decide)]
  decide

/-- A name with `/` in the packet is opened as it is. -/
theorem not_stays : ¬ StaysInDirectory [startPacket (ascii "../f.txt")] (ascii "docs/f.txt") := by
  rintro ⟨hpaths, -⟩
  have h := forall_pathsOpened.1 hpaths _ (List.mem_singleton_self _) rfl
  rw [outPath_packetName, packetName_startPacket (by decide)] at h
  exact h (by decide)

end EltexPractice.TcpChat
