import EltexPractice.Foundations.Interleaving
import EltexPractice.TcpChat.FileTransfer

/-!
# Two uploads at once

The packets of two senders reach a receiver in any order that keeps each sender's own. The receiver
has one stream for both, `rx_file`, although every packet carries the name of its file, so a packet
of one sender opens or closes the stream of the other. Both files are received exactly when the
uploads stay apart (`concurrent_uploads`).

A stream that is replaced is never closed; what it has buffered need not be in its file, so only an
empty file is sure to be complete then.
-/

namespace EltexPractice.TcpChat

open CString

/-! ## The receiver's streams -/

/-- The paths of the streams that are never closed: `fopen` replaces them, or they stay open. -/
def unclosed (creatable : List UInt8 → Bool) (st : Receiver) :
    List ChatPacket → List (List UInt8)
  | [] => st.rxFile.toList
  | packet :: packets =>
    (if packet.type = MsgType.fileStart.code then st.rxFile.toList else []) ++
      unclosed creatable (handleServerMessage creatable st packet) packets

/-- After the packets the file at `path` has the bytes `file`, and all of them are written out. -/
def Received (creatable : List UInt8 → Bool) (st : Receiver) (packets : List ChatPacket)
    (path file : List UInt8) : Prop :=
  (receiveAll creatable st packets).files path = some file ∧
    (path ∈ unclosed creatable st packets → file = [])

/-- The bytes a packet adds to the open file. -/
def ChatPacket.data (packet : ChatPacket) : List UInt8 := packet.payload.take packet.dataLen

/-- The bytes several packets add. -/
def written (packets : List ChatPacket) : List UInt8 := packets.flatMap (·.data)

section

variable (creatable : List UInt8 → Bool)

theorem receiveAll_append (st : Receiver) (ps qs : List ChatPacket) :
    receiveAll creatable st (ps ++ qs) = receiveAll creatable (receiveAll creatable st ps) qs :=
  List.foldl_append ..

/-- Packets with data are appended to the open file. -/
theorem receiveAll_data {ps : List ChatPacket} (hps : ∀ p ∈ ps, p.type = MsgType.fileData.code)
    (files : List UInt8 → Option (List UInt8)) {path w : List UInt8} (hpath : files path = some w) :
    receiveAll creatable ⟨files, some path⟩ ps =
      ⟨Function.update files path (some (w ++ written ps)), some path⟩ := by
  induction ps generalizing files w with
  | nil =>
    rw [written, List.flatMap_nil, List.append_nil, ← hpath, Function.update_eq_self]
    rfl
  | cons p ps ih =>
    have hstep : handleServerMessage creatable ⟨files, some path⟩ p =
        ⟨Function.update files path (some (w ++ p.data)), some path⟩ := by
      rw [handleServerMessage, hps p List.mem_cons_self]
      simp only [hpath]
      rfl
    rw [receiveAll_cons, hstep, ih (fun q hq => hps q (List.mem_cons_of_mem _ hq)) _
      (Function.update_self ..), Function.update_idem, List.append_assoc]
    rfl

/-- Without an open file they are dropped. -/
theorem receiveAll_data_none {ps : List ChatPacket}
    (hps : ∀ p ∈ ps, p.type = MsgType.fileData.code) (files : List UInt8 → Option (List UInt8)) :
    receiveAll creatable ⟨files, none⟩ ps = ⟨files, none⟩ := by
  induction ps with
  | nil => rfl
  | cons p ps ih =>
    have hstep : handleServerMessage creatable ⟨files, none⟩ p = ⟨files, none⟩ := by
      rw [handleServerMessage, hps p List.mem_cons_self]
      rfl
    rw [receiveAll_cons, hstep]
    exact ih fun q hq => hps q (List.mem_cons_of_mem _ hq)

/-- Only the start of an upload replaces a stream. -/
theorem unclosed_append {ps : List ChatPacket} (hps : ∀ p ∈ ps, p.type ≠ MsgType.fileStart.code)
    (st : Receiver) (qs : List ChatPacket) :
    unclosed creatable st (ps ++ qs) = unclosed creatable (receiveAll creatable st ps) qs := by
  induction ps generalizing st with
  | nil => rfl
  | cons p ps ih =>
    rw [List.cons_append, unclosed, if_neg (hps p List.mem_cons_self), List.nil_append,
      ih fun q hq => hps q (List.mem_cons_of_mem _ hq)]
    rfl

theorem mem_unclosed_append {path : List UInt8} (ps : List ChatPacket) {st : Receiver}
    {qs : List ChatPacket} (h : path ∈ unclosed creatable (receiveAll creatable st ps) qs) :
    path ∈ unclosed creatable st (ps ++ qs) := by
  induction ps generalizing st with
  | nil => exact h
  | cons p ps ih => exact List.mem_append_right _ (ih h)

end

/-! ## Uploads -/

/-- The arguments of `upload_file`, its file and what its buffer holds before. -/
structure Upload where
  nickname : List UInt8
  filepath : List UInt8
  buffer : List UInt8
  file : List UInt8

namespace Upload

/-- The name in the packets. -/
def base (u : Upload) : List UInt8 := getBaseFilename u.filepath

/-- The path under which the file is received. -/
def path (u : Upload) : List UInt8 := ascii "received_" ++ u.base

def start (u : Upload) : ChatPacket := sendPacket .fileStart u.nickname none (some u.base) 0

def chunks (u : Upload) : List ChatPacket := uploadLoop u.nickname u.base u.buffer u.file

def finish (u : Upload) : ChatPacket := sendPacket .fileEnd u.nickname none (some u.base) 0

def packets (u : Upload) : List ChatPacket := uploadFile u.nickname u.filepath u.buffer u.file

theorem packets_eq (u : Upload) : u.packets = u.start :: (u.chunks ++ [u.finish]) := rfl

/-- Uploaded alone, the file arrives byte-identical. -/
def Arrives (creatable : List UInt8 → Bool) (u : Upload) : Prop :=
  0 ∉ u.filepath ∧
    ∀ files, (receiveAll creatable ⟨files, none⟩ u.packets).files u.path = some u.file

theorem uploadLoop_type (nickname filename buffer file : List UInt8) :
    ∀ p ∈ uploadLoop nickname filename buffer file, p.type = MsgType.fileData.code := by
  induction file using arrived.induct generalizing buffer with
  | case1 =>
    rw [uploadLoop, if_pos rfl]
    exact fun p hp => absurd hp List.not_mem_nil
  | case2 file hne ih =>
    rw [uploadLoop, if_neg hne]
    intro p hp
    rcases List.mem_cons.1 hp with rfl | hp
    · rfl
    · exact ih _ p hp

theorem uploadLoop_data (nickname filename buffer file : List UInt8) :
    ∀ p ∈ uploadLoop nickname filename buffer file, p.data ≠ [] := by
  induction file using arrived.induct generalizing buffer with
  | case1 =>
    rw [uploadLoop, if_pos rfl]
    exact fun p hp => absurd hp List.not_mem_nil
  | case2 file hne ih =>
    rw [uploadLoop, if_neg hne]
    intro p hp
    rcases List.mem_cons.1 hp with rfl | hp
    · intro hnil
      have hlen := congrArg List.length hnil
      have hpos := List.length_pos_iff.2 hne
      rw [ChatPacket.data, List.length_take, ChatPacket.payload_length] at hlen
      simp only [sendPacket, List.length_take, maxChunkSize, List.length_nil] at hlen
      omega
    · exact ih _ p hp

variable {creatable : List UInt8 → Bool} {u : Upload}

theorem chunks_type (u : Upload) : ∀ p ∈ u.chunks, p.type = MsgType.fileData.code :=
  uploadLoop_type u.nickname u.base u.buffer u.file

theorem Arrives.conditions (h : u.Arrives creatable) :
    u.base.length ≤ 255 ∧ creatable u.path = true ∧ Survives u.file :=
  (upload_received_iff creatable u.nickname h.1 u.buffer u.file).1 h.2

theorem Arrives.handle_start (h : u.Arrives creatable) (st : Receiver) :
    handleServerMessage creatable st u.start =
      ⟨Function.update st.files u.path (some []), some u.path⟩ := by
  obtain ⟨hlen, hopen, -⟩ := h.conditions
  have hname : outPath (cstr (u.start.filename.set (maxFilename - 1) 0)) = u.path := by
    change outPath (cstr ((copyField maxFilename (some u.base)).set (maxFilename - 1) 0)) = _
    rw [cstr_filename u.base (zero_notMem_getBaseFilename h.1), outPath_take,
      List.take_of_length_le hlen]
    rfl
  rw [handleServerMessage, hname, if_pos hopen]
  exact if_pos rfl

theorem handle_finish (u : Upload) (st : Receiver) :
    handleServerMessage creatable st u.finish = { st with rxFile := none } := rfl

theorem receiveAll_finish (u : Upload) (st : Receiver) :
    receiveAll creatable st [u.finish] = { st with rxFile := none } := rfl

/-- The chunks carry the file. -/
theorem Arrives.written_chunks (h : u.Arrives creatable) : written u.chunks = u.file := by
  have hdata : receiveAll creatable ⟨fun _ => some [], some u.path⟩ u.chunks = _ :=
    receiveAll_data creatable u.chunks_type (fun _ => some []) rfl
  have hloop := receiveAll_uploadLoop creatable u.nickname u.base u.buffer u.file u.path
    (fun _ => some []) rfl
  have hsame := congrFun (congrArg Receiver.files (hdata.symm.trans hloop)) u.path
  dsimp only at hsame
  rw [Function.update_self, Function.update_self, List.nil_append, List.nil_append,
    (arrived_eq_iff u.file).2 h.conditions.2.2] at hsame
  exact Option.some.inj hsame

/-- Chunks that are missing are missed. -/
theorem Arrives.written_eq_file (h : u.Arrives creatable) {ps qs : List ChatPacket}
    (hsplit : u.chunks = ps ++ qs) : written ps = u.file ↔ qs = [] := by
  have hall := h.written_chunks
  rw [hsplit, written, List.flatMap_append] at hall
  constructor
  · intro hps
    have hnil : written qs = [] := by
      have hlen := congrArg List.length hall
      rw [List.length_append] at hlen
      rw [written] at hps ⊢
      rw [hps] at hlen
      exact List.length_eq_zero_iff.1 (by omega)
    refine List.eq_nil_iff_forall_not_mem.2 fun p hp => ?_
    have hmem : p ∈ u.chunks := hsplit ▸ List.mem_append_right ps hp
    exact uploadLoop_data u.nickname u.base u.buffer u.file p hmem
      (List.flatMap_eq_nil_iff.1 hnil p hp)
  · rintro rfl
    rwa [List.flatMap_nil, List.append_nil] at hall

theorem Arrives.chunks_eq_nil (h : u.Arrives creatable) (hfile : u.file = []) : u.chunks = [] := by
  have hnil := (h.written_eq_file (List.nil_append u.chunks).symm).1
  exact hnil (by rw [hfile]; rfl)

end Upload

/-! ## Two of them -/

/-- The packets of two uploads in an order that keeps each sender's own. -/
def Interleaves (up : Bool → Upload) (packets : List (Bool × ChatPacket)) : Prop :=
  ∀ b, part b packets = (up b).packets

/-- Each packet's sender and type. -/
def kinds (packets : List (Bool × ChatPacket)) : List (Bool × ℤ) :=
  packets.map fun e => (e.1, e.2.type)

/-- From the START of a file that is not empty to its END the other sender starts nothing, and
before its last DATA the other sender ends nothing. -/
structure Apart (up : Bool → Upload) (packets : List (Bool × ChatPacket)) : Prop where
  start : ∀ b, (up b).file ≠ [] →
    ¬ [(b, MsgType.fileStart.code), (!b, MsgType.fileStart.code), (b, MsgType.fileEnd.code)].Sublist
      (kinds packets)
  finish : ∀ b,
    ¬ [(b, MsgType.fileStart.code), (!b, MsgType.fileEnd.code), (b, MsgType.fileData.code)].Sublist
      (kinds packets)

section

variable {creatable : List UInt8 → Bool} {up : Bool → Upload}

theorem kinds_append (l₁ l₂ : List (Bool × ChatPacket)) :
    kinds (l₁ ++ l₂) = kinds l₁ ++ kinds l₂ := List.map_append

/-- What a sender's part says about the kinds. -/
theorem mem_kinds {b : Bool} {t : ℤ} {l : List (Bool × ChatPacket)} :
    (b, t) ∈ kinds l ↔ ∃ p ∈ part b l, p.type = t := by
  simp only [kinds, List.mem_map, mem_part, Prod.exists, Prod.mk.injEq]
  constructor
  · rintro ⟨b', p, hp, rfl, rfl⟩
    exact ⟨p, hp, rfl⟩
  · rintro ⟨p, hp, rfl⟩
    exact ⟨b, p, hp, rfl, rfl⟩

/-- One upload after the other. -/
theorem apart_append {x : Bool} {l₁ l₂ : List (Bool × ChatPacket)} (h₁ : part (!x) l₁ = [])
    (h₂ : part x l₂ = []) : Apart up (l₁ ++ l₂) := by
  have htag₁ : ∀ b t, (b, t) ∈ kinds l₁ → b = x := fun b t hmem => by
    obtain ⟨p, hp, -⟩ := mem_kinds.1 hmem
    by_contra hne
    rw [Bool.eq_not.2 hne, h₁] at hp
    cases hp
  have htag₂ : ∀ b t, (b, t) ∈ kinds l₂ → b = !x := fun b t hmem => by
    obtain ⟨p, hp, -⟩ := mem_kinds.1 hmem
    by_contra hne
    rw [Bool.not_eq_not.1 hne, h₂] at hp
    cases hp
  have hnone : ∀ b r s t, ¬ [(b, r), (!b, s), (b, t)].Sublist (kinds (l₁ ++ l₂)) := by
    intro b r s t hsub
    rw [kinds_append, List.sublist_append_iff] at hsub
    obtain ⟨k₁, k₂, heq, hk₁, hk₂⟩ := hsub
    rcases k₁ with - | ⟨e, k₁⟩
    · obtain rfl : [(b, r), (!b, s), (b, t)] = k₂ := heq
      have hb := htag₂ b r (hk₂.subset (by simp))
      have hnot := htag₂ (!b) s (hk₂.subset (by simp))
      exact (Bool.not_eq_self b).1 (hnot.trans hb.symm)
    · obtain ⟨rfl, hrest⟩ := List.cons.inj heq
      have hb := htag₁ b r (hk₁.subset (by simp))
      rcases k₁ with - | ⟨e', k₁⟩
      · obtain rfl : [(!b, s), (b, t)] = k₂ := hrest
        have hnot := htag₂ b t (hk₂.subset (by simp))
        rw [hb] at hnot
        exact (Bool.not_eq_self x).1 hnot.symm
      · obtain ⟨rfl, -⟩ := List.cons.inj hrest
        have hnot := htag₁ (!b) s (hk₁.subset (by simp))
        rw [hb] at hnot
        exact (Bool.not_eq_self x).1 hnot
  exact ⟨fun b _ => hnone b _ _ _, fun b => hnone b _ _ _⟩

/-! ### Whole uploads -/

theorem receiveAll_packets {u : Upload} (h : u.Arrives creatable)
    (files : List UInt8 → Option (List UInt8)) : receiveAll creatable ⟨files, none⟩ u.packets =
      ⟨Function.update files u.path (some u.file), none⟩ := by
  rw [u.packets_eq, receiveAll_cons, h.handle_start, receiveAll_append,
    receiveAll_data creatable u.chunks_type _ (Function.update_self ..), Function.update_idem,
    List.nil_append, h.written_chunks]
  rfl

theorem type_ne_start {u : Upload} :
    ∀ p ∈ u.chunks ++ [u.finish], p.type ≠ MsgType.fileStart.code := by
  intro p hp
  rcases List.mem_append.1 hp with hp | hp
  · rw [u.chunks_type p hp]
    decide
  · rw [List.mem_singleton.1 hp]
    exact (by decide : MsgType.fileEnd.code ≠ MsgType.fileStart.code)

theorem unclosed_packets {u : Upload} (h : u.Arrives creatable)
    (files : List UInt8 → Option (List UInt8)) (qs : List ChatPacket) :
    unclosed creatable ⟨files, none⟩ (u.packets ++ qs) =
      unclosed creatable ⟨Function.update files u.path (some u.file), none⟩ qs := by
  rw [← receiveAll_packets h files, u.packets_eq, List.cons_append, unclosed,
    unclosed_append creatable type_ne_start]
  exact (congrArg (· ++ _) (ite_self _)).trans (List.nil_append _)

/-- One upload after the other is received. -/
theorem received_append (harr : ∀ b, (up b).Arrives creatable) {x : Bool}
    (hpath : (up x).path ≠ (up !x).path) (files : List UInt8 → Option (List UInt8)) (b : Bool) :
    Received creatable ⟨files, none⟩ ((up x).packets ++ (up !x).packets) (up b).path
      (up b).file := by
  have hclosed : unclosed creatable ⟨files, none⟩ ((up x).packets ++ (up !x).packets) = [] := by
    rw [unclosed_packets (harr x), ← List.append_nil (up !x).packets, unclosed_packets (harr !x)]
    rfl
  refine ⟨?_, fun hmem => ?_⟩
  · rw [receiveAll_append, receiveAll_packets (harr x), receiveAll_packets (harr !x)]
    dsimp only
    rcases eq_or_ne b x with rfl | hne
    · rw [Function.update_of_ne hpath, Function.update_self]
    · rw [Bool.eq_not.2 hne, Function.update_self]
  · rw [hclosed] at hmem
    cases hmem

/-- The last packet is in the part that is not empty. -/
theorem eq_append_of_append_eq_concat {α : Type*} {a c d : List α} {z : α} (h : a ++ c = d ++ [z])
    (hc : c ≠ []) : ∃ c', c = c' ++ [z] ∧ d = a ++ c' := by
  obtain ⟨c', z', rfl⟩ := (List.eq_nil_or_concat' c).resolve_left hc
  rw [← List.append_assoc] at h
  obtain ⟨h₁, h₂⟩ := List.append_inj' h rfl
  exact ⟨c', by rw [h₂], h₁.symm⟩

/-! ### Uploads that overlap -/

/-- The second upload starts before the first one, of a file that is not empty, has ended. -/
theorem not_received_of_overlap (harr : ∀ b, (up b).Arrives creatable) {x : Bool}
    (hfile : (up x).file ≠ []) {ds qs : List ChatPacket}
    (hds : ∀ p ∈ ds, p.type = MsgType.fileData.code) (files : List UInt8 → Option (List UInt8)) :
    ¬ Received creatable ⟨files, none⟩ ((up x).start :: (ds ++ (up !x).start :: qs)) (up x).path
      (up x).file := by
  intro hrec
  refine hfile (hrec.2 (mem_unclosed_append creatable ((up x).start :: ds) ?_))
  rw [receiveAll_cons, (harr x).handle_start,
    receiveAll_data creatable hds _ (Function.update_self ..), unclosed]
  exact List.mem_append_left _ (List.mem_singleton.2 rfl)

theorem not_apart_of_overlap {x : Bool} (hfile : (up x).file ≠ [])
    {l₁ l₂ : List (Bool × ChatPacket)} (hend : (up x).finish ∈ part x l₂) :
    ¬ Apart up ((x, (up x).start) :: (l₁ ++ (!x, (up !x).start) :: l₂)) := by
  intro hapart
  have hmem : (x, MsgType.fileEnd.code) ∈ kinds l₂ := mem_kinds.2 ⟨_, hend, rfl⟩
  refine hapart.start x hfile (List.Sublist.cons_cons _ ?_)
  rw [← kinds, kinds_append]
  exact ((List.singleton_sublist.2 hmem).cons_cons _).trans (List.sublist_append_right _ _)

/-- The first upload is of an empty file: its END closes the other one's stream, behind which the
DATA packets are dropped. -/
theorem receiveAll_overlap (harr : ∀ b, (up b).Arrives creatable) {x : Bool} {a c : List ChatPacket}
    (hsplit : a ++ c = (up !x).chunks ++ [(up !x).finish])
    (files : List UInt8 → Option (List UInt8)) :
    ∃ w, (w = (up !x).file ↔ ∀ p ∈ c, p.type ≠ MsgType.fileData.code) ∧
      receiveAll creatable ⟨files, none⟩
        ((up x).start :: (up !x).start :: (a ++ (up x).finish :: c)) =
      ⟨Function.update (Function.update files (up x).path (some [])) (up !x).path (some w), none⟩
      := by
  rw [receiveAll_cons, receiveAll_cons, (harr x).handle_start, (harr !x).handle_start,
    receiveAll_append, receiveAll_cons]
  dsimp only
  rcases eq_or_ne c [] with rfl | hc
  · rw [List.append_nil] at hsplit
    refine ⟨(up !x).file, iff_of_true rfl fun _ hp => absurd hp List.not_mem_nil, ?_⟩
    rw [hsplit, receiveAll_append,
      receiveAll_data creatable (up !x).chunks_type _ (Function.update_self ..),
      Function.update_idem, List.nil_append, (harr !x).written_chunks]
    rfl
  · obtain ⟨c', rfl, hchunks⟩ := eq_append_of_append_eq_concat hsplit hc
    have hdata : ∀ p ∈ a ++ c', p.type = MsgType.fileData.code := fun p hp =>
      (up !x).chunks_type p (hchunks ▸ hp)
    refine ⟨written a, ?_, ?_⟩
    · rw [(harr !x).written_eq_file hchunks]
      constructor
      · rintro rfl p hp
        rw [List.nil_append, List.mem_singleton] at hp
        rw [hp]
        exact (by decide : MsgType.fileEnd.code ≠ MsgType.fileData.code)
      · intro hnone
        refine List.eq_nil_iff_forall_not_mem.2 fun p hp => ?_
        exact hnone p (List.mem_append_left _ hp) (hdata p (List.mem_append_right a hp))
    · rw [receiveAll_data creatable (fun p hp => hdata p (List.mem_append_left _ hp)) _
        (Function.update_self ..), Function.update_idem, List.nil_append,
        Upload.handle_finish, receiveAll_append,
        receiveAll_data_none creatable fun p hp => hdata p (List.mem_append_right a hp)]
      rfl

/-- Only the first stream is replaced. -/
theorem unclosed_overlap (harr : ∀ b, (up b).Arrives creatable) {x : Bool} {a c : List ChatPacket}
    (hsplit : a ++ c = (up !x).chunks ++ [(up !x).finish])
    (files : List UInt8 → Option (List UInt8)) :
    unclosed creatable ⟨files, none⟩
      ((up x).start :: (up !x).start :: (a ++ (up x).finish :: c)) = [(up x).path] := by
  have hstarts : ∀ p ∈ a ++ (up x).finish :: c, p.type ≠ MsgType.fileStart.code := by
    have hother : ∀ p ∈ a ++ c, p.type ≠ MsgType.fileStart.code := hsplit ▸ type_ne_start
    intro p hp
    rcases List.mem_append.1 hp with hp | hp
    · exact hother p (List.mem_append_left _ hp)
    · rcases List.mem_cons.1 hp with rfl | hp
      · exact (by decide : MsgType.fileEnd.code ≠ MsgType.fileStart.code)
      · exact hother p (List.mem_append_right _ hp)
  obtain ⟨w, -, hfinal⟩ := receiveAll_overlap harr hsplit files
  rw [receiveAll_cons, receiveAll_cons, (harr x).handle_start] at hfinal
  rw [unclosed, (harr x).handle_start, unclosed, ← List.append_nil (a ++ _),
    unclosed_append creatable hstarts, hfinal, unclosed]
  rfl

/-- Of the other file arrives what comes before the END of the first one. -/
theorem received_overlap_iff (harr : ∀ b, (up b).Arrives creatable) {x : Bool}
    (hpath : (up x).path ≠ (up !x).path) (hfile : (up x).file = []) {a c : List ChatPacket}
    (hsplit : a ++ c = (up !x).chunks ++ [(up !x).finish])
    (files : List UInt8 → Option (List UInt8)) :
    (∀ b, Received creatable ⟨files, none⟩
      ((up x).start :: (up !x).start :: (a ++ (up x).finish :: c)) (up b).path (up b).file) ↔
        ∀ p ∈ c, p.type ≠ MsgType.fileData.code := by
  obtain ⟨w, hw, hfinal⟩ := receiveAll_overlap harr hsplit files
  unfold Received
  rw [hfinal, unclosed_overlap harr hsplit files]
  dsimp only
  rw [← hw]
  constructor
  · intro h
    have hother := (h !x).1
    rw [Function.update_self] at hother
    exact Option.some.inj hother
  · rintro rfl b
    rcases eq_or_ne b x with rfl | hne
    · rw [Function.update_of_ne hpath, Function.update_self, hfile]
      exact ⟨rfl, fun _ => rfl⟩
    · obtain rfl := Bool.eq_not.2 hne
      rw [Function.update_self]
      exact ⟨rfl, fun hmem => absurd (List.mem_singleton.1 hmem).symm hpath⟩

/-- Behind the two STARTs only the END of the first sender is left. -/
theorem eq_finish_of_mem_kinds {x : Bool} {l₁ l₂ : List (Bool × ChatPacket)}
    (h₁ : part x l₁ = []) (h₂ : part x l₂ = []) {t : ℤ}
    (ht : (x, t) ∈ kinds (l₁ ++ (x, (up x).finish) :: l₂)) : t = MsgType.fileEnd.code := by
  obtain ⟨p, hp, rfl⟩ := mem_kinds.1 ht
  rw [part_append, part_cons_self, h₁, h₂, List.nil_append, List.mem_singleton] at hp
  rw [hp]
  rfl

/-- What begins with a packet of the second sender goes on behind the two STARTs. -/
theorem sublist_of_second {x : Bool} {s s' t : ℤ} {k l : List (Bool × ℤ)}
    (h : ((!x, t) :: k).Sublist ((x, s) :: (!x, s') :: l)) : k.Sublist l := by
  rcases List.sublist_cons_iff.1 h with h | ⟨r, heq, -⟩
  · rcases List.sublist_cons_iff.1 h with h | ⟨r, heq, h⟩
    · exact (List.sublist_cons_self _ _).trans h
    · rwa [(List.cons.inj heq).2]
  · exact absurd (Prod.mk.inj (List.cons.inj heq).1).1 (Bool.not_eq_self x).1

theorem apart_overlap_iff {x : Bool} (hfile : (up x).file = []) {l₁ l₂ : List (Bool × ChatPacket)}
    (h₁ : part x l₁ = []) (h₂ : part x l₂ = []) :
    Apart up ((x, (up x).start) :: (!x, (up !x).start) :: (l₁ ++ (x, (up x).finish) :: l₂)) ↔
      ∀ p ∈ part (!x) l₂, p.type ≠ MsgType.fileData.code := by
  have hx : ∀ t, (x, t) ∈ kinds (l₁ ++ (x, (up x).finish) :: l₂) → t = MsgType.fileEnd.code :=
    fun _ => eq_finish_of_mem_kinds h₁ h₂
  have hkl : kinds (l₁ ++ (x, (up x).finish) :: l₂) =
      kinds l₁ ++ (x, MsgType.fileEnd.code) :: kinds l₂ := by
    rw [kinds_append]
    rfl
  set l := l₁ ++ (x, (up x).finish) :: l₂ with hl
  have hkinds : kinds ((x, (up x).start) :: (!x, (up !x).start) :: l) =
      (x, MsgType.fileStart.code) :: (!x, MsgType.fileStart.code) :: kinds l := rfl
  constructor
  · intro hapart p hp htype
    refine hapart.finish (!x) ?_
    have hmem : (!x, MsgType.fileData.code) ∈ kinds l₂ := mem_kinds.2 ⟨p, hp, htype⟩
    rw [hkinds, Bool.not_not, hkl]
    refine List.Sublist.cons _ (List.Sublist.cons_cons _ ?_)
    exact ((List.singleton_sublist.2 hmem).cons_cons _).trans (List.sublist_append_right _ _)
  · intro hnone
    refine ⟨fun b hb hsub => ?_, fun b hsub => ?_⟩
    · rcases eq_or_ne b x with rfl | hne
      · exact hb hfile
      · obtain rfl := Bool.eq_not.2 hne
        rw [hkinds, Bool.not_not] at hsub
        have hstart := hx _ ((sublist_of_second hsub).subset List.mem_cons_self)
        exact absurd hstart (by decide)
    · rcases eq_or_ne b x with rfl | hne
      · have hmem := hsub.subset (show (b, MsgType.fileData.code) ∈ _ by simp)
        rw [hkinds] at hmem
        rcases List.mem_cons.1 hmem with heq | hmem
        · exact absurd (Prod.mk.inj heq).2 (by decide)
        · rcases List.mem_cons.1 hmem with heq | hmem
          · exact absurd (Prod.mk.inj heq).2 (by decide)
          · exact absurd (hx _ hmem) (by decide)
      · obtain rfl := Bool.eq_not.2 hne
        rw [hkinds, Bool.not_not] at hsub
        have hrest := sublist_of_second hsub
        rw [hkl, List.sublist_append_iff] at hrest
        obtain ⟨k₁, k₂, heq, hk₁, hk₂⟩ := hrest
        have hmem : (!x, MsgType.fileData.code) ∈ kinds l₂ := by
          rcases k₁ with - | ⟨e, k₁⟩
          · obtain rfl : [(x, MsgType.fileEnd.code), (!x, MsgType.fileData.code)] = k₂ := heq
            exact List.singleton_sublist.1 (List.cons_sublist_cons.1 hk₂)
          · obtain ⟨rfl, -⟩ := List.cons.inj heq
            obtain ⟨p, hp, -⟩ := mem_kinds.1 (hk₁.subset List.mem_cons_self)
            rw [h₁] at hp
            cases hp
        obtain ⟨p, hp, htype⟩ := mem_kinds.1 hmem
        exact hnone p hp htype

/-- **Concurrent uploads.** Of two files that would each arrive alone, under different names, both
arrive exactly when the uploads stay apart. -/
theorem concurrent_uploads (harr : ∀ b, (up b).Arrives creatable)
    (hbase : (up true).base ≠ (up false).base) {packets : List (Bool × ChatPacket)}
    (hmix : Interleaves up packets) (files : List UInt8 → Option (List UInt8)) :
    (∀ b, Received creatable ⟨files, none⟩ (packets.map (·.2)) (up b).path (up b).file) ↔
      Apart up packets := by
  have hpath : ∀ x, (up x).path ≠ (up !x).path := by
    intro x heq
    have hsame : (up x).base = (up !x).base := List.append_cancel_left heq
    cases x with
    | true => exact hbase hsame
    | false => exact hbase hsame.symm
  -- the upload that starts first
  rcases packets with - | ⟨⟨x, p⟩, rest⟩
  · exact absurd (hmix true) (by rw [part_nil, Upload.packets_eq]; exact nofun)
  have hne : x ≠ !x := fun heq => (Bool.not_eq_self x).1 heq.symm
  have hx := hmix x
  have hy := hmix !x
  rw [part_cons_self, Upload.packets_eq] at hx
  rw [part_cons_of_ne hne, Upload.packets_eq] at hy
  obtain ⟨rfl, hrest⟩ := List.cons.inj hx
  -- the other one starts behind `l₁`
  obtain ⟨l₁, l₂, rfl, h₁, h₂⟩ := exists_of_part_eq_cons hy
  rw [part_append, part_cons_of_ne hne.symm] at hrest
  have hl₁ : l₁.map (·.2) = part x l₁ := by simpa using map_snd_of_part_eq_nil h₁
  by_cases hl₂ : part x l₂ = []
  · rw [hl₂, List.append_nil] at hrest
    have hall : ((x, (up x).start) :: (l₁ ++ (!x, (up !x).start) :: l₂)).map (·.2) =
        (up x).packets ++ (up !x).packets := by
      rw [List.map_cons, List.map_append, hl₁, hrest, List.map_cons, map_snd_of_part_eq_nil hl₂, h₂]
      rfl
    rw [hall, ← List.cons_append]
    refine iff_of_true (received_append harr (hpath x) files) (apart_append (x := x) ?_ ?_)
    · rwa [part_cons_of_ne hne]
    · rwa [part_cons_of_ne hne.symm]
  · obtain ⟨ds, hend, hchunks⟩ := eq_append_of_append_eq_concat hrest hl₂
    by_cases hfile : (up x).file = []
    · rw [(harr x).chunks_eq_nil hfile, eq_comm, List.append_eq_nil_iff] at hchunks
      obtain rfl : l₁ = [] := List.map_eq_nil_iff.1 (hl₁.trans hchunks.1)
      rw [hchunks.2, List.nil_append] at hend
      obtain ⟨m₁, m₂, rfl, hm₁, hm₂⟩ := exists_of_part_eq_cons hend
      rw [List.nil_append, apart_overlap_iff hfile hm₁ hm₂,
        ← received_overlap_iff harr (hpath x) hfile (a := part (!x) m₁) (c := part (!x) m₂)]
      · rw [List.map_cons, List.map_cons, List.map_append, List.map_cons,
          map_snd_of_part_eq_nil hm₁, map_snd_of_part_eq_nil hm₂]
      · rw [← h₂, part_append, part_cons_of_ne hne]
    · refine iff_of_false (fun hrec => ?_) (not_apart_of_overlap hfile ?_)
      · have hfirst := hrec x
        rw [List.map_cons, List.map_append, hl₁, List.map_cons] at hfirst
        exact not_received_of_overlap harr hfile
          (fun p hp => (up x).chunks_type p (hchunks ▸ List.mem_append_left _ hp)) files hfirst
      · rw [hend]
        exact List.mem_append_right _ (List.mem_singleton.2 rfl)

end

/-- Two senders, each with a file of two bytes. -/
def twoTexts (b : Bool) : Upload :=
  if b then ⟨ascii "ann", ascii "a.txt", List.replicate maxChunkSize 0, ascii "hi"⟩
  else ⟨ascii "bob", ascii "b.txt", List.replicate maxChunkSize 0, ascii "yo"⟩

theorem twoTexts_arrives (b : Bool) : (twoTexts b).Arrives fun _ => true := by
  cases b with
  | true =>
    exact ⟨by decide, (upload_received_iff _ _ (by decide) _ _).2
      ⟨by decide, rfl, survives_iff_drop.2 ⟨by decide, survives_nil⟩⟩⟩
  | false =>
    exact ⟨by decide, (upload_received_iff _ _ (by decide) _ _).2
      ⟨by decide, rfl, survives_iff_drop.2 ⟨by decide, survives_nil⟩⟩⟩

/-- One after the other they are received. -/
theorem concurrent_uploads_twoTexts :
    let l := (twoTexts true).packets.map (Prod.mk true) ++
      (twoTexts false).packets.map (Prod.mk false)
    let ps := l.map (·.2)
    Received (fun _ => true) ⟨fun _ => none, none⟩ ps (twoTexts true).path (twoTexts true).file ∧
      Received (fun _ => true) ⟨fun _ => none, none⟩ ps (twoTexts false).path
        (twoTexts false).file := by
  intro l ps
  have hl : Interleaves twoTexts l := fun b => by
    cases b with
    | true => rw [part_append, part_map_self, part_map_of_ne (by decide), List.append_nil]
    | false => rw [part_append, part_map_self, part_map_of_ne (by decide), List.nil_append]
  have hapart : Apart twoTexts l :=
    apart_append (x := true) (part_map_of_ne (by decide) _) (part_map_of_ne (by decide) _)
  have hall := (concurrent_uploads twoTexts_arrives (by decide) hl fun _ => none).2 hapart
  exact ⟨hall true, hall false⟩

/-- Both start before either sends its data. -/
def bothStart : List (Bool × ChatPacket) :=
  (true, (twoTexts true).start) :: (false, (twoTexts false).start) ::
    (((twoTexts true).chunks ++ [(twoTexts true).finish]).map (Prod.mk true) ++
      ((twoTexts false).chunks ++ [(twoTexts false).finish]).map (Prod.mk false))

/-- Then the first file is received empty. -/
theorem not_received_bothStart : Interleaves twoTexts bothStart ∧
    (receiveAll (fun _ => true) ⟨fun _ => none, none⟩ (bothStart.map (·.2))).files
      (twoTexts true).path = some [] ∧ (twoTexts true).file ≠ [] := by
  refine ⟨fun b => ?_, ?_, by decide⟩
  · cases b with
    | true =>
      rw [bothStart, part_cons_self, part_cons_of_ne (by decide), part_append, part_map_self,
        part_map_of_ne (by decide), List.append_nil, Upload.packets_eq]
    | false =>
      rw [bothStart, part_cons_of_ne (by decide), part_cons_self, part_append, part_map_self,
        part_map_of_ne (by decide), List.nil_append, Upload.packets_eq]
  · have hmap : bothStart.map (·.2) = (twoTexts true).start :: (twoTexts false).start ::
        ((twoTexts true).chunks ++ ([(twoTexts true).finish] ++
          ((twoTexts false).chunks ++ [(twoTexts false).finish]))) := by
      simp [bothStart, Function.comp_def]
    have hpath : (twoTexts true).path ≠ (twoTexts false).path := by decide
    rw [hmap, receiveAll_cons, receiveAll_cons, (twoTexts_arrives true).handle_start,
      (twoTexts_arrives false).handle_start, receiveAll_append,
      receiveAll_data _ (twoTexts true).chunks_type _ (Function.update_self ..), receiveAll_append,
      Upload.receiveAll_finish, receiveAll_append,
      receiveAll_data_none _ (twoTexts false).chunks_type, Upload.receiveAll_finish]
    dsimp only
    rw [Function.update_of_ne hpath, Function.update_of_ne hpath, Function.update_self]

end EltexPractice.TcpChat
