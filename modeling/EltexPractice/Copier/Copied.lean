import EltexPractice.Copier.ShortMoves

/-!
# What is copied

Where the bytes of the source are while the two processes cut the stream as they like (`Inv`, in
every run), and that nothing goes wrong when no call fails (`Clean`).

* `Inv.copied`: when `copy_file` returns 0 the destination is the copy, under the name the child
  has read in the header.
* `copies`: when no call fails, a copy of a file with a path of at most 255 bytes ends, and ends
  well.
-/

namespace EltexPractice.Copier.ShortCalls

open CString
open Transfer (Mode pipeBuf bufferSize headerSize fileHeader length_fileHeader)

/-! ## Where the bytes are -/

/-- The bytes of the file in the data channel. -/
def State.fileData (s : State) : List UInt8 :=
  if s.child.phase = .header then s.data.drop headerSize else s.data

/-- The header of the copy. -/
def Config.header (C : Config) : List UInt8 := fileHeader C.srcFilename C.source.length

/-- What holds between two calls of every run. -/
structure Inv (C : Config) (s : State) : Prop where
  opening : s.parent.phase = .header →
    s.data = [] ∧ (s.child.phase = .header ∨ s.child.phase = .failed)
  header : s.child.phase = .header → s.data = [] ∨ C.header <+: s.data
  sent : s.parent.phase = .copying ∨ s.parent.phase = .ended → s.child.phase = .header →
    C.header <+: s.data
  named : s.child.phase ≠ .header → s.child.phase ≠ .failed → s.header = C.header
  unopened : s.child.phase = .header ∨ s.child.phase = .named →
    s.dest = none ∧ s.stored = [] ∧ s.totalWritten = 0
  opened : s.child.phase = .copying ∨ s.child.phase = .ended →
    s.dest = some (destFilename s.header) ∧ s.stored.length = s.totalWritten + s.child.written
  content : s.child.phase ≠ .failed → s.parent.phase ≠ .failed →
    C.source = s.stored ++ s.child.rest ++ s.fileData ++ s.parent.rest ++ s.source
  drained : s.child.phase = .ended →
    s.data = [] ∧ (s.parent.phase = .ended ∨ s.parent.phase = .failed)
  ended : s.parent.phase = .ended → s.source = []
  returned : s.parent = .returned 0 → s.child = .exited true

section Inv

variable {C : Config} {s s' : State} {ok : Bool}

theorem inv_init (C : Config) : Inv C (.init C) := by
  have hparent : (State.init C).parent.phase = .header ∧ (State.init C).parent.rest = [] := by
    rw [State.init]
    cases C.mode <;> exact ⟨rfl, rfl⟩
  have hchild : (State.init C).child.phase = .header ∧ (State.init C).child.rest = [] := by
    rw [State.init]
    cases C.mode <;> exact ⟨rfl, rfl⟩
  refine ⟨fun _ => ⟨rfl, Or.inl hchild.1⟩, fun _ => Or.inl rfl, fun h => ?_, fun h => ?_,
    fun _ => ⟨rfl, rfl, rfl⟩, fun h => ?_, fun _ _ => ?_, fun h => ?_, fun h => ?_, fun h => ?_⟩
  · rw [hparent.1] at h
    rcases h with h | h <;> cases h
  · exact absurd hchild.1 h
  · rw [hchild.1] at h
    rcases h with h | h <;> cases h
  · rw [hparent.2, hchild.2, State.fileData, if_pos hchild.1]
    rfl
  · rw [hchild.1] at h
    cases h
  · rw [hparent.1] at h
    cases h
  · have := hparent.1
    rw [h] at this
    cases this

/-- A step that leaves the stream as it is. -/
theorem Inv.congr (h : Inv C s) (hparent : s'.parent.phase = s.parent.phase)
    (hchild : s'.child.phase = s.child.phase) (hrest : s'.parent.rest = s.parent.rest)
    (hrest' : s'.child.rest = s.child.rest) (hwritten : s'.child.written = s.child.written)
    (hdata : s'.data = s.data) (hsource : s'.source = s.source) (hheader : s'.header = s.header)
    (hdest : s'.dest = s.dest) (hstored : s'.stored = s.stored)
    (htotal : s'.totalWritten = s.totalWritten)
    (hreturned : s'.parent = .returned 0 → s'.child = .exited true) : Inv C s' := by
  have hfile : s'.fileData = s.fileData := by rw [State.fileData, hchild, hdata]; rfl
  refine ⟨?_, ?_, ?_, ?_, ?_, ?_, ?_, ?_, ?_, hreturned⟩
  · rw [hparent, hchild, hdata]
    exact h.opening
  · rw [hchild, hdata]
    exact h.header
  · rw [hparent, hchild, hdata]
    exact h.sent
  · rw [hchild, hheader]
    exact h.named
  · rw [hchild, hdest, hstored, htotal]
    exact h.unopened
  · rw [hchild, hdest, hheader, hstored, htotal, hwritten]
    exact h.opened
  · rw [hchild, hparent, hstored, hrest, hrest', hfile, hsource]
    exact h.content
  · rw [hchild, hdata, hparent]
    exact h.drained
  · rw [hparent, hsource]
    exact h.ended

/-- The parent gives up. -/
theorem Inv.parent_fails (h : Inv C s) {pc : ParentPc} {sync : List UInt8}
    (hpc : pc.phase = .failed) : Inv C { s with parent := pc, sync } := by
  refine ⟨fun hp => ?_, h.header, fun hp => ?_, h.named, h.unopened, h.opened,
    fun _ hp => absurd hpc hp, fun hd => ⟨(h.drained hd).1, Or.inr hpc⟩, fun hp => ?_, fun hp => ?_⟩
  · change pc.phase = .header at hp
    rw [hpc] at hp
    cases hp
  · change pc.phase = .copying ∨ pc.phase = .ended at hp
    rw [hpc] at hp
    rcases hp with hp | hp <;> cases hp
  · change pc.phase = .ended at hp
    rw [hpc] at hp
    cases hp
  · change pc = .returned 0 at hp
    rw [hp] at hpc
    cases hpc

/-- The child gives up. -/
theorem Inv.child_fails (h : Inv C s) {pc : ChildPc} {header data : List UInt8}
    (hpc : pc.phase = .failed) (hdata : s.data = [] → data = [])
    (hne : s.child ≠ .exited true) : Inv C { s with child := pc, header, data } := by
  have hno {phase : Phase} (hphase : phase ≠ .failed) : pc.phase ≠ phase := fun heq =>
    hphase (heq.symm.trans hpc)
  refine ⟨fun hp => ⟨hdata (h.opening hp).1, Or.inr hpc⟩, fun hp => absurd hp (hno nofun),
    fun _ hp => absurd hp (hno nofun), fun _ hp => absurd hpc hp, fun hp => ?_, fun hp => ?_,
    fun hp => absurd hpc hp, fun hp => absurd hp (hno nofun), h.ended,
    fun hp => absurd (h.returned hp) hne⟩
  · rcases hp with hp | hp
    · exact absurd hp (hno nofun)
    · exact absurd hp (hno nofun)
  · rcases hp with hp | hp
    · exact absurd hp (hno nofun)
    · exact absurd hp (hno nofun)

/-- Bytes go into the data channel. -/
theorem State.fileData_append {s' : State} {bytes : List UInt8} (hchild : s'.child = s.child)
    (hdata : s'.data = s.data ++ bytes)
    (hlen : s.child.phase = .header → headerSize ≤ s.data.length) :
    s'.fileData = s.fileData ++ bytes := by
  unfold State.fileData
  rw [hchild, hdata]
  split
  · exact List.drop_append_of_le_length (hlen ‹_›)
  · rfl

theorem Config.length_header (C : Config) : C.header.length = headerSize := length_fileHeader ..

/-- A part of a block is sent. -/
theorem Inv.parent_sends (h : Inv C s) {pc : ParentPc} {bytes : List UInt8}
    (hcopying : s.parent.phase = .copying) (hpc : pc.phase = .copying)
    (hrest : s.parent.rest = bytes ++ pc.rest) :
    Inv C { s with parent := pc, data := s.data ++ bytes } := by
  have hsent := h.sent (Or.inl hcopying)
  have hfile : { s with parent := pc, data := s.data ++ bytes : State }.fileData =
      s.fileData ++ bytes :=
    State.fileData_append rfl rfl fun hchild => C.length_header ▸ (hsent hchild).length_le
  have hno {phase : Phase} (hphase : phase ≠ .copying) : pc.phase ≠ phase := fun heq =>
    hphase (heq.symm.trans hpc)
  refine ⟨fun hp => absurd hp (hno nofun), fun hchild => Or.inr ?_, fun _ hchild => ?_, h.named,
    h.unopened, h.opened, fun hchild _ => ?_, fun hchild => ?_, fun hp => absurd hp (hno nofun),
    fun hp => ?_⟩
  · exact (hsent hchild).trans (List.prefix_append _ _)
  · exact (hsent hchild).trans (List.prefix_append _ _)
  · have hcontent := h.content hchild (by rw [hcopying]; nofun)
    rw [hrest] at hcontent
    rw [hfile]
    simpa only [List.append_assoc] using hcontent
  · have hended := (h.drained hchild).2
    rw [hcopying] at hended
    rcases hended with hended | hended <;> cases hended
  · change pc = .returned 0 at hp
    rw [hp] at hpc
    cases hpc

/-- The parent reads the source, to its end or a part of it. -/
theorem Inv.parent_reads (h : Inv C s) {pc : ParentPc} {source : List UInt8}
    (hpc : s.parent = .readSrc) (hpc' : pc.phase = .copying ∨ (pc.phase = .ended ∧ source = []))
    (hreturned : pc ≠ .returned 0) (hsource : s.source = pc.rest ++ source) :
    Inv C { s with parent := pc, source } := by
  have hcopying : s.parent.phase = .copying := by rw [hpc]; rfl
  have hsent := h.sent (Or.inl hcopying)
  refine ⟨fun hp => ?_, h.header, fun _ => hsent, h.named, h.unopened, h.opened,
    fun hchild _ => ?_, fun hchild => ?_, fun hp => ?_, fun hp => absurd hp hreturned⟩
  · change pc.phase = .header at hp
    rw [hp] at hpc'
    rcases hpc' with hpc' | ⟨hpc', -⟩ <;> cases hpc'
  · have hcontent := h.content hchild (by rw [hcopying]; nofun)
    rw [hpc, hsource, ← List.append_assoc] at hcontent
    exact hcontent.trans (by rw [show ParentPc.readSrc.rest = [] from rfl, List.append_nil]; rfl)
  · have hended := (h.drained hchild).2
    rw [hcopying] at hended
    rcases hended with hended | hended <;> cases hended
  · change pc.phase = .ended at hp
    rw [hp] at hpc'
    exact (hpc'.resolve_left nofun).2

theorem Inv.parentMoves (h : Inv C s) (hs : ParentMoves C s ok s') : Inv C s' := by
  cases hs
  case next pc hpc hpc' hlt =>
    refine h.congr ?_ rfl ?_ rfl rfl rfl rfl rfl rfl rfl rfl fun hp => ?_
    · exact (ParentPc.phase_of_opening hpc').trans (ParentPc.phase_of_opening hpc).symm
    · exact (ParentPc.rest_of_opening hpc').trans (ParentPc.rest_of_opening hpc).symm
    · change pc = .returned 0 at hp
      rw [hp] at hpc'
      cases hpc'
  case fail hpc hpc' hwhy => exact h.parent_fails (ParentPc.phase_of_failing hpc')
  case ready hpc hsync =>
    exact h.congr (by rw [hpc]; rfl) rfl (by rw [hpc]; rfl) rfl rfl rfl rfl rfl rfl rfl rfl nofun
  case writeHeader hpc hopen =>
    obtain ⟨hdata, hchild⟩ := h.opening (by rw [hpc]; rfl)
    have hprefix : C.header <+: s.data ++ fileHeader C.srcFilename C.source.length := by
      rw [hdata]
      exact List.prefix_rfl
    refine ⟨nofun, fun _ => Or.inr hprefix, fun _ _ => hprefix, h.named, h.unopened, h.opened,
      fun hok _ => ?_, fun hc => ?_, nofun, nofun⟩
    · have hheader := hchild.resolve_right hok
      have hcontent := h.content hok (by rw [hpc]; nofun)
      rw [State.fileData, if_pos hheader, hdata, List.drop_nil, hpc] at hcontent
      have hdrop : (s.data ++ fileHeader C.srcFilename C.source.length).drop headerSize = [] := by
        rw [hdata, List.nil_append]
        exact List.drop_eq_nil_of_le (length_fileHeader ..).le
      rw [State.fileData, if_pos hheader, hdrop]
      exact hcontent
    · rw [show s.child.phase = .ended from hc] at hchild
      rcases hchild with hchild | hchild <;> cases hchild
  case readEnd hpc hsource =>
    exact @Inv.parent_reads C s h (.closeData 0 false) s.source hpc (Or.inr ⟨rfl, hsource⟩) nofun
      rfl
  case readSrc k hpc hpos hk hle =>
    refine h.parent_reads hpc (Or.inl rfl) nofun ?_
    rw [ParentPc.rest, List.drop_zero, List.take_append_drop]
  case writeMore buffer n k hpc hopen hpos hk =>
    refine h.parent_sends (by rw [hpc]; rfl) rfl ?_
    rw [hpc, ParentPc.rest, ParentPc.rest, ← List.drop_drop, List.take_append_drop]
  case writeLast buffer n hpc hopen hlt =>
    refine h.parent_sends (by rw [hpc]; rfl) rfl ?_
    rw [hpc]
    exact (List.append_nil _).symm
  case closeData status sync hpc =>
    cases sync
    · exact h.congr (by rw [hpc]; rfl) rfl (by rw [hpc]; rfl) rfl rfl rfl rfl rfl rfl rfl rfl
        fun hp => by cases hp
    · exact h.congr (by rw [hpc]; rfl) rfl (by rw [hpc]; rfl) rfl rfl rfl rfl rfl rfl rfl rfl
        fun hp => by cases hp
  case closeSync status hpc =>
    exact h.congr (by rw [hpc]; rfl) rfl (by rw [hpc]; rfl) rfl rfl rfl rfl rfl rfl rfl rfl
      fun hp => by cases hp
  case wait status hpc hchild =>
    exact h.congr (by rw [hpc]; rfl) rfl (by rw [hpc]; rfl) rfl rfl rfl rfl rfl rfl rfl rfl
      fun _ => hchild
  case waitFails status hpc hwhy => exact @Inv.parent_fails C s h (.returned (-1)) s.sync rfl

/-- A child that is before the end has not exited. -/
theorem ChildPc.ne_exited {pc : ChildPc} {phase : Phase} (h : pc.phase = phase)
    (hphase : phase ≠ .ended) : pc ≠ .exited true := by
  rintro rfl
  exact hphase h.symm

/-- The child moves bytes from the channel to its buffer, or from there to the destination. -/
theorem Inv.child_copies (h : Inv C s) {pc : ChildPc} {data stored : List UInt8} {total : ℕ}
    (hcopying : s.child.phase = .copying)
    (hpc : pc.phase = .copying ∨ (pc.phase = .ended ∧ data = [] ∧ s.parent.ClosedData = true))
    (hbytes : s.stored ++ s.child.rest ++ s.data = stored ++ pc.rest ++ data)
    (htotal : stored.length = total + pc.written) :
    Inv C { s with child := pc, data, stored, totalWritten := total } := by
  have hparent : s.parent.phase ≠ .header := fun hp => by
    rcases (h.opening hp).2 with heq | heq <;> rw [hcopying] at heq <;> cases heq
  have hno {phase : Phase} (hphase : phase ≠ .copying) (hphase' : phase ≠ .ended) :
      pc.phase ≠ phase := by
    rintro rfl
    rcases hpc with hpc | ⟨hpc, -⟩
    · exact hphase hpc
    · exact hphase' hpc
  have hheader := h.named (by rw [hcopying]; nofun) (by rw [hcopying]; nofun)
  obtain ⟨hdest, -⟩ := h.opened (Or.inl hcopying)
  refine ⟨fun hp => absurd hp hparent, fun hp => absurd hp (hno nofun nofun),
    fun _ hp => absurd hp (hno nofun nofun), fun _ _ => hheader, fun hp => ?_,
    fun _ => ⟨hdest, htotal⟩, fun _ hp => ?_, fun hp => ?_, h.ended, fun hp => ?_⟩
  · rcases hp with hp | hp <;> exact absurd hp (hno nofun nofun)
  · have hcontent := h.content (by rw [hcopying]; nofun) hp
    rw [State.fileData, if_neg (by rw [hcopying]; nofun), hbytes] at hcontent
    have hheader : pc.phase ≠ .header := hno nofun nofun
    rw [State.fileData, if_neg hheader]
    exact hcontent
  · change pc.phase = .ended at hp
    rw [hp] at hpc
    obtain ⟨-, hdata, hclosed⟩ := hpc.resolve_left nofun
    exact ⟨hdata, ParentPc.phase_of_closedData hclosed⟩
  · exact absurd (h.returned hp) (ChildPc.ne_exited hcopying nofun)

theorem Inv.childMoves (h : Inv C s) (hs : ChildMoves s ok s') : Inv C s' := by
  cases hs
  case next pc hpc hpc' hlt =>
    have hphase := ChildPc.phase_of_opening hpc
    have hwritten {pc : ChildPc} (hpc : pc.Opening = true) : pc.written = 0 := by
      cases pc <;> first | rfl | cases hpc
    refine h.congr rfl ?_ rfl ?_ ?_ rfl rfl rfl rfl rfl rfl fun hp => ?_
    · exact (ChildPc.phase_of_opening hpc').trans hphase.symm
    · exact (ChildPc.rest_of_opening hpc').trans (ChildPc.rest_of_opening hpc).symm
    · exact (hwritten hpc').trans (hwritten hpc).symm
    · exact absurd (h.returned hp) (ChildPc.ne_exited hphase nofun)
  case fail pc hpc hdone hlt hpc' hwhy =>
    refine h.child_fails (ChildPc.phase_of_failing hpc') id fun heq => ?_
    rw [heq] at hdone
    exact hdone rfl
  case signal hpc hopen =>
    exact h.congr rfl (by rw [hpc]; rfl) rfl (by rw [hpc]; rfl) (by rw [hpc]; rfl) rfl rfl rfl rfl
      rfl rfl fun hp => by cases hpc.symm.trans (h.returned hp)
  case shortHeader hpc hdata hlt =>
    exact h.child_fails rfl (fun hnil => absurd hnil hdata) (by rw [hpc]; nofun)
  case readHeader hpc hle =>
    have hphase : s.child.phase = .header := by rw [hpc]; rfl
    have hparent : s.parent.phase ≠ .header := fun hp => by
      rw [(h.opening hp).1] at hle
      cases hle
    have hprefix : C.header <+: s.data := (h.header hphase).resolve_left fun hnil => by
      rw [hnil] at hle
      cases hle
    obtain ⟨rest, hrest⟩ := hprefix
    have hheader : s.data.take headerSize = C.header := by
      rw [← hrest, ← C.length_header, List.take_left]
    refine ⟨fun hp => absurd hp hparent, nofun, nofun, fun _ _ => hheader,
      fun _ => h.unopened (Or.inl hphase), nofun, fun _ hp => ?_, nofun, h.ended,
      fun hp => by cases hpc.symm.trans (h.returned hp)⟩
    have hcontent := h.content (by rw [hphase]; nofun) hp
    rw [State.fileData, if_pos hphase, hpc] at hcontent
    exact hcontent
  case malloc hpc =>
    exact h.congr rfl (by rw [hpc]; rfl) rfl (by rw [hpc]; rfl) (by rw [hpc]; rfl) rfl rfl rfl rfl
      rfl rfl fun hp => by cases hpc.symm.trans (h.returned hp)
  case openDest hpc =>
    have hphase : s.child.phase = .named := by rw [hpc]; rfl
    obtain ⟨-, hstored, htotal⟩ := h.unopened (Or.inr hphase)
    have hparent : s.parent.phase ≠ .header := fun hp => by
      rcases (h.opening hp).2 with heq | heq <;> rw [hphase] at heq <;> cases heq
    refine ⟨fun hp => absurd hp hparent, nofun, nofun,
      fun _ _ => h.named (by rw [hphase]; nofun) (by rw [hphase]; nofun), nofun,
      fun _ => ⟨rfl, by rw [htotal]; rfl⟩, fun _ hp => ?_, nofun, h.ended,
      fun hp => by cases hpc.symm.trans (h.returned hp)⟩
    have hcontent := h.content (by rw [hphase]; nofun) hp
    rw [State.fileData, if_neg (by rw [hphase]; nofun), hpc, hstored] at hcontent
    exact hcontent
  case readEnd hpc hdata hclosed =>
    have hphase : s.child.phase = .copying := by rw [hpc]; rfl
    have htotal := (h.opened (Or.inl hphase)).2
    refine h.child_copies hphase (Or.inr ⟨rfl, hdata, hclosed⟩) ?_ (by rw [htotal, hpc]; rfl)
    rw [hpc]
    rfl
  case read k hpc hpos hk =>
    have hphase : s.child.phase = .copying := by rw [hpc]; rfl
    have htotal := (h.opened (Or.inl hphase)).2
    refine h.child_copies hphase (Or.inl rfl) ?_ (by rw [htotal, hpc]; rfl)
    rw [hpc, ChildPc.rest, List.drop_zero, List.append_assoc s.stored (s.data.take k),
      List.take_append_drop]
    exact congrArg (· ++ s.data) (List.append_nil _)
  case writeMore buffer n k hpc hpos hk =>
    have hphase : s.child.phase = .copying := by rw [hpc]; rfl
    have htotal := (h.opened (Or.inl hphase)).2
    refine h.child_copies hphase (Or.inl rfl) ?_ ?_
    · rw [hpc, ChildPc.rest, ChildPc.rest, ← List.drop_drop,
        List.append_assoc s.stored ((buffer.drop n).take k), List.take_append_drop]
    · rw [List.length_append, htotal, hpc, List.length_take, List.length_drop]
      change s.totalWritten + n + min k (buffer.length - n) = s.totalWritten + (n + k)
      omega
  case writeLast buffer n hpc hlt =>
    have hphase : s.child.phase = .copying := by rw [hpc]; rfl
    have htotal := (h.opened (Or.inl hphase)).2
    refine h.child_copies hphase (Or.inl rfl) ?_ ?_
    · rw [hpc]
      exact congrArg (· ++ s.data) (List.append_nil _).symm
    · rw [List.length_append, htotal, hpc, List.length_drop]
      change s.totalWritten + n + (buffer.length - n) = s.totalWritten + buffer.length + 0
      omega
  case closeData success hpc =>
    exact h.congr rfl (by rw [hpc]; rfl) rfl (by rw [hpc]; rfl) (by rw [hpc]; rfl) rfl rfl rfl rfl
      rfl rfl fun hp => by cases hpc.symm.trans (h.returned hp)
  case exit success hpc =>
    exact h.congr rfl (by rw [hpc]; rfl) rfl (by rw [hpc]; rfl) (by rw [hpc]; rfl) rfl rfl rfl rfl
      rfl rfl fun hp => by cases hpc.symm.trans (h.returned hp)

theorem inv_of_run {as : List Action} (h : runFrom (State.step C) (.init C) as = some s) :
    Inv C s := by
  refine runFrom_invariant (fun s a s' hs hstep => ?_) (inv_init C) h
  cases a with
  | parent ok k => exact hs.parentMoves (parentMoves_of_step hstep)
  | child ok k => exact hs.childMoves (childMoves_of_step hstep)

end Inv

/-! ## The header and the copy -/

/-- The child finds the first 255 bytes of the path. -/
theorem destFilename_header (C : Config) (hzero : 0 ∉ C.srcFilename) :
    destFilename C.header = C.srcFilename.take 255 ++ ascii ".copy" := by
  have hfield : (strncpy (List.replicate 256 0) C.srcFilename 255).length = 256 := by
    rw [length_strncpy _ (by rw [List.length_replicate]; omega), List.length_replicate]
  have htake : C.header.take 256 = strncpy (List.replicate 256 0) C.srcFilename 255 := by
    rw [Config.header, fileHeader, List.take_left' hfield]
  rw [destFilename, htake, strncpy_zeros,
    cstr_append_zero fun h => hzero (List.mem_of_mem_take h)]

/-- The child finds the size of the file. -/
theorem fileSize_header (C : Config) : fileSize C.header = C.source.length := by
  have hfield : (strncpy (List.replicate 256 0) C.srcFilename 255).length = 256 := by
    rw [length_strncpy _ (by rw [List.length_replicate]; omega), List.length_replicate]
  have hdrop : C.header.drop 256 = leBytes 8 C.source.length := by
    rw [Config.header, fileHeader, List.drop_left' hfield]
  have hlt := C.source_lt
  rw [fileSize, hdrop, leValue_leBytes_of_lt (by omega)]

/-- What there is when `copy_file` has returned 0. -/
structure Copied (C : Config) (s : State) : Prop where
  returned : s.parent = .returned 0
  exited : s.child = .exited true
  dest : s.dest = some (destFilename s.header)
  stored : s.stored = C.source
  total : s.totalWritten = fileSize s.header
  header : s.header = C.header

/-- **The copy is whole** when `copy_file` returns 0. -/
theorem Inv.copied {C : Config} {s : State} (h : Inv C s) (hreturned : s.parent = .returned 0) :
    Copied C s := by
  have hexited := h.returned hreturned
  have hchild : s.child.phase = .ended := by rw [hexited]; rfl
  have hparent : s.parent.phase = .ended := by rw [hreturned]; rfl
  obtain ⟨hdest, htotal⟩ := h.opened (Or.inr hchild)
  have hheader := h.named (by rw [hchild]; nofun) (by rw [hchild]; nofun)
  have hstored : s.stored = C.source := by
    have hcontent := h.content (by rw [hchild]; nofun) (by rw [hparent]; nofun)
    rw [State.fileData, if_neg (by rw [hchild]; nofun), (h.drained hchild).1, h.ended hparent,
      hexited, hreturned] at hcontent
    exact (hcontent.trans (by simp only [ChildPc.rest, ParentPc.rest, List.append_nil])).symm
  refine ⟨hreturned, hexited, hdest, hstored, ?_, hheader⟩
  rw [hheader, fileSize_header, ← hstored, htotal, hexited]
  rfl

/-! ## Without a failing call -/

/-- What the parent has told of the handshake. -/
def ParentPc.events : ParentPc → List Event
  | .openSync _ => []
  | .openData _ => []
  | .openSrc => []
  | .fstat => []
  | .ready => []
  | .writeHeader => [.ready]
  | _ => [.ready, .header]

/-- Nothing has gone wrong. -/
structure Clean (s : State) : Prop where
  parent : s.parent.phase ≠ .failed
  child : s.child.phase ≠ .failed
  sync : s.parent.Opening = true → s.sync = if s.child.Opening then [] else [82]
  signalled : s.parent.Opening = false → s.child.Opening = false
  log : s.log = if s.child.Opening then [] else .signal :: s.parent.events
  /-- The blocks in hand are small and not empty. -/
  block : ∀ buffer n, s.parent = .write buffer n → n < buffer.length ∧ buffer.length ≤ bufferSize
  buffer : ∀ buffer n, s.child = .write buffer n → n < buffer.length

section Clean

variable {C : Config} {s s' : State}

theorem clean_init (C : Config) : Clean (.init C) := by
  have hparent : (State.init C).parent.Opening = true := by
    rw [State.init]
    cases C.mode <;> rfl
  have hchild : (State.init C).child.Opening = true := by
    rw [State.init]
    cases C.mode <;> rfl
  refine ⟨?_, ?_, fun _ => ?_, fun h => ?_, ?_, fun buffer n h => ?_, fun buffer n h => ?_⟩
  · rw [ParentPc.phase_of_opening hparent]
    nofun
  · rw [ChildPc.phase_of_opening hchild]
    nofun
  · rw [if_pos hchild]
    rfl
  · rw [hparent] at h
    cases h
  · rw [if_pos hchild]
    rfl
  · rw [h] at hparent
    cases hparent
  · rw [h] at hchild
    cases hchild

/-- The writer of the data channel that has ended without failing is behind the whole stream. -/
theorem Clean.ended (h : Clean s) (hclosed : s.parent.ClosedData = true) :
    s.parent.phase = .ended :=
  (ParentPc.phase_of_closedData hclosed).resolve_right h.parent

/-- The parent has no reason to fail. -/
theorem Clean.not_parentFails (h : Clean s) (hinv : Inv C s)
    (hopen : C.srcFilename.length < pathMax) : ¬ s.ParentFails C := by
  rintro (⟨-, hlong⟩ | ⟨hpc, hhead, hclosed⟩ | ⟨hsending, hclosed⟩)
  · omega
  · have hsync := h.sync (by rw [hpc]; rfl)
    split at hsync
    · rename_i hopening
      have hopen : s.child.ClosedSync = false := by
        cases hc : s.child <;> rw [hc] at hopening <;> first | rfl | cases hopening
      rw [hclosed hsync] at hopen
      cases hopen
    · rw [hsync] at hhead
      exact hhead rfl
  · have hended := (ChildPc.phase_of_closedData hclosed).resolve_right h.child
    have hparent := (hinv.drained hended).2.resolve_right h.parent
    rcases ParentPc.phase_of_sending hsending with hphase | hphase <;>
      rw [hphase] at hparent <;> cases hparent

/-- The child has no reason to fail. -/
theorem Clean.not_childFails (h : Clean s) (hinv : Inv C s) : ¬ s.ChildFails := by
  rintro (⟨hpc, hclosed⟩ | ⟨hpc, hdata, hclosed⟩)
  · have hopening : s.parent.Opening = true := by
      by_contra hopening
      have := h.signalled (Bool.eq_false_iff.2 hopening)
      rw [hpc] at this
      cases this
    have hopen : s.parent.ClosedSync = false := by
      cases hc : s.parent <;> rw [hc] at hopening <;> first | rfl | cases hopening
    rw [hclosed] at hopen
    cases hopen
  · obtain ⟨rest, hrest⟩ := hinv.sent (Or.inr (h.ended hclosed)) (by rw [hpc]; rfl)
    have hlen := congrArg List.length hrest
    rw [hdata, List.length_append, C.length_header] at hlen
    cases Nat.eq_zero_of_add_eq_zero_right hlen

/-- The parent goes on behind the handshake. -/
theorem Clean.parent_goes (h : Clean s) (hparent : s'.parent.phase ≠ .failed)
    (hopening : s.parent.Opening = false) (hopening' : s'.parent.Opening = false)
    (hevents : s'.parent.events = s.parent.events) (hchild : s'.child = s.child)
    (hlog : s'.log = s.log)
    (hblock : ∀ buffer n, s'.parent = .write buffer n →
      n < buffer.length ∧ buffer.length ≤ bufferSize) : Clean s' := by
  refine ⟨hparent, ?_, fun hp => ?_, fun _ => ?_, ?_, hblock, ?_⟩
  · rw [hchild]
    exact h.child
  · rw [hopening'] at hp
    cases hp
  · rw [hchild]
    exact h.signalled hopening
  · rw [hlog, h.log, hchild, hevents]
  · rw [hchild]
    exact h.buffer

theorem Clean.parentMoves (h : Clean s) (hinv : Inv C s) (hopen : C.srcFilename.length < pathMax)
    (hs : ParentMoves C s true s') : Clean s' := by
  cases hs
  case next pc hpc hpc' hlt =>
    have hevents {pc : ParentPc} (hpc : pc.Opening = true) : pc.events = [] := by
      cases pc <;> first | rfl | cases hpc
    refine ⟨?_, h.child, fun _ => h.sync hpc, fun hp => ?_, ?_, fun buffer n hp => ?_, h.buffer⟩
    · rw [ParentPc.phase_of_opening hpc']
      nofun
    · rw [hpc'] at hp
      cases hp
    · have hlog := h.log
      rw [hevents hpc] at hlog
      exact hlog.trans (by rw [hevents hpc'])
    · change pc = .write buffer n at hp
      rw [hp] at hpc'
      cases hpc'
  case fail hpc hpc' hwhy =>
    exact absurd (hwhy.resolve_left nofun) (h.not_parentFails hinv hopen)
  case ready sync hpc hsync =>
    have hsignalled : s.child.Opening = false := by
      by_contra hopening
      have hempty := h.sync (by rw [hpc]; rfl)
      rw [if_pos (by simpa using hopening), hsync] at hempty
      cases hempty
    have hlog := h.log
    rw [hsignalled, hpc] at hlog
    refine ⟨nofun, h.child, nofun, fun _ => hsignalled, ?_, nofun, h.buffer⟩
    rw [hsignalled, hlog]
    rfl
  case writeHeader hpc hopen =>
    have hsignalled := h.signalled (by rw [hpc]; rfl)
    have hlog := h.log
    rw [hsignalled, hpc] at hlog
    refine ⟨nofun, h.child, nofun, fun _ => hsignalled, ?_, nofun, h.buffer⟩
    rw [hsignalled, hlog]
    rfl
  case readEnd hpc hsource =>
    exact h.parent_goes nofun (by rw [hpc]; rfl) rfl (by rw [hpc]; rfl) rfl rfl nofun
  case readSrc k hpc hpos hk hle =>
    refine h.parent_goes nofun (by rw [hpc]; rfl) rfl (by rw [hpc]; rfl) rfl rfl
      fun buffer n hp => ?_
    obtain ⟨rfl, rfl⟩ := ParentPc.write.inj hp
    rw [List.length_take, Nat.min_eq_left hk]
    exact ⟨hpos, hle⟩
  case writeMore buffer n k hpc hopen hpos hk =>
    refine h.parent_goes nofun (by rw [hpc]; rfl) rfl (by rw [hpc]; rfl) rfl rfl
      fun buffer' n' hp => ?_
    obtain ⟨rfl, rfl⟩ := ParentPc.write.inj hp
    exact ⟨hk, (h.block buffer n hpc).2⟩
  case writeLast buffer n hpc hopen hlt =>
    exact h.parent_goes nofun (by rw [hpc]; rfl) rfl (by rw [hpc]; rfl) rfl rfl nofun
  case closeData status sync hpc =>
    have hparent := h.parent
    rw [hpc] at hparent
    cases sync
    · exact h.parent_goes hparent (by rw [hpc]; rfl) rfl (by rw [hpc]; rfl) rfl rfl nofun
    · exact h.parent_goes hparent (by rw [hpc]; rfl) rfl (by rw [hpc]; rfl) rfl rfl nofun
  case closeSync status hpc =>
    have hparent := h.parent
    rw [hpc] at hparent
    exact h.parent_goes hparent (by rw [hpc]; rfl) rfl (by rw [hpc]; rfl) rfl rfl nofun
  case wait status hpc hchild =>
    have hparent := h.parent
    rw [hpc] at hparent
    exact h.parent_goes hparent (by rw [hpc]; rfl) rfl (by rw [hpc]; rfl) rfl rfl nofun
  case waitFails status hpc hwhy => exact absurd (hwhy.resolve_left nofun) h.child

/-- The child goes on, with the ready signal behind it. -/
theorem Clean.child_goes (h : Clean s) (hchild : s'.child.phase ≠ .failed)
    (hsignalled : s.child.Opening = false) (hsignalled' : s'.child.Opening = false)
    (hparent : s'.parent = s.parent) (hsync : s'.sync = s.sync) (hlog : s'.log = s.log)
    (hbuffer : ∀ buffer n, s'.child = .write buffer n → n < buffer.length) : Clean s' := by
  refine ⟨?_, hchild, fun hp => ?_, fun _ => hsignalled', ?_, ?_, hbuffer⟩
  · rw [hparent]
    exact h.parent
  · rw [hparent] at hp
    rw [hsync, h.sync hp, hsignalled, hsignalled']
  · rw [hlog, h.log, hsignalled, hsignalled', hparent]
  · rw [hparent]
    exact h.block

theorem Clean.childMoves (h : Clean s) (hinv : Inv C s) (hs : ChildMoves s true s') :
    Clean s' := by
  cases hs
  case next pc hpc hpc' hlt =>
    refine ⟨h.parent, ?_, fun hp => ?_, fun hp => ?_, ?_, h.block, fun buffer n hp => ?_⟩
    · rw [ChildPc.phase_of_opening hpc']
      nofun
    · exact (h.sync hp).trans (by rw [if_pos hpc]; exact (if_pos hpc').symm)
    · have hsignalled := h.signalled hp
      rw [hpc] at hsignalled
      cases hsignalled
    · exact h.log.trans (by rw [if_pos hpc]; exact (if_pos hpc').symm)
    · change pc = .write buffer n at hp
      rw [hp] at hpc'
      cases hpc'
  case fail hpc hdone hlt hpc' hwhy =>
    exact absurd (hwhy.resolve_left nofun) (h.not_childFails hinv)
  case signal hpc hopen =>
    have hopening : s.parent.Opening = true := by
      by_contra hopening
      have hsignalled := h.signalled (Bool.eq_false_iff.2 hopening)
      rw [hpc] at hsignalled
      cases hsignalled
    have hevents : s.parent.events = [] := by
      cases hc : s.parent <;> rw [hc] at hopening <;> first | rfl | cases hopening
    have hsync := h.sync hopening
    have hlog := h.log
    rw [hpc] at hsync hlog
    refine ⟨h.parent, nofun, fun _ => ?_, fun _ => rfl, ?_, h.block, nofun⟩
    · rw [hsync]
      rfl
    · rw [hlog, hevents]
      rfl
  case shortHeader hpc hdata hlt =>
    -- the header is there whole
    have hprefix := (hinv.header (by rw [hpc]; rfl)).resolve_left hdata
    have := hprefix.length_le
    rw [C.length_header] at this
    omega
  case readHeader hpc hle =>
    exact h.child_goes nofun (by rw [hpc]; rfl) rfl rfl rfl rfl nofun
  case malloc hpc => exact h.child_goes nofun (by rw [hpc]; rfl) rfl rfl rfl rfl nofun
  case openDest hpc => exact h.child_goes nofun (by rw [hpc]; rfl) rfl rfl rfl rfl nofun
  case readEnd hpc hdata hclosed =>
    exact h.child_goes nofun (by rw [hpc]; rfl) rfl rfl rfl rfl nofun
  case read k hpc hpos hk =>
    refine h.child_goes nofun (by rw [hpc]; rfl) rfl rfl rfl rfl fun buffer n hp => ?_
    obtain ⟨rfl, rfl⟩ := ChildPc.write.inj hp
    rw [List.length_take, Nat.min_eq_left hk]
    exact hpos
  case writeMore buffer n k hpc hpos hk =>
    refine h.child_goes nofun (by rw [hpc]; rfl) rfl rfl rfl rfl fun buffer' n' hp => ?_
    obtain ⟨rfl, rfl⟩ := ChildPc.write.inj hp
    exact hk
  case writeLast buffer n hpc hlt =>
    exact h.child_goes nofun (by rw [hpc]; rfl) rfl rfl rfl rfl nofun
  case closeData success hpc =>
    have hchild := h.child
    rw [hpc] at hchild
    exact h.child_goes hchild (by rw [hpc]; rfl) rfl rfl rfl rfl nofun
  case exit success hpc =>
    have hchild := h.child
    rw [hpc] at hchild
    exact h.child_goes hchild (by rw [hpc]; rfl) rfl rfl rfl rfl nofun

theorem clean_of_run (hopen : C.srcFilename.length < pathMax) {as : List Action}
    (hok : ∀ a ∈ as, a.Ok) (h : runFrom (State.step C) (.init C) as = some s) : Clean s := by
  induction as using List.reverseRecOn generalizing s with
  | nil =>
    obtain rfl := Option.some.inj h
    exact clean_init C
  | append_singleton as a ih =>
    obtain ⟨t, ht, hs⟩ := runFrom_concat.1 h
    have hclean := ih (fun a ha => hok a (List.mem_append_left _ ha)) ht
    have ha : a.Ok := hok a (List.mem_append_right _ (List.mem_singleton_self a))
    cases a with
    | parent ok k =>
      obtain rfl : ok = true := ha
      exact hclean.parentMoves (inv_of_run ht) hopen (parentMoves_of_step hs)
    | child ok k =>
      obtain rfl : ok = true := ha
      exact hclean.childMoves (inv_of_run ht) (childMoves_of_step hs)

/-- What a call of the parent waits for. -/
def State.ParentWaits (s : State) : Prop :=
  match s.parent with
  | .openSync true => s.child = .openSync false
  | .openData true => (∃ waiting, s.child = .openSync waiting) ∨ s.child = .openData false
  | .ready => s.sync = []
  | .writeHeader => s.data ≠ []
  | .write _ _ => s.data ≠ []
  | .wait _ => ∀ success, s.child ≠ .exited success
  | .returned _ => True
  | _ => False

/-- What a call of the child waits for. -/
def State.ChildWaits (s : State) : Prop :=
  match s.child with
  | .openSync true => s.parent = .openSync false
  | .openData true => (∃ waiting, s.parent = .openSync waiting) ∨ s.parent = .openData false
  | .readHeader => s.data = [] ∧ s.parent.ClosedData = false
  | .read => s.data = [] ∧ s.parent.ClosedData = false
  | .exited _ => True
  | _ => False

/-- The parent goes on when it does not wait. -/
theorem Clean.parentWaits (h : Clean s) (hstuck : ∀ k, s.runParentProcess C true k = none) :
    s.ParentWaits := by
  have hcapacity := C.le_capacity
  unfold State.ParentWaits
  cases hpc : s.parent with
  | openSync waiting =>
    have hnone := hstuck 0
    cases waiting with
    | false => simp [State.runParentProcess, hpc] at hnone
    | true =>
      simp only [State.runParentProcess, hpc] at hnone
      split at hnone
      · assumption
      · cases hnone
  | openData waiting =>
    have hnone := hstuck 0
    cases waiting with
    | false => simp [State.runParentProcess, hpc] at hnone
    | true =>
      simp only [State.runParentProcess, hpc] at hnone
      split at hnone
      · exact Or.inl ⟨_, ‹_›⟩
      · exact Or.inr ‹_›
      · cases hnone
  | ready =>
    have hnone := hstuck 0
    simp only [State.runParentProcess, hpc, Bool.not_true, Bool.false_eq_true, if_false] at hnone
    split at hnone
    · assumption
    · split at hnone <;> cases hnone
  | writeHeader =>
    have hnone := hstuck 0
    simp only [State.runParentProcess, hpc, Bool.not_true, Bool.false_eq_true, if_false] at hnone
    split at hnone
    · cases hnone
    · split at hnone
      · cases hnone
      · rename_i hfull
        intro hdata
        rw [hdata] at hfull
        exact hfull ((show 0 + 264 ≤ 4096 by omega).trans hcapacity)
  | write buffer n =>
    obtain ⟨hlt, hle⟩ := h.block buffer n hpc
    have hnone := hstuck (buffer.length - n)
    simp only [State.runParentProcess, hpc, State.writeBlock, Bool.not_true, Bool.false_eq_true,
      if_false, List.length_drop] at hnone
    split at hnone
    · cases hnone
    · split at hnone
      · cases hnone
      · rename_i hfull
        intro hdata
        rw [hdata] at hfull
        have hsmall : buffer.length - n ≤ 4096 := by
          have : buffer.length ≤ 1024 := hle
          omega
        refine hfull ⟨by omega, le_rfl, by simp, ?_⟩
        rw [List.length_nil, Nat.zero_add]
        exact hsmall.trans hcapacity
  | wait status =>
    have hnone := hstuck 0
    intro success hchild
    simp [State.runParentProcess, hpc, hchild] at hnone
  | readSrc =>
    have hnone := hstuck 1
    simp only [State.runParentProcess, hpc, Bool.not_true, Bool.false_eq_true, if_false] at hnone
    split at hnone
    · cases hnone
    · split at hnone
      · cases hnone
      · rename_i hne hk
        exact hk ⟨Nat.one_pos, List.length_pos_of_ne_nil hne, by decide⟩
  | returned => trivial
  | killed =>
    have hparent := h.parent
    rw [hpc] at hparent
    exact hparent rfl
  | openSrc | fstat | closeData | closeSync =>
    have hnone := hstuck 0
    simp [State.runParentProcess, hpc] at hnone

/-- The child goes on when it does not wait. -/
theorem Clean.childWaits (h : Clean s) (hstuck : ∀ k, s.runChildProcess true k = none) :
    s.ChildWaits := by
  unfold State.ChildWaits
  cases hpc : s.child with
  | openSync waiting =>
    have hnone := hstuck 0
    cases waiting with
    | false => simp [State.runChildProcess, hpc] at hnone
    | true =>
      simp only [State.runChildProcess, hpc] at hnone
      split at hnone
      · assumption
      · cases hnone
  | openData waiting =>
    have hnone := hstuck 0
    cases waiting with
    | false => simp [State.runChildProcess, hpc] at hnone
    | true =>
      simp only [State.runChildProcess, hpc] at hnone
      split at hnone
      · exact Or.inl ⟨_, ‹_›⟩
      · exact Or.inr ‹_›
      · cases hnone
  | readHeader =>
    have hnone := hstuck 0
    simp only [State.runChildProcess, hpc, Bool.not_true, Bool.false_eq_true, if_false] at hnone
    split at hnone
    · rename_i hdata
      split at hnone
      · cases hnone
      · exact ⟨hdata, Bool.eq_false_iff.2 ‹_›⟩
    · cases hnone
  | read =>
    have hnone := hstuck 1
    simp only [State.runChildProcess, hpc, Bool.not_true, Bool.false_eq_true, if_false] at hnone
    split at hnone
    · rename_i hdata
      split at hnone
      · cases hnone
      · exact ⟨hdata, Bool.eq_false_iff.2 ‹_›⟩
    · split at hnone
      · cases hnone
      · rename_i hne hk
        exact absurd ⟨Nat.one_pos, List.length_pos_of_ne_nil hne, by decide⟩ hk
  | write buffer n =>
    have hlt := h.buffer buffer n hpc
    have hnone := hstuck 1
    simp only [State.runChildProcess, hpc, State.writeDest, Bool.not_true, Bool.false_eq_true,
      if_false, List.length_drop] at hnone
    split at hnone
    · split at hnone <;> cases hnone
    · rename_i hk
      exact hk ⟨Nat.one_pos, by omega⟩
  | exited => trivial
  | killed =>
    have hchild := h.child
    rw [hpc] at hchild
    exact hchild rfl
  | signal =>
    have hnone := hstuck 0
    simp only [State.runChildProcess, hpc] at hnone
    split at hnone
    · cases hnone
    · simp at hnone
  | malloc | openDest | closeData | exit =>
    have hnone := hstuck 0
    simp [State.runChildProcess, hpc] at hnone

/-- A parent that finds the data channel empty, with a child that reads, does not wait. -/
theorem Clean.not_parentWaits (h : Clean s) (hsignalled : s.child.Opening = false)
    (hdata : s.data = []) (hopen : s.parent.ClosedData = false) : ¬ s.ParentWaits := by
  intro hwaits
  unfold State.ParentWaits at hwaits
  split at hwaits
  · rw [hwaits] at hsignalled
    cases hsignalled
  · rcases hwaits with ⟨_, hwaits⟩ | hwaits <;> rw [hwaits] at hsignalled <;> cases hsignalled
  · have hsync := h.sync (by rw [‹s.parent = _›]; rfl)
    rw [hwaits, hsignalled] at hsync
    cases hsync
  · exact hwaits hdata
  · exact hwaits hdata
  · rw [‹s.parent = _›] at hopen
    cases hopen
  · rw [‹s.parent = _›] at hopen
    cases hopen
  · exact hwaits

/-- **Nothing is left to do** only when `copy_file` has returned 0. -/
theorem Clean.returned_of_stuck (h : Clean s) (hinv : Inv C s)
    (hstuck : ∀ a : Action, a.Ok → s.step C a = none) : s.parent = .returned 0 := by
  have hparent := h.parentWaits (C := C) fun k => hstuck (.parent true k) rfl
  have hchild := h.childWaits fun k => hstuck (.child true k) rfl
  unfold State.ChildWaits at hchild
  split at hchild
  · simp [State.ParentWaits, hchild] at hparent
  · rename_i hpc
    rcases hchild with ⟨waiting, hchild⟩ | hchild
    · cases waiting <;> simp [State.ParentWaits, hchild, hpc] at hparent
    · simp [State.ParentWaits, hchild] at hparent
  · exact absurd hparent (h.not_parentWaits (by rw [‹s.child = _›]; rfl) hchild.1 hchild.2)
  · exact absurd hparent (h.not_parentWaits (by rw [‹s.child = _›]; rfl) hchild.1 hchild.2)
  · rename_i success hpc
    have hclean := h.child
    rw [hpc] at hclean
    cases success with
    | false => exact absurd rfl hclean
    | true =>
      have hended := (hinv.drained (by rw [hpc]; rfl)).2.resolve_right h.parent
      unfold State.ParentWaits at hparent
      split at hparent
      case h_6 => exact absurd hpc (hparent true)
      case h_7 status hpc' =>
        rw [hpc'] at hended ⊢
        by_cases hstatus : status = 0
        · rw [hstatus]
        · rw [ParentPc.phase, if_neg hstatus] at hended
          cases hended
      case h_8 => exact hparent.elim
      all_goals
        rw [‹s.parent = _›] at hended
        cases hended
  · exact hchild.elim

end Clean

/-! ## The claim of a copy -/

/-- What holds at every moment of a copy in which no call fails. -/
structure Copying (C : Config) (s : State) : Prop where
  /-- The header is sent only after `R` has come. -/
  order : s.log <+: [.signal, .ready, .header]
  stored : s.stored <+: C.source
  dest : ∀ path, s.dest = some path → path = C.srcFilename ++ ascii ".copy"

theorem Clean.copying {C : Config} {s : State} (h : Clean s) (hinv : Inv C s)
    (hpath : C.srcFilename.length ≤ 255) (hzero : 0 ∉ C.srcFilename) : Copying C s := by
  refine ⟨?_, ?_, fun path hdest => ?_⟩
  · rw [h.log]
    split
    · exact List.nil_prefix
    · cases s.parent <;>
        first
          | exact ⟨[.ready, .header], rfl⟩
          | exact ⟨[.header], rfl⟩
          | exact List.prefix_rfl
  · rw [hinv.content h.child h.parent]
    simp only [List.append_assoc]
    exact List.prefix_append _ _
  · have hnamed : s.child.phase = .copying ∨ s.child.phase = .ended := by
      by_contra hnot
      have hunopened : s.child.phase = .header ∨ s.child.phase = .named := by
        have hchild := h.child
        cases hphase : s.child.phase <;> simp [hphase] at hnot hchild ⊢
      rw [(hinv.unopened hunopened).1] at hdest
      cases hdest
    have hheader : s.header = C.header := by
      refine hinv.named ?_ h.child
      rcases hnamed with hphase | hphase <;> rw [hphase] <;> nofun
    have hname := hdest.symm.trans (hinv.opened hnamed).1
    rw [Option.some.inj hname, hheader, destFilename_header C hzero, List.take_of_length_le hpath]

/-- **A copy in which no call fails ends**, whatever parts the reads and writes move, and it ends
with the copy of the source behind `.copy`. -/
theorem copies {C : Config} (hpath : C.srcFilename.length ≤ 255) (hzero : 0 ∉ C.srcFilename)
    {as : List Action} {s : State} (hok : ∀ a ∈ as, a.Ok)
    (h : runFrom (State.step C) (.init C) as = some s) :
    Copying C s ∧ as.length ≤ (State.init C).remaining ∧
      (∀ status, s.parent = .returned status → status = 0) ∧
      (s.parent = .returned 0 → Copied C s ∧ s.dest = some (C.srcFilename ++ ascii ".copy")) ∧
      ((∀ a : Action, a.Ok → s.step C a = none) → s.parent = .returned 0) := by
  have hopen : C.srcFilename.length < pathMax := hpath.trans_lt (by decide)
  have hinv := inv_of_run h
  have hclean := clean_of_run hopen hok h
  refine ⟨hclean.copying hinv hpath hzero, length_le_of_run h, fun status hreturned => ?_,
    fun hreturned => ?_, hclean.returned_of_stuck hinv⟩
  · have hparent := hclean.parent
    rw [hreturned] at hparent
    by_contra hne
    exact hparent (if_neg hne)
  · have hcopied := hinv.copied hreturned
    refine ⟨hcopied, ?_⟩
    rw [hcopied.dest, hcopied.header, destFilename_header C hzero, List.take_of_length_le hpath]

/-- A file of three bytes. -/
def small : Config where
  mode := .pipe
  srcFilename := ascii "a"
  source := [1, 2, 3]
  source_lt := by decide
  capacity := pipeBuf
  le_capacity := le_rfl

/-- The parent reads two bytes and one, the child writes one and two. -/
def shortCalls : List Action :=
  [.parent true 0, .parent true 0, .child true 0, .parent true 0, .parent true 0, .child true 0,
    .parent true 2, .parent true 2, .parent true 1, .child true 0, .child true 0, .parent true 1,
    .child true 3, .parent true 0, .parent true 0, .child true 1, .child true 2, .child true 0,
    .child true 0, .child true 0, .parent true 0]

set_option maxRecDepth 4000 in
theorem copies_small : ∃ s, runFrom (State.step small) (.init small) shortCalls = some s ∧
    Copied small s ∧ s.dest = some (ascii "a" ++ ascii ".copy") := by
  have hrun : runFrom (State.step small) (.init small) shortCalls = some _ := rfl
  have hok : ∀ a ∈ shortCalls, a.Ok := by simp [shortCalls, Action.Ok]
  exact ⟨_, hrun, (copies (by decide) (by decide) hok hrun).2.2.2.1 rfl⟩

end EltexPractice.Copier.ShortCalls
