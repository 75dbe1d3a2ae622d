import EltexPractice.Copier.Calls

/-!
# How far the two processes are

Two invariants of every interleaving. `Handshake` says how far the one process is when the other
one is somewhere: nobody closes an end before the other process is done with it, unless the child
fails. `Count` says where the bytes of the source are; while the file is being sent, the child has
read whole blocks.
-/

namespace EltexPractice.Copier.Transfer

/-! ## The handshake -/

namespace ParentPc

/-- After the ready signal, and before the end of the data channel is closed. -/
def Past : ParentPc → Bool
  | .writeHeader => true
  | .readSrc => true
  | .write _ => true
  | .closeData _ sync => !sync
  | _ => false

/-- The end of the data channel has been closed, and not by `SIGPIPE`. -/
def Finished : ParentPc → Bool
  | .closeSync _ => true
  | .wait _ => true
  | .returned _ => true
  | _ => false

/-- The header has been sent, and the file is being sent. -/
def Sending : ParentPc → Bool
  | .readSrc => true
  | .write _ => true
  | _ => false

end ParentPc

namespace ChildPc

/-- The header has not been read. -/
def BeforeHeader (pc : ChildPc) : Bool := pc.Opening || pc = .readHeader

/-- Why the child is about to exit or has exited. -/
def reason : ChildPc → Option ChildExit
  | .closeData e => some e
  | .exit e => some e
  | .exited e => some e
  | _ => none

/-- The child has found the end of the data channel, or nobody to send the ready signal to. -/
def Left (pc : ChildPc) : Prop :=
  pc.reason = some .success ∨ pc.reason = some .noHeader ∨ pc.reason = some .killed

end ChildPc

/-- How far the one process is when the other one is somewhere. -/
structure Handshake (s : State) : Prop where
  opening : s.parent.Opening = true ∨ s.parent = .writeHeader →
    s.child.BeforeHeader = true ∧ s.data = []
  signalled : s.parent.Past = true → s.child.Opening = false
  sync : s.sync = true → s.child.Opening = false
  header : s.child.BeforeHeader = true → s.data = [] ∨ headerSize ≤ s.data.length
  sent : s.parent.Sending = true → s.child.BeforeHeader = true → headerSize ≤ s.data.length
  killed : s.parent = .killed → s.child.ClosedData = true
  left : s.child.Left → s.parent.Finished = true
  returned : ∀ status, s.parent = .returned status →
    s.child = .exited .success ∨ status = -1

namespace ParentPc

variable {pc : ParentPc}

theorem finished_or_of_closedData (h : pc.ClosedData = true) :
    pc.Finished = true ∨ pc = .killed := by
  cases pc <;> simp_all [ClosedData, Finished]

theorem past_or_of_closedSync (h : pc.ClosedSync = true) :
    pc.Past = true ∨ pc.Finished = true ∨ pc = .killed := by
  cases pc <;> simp_all [ClosedSync, Past, Finished]

/-- Before the header is sent, no end is closed, unless the ready signal has been read. -/
theorem closed_of_opening (h : pc.Opening = true ∨ pc = .writeHeader) :
    pc.ClosedData = false ∧ (pc.ClosedSync = false ∨ pc.Past = true) := by
  rcases h with h | rfl
  · cases pc <;> simp_all [Opening, ClosedData, ClosedSync]
  · exact ⟨rfl, Or.inr rfl⟩

/-- A parent that is sending has not closed its ends. -/
theorem not_closed_of_sending (h : pc.Sending = true) :
    pc.ClosedData = false ∧ pc.Past = true := by
  cases pc <;> simp_all [Sending, ClosedData, Past]

theorem not_finished_of_past (h : pc.Past = true) : pc.Finished = false := by
  cases pc <;> simp_all [Past, Finished]

theorem not_opening_of_past (h : pc.Past = true) : pc.Opening = false := by
  cases pc <;> simp_all [Past, Opening]

theorem not_past_of_opening (h : pc.Opening = true) : pc.Past = false ∧ pc.Sending = false := by
  cases pc <;> simp_all [Past, Opening, Sending]

theorem not_finished_of_opening (h : pc.Opening = true) : pc.Finished = false := by
  cases pc <;> simp_all [Opening, Finished]

end ParentPc

section Handshake

variable {C : Config} {s s' : State}

/-- A parent that has not finished has a child that has not left. -/
theorem Handshake.not_left (h : Handshake s) (hf : s.parent.Finished = false) : ¬ s.child.Left :=
  fun hl => by
    rw [h.left hl] at hf
    cases hf

/-- The parent sends, or has sent. -/
theorem Handshake.parent_past (h : Handshake s) (hpast : s.parent.Past = true) {pc : ParentPc}
    {data source : List UInt8} (hpast' : pc.Past = true) (hpc : pc ≠ .writeHeader)
    (hheader : s.child.BeforeHeader = true → data = [] ∨ headerSize ≤ data.length)
    (hsent : pc.Sending = true → s.child.BeforeHeader = true → headerSize ≤ data.length) :
    Handshake { s with parent := pc, data := data, source := source } := by
  have hleft : ¬ s.child.Left := h.not_left (ParentPc.not_finished_of_past hpast)
  refine ⟨fun hp => ?_, fun _ => h.signalled hpast, h.sync, hheader, hsent, fun hp => ?_,
    fun hl => absurd hl hleft, fun status hp => ?_⟩
  · have hopening := ParentPc.not_opening_of_past hpast'
    rw [hp.resolve_right hpc] at hopening
    cases hopening
  · simp only at hp
    rw [hp] at hpast'
    cases hpast'
  · simp only at hp
    rw [hp] at hpast'
    cases hpast'

/-- The parent sends no more. -/
theorem Handshake.parent_leaves (h : Handshake s) {pc : ParentPc} (hopening : pc.Opening = false)
    (hpast : pc.Past = false) (hkilled : pc = .killed → s.child.ClosedData = true)
    (hfinished : s.parent.Finished = true → pc.Finished = true)
    (hreturned : ∀ status, pc = .returned status → s.child = .exited .success ∨ status = -1) :
    Handshake { s with parent := pc } := by
  refine ⟨fun hp => ?_, fun hp => ?_, h.sync, h.header, fun hp => ?_, hkilled,
    fun hl => hfinished (h.left hl), hreturned⟩
  · rcases hp with hp | hp
    · rw [hopening] at hp
      cases hp
    · simp only at hp
      rw [hp] at hpast
      cases hpast
  · rw [hpast] at hp
    cases hp
  · have hpast' := (ParentPc.not_closed_of_sending hp).2
    rw [hpast] at hpast'
    cases hpast'

theorem Handshake.parentMoves (h : Handshake s) (hs : ParentMoves C s s') : Handshake s' := by
  cases hs
  case next pc hpc hpc' hlt =>
    have hstay := h.opening (Or.inl hpc)
    obtain ⟨hpast, hsending⟩ := ParentPc.not_past_of_opening hpc'
    refine ⟨fun _ => hstay, fun hp => ?_, h.sync, h.header, fun hp => ?_, fun hp => ?_,
      fun hl => absurd hl (h.not_left (ParentPc.not_finished_of_opening hpc)), fun status hp => ?_⟩
    · rw [hpast] at hp
      cases hp
    · rw [hsending] at hp
      cases hp
    · simp only at hp
      rw [hp] at hpc'
      cases hpc'
    · simp only at hp
      rw [hp] at hpc'
      cases hpc'
  case giveUp hpc hlt =>
    have hfin := ParentPc.not_finished_of_opening hpc
    exact h.parent_leaves rfl rfl nofun (by simp [hfin]) nofun
  case ready hpc hready =>
    have hstay := h.opening (Or.inl (by rw [hpc]; rfl))
    exact ⟨fun _ => hstay, fun _ => h.sync hready, nofun, h.header, nofun, nofun,
      fun hl => absurd hl (h.not_left (by rw [hpc]; rfl)), nofun⟩
  case killed hpc hclosed =>
    have hfin : s.parent.Finished = false := by rcases hpc with hpc | ⟨_, hpc⟩ <;> rw [hpc] <;> rfl
    exact h.parent_leaves rfl rfl (fun _ => hclosed) (by simp [hfin]) nofun
  case writeHeader hpc hopen =>
    have hlen : headerSize ≤
        (s.data ++ fileHeader C.srcFilename C.source.length).length := by
      rw [List.length_append, length_fileHeader]
      omega
    exact h.parent_past (by rw [hpc]; rfl) rfl nofun (fun _ => Or.inr hlen) fun _ _ => hlen
  case readFails hpc => exact h.parent_past (by rw [hpc]; rfl) rfl nofun h.header nofun
  case readEnd hpc hsource => exact h.parent_past (by rw [hpc]; rfl) rfl nofun h.header nofun
  case readSrc hpc hsource =>
    exact h.parent_past (by rw [hpc]; rfl) rfl nofun h.header fun _ => h.sent (by rw [hpc]; rfl)
  case write block hpc hopen =>
    have hlen : s.child.BeforeHeader = true → headerSize ≤ (s.data ++ block).length := fun hb => by
      rw [List.length_append]
      exact (h.sent (by rw [hpc]; rfl) hb).trans (Nat.le_add_right _ _)
    exact h.parent_past (by rw [hpc]; rfl) rfl nofun (fun hb => Or.inr (hlen hb)) fun _ => hlen
  case closeData status sync hpc =>
    cases sync
    · exact h.parent_leaves rfl rfl nofun (fun _ => rfl) nofun
    · exact h.parent_leaves rfl rfl nofun (fun _ => rfl) nofun
  case closeSync status hpc => exact h.parent_leaves rfl rfl nofun (fun _ => rfl) nofun
  case wait status e hpc hchild =>
    refine h.parent_leaves rfl rfl nofun (fun _ => rfl) fun status' hp => ?_
    obtain rfl := ParentPc.returned.inj hp
    by_cases he : e = .success
    · exact Or.inl (by rw [← he]; exact hchild)
    · exact Or.inr (if_neg he)

/-- The child goes on after it has read the header, or gives up. -/
theorem Handshake.after (h : Handshake s) (hparent : s'.parent = s.parent)
    (hopening : s.parent.Opening = true ∨ s.parent = .writeHeader → False)
    (hafter : s'.child.BeforeHeader = false)
    (hclosed : s.parent = .killed → s'.child.ClosedData = true)
    (hleft : s'.child.Left → s.parent.Finished = true)
    (hne : s.child ≠ .exited .success) : Handshake s' := by
  have hsignal : s'.child.Opening = false := by
    rw [ChildPc.BeforeHeader, Bool.or_eq_false_iff] at hafter
    exact hafter.1
  refine ⟨fun hp => ?_, fun _ => hsignal, fun _ => hsignal, fun hb => ?_, fun _ hb => ?_,
    fun hp => hclosed (hparent ▸ hp), fun hl => hparent ▸ hleft hl, fun status hp => ?_⟩
  · rw [hparent] at hp
    exact (hopening hp).elim
  · rw [hafter] at hb
    cases hb
  · rw [hafter] at hb
    cases hb
  · rw [hparent] at hp
    exact Or.inr ((h.returned status hp).resolve_left hne)

/-- A parent that has ended has a child whose end of the data channel is closed. -/
theorem Handshake.not_killed (h : Handshake s) (hopen : s.child.ClosedData = false) :
    s.parent ≠ .killed := fun hp => by
  rw [h.killed hp] at hopen
  cases hopen

/-- The end of the data channel is found only behind a parent that has finished. -/
theorem Handshake.finished (h : Handshake s) (hclosed : s.parent.ClosedData = true)
    (hopen : s.child.ClosedData = false) : s.parent.Finished = true :=
  (ParentPc.finished_or_of_closedData hclosed).resolve_right (h.not_killed hopen)

theorem Handshake.childMoves (h : Handshake s) (hs : ChildMoves C s s') : Handshake s' := by
  have hafter : s.child.BeforeHeader = false →
      (s.parent.Opening = true ∨ s.parent = .writeHeader → False) := fun hb hp => by
    rw [(h.opening hp).1] at hb
    cases hb
  cases hs
  case next pc hpc hpc' hlt =>
    have hbefore : s.child.BeforeHeader = true := by simp [ChildPc.BeforeHeader, hpc]
    have hopen : s.child.ClosedData = false := by
      cases hc : s.child <;> simp_all [ChildPc.Opening, ChildPc.ClosedData]
    refine ⟨fun hp => ⟨by simp [ChildPc.BeforeHeader, hpc'], (h.opening hp).2⟩, fun hp => ?_,
      fun hp => ?_, fun _ => h.header hbefore, fun hp _ => h.sent hp hbefore,
      fun hp => absurd hp (h.not_killed hopen), fun hl => ?_, fun status hp => Or.inr ?_⟩
    · rw [h.signalled hp] at hpc
      cases hpc
    · rw [h.sync hp] at hpc
      cases hpc
    · cases pc <;> simp_all [ChildPc.Opening, ChildPc.Left, ChildPc.reason]
    · refine (h.returned status hp).resolve_left fun hc => ?_
      rw [hc] at hpc
      cases hpc
  case killed hpc hclosed =>
    have hpast : s.parent.Past = false := Bool.eq_false_iff.2 fun hp => by
      have hopen := h.signalled hp
      rw [hpc] at hopen
      cases hopen
    refine h.after rfl (fun hp => ?_) rfl (fun _ => rfl) (fun _ => ?_) (by simp [hpc])
    · have hopen := (ParentPc.closed_of_opening hp).2
      simp [hclosed, hpast] at hopen
    · refine (ParentPc.past_or_of_closedSync hclosed).elim (fun hp => ?_) fun hp => ?_
      · rw [hpast] at hp
        cases hp
      · exact hp.resolve_right (h.not_killed (by rw [hpc]; rfl))
  case signal hpc hopen =>
    have hbefore : s.child.BeforeHeader = true := by rw [hpc]; rfl
    refine ⟨fun hp => ⟨rfl, (h.opening hp).2⟩, fun _ => rfl, fun _ => rfl,
      fun _ => h.header hbefore, fun hp _ => h.sent hp hbefore,
      fun hp => absurd hp (h.not_killed (by rw [hpc]; rfl)),
      by simp [ChildPc.Left, ChildPc.reason], fun status hp => Or.inr ?_⟩
    exact (h.returned status hp).resolve_left (by simp [hpc])
  case noHeader hpc hclosed =>
    have hopen : s.child.ClosedData = false := by rw [hpc]; rfl
    refine h.after rfl (fun hp => ?_) rfl (fun hp => absurd hp (h.not_killed hopen))
      (fun _ => h.finished hclosed hopen) (by simp [hpc])
    rw [(ParentPc.closed_of_opening hp).1] at hclosed
    cases hclosed
  case shortHeader hpc hdata hlt =>
    have hlen := (h.header (by rw [hpc]; rfl)).resolve_left hdata
    omega
  case readHeader hpc hle =>
    refine h.after rfl (fun hp => ?_) rfl (fun hp => absurd hp (h.not_killed (by rw [hpc]; rfl)))
      (by simp [ChildPc.Left, ChildPc.reason]) (by simp [hpc])
    rw [(h.opening hp).2] at hle
    cases hle
  case readEnd hpc hclosed =>
    have hopen : s.child.ClosedData = false := by rw [hpc]; rfl
    exact h.after rfl (hafter (by rw [hpc]; rfl)) rfl
      (fun hp => absurd hp (h.not_killed hopen)) (fun _ => h.finished hclosed hopen)
      (by simp [hpc])
  case write rest k hpc hpos hle =>
    refine h.after rfl (hafter (by rw [hpc]; rfl)) ?_
      (fun hp => absurd hp (h.not_killed (by rw [hpc]; rfl))) ?_ (by simp [hpc])
    · dsimp only
      split <;> rfl
    · dsimp only
      split <;> simp [ChildPc.Left, ChildPc.reason]
  case closeData e hpc =>
    refine h.after rfl (hafter (by rw [hpc]; rfl)) rfl (fun _ => rfl) (fun hl => ?_)
      (by simp [hpc])
    exact h.left (by simpa [ChildPc.Left, ChildPc.reason, hpc] using hl)
  case exit e hpc =>
    refine h.after rfl (hafter (by rw [hpc]; rfl)) rfl (fun _ => rfl) (fun hl => ?_)
      (by simp [hpc])
    exact h.left (by simpa [ChildPc.Left, ChildPc.reason, hpc] using hl)
  all_goals
    refine h.after rfl (hafter (by rw [‹s.child = _›]; rfl)) rfl
      (fun hp => absurd hp (h.not_killed (by rw [‹s.child = _›]; rfl)))
      (by simp [ChildPc.Left, ChildPc.reason]) (by simp [*])

end Handshake

/-! ## Blocks -/

/-- So many bytes of the source are whole blocks, or all of it. -/
def Config.Aligned (C : Config) (n : ℕ) : Prop := bufferSize ∣ n ∨ n = C.source.length

/-- How many bytes are where. While the file is being sent, what has been sent and what the child
has read are whole blocks. -/
structure Count (C : Config) (s : State) : Prop where
  opening : s.parent.Opening = true ∨ s.parent = .writeHeader → s.source = C.source
  block : ∀ block, s.parent = .write block →
    block ≠ [] ∧ (block.length = bufferSize ∨ s.source = [])
  sending : s.parent.Sending = true → ∃ sent,
    sent + s.parent.block.length + s.source.length = C.source.length ∧ C.Aligned sent ∧
      s.taken + s.data.length = sent + (if s.child.BeforeHeader then headerSize else 0) ∧
        C.Aligned s.taken
  early : s.child.BeforeHeader = true ∨ s.child = .malloc ∨ s.child = .openDest →
    s.taken = 0 ∧ s.stored = []
  read : s.child = .read → s.stored.length = s.taken
  write : ∀ rest, s.child = .write rest → rest ≠ [] ∧ s.stored.length + rest.length = s.taken
  noWrite : s.child.reason = some .noWrite → ∃ n, C.dest = .room n ∧ n < s.taken
  noDest : s.child.reason = some .noDest → C.dest = .refused

section Count

variable {C : Config} {s s' : State}

/-- A full block behind whole blocks, or the last one. -/
theorem Config.Aligned.add {n k rest : ℕ} (h : C.Aligned n) (hlen : n + k + rest = C.source.length)
    (hk : k = bufferSize ∨ rest = 0) : C.Aligned (n + k) := by
  rcases hk with rfl | rfl
  · rcases h with h | rfl
    · exact Or.inl ((Nat.dvd_add_right h).2 (Nat.dvd_refl _))
    · exact Or.inr (by omega)
  · exact Or.inr (by omega)

/-- More than `r` bytes in whole blocks reach to the end of the block with byte `r`. -/
theorem Config.Aligned.le {n r : ℕ} (h : C.Aligned n) (hr : r < n)
    (hlen : C.source.length ≤ bufferSize * (r / bufferSize + 1)) : C.source.length ≤ n := by
  rcases h with ⟨k, rfl⟩ | rfl
  · refine hlen.trans (Nat.mul_le_mul_left bufferSize ?_)
    exact Nat.div_lt_of_lt_mul hr
  · exact le_rfl

/-- What a `read` of a block leaves. -/
theorem length_take_drop (l : List UInt8) :
    (l.take bufferSize).length + (l.drop bufferSize).length = l.length := by
  rw [← List.length_append, List.take_append_drop]

theorem take_ne_nil {l : List UInt8} (h : l ≠ []) : l.take bufferSize ≠ [] := by
  intro hnil
  rw [List.take_eq_nil_iff] at hnil
  exact hnil.elim (by decide) h

theorem full_or_last (l : List UInt8) :
    (l.take bufferSize).length = bufferSize ∨ l.drop bufferSize = [] := by
  rw [List.length_take, List.drop_eq_nil_iff]
  omega

/-- The parent leaves the loop, or has not come to it. -/
theorem Count.parent_goto (h : Count C s) {pc : ParentPc} {sync : Bool}
    (hopening : pc.Opening = true ∨ pc = .writeHeader → s.source = C.source)
    (hsending : pc.Sending = false) : Count C { s with parent := pc, sync := sync } := by
  refine ⟨hopening, fun block hb => ?_, fun hp => ?_, h.early, h.read, h.write, h.noWrite,
    h.noDest⟩
  · simp only at hb
    rw [hb] at hsending
    cases hsending
  · rw [hsending] at hp
    cases hp

theorem Count.parentMoves (h : Count C s) (hshake : Handshake s) (hs : ParentMoves C s s') :
    Count C s' := by
  cases hs
  case next pc hpc hpc' hlt =>
    have hsending : pc.Sending = false := by
      cases pc <;> simp_all [ParentPc.Opening, ParentPc.Sending]
    exact h.parent_goto (fun _ => h.opening (Or.inl hpc)) hsending
  case giveUp => exact h.parent_goto (by simp [ParentPc.Opening]) rfl
  case ready hpc hsync => exact h.parent_goto (fun _ => h.opening (Or.inl (by rw [hpc]; rfl))) rfl
  case killed => exact h.parent_goto (by simp [ParentPc.Opening]) rfl
  case readFails => exact h.parent_goto (by simp [ParentPc.Opening]) rfl
  case readEnd => exact h.parent_goto (by simp [ParentPc.Opening]) rfl
  case closeData status sync hpc =>
    cases sync
    · exact h.parent_goto (by simp [ParentPc.Opening]) rfl
    · exact h.parent_goto (by simp [ParentPc.Opening]) rfl
  case closeSync => exact h.parent_goto (by simp [ParentPc.Opening]) rfl
  case wait => exact h.parent_goto (by simp [ParentPc.Opening]) rfl
  case writeHeader hpc hopen =>
    obtain ⟨hbefore, hdata⟩ := hshake.opening (Or.inr hpc)
    have hsource := h.opening (Or.inr hpc)
    have htaken := (h.early (Or.inl hbefore)).1
    refine ⟨by simp [ParentPc.Opening], by simp, fun _ => ⟨0, ?_, Or.inl (Nat.dvd_zero _), ?_, ?_⟩,
      h.early, h.read, h.write, h.noWrite, h.noDest⟩
    · simp [ParentPc.block, hsource]
    · simp [htaken, hdata, hbefore, length_fileHeader]
    · rw [htaken]
      exact Or.inl (Nat.dvd_zero _)
  case readSrc hpc hsource =>
    obtain ⟨sent, hlen, hsent, hdata, htaken⟩ := h.sending (by rw [hpc]; rfl)
    refine ⟨by simp [ParentPc.Opening], fun block hb => ?_,
      fun _ => ⟨sent, ?_, hsent, hdata, htaken⟩, h.early, h.read, h.write, h.noWrite, h.noDest⟩
    · obtain rfl := ParentPc.write.inj hb
      exact ⟨take_ne_nil hsource, full_or_last s.source⟩
    · have hsplit := length_take_drop s.source
      simp only [hpc, ParentPc.block, List.length_nil] at hlen
      simp only [ParentPc.block]
      omega
  case write block hpc hopen =>
    obtain ⟨sent, hlen, hsent, hdata, htaken⟩ := h.sending (by rw [hpc]; rfl)
    have hblock := (h.block block hpc).2
    simp only [hpc, ParentPc.block] at hlen
    refine ⟨by simp [ParentPc.Opening], by simp, fun _ => ⟨sent + block.length, ?_, ?_, ?_, htaken⟩,
      h.early, h.read, h.write, h.noWrite, h.noDest⟩
    · simpa [ParentPc.block] using hlen
    · exact hsent.add hlen (hblock.imp id fun hnil => by rw [hnil]; rfl)
    · rw [List.length_append]
      simp only
      omega

/-- The child leaves, without a failure of the destination. -/
theorem Count.child_leaves (h : Count C s) {e : ChildExit} {pc : ChildPc} {data : List UInt8}
    (hpc : pc = .closeData e ∨ pc = .exited e) (hwrite : e ≠ .noWrite) (hdest : e ≠ .noDest)
    (hsending : s.parent.Sending = false) : Count C { s with child := pc, data := data } := by
  refine ⟨h.opening, h.block, fun hp => ?_, ?_, ?_, ?_, ?_, ?_⟩
  · rw [hsending] at hp
    cases hp
  all_goals
    rcases hpc with rfl | rfl <;>
      simp [ChildPc.BeforeHeader, ChildPc.Opening, ChildPc.reason, hwrite, hdest]

/-- The child reads nothing from the data channel. -/
theorem Count.sending_of_child (h : Count C s) {pc : ChildPc}
    (hafter : s.child.BeforeHeader = false) (hafter' : pc.BeforeHeader = false)
    (hp : s.parent.Sending = true) : ∃ sent,
      sent + s.parent.block.length + s.source.length = C.source.length ∧ C.Aligned sent ∧
        s.taken + s.data.length = sent + (if pc.BeforeHeader then headerSize else 0) ∧
          C.Aligned s.taken := by
  have hsending := h.sending hp
  rw [hafter] at hsending
  rwa [hafter']

/-- The child reads a block: it has caught up with the parent, or the block is full. -/
theorem Count.child_reads (h : Count C s) (hpc : s.child = .read) (hdata : s.data ≠ []) :
    Count C
      { s with
        child := .write (s.data.take bufferSize)
        data := s.data.drop bufferSize
        taken := s.taken + (s.data.take bufferSize).length } := by
  have hlen := length_take_drop s.data
  refine ⟨h.opening, h.block, fun hp => ?_, nofun, nofun, fun rest hrest => ?_, nofun, nofun⟩
  · obtain ⟨sent, hsum, hsent, hcount, htaken⟩ := h.sending hp
    simp [hpc, ChildPc.BeforeHeader, ChildPc.Opening] at hcount
    refine ⟨sent, hsum, hsent, ?_, ?_⟩
    · simp [ChildPc.BeforeHeader, ChildPc.Opening]
      omega
    · rcases full_or_last s.data with hfull | hlast
      · obtain ⟨rest, hrest⟩ : ∃ rest, s.taken + (s.data.take bufferSize).length + rest =
            C.source.length := Nat.le.dest (by omega)
        exact htaken.add hrest (Or.inl hfull)
      · -- the child has caught up with the parent
        rw [hlast, List.length_nil, Nat.add_zero] at hlen
        simp only [hlen, hcount]
        exact hsent
  · obtain rfl := ChildPc.write.inj hrest
    refine ⟨take_ne_nil hdata, ?_⟩
    rw [h.read hpc]

/-- The child writes some of the bytes it has read. -/
theorem Count.child_writes (h : Count C s) {rest : List UInt8} {k : ℕ}
    (hpc : s.child = .write rest) (hle : k ≤ rest.length) :
    Count C
      { s with
        child := if rest.drop k = [] then .read else .write (rest.drop k)
        stored := s.stored ++ rest.take k } := by
  obtain ⟨-, hstored⟩ := h.write rest hpc
  have hlen : (s.stored ++ rest.take k).length = s.stored.length + k := by
    rw [List.length_append, List.length_take, min_eq_left hle]
  have hdrop := List.length_drop (i := k) (l := rest)
  by_cases hnil : rest.drop k = []
  · rw [if_pos hnil]
    refine ⟨h.opening, h.block, h.sending_of_child (by rw [hpc]; rfl) rfl,
      nofun, fun _ => ?_, nofun, nofun, nofun⟩
    rw [hnil, List.length_nil] at hdrop
    simp only
    omega
  · rw [if_neg hnil]
    refine ⟨h.opening, h.block, h.sending_of_child (by rw [hpc]; rfl) rfl,
      nofun, nofun, fun rest' hrest' => ?_, nofun, nofun⟩
    obtain rfl := ChildPc.write.inj hrest'
    refine ⟨hnil, ?_⟩
    simp only
    omega

theorem Count.childMoves (h : Count C s) (hshake : Handshake s) (hs : ChildMoves C s s') :
    Count C s' := by
  cases hs
  case next pc hpc hpc' hlt =>
    have hbefore : s.child.BeforeHeader = true := by simp [ChildPc.BeforeHeader, hpc]
    have hbefore' : pc.BeforeHeader = true := by simp [ChildPc.BeforeHeader, hpc']
    refine ⟨h.opening, h.block, fun hp => ?_, fun _ => h.early (Or.inl hbefore), ?_, ?_, ?_, ?_⟩
    · have hsending := h.sending hp
      rw [hbefore] at hsending
      simpa only [hbefore'] using hsending
    all_goals cases pc <;> simp_all [ChildPc.Opening, ChildPc.reason]
  case killed hpc hclosed =>
    refine h.child_leaves (Or.inr rfl) (by decide) (by decide) (Bool.eq_false_iff.2 fun hp => ?_)
    have hopen := hshake.signalled (ParentPc.not_closed_of_sending hp).2
    rw [hpc] at hopen
    cases hopen
  case signal hpc hopen =>
    have hbefore : s.child.BeforeHeader = true := by rw [hpc]; rfl
    refine ⟨h.opening, h.block, fun hp => ?_, fun _ => h.early (Or.inl hbefore),
      nofun, nofun, nofun, nofun⟩
    have hsending := h.sending hp
    rw [hbefore] at hsending
    exact hsending
  case noHeader hpc hclosed =>
    refine h.child_leaves (Or.inl rfl) (by decide) (by decide) (Bool.eq_false_iff.2 fun hp => ?_)
    rw [(ParentPc.not_closed_of_sending hp).1] at hclosed
    cases hclosed
  case shortHeader hpc hdata hlt =>
    have hlen := (hshake.header (by rw [hpc]; rfl)).resolve_left hdata
    omega
  case readHeader hpc hle =>
    refine ⟨h.opening, h.block, fun hp => ?_, fun _ => h.early (Or.inl (by rw [hpc]; rfl)),
      nofun, nofun, nofun, nofun⟩
    obtain ⟨sent, hlen, hsent, hdata, htaken⟩ := h.sending hp
    refine ⟨sent, hlen, hsent, ?_, htaken⟩
    simp only [hpc, ChildPc.BeforeHeader] at hdata
    simp [ChildPc.BeforeHeader, ChildPc.Opening] at hdata ⊢
    omega
  case malloc hpc =>
    exact ⟨h.opening, h.block, h.sending_of_child (by rw [hpc]; rfl) rfl,
      fun _ => h.early (Or.inr (Or.inl hpc)), nofun, nofun, nofun, nofun⟩
  case noMemory hpc =>
    exact ⟨h.opening, h.block, h.sending_of_child (by rw [hpc]; rfl) rfl,
      nofun, nofun, nofun, nofun, nofun⟩
  case openDest hpc hdest =>
    obtain ⟨htaken, hstored⟩ := h.early (Or.inr (Or.inr hpc))
    refine ⟨h.opening, h.block, h.sending_of_child (by rw [hpc]; rfl) rfl,
      nofun, fun _ => ?_, nofun, nofun, nofun⟩
    rw [htaken, hstored, List.length_nil]
  case noDest hpc hdest =>
    exact ⟨h.opening, h.block, h.sending_of_child (by rw [hpc]; rfl) rfl,
      nofun, nofun, nofun, nofun, fun _ => hdest⟩
  case readEnd hpc hclosed =>
    refine h.child_leaves (Or.inl rfl) (by decide) (by decide) (Bool.eq_false_iff.2 fun hp => ?_)
    rw [(ParentPc.not_closed_of_sending hp).1] at hclosed
    cases hclosed
  case read hpc hdata => exact h.child_reads hpc hdata
  case noWrite rest n hpc hdest hle =>
    obtain ⟨hne, hstored⟩ := h.write rest hpc
    have hpos := List.length_pos_of_ne_nil hne
    have hlt : n < s.taken := by omega
    exact ⟨h.opening, h.block, h.sending_of_child (by rw [hpc]; rfl) rfl,
      nofun, nofun, nofun, fun _ => ⟨n, hdest, hlt⟩, nofun⟩
  case write rest k hpc hpos hle => exact h.child_writes hpc hle
  case closeData e hpc =>
    refine ⟨h.opening, h.block, h.sending_of_child (by rw [hpc]; rfl) rfl,
      nofun, nofun, nofun, fun hr => ?_, fun hr => ?_⟩
    · exact h.noWrite (by rw [hpc]; exact hr)
    · exact h.noDest (by rw [hpc]; exact hr)
  case exit e hpc =>
    refine ⟨h.opening, h.block, h.sending_of_child (by rw [hpc]; rfl) rfl,
      nofun, nofun, nofun, fun hr => ?_, fun hr => ?_⟩
    · exact h.noWrite (by rw [hpc]; exact hr)
    · exact h.noDest (by rw [hpc]; exact hr)

end Count

/-! ## Runs -/

variable {C : Config}

theorem handshake_init : Handshake (.init C) := by
  rw [State.init]
  cases C.mode <;>
    exact ⟨by simp [ParentPc.Opening, ChildPc.BeforeHeader, ChildPc.Opening],
      by simp [ParentPc.Past], by simp, by simp, by simp [ParentPc.Sending], by simp,
      by simp [ChildPc.Left, ChildPc.reason], by simp⟩

theorem count_init : Count C (.init C) := by
  rw [State.init]
  cases C.mode <;>
    exact ⟨by simp, by simp, by simp [ParentPc.Sending], by simp, by simp, by simp,
      by simp [ChildPc.reason], by simp [ChildPc.reason]⟩

theorem inv_of_run {as : List Action} {s : State}
    (h : runFrom (State.step C) (.init C) as = some s) : Handshake s ∧ Count C s := by
  refine runFrom_invariant (P := fun s => Handshake s ∧ Count C s) (fun s a s' hI hs => ?_)
    ⟨handshake_init, count_init⟩ h
  obtain ⟨hshake, hcount⟩ := hI
  cases a with
  | parent ok =>
    have hmoves := parentMoves_of_step hs
    exact ⟨hshake.parentMoves hmoves, hcount.parentMoves hshake hmoves⟩
  | child ok k =>
    have hmoves := childMoves_of_step hs
    exact ⟨hshake.childMoves hmoves, hcount.childMoves hshake hmoves⟩

end EltexPractice.Copier.Transfer
