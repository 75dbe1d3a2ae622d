import EltexPractice.Copier.Handshake

/-!
# A child that fails

What becomes of the parent when the child cannot create or write the destination. The child closes
its end of the data channel, and a `write` of the parent after that ends the parent by `SIGPIPE`.

`survivalLaw_iff`: every interleaving ends with a parent that has returned `-1` exactly if the
child fails in the last block of the source.
-/

namespace EltexPractice.Copier.Transfer

open CString

variable {C : Config}

/-- The child has exited because it could not create or write the destination. -/
def ChildPc.DestFailed (pc : ChildPc) : Prop := pc = .exited .noDest ∨ pc = .exited .noWrite

/-- Every interleaving in which the child fails at the destination ends with a parent that has
returned `-1`. -/
def SurvivalLaw (C : Config) : Prop :=
  ∀ as s, runFrom (State.step C) (.init C) as = some s → s.child.DestFailed →
    (∀ a, s.step C a = none) → s.parent = .returned (-1)

/-- The failure of the destination is in the last block of the source: no block follows the one in
which it is noticed. -/
def Config.LastBlock (C : Config) : Prop :=
  match C.dest with
  | .refused => C.source = []
  | .room n => C.source.length ≤ bufferSize * (n / bufferSize + 1)

section LastBlock

variable {s s' : State}

/-- In the last block, only a child without memory can leave a parent that still has to write. -/
theorem reason_of_write (hlast : C.LastBlock) (hshake : Handshake s) (hcount : Count C s)
    (hpc : s.parent = .writeHeader ∨ ∃ block, s.parent = .write block)
    (hclosed : s.child.ClosedData = true) : s.child.reason = some .noMemory := by
  obtain ⟨e, he⟩ : ∃ e, s.child.reason = some e := by
    cases hc : s.child <;> simp_all [ChildPc.ClosedData, ChildPc.reason]
  have hleft : ¬ s.child.Left := fun hl => by
    have hfin := hshake.left hl
    rcases hpc with hpc | ⟨block, hpc⟩ <;> rw [hpc] at hfin <;> cases hfin
  rcases hpc with hpc | ⟨block, hpc⟩
  · have hbefore := (hshake.opening (Or.inr hpc)).1
    cases hc : s.child <;>
      simp_all [ChildPc.BeforeHeader, ChildPc.Opening, ChildPc.ClosedData]
  · obtain ⟨hne, -⟩ := hcount.block block hpc
    have hpos := List.length_pos_of_ne_nil hne
    obtain ⟨sent, hlen, -, hdata, htaken⟩ := hcount.sending (by rw [hpc]; rfl)
    have hafter : s.child.BeforeHeader = false := by
      cases hc : s.child <;>
        simp_all [ChildPc.BeforeHeader, ChildPc.Opening, ChildPc.ClosedData]
    simp only [hpc, ParentPc.block] at hlen
    simp [hafter] at hdata
    cases e
    case noMemory => exact he
    case noDest =>
      rw [Config.LastBlock, hcount.noDest he] at hlast
      rw [hlast, List.length_nil] at hlen
      omega
    case noWrite =>
      obtain ⟨n, hdest, hn⟩ := hcount.noWrite he
      rw [Config.LastBlock, hdest] at hlast
      have hle := htaken.le hn hlast
      omega
    all_goals exact absurd (by simp [ChildPc.Left, he]) hleft

/-- The reason stays. -/
theorem reason_childMoves (hclosed : s.child.ClosedData = true) (hs : ChildMoves C s s') :
    s'.child.reason = s.child.reason := by
  cases hs
  case exit e hpc => rw [hpc]; rfl
  case next hpc hpc' hlt =>
    cases hc : s.child <;> simp_all [ChildPc.Opening, ChildPc.ClosedData]
  all_goals simp [*, ChildPc.ClosedData] at hclosed

theorem reason_of_killed (hlast : C.LastBlock) {as : List Action}
    (h : runFrom (State.step C) (.init C) as = some s) :
    s.parent = .killed → s.child.reason = some .noMemory := by
  refine runFrom_induction
    (P := fun _ s => s.parent = .killed → s.child.reason = some .noMemory) ?_ ?_ h
  · rw [State.init]
    cases C.mode <;> simp
  · intro as s a s' hrun ih hs hkilled
    obtain ⟨hshake, hcount⟩ := inv_of_run hrun
    cases a with
    | parent ok =>
      have hmoves := parentMoves_of_step hs
      cases hmoves
      case killed hpc hclosed =>
        have hreason := reason_of_write hlast hshake hcount hpc hclosed
        exact hreason
      case next hpc hpc' hlt =>
        simp only at hkilled
        rw [hkilled] at hpc'
        cases hpc'
      case closeData status sync hpc => cases sync <;> cases hkilled
      all_goals cases hkilled
    | child ok k =>
      have hmoves := childMoves_of_step hs
      rw [hmoves.parent_eq] at hkilled
      rw [reason_childMoves (hshake.killed hkilled) hmoves]
      exact ih hkilled

/-- A parent that can do nothing more, with a child that has exited, has ended. -/
theorem ended_of_stuck {e : ChildExit} (hchild : s.child = .exited e)
    (hstuck : ∀ a, s.step C a = none) :
    s.parent = .killed ∨ ∃ status, s.parent = .returned status := by
  have hstuck := hstuck (.parent true)
  simp only [State.step, State.runParentProcess] at hstuck
  split at hstuck
  case h_14 status hpc => exact Or.inr ⟨status, hpc⟩
  case h_15 hpc => exact Or.inl hpc
  -- every other call goes on, or ends in `SIGPIPE`
  all_goals
    simp [hchild, State.writeData, ChildPc.ClosedData, ChildPc.ClosedSync] at hstuck
  · split at hstuck <;> cases hstuck
  · split at hstuck <;> cases hstuck

end LastBlock

/-- **The parent survives** a failure in the last block. -/
theorem survivalLaw_of_lastBlock (hlast : C.LastBlock) : SurvivalLaw C := by
  intro as s h hfailed hstuck
  obtain ⟨e, hchild, he⟩ : ∃ e, s.child = .exited e ∧ (e = .noDest ∨ e = .noWrite) :=
    hfailed.elim (fun h => ⟨_, h, Or.inl rfl⟩) fun h => ⟨_, h, Or.inr rfl⟩
  rcases ended_of_stuck hchild hstuck with hkilled | ⟨status, hreturned⟩
  · have hreason := reason_of_killed hlast h hkilled
    rw [hchild] at hreason
    obtain rfl := Option.some.inj hreason
    simp at he
  · have hstatus := ((inv_of_run h).1.returned status hreturned).resolve_left fun hsuccess => by
      rw [hchild] at hsuccess
      obtain rfl := ChildPc.exited.inj hsuccess
      simp at he
    rw [hreturned, hstatus]

/-! ## A failure in an earlier block -/

section Earlier

variable {s : State}

/-- The channels are open. -/
theorem reaches_opened :
    Reaches (State.step C) (.init C)
      { State.init C with parent := .openSrc, child := .signal } := by
  cases hmode : C.mode with
  | pipe =>
    simp only [State.init, hmode]
    exact .refl _
  | fifo =>
    simp only [State.init, hmode]
    exact ⟨[.parent true, .child true 0, .parent true, .child true 0, .parent true, .child true 0,
      .parent true, .child true 0], rfl⟩

/-- The header has been read. -/
theorem reaches_openDest :
    Reaches (State.step C) (.init C) ⟨.readSrc, .openDest, false, [], C.source, [], 0⟩ := by
  have hroom : (fileHeader C.srcFilename C.source.length).length ≤ C.capacity := by
    rw [length_fileHeader]
    exact le_trans (by decide) C.le_capacity
  refine reaches_opened.trans (.head (a := .child true 0) rfl (.head (a := .parent true) rfl
    (.head (a := .parent true) rfl (.head (a := .parent true) rfl
    (.head (a := .parent true) (t := ⟨.readSrc, .readHeader, false,
      fileHeader C.srcFilename C.source.length, C.source, [], 0⟩) ?_ ?_)))))
  · simp [State.step, State.runParentProcess, State.writeData, State.init, ChildPc.ClosedData,
      hroom]
  · have hdata : fileHeader C.srcFilename C.source.length ≠ [] := fun hnil => by
      have hlen := length_fileHeader C.srcFilename C.source.length
      rw [hnil] at hlen
      cases hlen
    have hle : headerSize ≤ (fileHeader C.srcFilename C.source.length).length :=
      (length_fileHeader _ _).ge
    have hdrop : (fileHeader C.srcFilename C.source.length).drop headerSize = [] :=
      List.drop_eq_nil_iff.2 (length_fileHeader _ _).le
    refine .head (a := .child true 0) (t := ⟨.readSrc, .malloc, false, [], C.source, [], 0⟩) ?_
      (.single (a := .child true 0) rfl)
    simp [State.step, State.runChildProcess, hdata, hle, hdrop]

/-- A block gets to the child. -/
theorem reaches_write (hparent : s.parent = .readSrc) (hchild : s.child = .read)
    (hdata : s.data = []) (hsource : s.source ≠ []) :
    Reaches (State.step C) s
      { s with
        child := .write (s.source.take bufferSize)
        source := s.source.drop bufferSize
        taken := s.taken + (s.source.take bufferSize).length } := by
  have hne := take_ne_nil hsource
  have hle : (s.source.take bufferSize).length ≤ bufferSize := List.length_take_le _ _
  have hroom : (s.source.take bufferSize).length ≤ C.capacity :=
    hle.trans (le_trans (by decide) C.le_capacity)
  obtain ⟨parent, child, sync, data, source, stored, taken⟩ := s
  simp only at hparent hchild hdata hsource hne hle hroom ⊢
  subst hparent hchild hdata
  refine .head (a := .parent true)
    (t := ⟨.write (source.take bufferSize), .read, sync, [], source.drop bufferSize, stored, taken⟩)
    ?_ (.head (a := .parent true)
    (t := ⟨.readSrc, .read, sync, source.take bufferSize, source.drop bufferSize, stored, taken⟩)
    ?_ (.single (a := .child true 0) ?_))
  · simp [State.step, State.runParentProcess, hsource]
  · simp [State.step, State.runParentProcess, State.writeData, ChildPc.ClosedData, hroom,
      -List.length_take]
  · simp [State.step, State.runChildProcess, hne, List.take_of_length_le hle,
      List.drop_eq_nil_iff.2 hle]

/-- The child stores a whole block. -/
theorem reaches_read {rest : List UInt8} {n : ℕ} (hchild : s.child = .write rest)
    (hne : rest ≠ []) (hdest : C.dest = .room n) (hle : s.stored.length + rest.length ≤ n) :
    Reaches (State.step C) s { s with child := .read, stored := s.stored ++ rest } := by
  have hpos := List.length_pos_of_ne_nil hne
  have hroom : ¬ n ≤ s.stored.length := by omega
  refine .single (a := .child true rest.length) ?_
  simp [State.step, State.runChildProcess, hchild, State.writeDest, hdest, hroom, hpos, hle]

/-- The child fails in the middle of a block. -/
theorem reaches_noWrite {rest : List UInt8} {n : ℕ} (hchild : s.child = .write rest)
    (hdest : C.dest = .room n) (hle : s.stored.length ≤ n)
    (hlt : n < s.stored.length + rest.length) :
    ∃ stored, Reaches (State.step C) s
      { s with child := .exited .noWrite, stored := stored } := by
  have hexit : ∀ {t : State} {rest}, t.child = .write rest → t.stored.length = n →
      Reaches (State.step C) t { t with child := .exited .noWrite } := by
    intro t rest ht hstored
    refine .head (a := .child true 0) (t := { t with child := .closeData .noWrite }) ?_
      (.head (a := .child true 0) rfl (.single (a := .child true 0) rfl))
    simp [State.step, State.runChildProcess, ht, State.writeDest, hdest, hstored]
  rcases hle.eq_or_lt with heq | hlt'
  · exact ⟨_, hexit hchild heq⟩
  · -- what fits is stored first
    have hpos : 0 < n - s.stored.length := by omega
    have hk : n - s.stored.length < rest.length := by omega
    have hdrop : rest.drop (n - s.stored.length) ≠ [] := fun hnil => by
      rw [List.drop_eq_nil_iff] at hnil
      omega
    have hlen : (s.stored ++ rest.take (n - s.stored.length)).length = n := by
      rw [List.length_append, List.length_take, min_eq_left hk.le]
      omega
    refine ⟨s.stored ++ rest.take (n - s.stored.length),
      .head (a := .child true (n - s.stored.length)) (t := { s with
        child := .write (rest.drop (n - s.stored.length))
        stored := s.stored ++ rest.take (n - s.stored.length) }) ?_ ?_⟩
    · have hroom : ¬ n ≤ s.stored.length := by omega
      have hsum : s.stored.length + (n - s.stored.length) ≤ n := by omega
      simp [State.step, State.runChildProcess, hchild, State.writeDest, hdest, hroom, hpos, hk.le,
        hsum, hdrop]
    · exact hexit rfl hlen

/-- The parent writes to a channel that nobody reads. -/
theorem reaches_killed {e : ChildExit} (hparent : s.parent = .readSrc)
    (hchild : s.child = .exited e) (hsource : s.source ≠ []) :
    ∃ t, Reaches (State.step C) s t ∧ t.parent = .killed ∧ t.child = .exited e := by
  refine ⟨{ s with parent := .killed, source := s.source.drop bufferSize },
    .head (a := .parent true) (t := { s with
      parent := .write (s.source.take bufferSize)
      source := s.source.drop bufferSize }) ?_ (.single (a := .parent true) ?_), rfl, hchild⟩
  · simp [State.step, State.runParentProcess, hparent, hsource]
  · simp [State.step, State.runParentProcess, State.writeData, hchild, ChildPc.ClosedData]

/-- The child has stored `i` blocks, and nothing is on its way. -/
def State.atBlock (C : Config) (i : ℕ) : State where
  parent := .readSrc
  child := .read
  sync := false
  data := []
  source := C.source.drop (bufferSize * i)
  stored := C.source.take (bufferSize * i)
  taken := bufferSize * i

theorem reaches_atBlock {n : ℕ} (hdest : C.dest = .room n) {i : ℕ} (hn : bufferSize * i ≤ n)
    (hi : bufferSize * i < C.source.length) :
    Reaches (State.step C) (.init C) (.atBlock C i) := by
  induction i with
  | zero =>
    refine reaches_openDest.trans (.single (a := .child true 0) ?_)
    simp [State.step, State.runChildProcess, hdest, State.atBlock]
  | succ i ih =>
    have hsucc : bufferSize * (i + 1) = bufferSize * i + bufferSize := Nat.mul_succ _ _
    rw [hsucc] at hn hi
    obtain ⟨block, hblock⟩ : ∃ block, block = (C.source.drop (bufferSize * i)).take bufferSize :=
      ⟨_, rfl⟩
    have hlen : block.length = bufferSize := by
      rw [hblock, List.length_take, List.length_drop]
      omega
    have hsource : C.source.drop (bufferSize * i) ≠ [] := fun hnil => by
      rw [List.drop_eq_nil_iff] at hnil
      omega
    have hstored : (C.source.take (bufferSize * i)).length = bufferSize * i := by
      rw [List.length_take]
      omega
    have hne : block ≠ [] := by
      rw [hblock]
      exact take_ne_nil hsource
    have hnext : State.atBlock C (i + 1) = { State.atBlock C i with
        child := .read
        source := (C.source.drop (bufferSize * i)).drop bufferSize
        stored := C.source.take (bufferSize * i) ++ block
        taken := bufferSize * i + block.length } := by
      rw [State.atBlock, State.atBlock, hsucc, hlen, hblock, List.drop_drop, List.take_add]
    rw [hnext]
    refine (ih (by omega) (by omega)).trans ?_
    refine (reaches_write (s := State.atBlock C i) rfl rfl rfl hsource).trans ?_
    refine (reaches_read (n := n) (by rw [hblock]; rfl) hne hdest ?_).trans ?_
    · change (C.source.take (bufferSize * i)).length + block.length ≤ n
      omega
    · rw [hblock]
      exact .refl _

/-- The failure has come before the last block: some interleaving ends the parent. -/
theorem exists_killed (hnot : ¬ C.LastBlock) :
    ∃ t, Reaches (State.step C) (.init C) t ∧ t.parent = .killed ∧ t.child.DestFailed := by
  cases hdest : C.dest with
  | refused =>
    rw [Config.LastBlock, hdest] at hnot
    have hfail : Reaches (State.step C) ⟨.readSrc, .openDest, false, [], C.source, [], 0⟩
        ⟨.readSrc, .exited .noDest, false, [], C.source, [], 0⟩ := by
      refine .head (a := .child true 0)
        (t := ⟨.readSrc, .closeData .noDest, false, [], C.source, [], 0⟩) ?_
        (.head (a := .child true 0) rfl (.single (a := .child true 0) rfl))
      simp [State.step, State.runChildProcess, hdest]
    obtain ⟨t, ht, hkilled, hchild⟩ := reaches_killed (C := C)
      (s := ⟨.readSrc, .exited .noDest, false, [], C.source, [], 0⟩) rfl rfl hnot
    exact ⟨t, (reaches_openDest.trans hfail).trans ht, hkilled, Or.inl hchild⟩
  | room n =>
    rw [Config.LastBlock, hdest, not_le, Nat.mul_succ] at hnot
    obtain ⟨i, hi⟩ : ∃ i, i = n / bufferSize := ⟨_, rfl⟩
    have hn : bufferSize * i ≤ n := by
      rw [hi]
      exact Nat.mul_div_le n bufferSize
    have hn' : n < bufferSize * i + bufferSize := by
      rw [hi, ← Nat.mul_succ]
      exact Nat.lt_mul_div_succ n (by decide)
    rw [← hi] at hnot
    have hsource : C.source.drop (bufferSize * i) ≠ [] := fun hnil => by
      rw [List.drop_eq_nil_iff] at hnil
      omega
    have hrest : (C.source.drop (bufferSize * i)).drop bufferSize ≠ [] := fun hnil => by
      rw [List.drop_drop, List.drop_eq_nil_iff] at hnil
      omega
    have hlen : ((C.source.drop (bufferSize * i)).take bufferSize).length = bufferSize := by
      rw [List.length_take, List.length_drop]
      omega
    have hstored : (State.atBlock C i).stored.length = bufferSize * i := by
      rw [State.atBlock, List.length_take]
      omega
    have hwrite := reaches_write (C := C) (s := State.atBlock C i) rfl rfl rfl hsource
    obtain ⟨stored, hfail⟩ := reaches_noWrite (C := C) (n := n)
      (s := { State.atBlock C i with
        child := .write ((State.atBlock C i).source.take bufferSize)
        source := (State.atBlock C i).source.drop bufferSize
        taken := (State.atBlock C i).taken +
          ((State.atBlock C i).source.take bufferSize).length }) rfl hdest
      (hstored.le.trans hn) (by
        change n < (State.atBlock C i).stored.length +
          ((C.source.drop (bufferSize * i)).take bufferSize).length
        omega)
    obtain ⟨t, ht, hkilled, hchild⟩ := reaches_killed (C := C) (e := .noWrite)
      (s := { State.atBlock C i with
        child := .exited .noWrite
        source := (State.atBlock C i).source.drop bufferSize
        stored := stored
        taken := (State.atBlock C i).taken +
          ((State.atBlock C i).source.take bufferSize).length }) rfl rfl hrest
    have hblock := reaches_atBlock hdest hn (by omega)
    exact ⟨t, ((hblock.trans hwrite).trans hfail).trans ht, hkilled, Or.inr hchild⟩

end Earlier

/-- In a state with a parent that has ended and a child that has exited nothing is possible. -/
theorem stuck_of_killed {s : State} (hparent : s.parent = .killed) (hchild : s.child.DestFailed)
    (a : Action) : s.step C a = none := by
  cases a with
  | parent ok => simp [State.step, State.runParentProcess, hparent]
  | child ok k =>
    rcases hchild with hchild | hchild <;>
      simp [State.step, State.runChildProcess, hchild]

theorem not_survivalLaw_of_not_lastBlock (hnot : ¬ C.LastBlock) : ¬ SurvivalLaw C := by
  intro hlaw
  obtain ⟨t, ⟨as, has⟩, hkilled, hchild⟩ := exists_killed hnot
  have hreturned := hlaw as t has hchild (stuck_of_killed hkilled hchild)
  rw [hkilled] at hreturned
  cases hreturned

/-- **When the copier survives a failing child.** Every interleaving ends, and those in which the
child cannot create or write the destination all end with a parent that has returned `-1`, exactly
if the failure is in the last block of the source. -/
theorem survivalLaw_iff (C : Config) :
    (∃ n, ∀ as s, runFrom (State.step C) (.init C) as = some s → as.length ≤ n) ∧
      (SurvivalLaw C ↔ C.LastBlock) := by
  refine ⟨⟨_, fun as s h => length_le_of_run h⟩, fun hlaw => ?_, survivalLaw_of_lastBlock⟩
  by_contra hnot
  exact not_survivalLaw_of_not_lastBlock hnot hlaw

/-- A file of one byte, whose copy cannot be created. -/
def oneByte (mode : Mode) : Config := ⟨mode, ascii "notes", [65], .refused, 65536, by decide⟩

/-- In both modes some interleaving ends the parent of `oneByte` by `SIGPIPE`. -/
theorem not_survivalLaw_oneByte :
    ¬ SurvivalLaw (oneByte .pipe) ∧ ¬ SurvivalLaw (oneByte .fifo) := by
  have hnot : ∀ mode, ¬ (oneByte mode).LastBlock := fun mode h => by cases h
  exact ⟨not_survivalLaw_of_not_lastBlock (hnot .pipe),
    not_survivalLaw_of_not_lastBlock (hnot .fifo)⟩

end EltexPractice.Copier.Transfer
