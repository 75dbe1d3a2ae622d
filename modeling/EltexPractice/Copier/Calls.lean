import EltexPractice.Copier.Transfer

/-!
# What the calls of the copier do

The inversion of a step of each process, `ParentMoves` and `ChildMoves`, and the end of every
interleaving: `State.remaining`, the calls and bytes that are left, gets smaller with every step.
-/

namespace EltexPractice.Copier.Transfer

/-! ## What a step can do -/

/-- Before the ready signal has come. -/
def ParentPc.Opening : ParentPc → Bool
  | .openSync _ => true
  | .openData _ => true
  | .openSrc => true
  | .fstat => true
  | .ready => true
  | _ => false

/-- Before the ready signal has been sent. -/
def ChildPc.Opening : ChildPc → Bool
  | .openSync _ => true
  | .openData _ => true
  | .signal => true
  | _ => false

/-- How many kinds of calls are still to come. -/
def ParentPc.rank : ParentPc → ℕ
  | .openSync waiting => if waiting then 12 else 13
  | .openData waiting => if waiting then 10 else 11
  | .openSrc => 9
  | .fstat => 8
  | .ready => 7
  | .writeHeader => 6
  | .readSrc => 5
  | .write _ => 4
  | .closeData _ _ => 3
  | .closeSync _ => 2
  | .wait _ => 1
  | .returned _ => 0
  | .killed => 0

def ChildPc.rank : ChildPc → ℕ
  | .openSync waiting => if waiting then 11 else 12
  | .openData waiting => if waiting then 9 else 10
  | .signal => 8
  | .readHeader => 7
  | .malloc => 6
  | .openDest => 5
  | .read => 4
  | .write _ => 3
  | .closeData _ => 2
  | .exit _ => 1
  | .exited _ => 0

/-- The state after a call of the parent. -/
inductive ParentMoves (C : Config) (s : State) : State → Prop
  | next {pc : ParentPc} (hpc : s.parent.Opening = true) (hpc' : pc.Opening = true)
      (hlt : pc.rank < s.parent.rank) : ParentMoves C s { s with parent := pc }
  | giveUp (hpc : s.parent.Opening = true) (hlt : 3 < s.parent.rank) :
      ParentMoves C s { s with parent := .closeData (-1) true }
  | ready (hpc : s.parent = .ready) (hsync : s.sync = true) :
      ParentMoves C s { s with parent := .writeHeader, sync := false }
  | killed (hpc : s.parent = .writeHeader ∨ ∃ block, s.parent = .write block)
      (hclosed : s.child.ClosedData = true) : ParentMoves C s { s with parent := .killed }
  | writeHeader (hpc : s.parent = .writeHeader) (hopen : s.child.ClosedData = false) :
      ParentMoves C s
        { s with
          parent := .readSrc
          data := s.data ++ fileHeader C.srcFilename C.source.length }
  | readFails (hpc : s.parent = .readSrc) :
      ParentMoves C s { s with parent := .closeData (-1) false }
  | readEnd (hpc : s.parent = .readSrc) (hsource : s.source = []) :
      ParentMoves C s { s with parent := .closeData 0 false }
  | readSrc (hpc : s.parent = .readSrc) (hsource : s.source ≠ []) :
      ParentMoves C s
        { s with
          parent := .write (s.source.take bufferSize)
          source := s.source.drop bufferSize }
  | write {block : List UInt8} (hpc : s.parent = .write block)
      (hopen : s.child.ClosedData = false) :
      ParentMoves C s { s with parent := .readSrc, data := s.data ++ block }
  | closeData {status : ℤ} {sync : Bool} (hpc : s.parent = .closeData status sync) :
      ParentMoves C s { s with parent := if sync then .closeSync status else .wait status }
  | closeSync {status : ℤ} (hpc : s.parent = .closeSync status) :
      ParentMoves C s { s with parent := .wait status }
  | wait {status : ℤ} {e : ChildExit} (hpc : s.parent = .wait status)
      (hchild : s.child = .exited e) :
      ParentMoves C s { s with parent := .returned (State.finalStatus status e) }

/-- The state after a call of the child. -/
inductive ChildMoves (C : Config) (s : State) : State → Prop
  | next {pc : ChildPc} (hpc : s.child.Opening = true) (hpc' : pc.Opening = true)
      (hlt : pc.rank < s.child.rank) : ChildMoves C s { s with child := pc }
  | killed (hpc : s.child = .signal) (hclosed : s.parent.ClosedSync = true) :
      ChildMoves C s { s with child := .exited .killed }
  | signal (hpc : s.child = .signal) (hopen : s.parent.ClosedSync = false) :
      ChildMoves C s { s with child := .readHeader, sync := true }
  | noHeader (hpc : s.child = .readHeader) (hclosed : s.parent.ClosedData = true) :
      ChildMoves C s { s with child := .closeData .noHeader }
  | shortHeader (hpc : s.child = .readHeader) (hdata : s.data ≠ [])
      (hlt : s.data.length < headerSize) :
      ChildMoves C s
        { s with child := .closeData .noHeader, data := s.data.drop headerSize }
  | readHeader (hpc : s.child = .readHeader) (hle : headerSize ≤ s.data.length) :
      ChildMoves C s { s with child := .malloc, data := s.data.drop headerSize }
  | malloc (hpc : s.child = .malloc) : ChildMoves C s { s with child := .openDest }
  | noMemory (hpc : s.child = .malloc) :
      ChildMoves C s { s with child := .closeData .noMemory }
  | openDest (hpc : s.child = .openDest) (hdest : C.dest ≠ .refused) :
      ChildMoves C s { s with child := .read }
  | noDest (hpc : s.child = .openDest) (hdest : C.dest = .refused) :
      ChildMoves C s { s with child := .closeData .noDest }
  | readEnd (hpc : s.child = .read) (hclosed : s.parent.ClosedData = true) :
      ChildMoves C s { s with child := .closeData .success }
  | read (hpc : s.child = .read) (hdata : s.data ≠ []) :
      ChildMoves C s
        { s with
          child := .write (s.data.take bufferSize)
          data := s.data.drop bufferSize
          taken := s.taken + (s.data.take bufferSize).length }
  | noWrite {rest : List UInt8} {n : ℕ} (hpc : s.child = .write rest)
      (hdest : C.dest = .room n) (hle : n ≤ s.stored.length) :
      ChildMoves C s { s with child := .closeData .noWrite }
  | write {rest : List UInt8} {k : ℕ} (hpc : s.child = .write rest) (hpos : 0 < k)
      (hle : k ≤ rest.length) :
      ChildMoves C s
        { s with
          child := if rest.drop k = [] then .read else .write (rest.drop k)
          stored := s.stored ++ rest.take k }
  | closeData {e : ChildExit} (hpc : s.child = .closeData e) :
      ChildMoves C s { s with child := .exit e }
  | exit {e : ChildExit} (hpc : s.child = .exit e) :
      ChildMoves C s { s with child := .exited e }

section Moves

variable {C : Config} {s s' : State}

theorem writeData_cases {bytes : List UInt8} (h : s.writeData C bytes = some s') :
    (s.child.ClosedData = true ∧ s' = { s with parent := .killed }) ∨
      (s.child.ClosedData = false ∧
        s' = { s with parent := .readSrc, data := s.data ++ bytes }) := by
  unfold State.writeData at h
  split at h
  · rename_i hclosed
    exact Or.inl ⟨hclosed, (Option.some.inj h).symm⟩
  · rename_i hopen
    split at h
    · exact Or.inr ⟨Bool.eq_false_iff.2 hopen, (Option.some.inj h).symm⟩
    · cases h

theorem parentMoves_of_step {ok : Bool} (h : s.runParentProcess C ok = some s') :
    ParentMoves C s s' := by
  cases hpc : s.parent with
  | openSync waiting =>
    cases waiting with
    | false =>
      simp only [State.runParentProcess, hpc] at h
      obtain rfl := Option.some.inj h
      exact .next (by rw [hpc]; rfl) rfl (by rw [hpc]; decide)
    | true =>
      simp only [State.runParentProcess, hpc] at h
      split at h
      · cases h
      · obtain rfl := Option.some.inj h
        exact .next (by rw [hpc]; rfl) rfl (by rw [hpc]; decide)
  | openData waiting =>
    cases waiting with
    | false =>
      simp only [State.runParentProcess, hpc] at h
      obtain rfl := Option.some.inj h
      exact .next (by rw [hpc]; rfl) rfl (by rw [hpc]; decide)
    | true =>
      simp only [State.runParentProcess, hpc] at h
      split at h
      · cases h
      · cases h
      · obtain rfl := Option.some.inj h
        exact .next (by rw [hpc]; rfl) rfl (by rw [hpc]; decide)
  | openSrc =>
    simp only [State.runParentProcess, hpc] at h
    obtain rfl := Option.some.inj h
    cases ok
    · exact .giveUp (by rw [hpc]; rfl) (by rw [hpc]; decide)
    · exact .next (by rw [hpc]; rfl) rfl (by rw [hpc]; decide)
  | fstat =>
    simp only [State.runParentProcess, hpc] at h
    obtain rfl := Option.some.inj h
    cases ok
    · exact .giveUp (by rw [hpc]; rfl) (by rw [hpc]; decide)
    · exact .next (by rw [hpc]; rfl) rfl (by rw [hpc]; decide)
  | ready =>
    simp only [State.runParentProcess, hpc] at h
    split at h
    · rename_i hsync
      obtain rfl := Option.some.inj h
      exact .ready hpc hsync
    · split at h
      · obtain rfl := Option.some.inj h
        exact .giveUp (by rw [hpc]; rfl) (by rw [hpc]; decide)
      · cases h
  | writeHeader =>
    simp only [State.runParentProcess, hpc] at h
    rcases writeData_cases h with ⟨hclosed, rfl⟩ | ⟨hopen, rfl⟩
    · exact .killed (Or.inl hpc) hclosed
    · exact .writeHeader hpc hopen
  | readSrc =>
    simp only [State.runParentProcess, hpc] at h
    split at h
    · obtain rfl := Option.some.inj h
      exact .readFails hpc
    · split at h <;> rename_i hsource <;> obtain rfl := Option.some.inj h
      · exact .readEnd hpc hsource
      · exact .readSrc hpc hsource
  | write block =>
    simp only [State.runParentProcess, hpc] at h
    rcases writeData_cases h with ⟨hclosed, rfl⟩ | ⟨hopen, rfl⟩
    · exact .killed (Or.inr ⟨block, hpc⟩) hclosed
    · exact .write hpc hopen
  | closeData status sync =>
    simp only [State.runParentProcess, hpc] at h
    obtain rfl := Option.some.inj h
    exact .closeData hpc
  | closeSync status =>
    simp only [State.runParentProcess, hpc] at h
    obtain rfl := Option.some.inj h
    exact .closeSync hpc
  | wait status =>
    simp only [State.runParentProcess, hpc] at h
    split at h
    · rename_i hchild
      obtain rfl := Option.some.inj h
      exact .wait hpc hchild
    · cases h
  | returned | killed =>
    simp only [State.runParentProcess, hpc] at h
    cases h

theorem childMoves_of_writeDest {rest : List UInt8} {k : ℕ} (hpc : s.child = .write rest)
    (h : s.writeDest C rest k = some s') : ChildMoves C s s' := by
  unfold State.writeDest at h
  split at h
  · cases h
  · rename_i n hdest
    split at h
    · rename_i hle
      obtain rfl := Option.some.inj h
      exact .noWrite hpc hdest hle
    · split at h
      · rename_i hk
        obtain rfl := Option.some.inj h
        exact .write hpc hk.1 hk.2.1
      · cases h

theorem childMoves_of_step {ok : Bool} {k : ℕ} (h : s.runChildProcess C ok k = some s') :
    ChildMoves C s s' := by
  cases hpc : s.child with
  | openSync waiting =>
    cases waiting with
    | false =>
      simp only [State.runChildProcess, hpc] at h
      obtain rfl := Option.some.inj h
      exact .next (by rw [hpc]; rfl) rfl (by rw [hpc]; decide)
    | true =>
      simp only [State.runChildProcess, hpc] at h
      split at h
      · cases h
      · obtain rfl := Option.some.inj h
        exact .next (by rw [hpc]; rfl) rfl (by rw [hpc]; decide)
  | openData waiting =>
    cases waiting with
    | false =>
      simp only [State.runChildProcess, hpc] at h
      obtain rfl := Option.some.inj h
      exact .next (by rw [hpc]; rfl) rfl (by rw [hpc]; decide)
    | true =>
      simp only [State.runChildProcess, hpc] at h
      split at h
      · cases h
      · cases h
      · obtain rfl := Option.some.inj h
        exact .next (by rw [hpc]; rfl) rfl (by rw [hpc]; decide)
  | signal =>
    simp only [State.runChildProcess, hpc] at h
    split at h <;> rename_i hclosed <;> obtain rfl := Option.some.inj h
    · exact .killed hpc hclosed
    · exact .signal hpc (Bool.eq_false_iff.2 hclosed)
  | readHeader =>
    simp only [State.runChildProcess, hpc] at h
    split at h
    · split at h
      · rename_i hclosed
        obtain rfl := Option.some.inj h
        exact .noHeader hpc hclosed
      · cases h
    · rename_i hdata
      obtain rfl := Option.some.inj h
      by_cases hle : headerSize ≤ s.data.length
      · rw [if_pos hle]
        exact .readHeader hpc hle
      · rw [if_neg hle]
        exact .shortHeader hpc hdata (not_le.1 hle)
  | malloc =>
    simp only [State.runChildProcess, hpc] at h
    obtain rfl := Option.some.inj h
    cases ok
    · exact .noMemory hpc
    · exact .malloc hpc
  | openDest =>
    simp only [State.runChildProcess, hpc] at h
    obtain rfl := Option.some.inj h
    by_cases hdest : C.dest = .refused
    · rw [if_pos hdest]
      exact .noDest hpc hdest
    · rw [if_neg hdest]
      exact .openDest hpc hdest
  | read =>
    simp only [State.runChildProcess, hpc] at h
    split at h
    · split at h
      · rename_i hclosed
        obtain rfl := Option.some.inj h
        exact .readEnd hpc hclosed
      · cases h
    · rename_i hdata
      obtain rfl := Option.some.inj h
      exact .read hpc hdata
  | write rest =>
    simp only [State.runChildProcess, hpc] at h
    exact childMoves_of_writeDest hpc h
  | closeData e =>
    simp only [State.runChildProcess, hpc] at h
    obtain rfl := Option.some.inj h
    exact .closeData hpc
  | exit e =>
    simp only [State.runChildProcess, hpc] at h
    obtain rfl := Option.some.inj h
    exact .exit hpc
  | exited =>
    simp only [State.runChildProcess, hpc] at h
    cases h

end Moves

/-! ## Every run ends -/

/-- The block in the hands of the parent. -/
def ParentPc.block : ParentPc → List UInt8
  | .write block => block
  | _ => []

/-- How much of the header the parent has still to send. -/
def ParentPc.header : ParentPc → ℕ
  | .openSync _ => headerSize
  | .openData _ => headerSize
  | .openSrc => headerSize
  | .fstat => headerSize
  | .ready => headerSize
  | .writeHeader => headerSize
  | _ => 0

/-- What is left of the block in the hands of the child. -/
def ChildPc.rest : ChildPc → List UInt8
  | .write rest => rest
  | _ => []

/-- What is left to do: calls, and bytes to be sent, to be read and to be stored. -/
def State.remaining (s : State) : ℕ :=
  s.parent.rank + s.child.rank + 2 * (s.parent.block.length + s.source.length) +
    2 * (s.parent.header + s.parent.block.length + s.source.length + s.data.length) +
    2 * s.child.rest.length

/-- The parent has no empty block to send. -/
def State.Blocks (s : State) : Prop := ∀ block, s.parent = .write block → block ≠ []

section Remaining

variable {C : Config} {s s' : State}

theorem ParentPc.block_of_opening {pc : ParentPc} (h : pc.Opening = true) : pc.block = [] := by
  cases pc <;> first | rfl | cases h

theorem ParentPc.header_of_opening {pc : ParentPc} (h : pc.Opening = true) :
    pc.header = headerSize := by
  cases pc <;> first | rfl | cases h

theorem ChildPc.rest_of_opening {pc : ChildPc} (h : pc.Opening = true) : pc.rest = [] := by
  cases pc <;> first | rfl | cases h

theorem ParentMoves.blocks (h : ParentMoves C s s') : s'.Blocks := by
  intro block hblock
  cases h
  case next hpc hpc' hlt =>
    simp only at hblock
    rw [hblock] at hpc'
    cases hpc'
  case readSrc hpc hsource =>
    obtain rfl := ParentPc.write.inj hblock
    intro hnil
    rw [List.take_eq_nil_iff] at hnil
    exact hnil.elim (by decide) hsource
  case closeData status sync hpc =>
    cases sync <;> cases hblock
  all_goals cases hblock

theorem ChildMoves.parent_eq (h : ChildMoves C s s') : s'.parent = s.parent := by
  cases h <;> rfl

theorem ParentMoves.remaining_lt (hblocks : s.Blocks) (h : ParentMoves C s s') :
    s'.remaining < s.remaining := by
  cases h
  case next hpc hpc' hlt =>
    simp only [State.remaining, ParentPc.block_of_opening hpc, ParentPc.block_of_opening hpc',
      ParentPc.header_of_opening hpc, ParentPc.header_of_opening hpc']
    omega
  case giveUp hpc hlt =>
    have hrank : (ParentPc.closeData (-1) true).rank = 3 := rfl
    have hblock : (ParentPc.closeData (-1) true).block = [] := rfl
    have hheader : (ParentPc.closeData (-1) true).header = 0 := rfl
    simp only [State.remaining, ParentPc.block_of_opening hpc, ParentPc.header_of_opening hpc,
      hrank, hblock, hheader]
    omega
  case ready hpc hsync =>
    simp only [State.remaining, hpc, ParentPc.block, ParentPc.header, ParentPc.rank]
    omega
  case killed hpc hclosed =>
    rcases hpc with hpc | ⟨block, hpc⟩ <;>
      simp only [State.remaining, hpc, ParentPc.block, ParentPc.header, ParentPc.rank,
        List.length_nil] <;> omega
  case writeHeader hpc hopen =>
    simp only [State.remaining, hpc, ParentPc.block, ParentPc.header, ParentPc.rank,
      List.length_append, length_fileHeader]
    omega
  case readSrc hpc hsource =>
    have hlen : (s.source.take bufferSize).length + (s.source.drop bufferSize).length =
        s.source.length := by
      rw [← List.length_append, List.take_append_drop]
    simp only [State.remaining, hpc, ParentPc.block, ParentPc.header, ParentPc.rank,
      List.length_nil]
    omega
  case write block hpc hopen =>
    have hpos := List.length_pos_of_ne_nil (hblocks block hpc)
    simp only [State.remaining, hpc, ParentPc.block, ParentPc.header, ParentPc.rank,
      List.length_append, List.length_nil]
    omega
  case closeData status sync hpc =>
    cases sync <;>
      simp only [State.remaining, hpc, ParentPc.block, ParentPc.header, ParentPc.rank] <;> simp
  all_goals
    simp only [State.remaining, ‹s.parent = _›, ParentPc.block, ParentPc.header, ParentPc.rank]
    omega

theorem ChildMoves.remaining_lt (h : ChildMoves C s s') : s'.remaining < s.remaining := by
  cases h
  case next hpc hpc' hlt =>
    simp only [State.remaining, ChildPc.rest_of_opening hpc, ChildPc.rest_of_opening hpc']
    omega
  case read hpc hdata =>
    have hpos : 0 < (s.data.take bufferSize).length := by
      refine List.length_pos_of_ne_nil fun hnil => ?_
      rw [List.take_eq_nil_iff] at hnil
      exact hnil.elim (by decide) hdata
    have hlen : (s.data.take bufferSize).length + (s.data.drop bufferSize).length =
        s.data.length := by
      rw [← List.length_append, List.take_append_drop]
    simp only [State.remaining, hpc, ChildPc.rest, ChildPc.rank, List.length_nil]
    omega
  case write rest k hpc hpos hle =>
    have hlen := List.length_drop (i := k) (l := rest)
    split <;> simp only [State.remaining, hpc, ChildPc.rest, ChildPc.rank, List.length_nil] <;>
      omega
  case shortHeader hpc hdata hlt =>
    simp only [State.remaining, hpc, ChildPc.rest, ChildPc.rank, List.length_drop]
    omega
  case readHeader hpc hle =>
    simp only [State.remaining, hpc, ChildPc.rest, ChildPc.rank, List.length_drop]
    omega
  case noWrite rest n hpc hdest hle =>
    simp only [State.remaining, hpc, ChildPc.rest, ChildPc.rank, List.length_nil]
    omega
  all_goals
    simp only [State.remaining, ‹s.child = _›, ChildPc.rest, ChildPc.rank]
    omega

/-- **Every interleaving ends**: no run has more steps than there is to do at its beginning. -/
theorem length_le_of_run {as : List Action} (h : runFrom (State.step C) (.init C) as = some s) :
    as.length ≤ (State.init C).remaining := by
  refine length_le_of_decreasing (I := State.Blocks) (fun s a s' hI hs => ?_)
    (fun s a s' hI hs => ?_) ?_ h
  · cases a with
    | parent ok => exact (parentMoves_of_step hs).blocks
    | child ok k =>
      intro block hblock
      rw [(childMoves_of_step hs).parent_eq] at hblock
      exact hI block hblock
  · cases a with
    | parent ok => exact (parentMoves_of_step hs).remaining_lt hI
    | child ok k => exact (childMoves_of_step hs).remaining_lt
  · intro block hblock
    rw [State.init] at hblock
    cases hmode : C.mode <;> simp [hmode] at hblock

end Remaining

end EltexPractice.Copier.Transfer
