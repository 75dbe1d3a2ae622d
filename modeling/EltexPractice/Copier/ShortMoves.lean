import EltexPractice.Copier.ShortCalls

/-!
# What the short calls do

The inversion of a step of each process: `ParentMoves` and `ChildMoves` say what a call does, and
why it fails when nothing made it fail. Every run ends, since each step leaves less to do
(`State.remaining`).
-/

namespace EltexPractice.Copier.ShortCalls

open Transfer (Mode pipeBuf bufferSize headerSize fileHeader length_fileHeader)

/-! ## Where the processes are -/

/-- How far a process is with the stream. -/
inductive Phase
  /-- The header has not been sent, or read. -/
  | header
  /-- The child has the header and no destination yet. -/
  | named
  | copying
  | ended
  | failed
  deriving DecidableEq

namespace ParentPc

/-- Before the ready signal has come. -/
def Opening : ParentPc → Bool
  | .openSync _ => true
  | .openData _ => true
  | .openSrc => true
  | .fstat => true
  | .ready => true
  | _ => false

/-- The header or the file is being sent. -/
def Sending : ParentPc → Bool
  | .writeHeader => true
  | .readSrc => true
  | .write _ _ => true
  | _ => false

/-- How many kinds of calls are still to come. -/
def rank : ParentPc → ℕ
  | .openSync waiting => if waiting then 12 else 13
  | .openData waiting => if waiting then 10 else 11
  | .openSrc => 9
  | .fstat => 8
  | .ready => 7
  | .writeHeader => 6
  | .readSrc => 5
  | .write _ _ => 4
  | .closeData _ _ => 3
  | .closeSync _ => 2
  | .wait _ => 1
  | .returned _ => 0
  | .killed => 0

/-- What is left of the block in the hands of the parent. -/
def rest : ParentPc → List UInt8
  | .write buffer bytesWritten => buffer.drop bytesWritten
  | _ => []

/-- How much of the header is still to be sent. -/
def header : ParentPc → ℕ
  | .openSync _ => headerSize
  | .openData _ => headerSize
  | .openSrc => headerSize
  | .fstat => headerSize
  | .ready => headerSize
  | .writeHeader => headerSize
  | _ => 0

def phase : ParentPc → Phase
  | .openSync _ => .header
  | .openData _ => .header
  | .openSrc => .header
  | .fstat => .header
  | .ready => .header
  | .writeHeader => .header
  | .readSrc => .copying
  | .write _ _ => .copying
  | .closeData status _ => if status = 0 then .ended else .failed
  | .closeSync status => if status = 0 then .ended else .failed
  | .wait status => if status = 0 then .ended else .failed
  | .returned status => if status = 0 then .ended else .failed
  | .killed => .failed

theorem phase_of_opening {pc : ParentPc} (h : pc.Opening = true) : pc.phase = .header := by
  cases pc <;> first | rfl | cases h

theorem phase_of_failing {pc : ParentPc}
    (h : pc = .closeData (-1) true ∨ pc = .closeData (-1) false ∨ pc = .killed) :
    pc.phase = .failed := by
  rcases h with rfl | rfl | rfl <;> rfl

theorem phase_of_closedData {pc : ParentPc} (h : pc.ClosedData = true) :
    pc.phase = .ended ∨ pc.phase = .failed := by
  cases pc with
  | closeSync status => exact ite_eq_or_eq ..
  | wait status => exact ite_eq_or_eq ..
  | returned status => exact ite_eq_or_eq ..
  | killed => exact Or.inr rfl
  | _ => cases h

theorem phase_of_sending {pc : ParentPc} (h : pc.Sending = true) :
    pc.phase = .header ∨ pc.phase = .copying := by
  cases pc <;> first | exact Or.inl rfl | exact Or.inr rfl | cases h

end ParentPc

namespace ChildPc

/-- Before the ready signal has been sent. -/
def Opening : ChildPc → Bool
  | .openSync _ => true
  | .openData _ => true
  | .signal => true
  | _ => false

def rank : ChildPc → ℕ
  | .openSync waiting => if waiting then 11 else 12
  | .openData waiting => if waiting then 9 else 10
  | .signal => 8
  | .readHeader => 7
  | .malloc => 6
  | .openDest => 5
  | .read => 4
  | .write _ _ => 3
  | .closeData _ => 2
  | .exit _ => 1
  | .exited _ => 0
  | .killed => 0

/-- What is left of the block in the hands of the child. -/
def rest : ChildPc → List UInt8
  | .write buffer bytesWritten => buffer.drop bytesWritten
  | _ => []

/-- `bytes_written` -/
def written : ChildPc → ℕ
  | .write _ bytesWritten => bytesWritten
  | _ => 0

def phase : ChildPc → Phase
  | .openSync _ => .header
  | .openData _ => .header
  | .signal => .header
  | .readHeader => .header
  | .malloc => .named
  | .openDest => .named
  | .read => .copying
  | .write _ _ => .copying
  | .closeData success => if success then .ended else .failed
  | .exit success => if success then .ended else .failed
  | .exited success => if success then .ended else .failed
  | .killed => .failed

theorem phase_of_opening {pc : ChildPc} (h : pc.Opening = true) : pc.phase = .header := by
  cases pc <;> first | rfl | cases h

theorem phase_of_failing {pc : ChildPc}
    (h : pc = .closeData false ∨ pc = .exit false ∨ pc = .killed) : pc.phase = .failed := by
  rcases h with rfl | rfl | rfl <;> rfl

theorem phase_of_closedData {pc : ChildPc} (h : pc.ClosedData = true) :
    pc.phase = .ended ∨ pc.phase = .failed := by
  cases pc with
  | exit success => exact ite_eq_or_eq ..
  | exited success => exact ite_eq_or_eq ..
  | killed => exact Or.inr rfl
  | _ => cases h

end ChildPc

/-! ## What a step can do -/

/-- A call of the parent fails by itself. -/
def State.ParentFails (C : Config) (s : State) : Prop :=
  (s.parent = .openSrc ∧ pathMax ≤ C.srcFilename.length) ∨
    (s.parent = .ready ∧ s.sync.head? ≠ some 82 ∧ (s.sync = [] → s.child.ClosedSync = true)) ∨
      (s.parent.Sending = true ∧ s.child.ClosedData = true)

/-- A call of the child fails by itself. -/
def State.ChildFails (s : State) : Prop :=
  (s.child = .signal ∧ s.parent.ClosedSync = true) ∨
    (s.child = .readHeader ∧ s.data = [] ∧ s.parent.ClosedData = true)

/-- The state after a call of the parent. -/
inductive ParentMoves (C : Config) (s : State) (ok : Bool) : State → Prop
  | next {pc : ParentPc} (hpc : s.parent.Opening = true) (hpc' : pc.Opening = true)
      (hlt : pc.rank < s.parent.rank) : ParentMoves C s ok { s with parent := pc }
  | fail {pc : ParentPc} {sync : List UInt8}
      (hpc : s.parent.Opening = true ∨ s.parent.Sending = true)
      (hpc' : pc = .closeData (-1) true ∨ pc = .closeData (-1) false ∨ pc = .killed)
      (hwhy : ok = false ∨ s.ParentFails C) : ParentMoves C s ok { s with parent := pc, sync }
  | ready {sync : List UInt8} (hpc : s.parent = .ready) (hsync : s.sync = 82 :: sync) :
      ParentMoves C s ok { s with parent := .writeHeader, sync, log := s.log ++ [.ready] }
  | writeHeader (hpc : s.parent = .writeHeader) (hopen : s.child.ClosedData = false) :
      ParentMoves C s ok
        { s with
          parent := .readSrc
          data := s.data ++ fileHeader C.srcFilename C.source.length
          log := s.log ++ [.header] }
  | readEnd (hpc : s.parent = .readSrc) (hsource : s.source = []) :
      ParentMoves C s ok { s with parent := .closeData 0 false }
  | readSrc {k : ℕ} (hpc : s.parent = .readSrc) (hpos : 0 < k) (hk : k ≤ s.source.length)
      (hle : k ≤ bufferSize) :
      ParentMoves C s ok
        { s with parent := .write (s.source.take k) 0, source := s.source.drop k }
  | writeMore {buffer : List UInt8} {n k : ℕ} (hpc : s.parent = .write buffer n)
      (hopen : s.child.ClosedData = false) (hpos : 0 < k) (hk : n + k < buffer.length) :
      ParentMoves C s ok
        { s with parent := .write buffer (n + k), data := s.data ++ (buffer.drop n).take k }
  | writeLast {buffer : List UInt8} {n : ℕ} (hpc : s.parent = .write buffer n)
      (hopen : s.child.ClosedData = false) (hlt : n < buffer.length) :
      ParentMoves C s ok { s with parent := .readSrc, data := s.data ++ buffer.drop n }
  | closeData {status : ℤ} {sync : Bool} (hpc : s.parent = .closeData status sync) :
      ParentMoves C s ok { s with parent := if sync then .closeSync status else .wait status }
  | closeSync {status : ℤ} (hpc : s.parent = .closeSync status) :
      ParentMoves C s ok { s with parent := .wait status }
  | wait {status : ℤ} (hpc : s.parent = .wait status) (hchild : s.child = .exited true) :
      ParentMoves C s ok { s with parent := .returned status }
  | waitFails {status : ℤ} (hpc : s.parent = .wait status)
      (hwhy : ok = false ∨ s.child.phase = .failed) :
      ParentMoves C s ok { s with parent := .returned (-1) }

/-- The state after a call of the child. -/
inductive ChildMoves (s : State) (ok : Bool) : State → Prop
  | next {pc : ChildPc} (hpc : s.child.Opening = true) (hpc' : pc.Opening = true)
      (hlt : pc.rank < s.child.rank) : ChildMoves s ok { s with child := pc }
  | fail {pc : ChildPc} (hpc : s.child.phase ≠ .failed) (hdone : s.child.phase ≠ .ended)
      (hlt : pc.rank < s.child.rank)
      (hpc' : pc = .closeData false ∨ pc = .exit false ∨ pc = .killed)
      (hwhy : ok = false ∨ s.ChildFails) : ChildMoves s ok { s with child := pc }
  | signal (hpc : s.child = .signal) (hopen : s.parent.ClosedSync = false) :
      ChildMoves s ok
        { s with child := .readHeader, sync := s.sync ++ [82], log := s.log ++ [.signal] }
  | shortHeader (hpc : s.child = .readHeader) (hdata : s.data ≠ [])
      (hlt : s.data.length < headerSize) :
      ChildMoves s ok
        { s with
          child := .closeData false
          header := s.data.take headerSize
          data := s.data.drop headerSize }
  | readHeader (hpc : s.child = .readHeader) (hle : headerSize ≤ s.data.length) :
      ChildMoves s ok
        { s with
          child := .malloc
          header := s.data.take headerSize
          data := s.data.drop headerSize }
  | malloc (hpc : s.child = .malloc) : ChildMoves s ok { s with child := .openDest }
  | openDest (hpc : s.child = .openDest) :
      ChildMoves s ok
        { s with child := .read, dest := some (destFilename s.header), stored := [] }
  | readEnd (hpc : s.child = .read) (hdata : s.data = []) (hclosed : s.parent.ClosedData = true) :
      ChildMoves s ok { s with child := .closeData true }
  | read {k : ℕ} (hpc : s.child = .read) (hpos : 0 < k) (hk : k ≤ s.data.length) :
      ChildMoves s ok { s with child := .write (s.data.take k) 0, data := s.data.drop k }
  | writeMore {buffer : List UInt8} {n k : ℕ} (hpc : s.child = .write buffer n) (hpos : 0 < k)
      (hk : n + k < buffer.length) :
      ChildMoves s ok
        { s with child := .write buffer (n + k), stored := s.stored ++ (buffer.drop n).take k }
  | writeLast {buffer : List UInt8} {n : ℕ} (hpc : s.child = .write buffer n)
      (hlt : n < buffer.length) :
      ChildMoves s ok
        { s with
          child := .read
          stored := s.stored ++ buffer.drop n
          totalWritten := s.totalWritten + buffer.length }
  | closeData {success : Bool} (hpc : s.child = .closeData success) :
      ChildMoves s ok { s with child := .exit success }
  | exit {success : Bool} (hpc : s.child = .exit success) :
      ChildMoves s ok { s with child := .exited success }

section Moves

variable {C : Config} {s s' : State}

theorem parentMoves_of_writeBlock {buffer : List UInt8} {n k : ℕ} {ok : Bool}
    (hpc : s.parent = .write buffer n) (h : s.writeBlock C buffer n ok k = some s') :
    ParentMoves C s ok s' := by
  have hsending : s.parent.Sending = true := by rw [hpc]; rfl
  unfold State.writeBlock at h
  simp only at h
  split at h
  · rename_i hclosed
    obtain rfl := Option.some.inj h
    exact .fail (Or.inr hsending) (by simp) (Or.inr (Or.inr (Or.inr ⟨hsending, hclosed⟩)))
  · rename_i hopen
    have hopen := Bool.eq_false_iff.2 hopen
    split at h
    · rename_i hok
      obtain rfl := Option.some.inj h
      exact .fail (Or.inr hsending) (by simp) (Or.inl (by simpa using hok))
    · split at h
      · rename_i hk
        rw [List.length_drop] at hk
        obtain rfl := Option.some.inj h
        split
        · exact .writeMore hpc hopen hk.1 ‹_›
        · rw [List.take_of_length_le (by rw [List.length_drop]; omega)]
          exact .writeLast hpc hopen (by omega)
      · cases h

theorem parentMoves_of_step {ok : Bool} {k : ℕ} (h : s.runParentProcess C ok k = some s') :
    ParentMoves C s ok s' := by
  cases hpc : s.parent with
  | openSync waiting =>
    cases waiting with
    | false =>
      simp only [State.runParentProcess, hpc] at h
      obtain rfl := Option.some.inj h
      exact .next (by rw [hpc]; rfl) rfl (by rw [hpc]; decide)
    | true =>
      simp only [State.runParentProcess, hpc] at h
      split at h
      · cases h
      · obtain rfl := Option.some.inj h
        exact .next (by rw [hpc]; rfl) rfl (by rw [hpc]; decide)
  | openData waiting =>
    cases waiting with
    | false =>
      simp only [State.runParentProcess, hpc] at h
      obtain rfl := Option.some.inj h
      exact .next (by rw [hpc]; rfl) rfl (by rw [hpc]; decide)
    | true =>
      simp only [State.runParentProcess, hpc] at h
      split at h
      · cases h
      · cases h
      · obtain rfl := Option.some.inj h
        exact .next (by rw [hpc]; rfl) rfl (by rw [hpc]; decide)
  | openSrc =>
    simp only [State.runParentProcess, hpc] at h
    obtain rfl := Option.some.inj h
    split
    · exact .next (by rw [hpc]; rfl) rfl (by rw [hpc]; decide)
    · rename_i hfails
      refine .fail (Or.inl (by rw [hpc]; rfl)) (by simp) ?_
      by_cases hok : ok = true
      · exact Or.inr (Or.inl ⟨hpc, Nat.not_lt.1 fun hlt => hfails ⟨hok, hlt⟩⟩)
      · exact Or.inl (Bool.eq_false_iff.2 hok)
  | fstat =>
    simp only [State.runParentProcess, hpc] at h
    obtain rfl := Option.some.inj h
    cases ok
    · exact .fail (Or.inl (by rw [hpc]; rfl)) (by simp) (Or.inl rfl)
    · exact .next (by rw [hpc]; rfl) rfl (by rw [hpc]; decide)
  | ready =>
    simp only [State.runParentProcess, hpc] at h
    have hopening : s.parent.Opening = true := by rw [hpc]; rfl
    split at h
    · rename_i hok
      obtain rfl := Option.some.inj h
      exact .fail (Or.inl hopening) (by simp) (Or.inl (by simpa using hok))
    · split at h
      · rename_i hsync
        split at h
        · rename_i hclosed
          obtain rfl := Option.some.inj h
          exact .fail (Or.inl hopening) (by simp)
            (Or.inr (Or.inr (Or.inl ⟨hpc, by rw [hsync]; nofun, fun _ => hclosed⟩)))
        · cases h
      · rename_i b sync hsync
        split at h
        · rename_i hb
          subst hb
          obtain rfl := Option.some.inj h
          exact .ready hpc hsync
        · rename_i hb
          obtain rfl := Option.some.inj h
          refine .fail (Or.inl hopening) (by simp) (Or.inr (Or.inr (Or.inl ⟨hpc, ?_, ?_⟩)))
          · rw [hsync]
            exact fun heq => hb (Option.some.inj heq)
          · rw [hsync]
            nofun
  | writeHeader =>
    simp only [State.runParentProcess, hpc] at h
    have hsending : s.parent.Sending = true := by rw [hpc]; rfl
    split at h
    · rename_i hclosed
      obtain rfl := Option.some.inj h
      exact .fail (Or.inr hsending) (by simp) (Or.inr (Or.inr (Or.inr ⟨hsending, hclosed⟩)))
    · rename_i hopen
      split at h
      · rename_i hok
        obtain rfl := Option.some.inj h
        exact .fail (Or.inr hsending) (by simp) (Or.inl (by simpa using hok))
      · split at h
        · obtain rfl := Option.some.inj h
          exact .writeHeader hpc (Bool.eq_false_iff.2 hopen)
        · cases h
  | readSrc =>
    simp only [State.runParentProcess, hpc] at h
    split at h
    · rename_i hok
      obtain rfl := Option.some.inj h
      exact .fail (Or.inr (by rw [hpc]; rfl)) (by simp) (Or.inl (by simpa using hok))
    · split at h
      · rename_i hsource
        obtain rfl := Option.some.inj h
        exact .readEnd hpc hsource
      · split at h
        · rename_i hk
          obtain rfl := Option.some.inj h
          exact .readSrc hpc hk.1 hk.2.1 hk.2.2
        · cases h
  | write buffer n =>
    simp only [State.runParentProcess, hpc] at h
    exact parentMoves_of_writeBlock hpc h
  | closeData status sync =>
    simp only [State.runParentProcess, hpc] at h
    obtain rfl := Option.some.inj h
    exact .closeData hpc
  | closeSync status =>
    simp only [State.runParentProcess, hpc] at h
    obtain rfl := Option.some.inj h
    exact .closeSync hpc
  | wait status =>
    simp only [State.runParentProcess, hpc] at h
    split at h
    · rename_i hok
      obtain rfl := Option.some.inj h
      exact .waitFails hpc (Or.inl (by simpa using hok))
    · split at h
      · rename_i success hchild
        obtain rfl := Option.some.inj h
        cases success
        · exact .waitFails hpc (Or.inr (by rw [hchild]; rfl))
        · exact .wait hpc hchild
      · rename_i hchild
        obtain rfl := Option.some.inj h
        exact .waitFails hpc (Or.inr (by rw [hchild]; rfl))
      · cases h
  | returned | killed =>
    simp only [State.runParentProcess, hpc] at h
    cases h

theorem childMoves_of_writeDest {buffer : List UInt8} {n k : ℕ} {ok : Bool}
    (hpc : s.child = .write buffer n) (h : s.writeDest buffer n ok k = some s') :
    ChildMoves s ok s' := by
  unfold State.writeDest at h
  simp only at h
  split at h
  · rename_i hok
    obtain rfl := Option.some.inj h
    exact .fail (by rw [hpc]; nofun) (by rw [hpc]; nofun) (by rw [hpc]; exact Nat.lt_succ_self 2)
      (by simp) (Or.inl (by simpa using hok))
  · split at h
    · rename_i hk
      rw [List.length_drop] at hk
      split at h
      · obtain rfl := Option.some.inj h
        exact .writeMore hpc hk.1 ‹_›
      · obtain rfl := Option.some.inj h
        rw [List.take_of_length_le (by rw [List.length_drop]; omega)]
        exact .writeLast hpc (by omega)
    · cases h

theorem childMoves_of_step {ok : Bool} {k : ℕ} (h : s.runChildProcess ok k = some s') :
    ChildMoves s ok s' := by
  cases hpc : s.child with
  | openSync waiting =>
    cases waiting with
    | false =>
      simp only [State.runChildProcess, hpc] at h
      obtain rfl := Option.some.inj h
      exact .next (by rw [hpc]; rfl) rfl (by rw [hpc]; decide)
    | true =>
      simp only [State.runChildProcess, hpc] at h
      split at h
      · cases h
      · obtain rfl := Option.some.inj h
        exact .next (by rw [hpc]; rfl) rfl (by rw [hpc]; decide)
  | openData waiting =>
    cases waiting with
    | false =>
      simp only [State.runChildProcess, hpc] at h
      obtain rfl := Option.some.inj h
      exact .next (by rw [hpc]; rfl) rfl (by rw [hpc]; decide)
    | true =>
      simp only [State.runChildProcess, hpc] at h
      split at h
      · cases h
      · cases h
      · obtain rfl := Option.some.inj h
        exact .next (by rw [hpc]; rfl) rfl (by rw [hpc]; decide)
  | signal =>
    simp only [State.runChildProcess, hpc] at h
    have hfail {pc : ChildPc} (hlt : pc.rank < 8)
        (hpc' : pc = .closeData false ∨ pc = .exit false ∨ pc = .killed)
        (hwhy : ok = false ∨ s.ChildFails) : ChildMoves s ok { s with child := pc } :=
      .fail (by rw [hpc]; nofun) (by rw [hpc]; nofun) (by rw [hpc]; exact hlt) hpc' hwhy
    split at h
    · rename_i hclosed
      obtain rfl := Option.some.inj h
      exact hfail (by decide) (by simp) (Or.inr (Or.inl ⟨hpc, hclosed⟩))
    · rename_i hclosed
      split at h <;> rename_i hok <;> obtain rfl := Option.some.inj h
      · exact hfail (by decide) (by simp) (Or.inl (by simpa using hok))
      · exact .signal hpc (Bool.eq_false_iff.2 hclosed)
  | readHeader =>
    simp only [State.runChildProcess, hpc] at h
    have hfail (hwhy : ok = false ∨ s.ChildFails) :
        ChildMoves s ok { s with child := .closeData false } :=
      .fail (by rw [hpc]; nofun) (by rw [hpc]; nofun) (by rw [hpc]; decide) (by simp) hwhy
    split at h
    · rename_i hok
      obtain rfl := Option.some.inj h
      exact hfail (Or.inl (by simpa using hok))
    · split at h
      · rename_i hdata
        split at h
        · rename_i hclosed
          obtain rfl := Option.some.inj h
          exact hfail (Or.inr (Or.inr ⟨hpc, hdata, hclosed⟩))
        · cases h
      · rename_i hdata
        obtain rfl := Option.some.inj h
        split
        · exact .shortHeader hpc hdata ‹_›
        · exact .readHeader hpc (Nat.not_lt.1 ‹_›)
  | malloc =>
    simp only [State.runChildProcess, hpc] at h
    obtain rfl := Option.some.inj h
    cases ok
    · exact .fail (by rw [hpc]; nofun) (by rw [hpc]; nofun) (by rw [hpc]; decide) (by simp)
        (Or.inl rfl)
    · exact .malloc hpc
  | openDest =>
    simp only [State.runChildProcess, hpc] at h
    split at h <;> rename_i hok <;> obtain rfl := Option.some.inj h
    · exact .openDest hpc
    · exact .fail (by rw [hpc]; nofun) (by rw [hpc]; nofun) (by rw [hpc]; decide) (by simp)
        (Or.inl (Bool.eq_false_iff.2 hok))
  | read =>
    simp only [State.runChildProcess, hpc] at h
    split at h
    · rename_i hok
      obtain rfl := Option.some.inj h
      exact .fail (by rw [hpc]; nofun) (by rw [hpc]; nofun) (by rw [hpc]; decide) (by simp)
        (Or.inl (by simpa using hok))
    · split at h
      · rename_i hdata
        split at h
        · rename_i hclosed
          obtain rfl := Option.some.inj h
          exact .readEnd hpc hdata hclosed
        · cases h
      · split at h
        · rename_i hk
          obtain rfl := Option.some.inj h
          exact .read hpc hk.1 hk.2.1
        · cases h
  | write buffer n =>
    simp only [State.runChildProcess, hpc] at h
    exact childMoves_of_writeDest hpc h
  | closeData success =>
    simp only [State.runChildProcess, hpc] at h
    obtain rfl := Option.some.inj h
    exact .closeData hpc
  | exit success =>
    simp only [State.runChildProcess, hpc] at h
    obtain rfl := Option.some.inj h
    exact .exit hpc
  | exited | killed =>
    simp only [State.runChildProcess, hpc] at h
    cases h

end Moves

/-! ## Every run ends -/

/-- What is left to do: calls, and bytes to be sent, to be read and to be stored. -/
def State.remaining (s : State) : ℕ :=
  s.parent.rank + s.child.rank +
    4 * (s.parent.header + s.parent.rest.length + s.source.length) +
    2 * (s.data.length + s.child.rest.length)

section Remaining

variable {C : Config} {s s' : State} {ok : Bool}

theorem ParentPc.rest_of_opening {pc : ParentPc} (h : pc.Opening = true) : pc.rest = [] := by
  cases pc <;> first | rfl | cases h

theorem ParentPc.header_of_opening {pc : ParentPc} (h : pc.Opening = true) :
    pc.header = headerSize := by
  cases pc <;> first | rfl | cases h

theorem ChildPc.rest_of_opening {pc : ChildPc} (h : pc.Opening = true) : pc.rest = [] := by
  cases pc <;> first | rfl | cases h

theorem ParentPc.rank_of_failing {pc pc' : ParentPc}
    (h : pc.Opening = true ∨ pc.Sending = true)
    (h' : pc' = .closeData (-1) true ∨ pc' = .closeData (-1) false ∨ pc' = .killed) :
    pc'.rank < pc.rank ∧ pc'.rest = [] ∧ pc'.header = 0 := by
  have hrank : 4 ≤ pc.rank := by
    cases pc with
    | openSync waiting => cases waiting <;> decide
    | openData waiting => cases waiting <;> decide
    | write buffer bytesWritten => exact le_rfl
    | closeData => simp [Opening, Sending] at h
    | closeSync => simp [Opening, Sending] at h
    | wait => simp [Opening, Sending] at h
    | returned => simp [Opening, Sending] at h
    | killed => simp [Opening, Sending] at h
    | _ => decide
  rcases h' with rfl | rfl | rfl
  · exact ⟨hrank, rfl, rfl⟩
  · exact ⟨hrank, rfl, rfl⟩
  · exact ⟨by change 0 < pc.rank; omega, rfl, rfl⟩

theorem ParentMoves.remaining_lt (h : ParentMoves C s ok s') : s'.remaining < s.remaining := by
  cases h
  case next hpc hpc' hlt =>
    simp only [State.remaining, ParentPc.rest_of_opening hpc, ParentPc.rest_of_opening hpc',
      ParentPc.header_of_opening hpc, ParentPc.header_of_opening hpc']
    omega
  case fail hpc hpc' _ =>
    obtain ⟨hrank, hrest, hheader⟩ := ParentPc.rank_of_failing hpc hpc'
    simp only [State.remaining, hrest, hheader, List.length_nil]
    omega
  case writeHeader hpc hopen =>
    simp only [State.remaining, hpc, ParentPc.rest, ParentPc.header, ParentPc.rank,
      List.length_append, length_fileHeader]
    omega
  case readSrc k hpc hpos hk hle =>
    simp only [State.remaining, hpc, ParentPc.rest, ParentPc.header, ParentPc.rank,
      List.length_drop, List.length_take, List.length_nil]
    omega
  case writeMore buffer n k hpc hopen hpos hk =>
    simp only [State.remaining, hpc, ParentPc.rest, ParentPc.header, ParentPc.rank,
      List.length_append, List.length_drop, List.length_take]
    omega
  case writeLast buffer n hpc hopen hlt =>
    simp only [State.remaining, hpc, ParentPc.rest, ParentPc.header, ParentPc.rank,
      List.length_append, List.length_drop, List.length_nil]
    omega
  case closeData status sync hpc =>
    cases sync <;>
      simp only [State.remaining, hpc, ParentPc.rest, ParentPc.header, ParentPc.rank] <;> simp
  all_goals
    simp only [State.remaining, ‹s.parent = _›, ParentPc.rest, ParentPc.header, ParentPc.rank]
    omega

theorem ChildMoves.remaining_lt (h : ChildMoves s ok s') : s'.remaining < s.remaining := by
  cases h
  case next hpc hpc' hlt =>
    simp only [State.remaining, ChildPc.rest_of_opening hpc, ChildPc.rest_of_opening hpc']
    omega
  case fail pc hpc hdone hlt hpc' hwhy =>
    have hrest : pc.rest = [] := by rcases hpc' with rfl | rfl | rfl <;> rfl
    simp only [State.remaining, hrest, List.length_nil]
    omega
  case shortHeader hpc hdata hlt =>
    simp only [State.remaining, hpc, ChildPc.rest, ChildPc.rank, List.length_drop]
    omega
  case readHeader hpc hle =>
    simp only [State.remaining, hpc, ChildPc.rest, ChildPc.rank, List.length_drop]
    omega
  case read k hpc hpos hk =>
    simp only [State.remaining, hpc, ChildPc.rest, ChildPc.rank, List.length_drop,
      List.length_take, List.length_nil]
    omega
  case writeMore buffer n k hpc hpos hk =>
    simp only [State.remaining, hpc, ChildPc.rest, ChildPc.rank, List.length_drop]
    omega
  case writeLast buffer n hpc hlt =>
    simp only [State.remaining, hpc, ChildPc.rest, ChildPc.rank, List.length_drop,
      List.length_nil]
    omega
  all_goals
    simp only [State.remaining, ‹s.child = _›, ChildPc.rest, ChildPc.rank]
    omega

theorem remaining_lt_of_step {a : Action} (h : s.step C a = some s') :
    s'.remaining < s.remaining := by
  cases a with
  | parent ok k => exact (parentMoves_of_step h).remaining_lt
  | child ok k => exact (childMoves_of_step h).remaining_lt

/-- **Every run ends**, whatever the calls return. -/
theorem length_le_of_run {as : List Action} (h : runFrom (State.step C) s as = some s') :
    as.length ≤ s.remaining :=
  length_le_of_decreasing (I := fun _ => True) (fun _ _ _ _ _ => trivial)
    (fun _ _ _ _ hs => remaining_lt_of_step hs) trivial h

end Remaining

end EltexPractice.Copier.ShortCalls
