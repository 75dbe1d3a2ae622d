import EltexPractice.Foundations.CString
import EltexPractice.Foundations.Schedule
import EltexPractice.Foundations.Words

/-!
# The two processes of the copier

`run_parent_process` and `run_child_process` of task 1 call by call, from the `fork` to the end of
both, with the data that goes through the channels. Nothing in the program changes what `SIGPIPE`
does: a write to a channel that nobody has open for reading ends the writer.

A channel is a pipe or a FIFO of at least `PIPE_BUF` bytes, so a header or a block is written whole
or not at all. Of a FIFO each end is opened in a call that waits for the other end; the two ends of
a pipe are there from the start, the right ones, and the copies of them that a process does not use
are closed.

The argument `ok` of a step says whether a call succeeds that may fail, and `k` how many bytes the
destination takes in one `write`.
-/

namespace EltexPractice.Copier.Transfer

open CString

/-- `PIPE_BUF`. -/
def pipeBuf : ℕ := 4096

/-- `BUFFER_SIZE`. -/
def bufferSize : ℕ := 1024

/-- The `struct FileHeader` that is sent. -/
def fileHeader (srcFilename : List UInt8) (fileSize : ℕ) : List UInt8 :=
  strncpy (List.replicate 256 0) srcFilename 255 ++ leBytes 8 fileSize

/-- `sizeof(struct FileHeader)`. -/
def headerSize : ℕ := 264

theorem length_fileHeader (srcFilename : List UInt8) (fileSize : ℕ) :
    (fileHeader srcFilename fileSize).length = headerSize := by
  have hle : 255 ≤ (List.replicate 256 (0 : UInt8)).length := by
    rw [List.length_replicate]
    omega
  rw [fileHeader, List.length_append, length_leBytes, length_strncpy srcFilename hle,
    List.length_replicate, headerSize]

/-- The kind of the channels. -/
inductive Mode
  | pipe
  | fifo
  deriving DecidableEq

/-- The destination: `open` fails, or `write` fails when there are so many bytes in the file. -/
inductive Dest
  | refused
  | room (n : ℕ)
  deriving DecidableEq

/-- What a call of `copy_file` finds. -/
structure Config where
  mode : Mode
  srcFilename : List UInt8
  source : List UInt8
  dest : Dest
  capacity : ℕ
  le_capacity : pipeBuf ≤ capacity

/-! ## The processes -/

/-- Why the child exits. -/
inductive ChildExit
  | success
  | noHeader
  | noMemory
  | noDest
  | noWrite
  /-- by `SIGPIPE` -/
  | killed
  deriving DecidableEq

/-- Where the child stands. -/
inductive ChildPc
  /-- `open(fifo_sync_path, O_WRONLY)`: called, or waiting for the reader -/
  | openSync (waiting : Bool)
  /-- `open(fifo_data_path, O_RDONLY)` -/
  | openData (waiting : Bool)
  /-- `write(sync_write_fd, &ready_signal, 1)` -/
  | signal
  | readHeader
  | malloc
  | openDest
  /-- `read(data_read_fd, buffer, sizeof(buffer))` -/
  | read
  /-- `write(fd_out, …)`, with what is left of the block -/
  | write (rest : List UInt8)
  /-- `close(data_read_fd)` -/
  | closeData (e : ChildExit)
  /-- `_exit` -/
  | exit (e : ChildExit)
  | exited (e : ChildExit)
  deriving DecidableEq

/-- Where the parent stands. -/
inductive ParentPc
  /-- `open(fifo_sync_path, O_RDONLY)`: called, or waiting for the writer -/
  | openSync (waiting : Bool)
  /-- `open(fifo_data_path, O_WRONLY)` -/
  | openData (waiting : Bool)
  /-- `open(src_filename, O_RDONLY)` -/
  | openSrc
  | fstat
  /-- `read(sync_read_fd, &ready_signal, 1)` -/
  | ready
  | writeHeader
  /-- `read(fd_in, buffer, sizeof(buffer))` -/
  | readSrc
  /-- `write(data_write_fd, …)` -/
  | write (block : List UInt8)
  /-- `close(data_write_fd)`, and whether `close(sync_read_fd)` is still to come -/
  | closeData (status : ℤ) (sync : Bool)
  | closeSync (status : ℤ)
  /-- `waitpid` -/
  | wait (status : ℤ)
  /-- `copy_file` has returned -/
  | returned (status : ℤ)
  /-- by `SIGPIPE` -/
  | killed
  deriving DecidableEq

namespace ChildPc

/-- The reading end of the data channel is closed. -/
def ClosedData : ChildPc → Bool
  | .exit _ => true
  | .exited _ => true
  | _ => false

/-- The writing end of the sync channel is closed. -/
def ClosedSync : ChildPc → Bool
  | .openSync _ => false
  | .openData _ => false
  | .signal => false
  | _ => true

end ChildPc

namespace ParentPc

/-- The writing end of the data channel is closed. -/
def ClosedData : ParentPc → Bool
  | .closeSync _ => true
  | .wait _ => true
  | .returned _ => true
  | .killed => true
  | _ => false

/-- The reading end of the sync channel is closed. -/
def ClosedSync : ParentPc → Bool
  | .openSync _ => false
  | .openData _ => false
  | .openSrc => false
  | .fstat => false
  | .ready => false
  | .closeData _ sync => !sync
  | .closeSync _ => false
  | _ => true

end ParentPc

/-- Both processes, the channels, what is left of the source, the destination, and how many bytes
of the file the child has read. -/
structure State where
  parent : ParentPc
  child : ChildPc
  sync : Bool
  data : List UInt8
  source : List UInt8
  stored : List UInt8
  taken : ℕ

namespace State

/-- After the `fork`. -/
def init (C : Config) : State where
  parent := match C.mode with
    | .pipe => .openSrc
    | .fifo => .openSync false
  child := match C.mode with
    | .pipe => .signal
    | .fifo => .openSync false
  sync := false
  data := []
  source := C.source
  stored := []
  taken := 0

/-- A `write` of the parent to the data channel: it waits for room, and without a reader it ends
the parent. -/
def writeData (C : Config) (s : State) (bytes : List UInt8) : Option State :=
  if s.child.ClosedData then some { s with parent := .killed }
  else if s.data.length + bytes.length ≤ C.capacity then
    some { s with parent := .readSrc, data := s.data ++ bytes }
  else none

/-- The status of `copy_file`, from the one of the copy and the end of the child. -/
def finalStatus (status : ℤ) (e : ChildExit) : ℤ := if e = .success then status else -1

/-- The opens of the parent, `run_parent_process`. -/
def runParentProcess (C : Config) (s : State) (ok : Bool) : Option State :=
  match s.parent with
  | .openSync false => some { s with parent := .openSync true }
  | .openSync true =>
    if s.child = .openSync false then none else some { s with parent := .openData false }
  | .openData false => some { s with parent := .openData true }
  | .openData true =>
    match s.child with
    | .openSync _ => none
    | .openData false => none
    | _ => some { s with parent := .openSrc }
  | .openSrc => some { s with parent := if ok then .fstat else .closeData (-1) true }
  | .fstat => some { s with parent := if ok then .ready else .closeData (-1) true }
  | .ready =>
    if s.sync then some { s with parent := .writeHeader, sync := false }
    else if s.child.ClosedSync then some { s with parent := .closeData (-1) true }
    else none
  | .writeHeader => s.writeData C (fileHeader C.srcFilename C.source.length)
  | .readSrc =>
    if !ok then some { s with parent := .closeData (-1) false }
    else if s.source = [] then some { s with parent := .closeData 0 false }
    else
      some { s with
        parent := .write (s.source.take bufferSize)
        source := s.source.drop bufferSize }
  | .write block => s.writeData C block
  | .closeData status sync =>
    some { s with parent := if sync then .closeSync status else .wait status }
  | .closeSync status => some { s with parent := .wait status }
  | .wait status =>
    match s.child with
    | .exited e => some { s with parent := .returned (finalStatus status e) }
    | _ => none
  | .returned _ => none
  | .killed => none

/-- A `write` of the child to the destination, of which `k` bytes get there. -/
def writeDest (C : Config) (s : State) (rest : List UInt8) (k : ℕ) : Option State :=
  match C.dest with
  | .refused => none
  | .room n =>
    if n ≤ s.stored.length then some { s with child := .closeData .noWrite }
    else if 0 < k ∧ k ≤ rest.length ∧ s.stored.length + k ≤ n then
      some { s with
        child := if rest.drop k = [] then .read else .write (rest.drop k)
        stored := s.stored ++ rest.take k }
    else none

/-- The opens of the child, `run_child_process`. -/
def runChildProcess (C : Config) (s : State) (ok : Bool) (k : ℕ) : Option State :=
  match s.child with
  | .openSync false => some { s with child := .openSync true }
  | .openSync true =>
    if s.parent = .openSync false then none else some { s with child := .openData false }
  | .openData false => some { s with child := .openData true }
  | .openData true =>
    match s.parent with
    | .openSync _ => none
    | .openData false => none
    | _ => some { s with child := .signal }
  | .signal =>
    if s.parent.ClosedSync then some { s with child := .exited .killed }
    else some { s with child := .readHeader, sync := true }
  | .readHeader =>
    if s.data = [] then
      if s.parent.ClosedData then some { s with child := .closeData .noHeader } else none
    else
      some { s with
        child := if headerSize ≤ s.data.length then .malloc else .closeData .noHeader
        data := s.data.drop headerSize }
  | .malloc => some { s with child := if ok then .openDest else .closeData .noMemory }
  | .openDest =>
    some { s with child := if C.dest = .refused then .closeData .noDest else .read }
  | .read =>
    if s.data = [] then
      if s.parent.ClosedData then some { s with child := .closeData .success } else none
    else
      some { s with
        child := .write (s.data.take bufferSize)
        data := s.data.drop bufferSize
        taken := s.taken + (s.data.take bufferSize).length }
  | .write rest => s.writeDest C rest k
  | .closeData e => some { s with child := .exit e }
  | .exit e => some { s with child := .exited e }
  | .exited _ => none

end State

/-- Which process does the next call. -/
inductive Action
  | parent (ok : Bool)
  | child (ok : Bool) (k : ℕ)

def State.step (C : Config) (s : State) : Action → Option State
  | .parent ok => s.runParentProcess C ok
  | .child ok k => s.runChildProcess C ok k

end EltexPractice.Copier.Transfer
