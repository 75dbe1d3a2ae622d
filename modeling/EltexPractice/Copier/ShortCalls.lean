import EltexPractice.Copier.Transfer

/-!
# The copier with short reads and writes

`run_parent_process` and `run_child_process` once more, with both copy loops as they are: a `read`
of the source, of the data channel or a `write` to the destination may move fewer bytes than it is
asked to, and every call may fail. The header is a structure in the stream: the child finds the
name of the destination and the size of the file in the bytes it has read.

A `write` of at most `PIPE_BUF` bytes to a channel is whole, so the header is there whole when the
child reads it. The channels themselves are those of `Transfer`; their opens do not fail.

`ok` says whether a call succeeds, and `k` how many bytes it moves.
-/

namespace EltexPractice.Copier.ShortCalls

open CString
open Transfer (Mode pipeBuf bufferSize headerSize fileHeader)

/-- `PATH_MAX`, with the NUL. -/
def pathMax : ℕ := 4096

/-- What a call of `copy_file` finds. -/
structure Config where
  mode : Mode
  srcFilename : List UInt8
  source : List UInt8
  /-- `st_size` is an `off_t`. -/
  source_lt : source.length < 2 ^ 63
  capacity : ℕ
  le_capacity : pipeBuf ≤ capacity

/-! ## The header, as the child reads it -/

/-- `header.filename` followed by `.copy`. -/
def destFilename (header : List UInt8) : List UInt8 := cstr (header.take 256) ++ ascii ".copy"

/-- `header.file_size` -/
def fileSize (header : List UInt8) : ℕ := leValue (header.drop 256)

/-! ## The processes -/

/-- Where the child stands; `success` is that of its exit status. -/
inductive ChildPc
  | openSync (waiting : Bool)
  | openData (waiting : Bool)
  /-- `write(sync_write_fd, &ready_signal, 1)` -/
  | signal
  | readHeader
  | malloc
  | openDest
  /-- `read(data_read_fd, buffer, sizeof(buffer))` -/
  | read
  /-- `write(fd_out, buffer + bytes_written, bytes_read - bytes_written)` -/
  | write (buffer : List UInt8) (bytesWritten : ℕ)
  /-- `close(data_read_fd)` -/
  | closeData (success : Bool)
  | exit (success : Bool)
  | exited (success : Bool)
  /-- by `SIGPIPE` -/
  | killed

/-- Where the parent stands. -/
inductive ParentPc
  | openSync (waiting : Bool)
  | openData (waiting : Bool)
  /-- `open(src_filename, O_RDONLY)` -/
  | openSrc
  | fstat
  /-- `read(sync_read_fd, &ready_signal, 1)` -/
  | ready
  | writeHeader
  /-- `read(fd_in, buffer, sizeof(buffer))` -/
  | readSrc
  /-- `write(data_write_fd, buffer + bytes_written, bytes_read - bytes_written)` -/
  | write (buffer : List UInt8) (bytesWritten : ℕ)
  /-- `close(data_write_fd)`, and whether `close(sync_read_fd)` is still to come -/
  | closeData (status : ℤ) (sync : Bool)
  | closeSync (status : ℤ)
  /-- `waitpid` -/
  | wait (status : ℤ)
  /-- `copy_file` has returned -/
  | returned (status : ℤ)
  /-- by `SIGPIPE` -/
  | killed

namespace ChildPc

/-- The reading end of the data channel is closed. -/
def ClosedData : ChildPc → Bool
  | .exit _ => true
  | .exited _ => true
  | .killed => true
  | _ => false

/-- The writing end of the sync channel is closed. -/
def ClosedSync : ChildPc → Bool
  | .openSync _ => false
  | .openData _ => false
  | .signal => false
  | _ => true

end ChildPc

namespace ParentPc

/-- The writing end of the data channel is closed. -/
def ClosedData : ParentPc → Bool
  | .closeSync _ => true
  | .wait _ => true
  | .returned _ => true
  | .killed => true
  | _ => false

/-- The reading end of the sync channel is closed. -/
def ClosedSync : ParentPc → Bool
  | .openSync _ => false
  | .openData _ => false
  | .openSrc => false
  | .fstat => false
  | .ready => false
  | .closeData _ sync => !sync
  | .closeSync _ => false
  | _ => true

end ParentPc

/-- What the two say to each other before the file is sent. -/
inductive Event
  /-- The child has written `R`. -/
  | signal
  /-- The parent has read `R`. -/
  | ready
  /-- The parent has sent the header. -/
  | header
  deriving DecidableEq

structure State where
  parent : ParentPc
  child : ChildPc
  /-- In the sync channel. -/
  sync : List UInt8
  /-- In the data channel. -/
  data : List UInt8
  /-- Not read by the parent yet. -/
  source : List UInt8
  /-- `header` of the child. -/
  header : List UInt8
  /-- The path the child has opened. -/
  dest : Option (List UInt8)
  /-- The content of the destination. -/
  stored : List UInt8
  /-- `total_written` -/
  totalWritten : ℕ
  log : List Event

namespace State

/-- After the `fork`. -/
def init (C : Config) : State where
  parent := match C.mode with
    | .pipe => .openSrc
    | .fifo => .openSync false
  child := match C.mode with
    | .pipe => .signal
    | .fifo => .openSync false
  sync := []
  data := []
  source := C.source
  header := []
  dest := none
  stored := []
  totalWritten := 0
  log := []

/-- A `write` of a block to the data channel, of which `k` bytes get there: all of them when they
are at most `PIPE_BUF`. -/
def writeBlock (C : Config) (s : State) (buffer : List UInt8) (bytesWritten : ℕ) (ok : Bool)
    (k : ℕ) : Option State :=
  let rest := buffer.drop bytesWritten
  if s.child.ClosedData then some { s with parent := .killed }
  else if !ok then some { s with parent := .closeData (-1) false }
  else if 0 < k ∧ k ≤ rest.length ∧ (rest.length ≤ pipeBuf → k = rest.length) ∧
      s.data.length + k ≤ C.capacity then
    some { s with
      parent :=
        if bytesWritten + k < buffer.length then .write buffer (bytesWritten + k) else .readSrc
      data := s.data ++ rest.take k }
  else none

/-- `run_parent_process`, with the opens of a FIFO in front. -/
def runParentProcess (C : Config) (s : State) (ok : Bool) (k : ℕ) : Option State :=
  match s.parent with
  | .openSync false => some { s with parent := .openSync true }
  | .openSync true =>
    match s.child with
    | .openSync false => none
    | _ => some { s with parent := .openData false }
  | .openData false => some { s with parent := .openData true }
  | .openData true =>
    match s.child with
    | .openSync _ => none
    | .openData false => none
    | _ => some { s with parent := .openSrc }
  | .openSrc =>
    some { s with
      parent := if ok ∧ C.srcFilename.length < pathMax then .fstat else .closeData (-1) true }
  | .fstat => some { s with parent := if ok then .ready else .closeData (-1) true }
  | .ready =>
    if !ok then some { s with parent := .closeData (-1) true }
    else
      match s.sync with
      | [] => if s.child.ClosedSync then some { s with parent := .closeData (-1) true } else none
      | readySignal :: sync =>
        if readySignal = 82 then
          some { s with parent := .writeHeader, sync, log := s.log ++ [.ready] }
        else some { s with parent := .closeData (-1) true, sync }
  | .writeHeader =>
    if s.child.ClosedData then some { s with parent := .killed }
    else if !ok then some { s with parent := .closeData (-1) false }
    else if s.data.length + headerSize ≤ C.capacity then
      some { s with
        parent := .readSrc
        data := s.data ++ fileHeader C.srcFilename C.source.length
        log := s.log ++ [.header] }
    else none
  | .readSrc =>
    if !ok then some { s with parent := .closeData (-1) false }
    else if s.source = [] then some { s with parent := .closeData 0 false }
    else if 0 < k ∧ k ≤ s.source.length ∧ k ≤ bufferSize then
      some { s with parent := .write (s.source.take k) 0, source := s.source.drop k }
    else none
  | .write buffer bytesWritten => s.writeBlock C buffer bytesWritten ok k
  | .closeData status sync =>
    some { s with parent := if sync then .closeSync status else .wait status }
  | .closeSync status => some { s with parent := .wait status }
  | .wait status =>
    if !ok then some { s with parent := .returned (-1) }
    else
      match s.child with
      | .exited success => some { s with parent := .returned (if success then status else -1) }
      | .killed => some { s with parent := .returned (-1) }
      | _ => none
  | .returned _ => none
  | .killed => none

/-- A `write` of the child to the destination, of which `k` bytes get there. -/
def writeDest (s : State) (buffer : List UInt8) (bytesWritten : ℕ) (ok : Bool) (k : ℕ) :
    Option State :=
  let rest := buffer.drop bytesWritten
  if !ok then some { s with child := .closeData false }
  else if 0 < k ∧ k ≤ rest.length then
    if bytesWritten + k < buffer.length then
      some { s with child := .write buffer (bytesWritten + k), stored := s.stored ++ rest.take k }
    else
      some { s with
        child := .read
        stored := s.stored ++ rest.take k
        totalWritten := s.totalWritten + buffer.length }
  else none

/-- `run_child_process`, with the opens of a FIFO in front. -/
def runChildProcess (s : State) (ok : Bool) (k : ℕ) : Option State :=
  match s.child with
  | .openSync false => some { s with child := .openSync true }
  | .openSync true =>
    match s.parent with
    | .openSync false => none
    | _ => some { s with child := .openData false }
  | .openData false => some { s with child := .openData true }
  | .openData true =>
    match s.parent with
    | .openSync _ => none
    | .openData false => none
    | _ => some { s with child := .signal }
  | .signal =>
    if s.parent.ClosedSync then some { s with child := .killed }
    else if !ok then some { s with child := .exit false }
    else some { s with child := .readHeader, sync := s.sync ++ [82], log := s.log ++ [.signal] }
  | .readHeader =>
    if !ok then some { s with child := .closeData false }
    else if s.data = [] then
      if s.parent.ClosedData then some { s with child := .closeData false } else none
    else
      -- a pipe gives a reader what is in it: a header that was written atomically is read whole
      some { s with
        child := if s.data.length < headerSize then .closeData false else .malloc
        header := s.data.take headerSize
        data := s.data.drop headerSize }
  | .malloc => some { s with child := if ok then .openDest else .closeData false }
  | .openDest =>
    if ok then some { s with child := .read, dest := some (destFilename s.header), stored := [] }
    else some { s with child := .closeData false }
  | .read =>
    if !ok then some { s with child := .closeData false }
    else if s.data = [] then
      if s.parent.ClosedData then some { s with child := .closeData true } else none
    else if 0 < k ∧ k ≤ s.data.length ∧ k ≤ bufferSize then
      some { s with child := .write (s.data.take k) 0, data := s.data.drop k }
    else none
  | .write buffer bytesWritten => s.writeDest buffer bytesWritten ok k
  | .closeData success => some { s with child := .exit success }
  | .exit success => some { s with child := .exited success }
  | .exited _ => none
  | .killed => none

end State

/-- Which process does the next call. -/
inductive Action
  | parent (ok : Bool) (k : ℕ)
  | child (ok : Bool) (k : ℕ)

/-- The call does not fail. -/
def Action.Ok : Action → Prop
  | .parent ok _ => ok = true
  | .child ok _ => ok = true

def State.step (C : Config) (s : State) : Action → Option State
  | .parent ok k => s.runParentProcess C ok k
  | .child ok k => s.runChildProcess ok k

end EltexPractice.Copier.ShortCalls
