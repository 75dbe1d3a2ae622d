import Mathlib.Data.Finset.Lattice.Fold
import Mathlib.Data.Nat.Find
import Mathlib.Logic.Function.Basic

/-!
# The descriptors of the copier

`copier.c` of task 1 with unnamed pipes, as far as its descriptors go. A descriptor table says what
is behind each number; `pipe` and `open` take the lowest free numbers, and `fork` copies the table.
Which calls fail, and how often the loops run, is part of a call of `copy_file`. The log lists each
use and each `close` of a descriptor as an end of one of the two pipes, with the end it is used as
and with what really is behind it.
-/

namespace EltexPractice.Copier

/-- The ends of the two pipes. -/
inductive End
  | dataRead
  | dataWrite
  | syncRead
  | syncWrite
  deriving DecidableEq

/-- What is behind a descriptor. -/
inductive Obj
  /-- Open before the first file, under the number `n`. -/
  | outside (n : ℕ)
  /-- An end of a pipe of the call number `call` of `copy_file`. -/
  | pipe (call : ℕ) (e : End)
  /-- The source file or the destination file. -/
  | file
  deriving DecidableEq

/-! ## Descriptor tables -/

/-- A descriptor table, with finitely many descriptors open. -/
@[ext] structure Fds where
  obj : ℕ → Option Obj
  finite : ∃ n, ∀ m, n ≤ m → obj m = none

namespace Fds

/-- The descriptors open at the start. -/
def ofOpen (s : Finset ℕ) : Fds where
  obj n := if n ∈ s then some (.outside n) else none
  finite := by
    refine ⟨s.sup id + 1, fun m hm => if_neg fun hs => ?_⟩
    have hle : m ≤ s.sup id := Finset.le_sup (f := id) hs
    omega

theorem exists_free (t : Fds) : ∃ n, t.obj n = none := by
  obtain ⟨n, hn⟩ := t.finite
  exact ⟨n, hn n le_rfl⟩

/-- The lowest free number. -/
def lowest (t : Fds) : ℕ := Nat.find t.exists_free

theorem finite_update (t : Fds) (fd : ℕ) (o : Option Obj) :
    ∃ n, ∀ m, n ≤ m → Function.update t.obj fd o m = none := by
  obtain ⟨n, hn⟩ := t.finite
  refine ⟨max n (fd + 1), fun m hm => ?_⟩
  rw [Function.update_of_ne (by omega)]
  exact hn m (by omega)

/-- A descriptor is closed. -/
def close (t : Fds) (fd : ℕ) : Fds := ⟨Function.update t.obj fd none, t.finite_update fd none⟩

/-- A free descriptor is opened. -/
def set (t : Fds) (fd : ℕ) (o : Obj) : Fds :=
  ⟨Function.update t.obj fd (some o), t.finite_update fd (some o)⟩

/-- A new descriptor gets the lowest free number. -/
def alloc (t : Fds) (o : Obj) : ℕ × Fds := (t.lowest, t.set t.lowest o)

/-- `pipe`: the number of the read end, that of the write end, and the table. -/
def pipe (t : Fds) (call : ℕ) (r w : End) : ℕ × ℕ × Fds :=
  let (rd, t) := t.alloc (.pipe call r)
  let (wr, t) := t.alloc (.pipe call w)
  (rd, wr, t)

end Fds

/-! ## Processes -/

/-- A descriptor is used or closed as the end `role` of a pipe of this call; `obj` is behind it. -/
structure Access where
  call : ℕ
  role : End
  obj : Option Obj

/-- It is that very end. -/
def Access.Right (x : Access) : Prop := x.obj = some (.pipe x.call x.role)

/-- A process in the call number `call`. -/
structure Proc where
  call : ℕ
  fds : Fds
  log : List Access

namespace Proc

/-- `read` or `write` on an end of a pipe. -/
def use (p : Proc) (role : End) (fd : ℕ) : Proc :=
  { p with log := p.log ++ [⟨p.call, role, p.fds.obj fd⟩] }

/-- The calls of a loop. -/
def useLoop (p : Proc) (role : End) (fd : ℕ) : ℕ → Proc
  | 0 => p
  | k + 1 => (p.use role fd).useLoop role fd k

/-- `close` of an end of a pipe. -/
def close (p : Proc) (role : End) (fd : ℕ) : Proc :=
  { p.use role fd with fds := p.fds.close fd }

/-- `open` of a file. -/
def openFile (p : Proc) : ℕ × Proc :=
  let (fd, fds) := p.fds.alloc .file
  (fd, { p with fds })

/-- `close` of a file. -/
def closeFile (p : Proc) (fd : ℕ) : Proc := { p with fds := p.fds.close fd }

end Proc

/-! ## One file -/

/-- Which calls succeed for one file, and how often the loops run. -/
structure Outcome where
  dataPipe : Bool
  syncPipe : Bool
  fork : Bool
  /-- In the parent: `open`, `fstat`, the ready signal, the header, and all of the copy. -/
  openSrc : Bool
  fstat : Bool
  ready : Bool
  header : Bool
  writes : ℕ
  copied : Bool
  /-- In the child: the ready signal, the header, `malloc` and `open`. -/
  signal : Bool
  childHeader : Bool
  malloc : Bool
  openDest : Bool
  reads : ℕ

/-- `run_child_process`. -/
def runChildProcess (o : Outcome) (dataReadFd syncWriteFd : ℕ) (p : Proc) : Proc :=
  let p := p.use .syncWrite syncWriteFd
  if !o.signal then (p.close .dataRead dataReadFd).close .syncWrite syncWriteFd
  else
    let p := (p.close .syncWrite syncWriteFd).use .dataRead dataReadFd
    if !o.childHeader then p.close .dataRead dataReadFd
    else if !o.malloc then p.close .dataRead dataReadFd
    else if !o.openDest then p.close .dataRead dataReadFd
    else
      let (fdOut, p) := p.openFile
      ((p.useLoop .dataRead dataReadFd o.reads).closeFile fdOut).close .dataRead dataReadFd

/-- `run_parent_process`: what it returns and the process. -/
def runParentProcess (o : Outcome) (dataWriteFd syncReadFd : ℕ) (p : Proc) : ℤ × Proc :=
  if !o.openSrc then (-1, (p.close .dataWrite dataWriteFd).close .syncRead syncReadFd)
  else
    let (fdIn, p) := p.openFile
    if !o.fstat then
      (-1, ((p.closeFile fdIn).close .dataWrite dataWriteFd).close .syncRead syncReadFd)
    else
      let p := p.use .syncRead syncReadFd
      if !o.ready then
        (-1, ((p.closeFile fdIn).close .dataWrite dataWriteFd).close .syncRead syncReadFd)
      else
        let p := (p.close .syncRead syncReadFd).use .dataWrite dataWriteFd
        if !o.header then (-1, (p.closeFile fdIn).close .dataWrite dataWriteFd)
        else
          let p := p.useLoop .dataWrite dataWriteFd o.writes
          (if o.copied then 0 else -1, (p.closeFile fdIn).close .dataWrite dataWriteFd)

/-- What `copy_file` returns, the parent's table then, and what parent and child have logged. -/
structure Result where
  status : ℤ
  fds : Fds
  log : List Access

/-- `copy_file(src, NULL)`, the call number `call`. -/
def copyFile (call : ℕ) (fds : Fds) (o : Outcome) : Result :=
  if !o.dataPipe then ⟨-1, fds, []⟩
  else
    let (pipeData0, pipeData1, fds) := fds.pipe call .dataRead .dataWrite
    if !o.syncPipe then
      let p := ((⟨call, fds, []⟩ : Proc).close .dataRead pipeData0).close .dataWrite pipeData1
      ⟨-1, p.fds, p.log⟩
    else
      let (_, pipeSync1, fds) := fds.pipe call .syncRead .syncWrite
      let dataFd := pipeData0
      let syncFd := pipeSync1
      let p : Proc := ⟨call, fds, []⟩
      if !o.fork then
        let p := (p.close .dataRead dataFd).close .syncWrite syncFd
        ⟨-1, p.fds, p.log⟩
      else
        let child := (p.close .dataWrite (dataFd + 1)).close .syncRead (syncFd - 1)
        let child := runChildProcess o dataFd syncFd child
        let parent := (p.close .dataRead dataFd).close .syncWrite syncFd
        let (status, parent) := runParentProcess o (dataFd + 1) (syncFd - 1) parent
        ⟨status, parent.fds, child.log ++ parent.log⟩

/-- The loop of `main` over the files: the table before each call, and its result. -/
def copyFiles (call : ℕ) (fds : Fds) : List Outcome → List (Fds × Result)
  | [] => []
  | o :: os =>
    let r := copyFile call fds o
    (fds, r) :: copyFiles (call + 1) r.fds os

end EltexPractice.Copier
