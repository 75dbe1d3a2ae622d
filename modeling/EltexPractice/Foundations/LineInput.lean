import EltexPractice.Foundations.CString
import Mathlib.Data.List.Basic
import Mathlib.Order.Nat

/-!
# Lines of a stream that arrives in pieces

A reader takes lines from a stream through a buffer, as `fgets` of stdio does: it copies from the
buffer into an array of `size` bytes up to a newline, and refills the buffer with a piece of what
has arrived whenever it is used up. A byte that has arrived is in a line that was returned, in the
line that is being read, in the buffer, or still with the system (`Reader.Inv`): however the stream
is cut into pieces, the lines put together are what has arrived, in order, and only the buffer can
hold something back (`Reader.Inv.flatten_eq`).
-/

namespace EltexPractice.LineInput

/-- `fgets` with an array of `size` bytes returns: the array is full, or the line has ended. -/
def Complete (size : ℕ) (line : List UInt8) : Prop :=
  size ≤ line.length + 1 ∨ line.getLast? = some 10

instance (size : ℕ) (line : List UInt8) : Decidable (Complete size line) :=
  inferInstanceAs (Decidable (_ ∨ _))

/-- The bytes that fit are copied from the buffer, up to a newline: the line then, and what is left
in the buffer. -/
def copy (size : ℕ) (line buffer : List UInt8) : List UInt8 × List UInt8 :=
  let n := min (size - 1 - line.length) ((buffer.takeWhile (· != 10)).length + 1)
  (line ++ buffer.take n, buffer.drop n)

/-- A line without a newline before its end, in an array of `size` bytes. -/
structure Fits (size : ℕ) (line : List UInt8) : Prop where
  length_lt : line.length < size
  newline : 10 ∉ line.dropLast

/-- A line that has not ended. -/
structure Open (size : ℕ) (line : List UInt8) : Prop where
  length_lt : line.length + 1 < size
  newline : 10 ∉ line

theorem Open.fits {size : ℕ} {line : List UInt8} (h : Open size line) : Fits size line :=
  ⟨Nat.lt_of_succ_lt h.length_lt, fun hmem => h.newline (List.dropLast_subset _ hmem)⟩

theorem Open.not_complete {size : ℕ} {line : List UInt8} (h : Open size line) :
    ¬ Complete size line := by
  rintro (hfull | hlast)
  · exact absurd hfull (Nat.not_le.2 h.length_lt)
  · exact h.newline (List.mem_of_getLast? hlast)

theorem open_nil {size : ℕ} (h : 1 < size) : Open size [] := ⟨by simpa using h, List.not_mem_nil⟩

section Copy

variable {size : ℕ} {line buffer : List UInt8}

theorem copy_append (size : ℕ) (line buffer : List UInt8) :
    (copy size line buffer).1 ++ (copy size line buffer).2 = line ++ buffer := by
  rw [copy, List.append_assoc, List.take_append_drop]

theorem takeWhile_of_notMem (h : 10 ∉ line) (rest : List UInt8) :
    (line ++ 10 :: rest).takeWhile (· != 10) = line := by
  rw [List.takeWhile_append_of_pos fun b hb => by simpa using fun e : b = 10 => h (e ▸ hb)]
  simp

theorem takeWhile_self (h : 10 ∉ line) : line.takeWhile (· != 10) = line := by
  have hpos : ∀ b ∈ line, (b != 10) = true := fun b hb => by
    simpa using fun e : b = 10 => h (e ▸ hb)
  rw [← List.append_nil line, List.takeWhile_append_of_pos hpos, List.takeWhile_nil]

/-- A buffer without a newline that fits is copied whole. -/
theorem copy_of_open (h : Open size (line ++ buffer)) :
    copy size line buffer = (line ++ buffer, []) := by
  have hlen := h.length_lt
  rw [List.length_append] at hlen
  have hall := takeWhile_self fun hmem => h.newline (List.mem_append_right line hmem)
  have hn : buffer.length ≤ min (size - 1 - line.length) (buffer.length + 1) := by omega
  rw [copy, hall, List.take_of_length_le hn, List.drop_of_length_le hn]

/-- A line that fits with its newline is copied, and nothing behind it. -/
theorem copy_line {head rest : List UInt8} (h : Open size (line ++ head)) :
    copy size line (head ++ 10 :: rest) = (line ++ head ++ [10], rest) := by
  have hlen := h.length_lt
  rw [List.length_append] at hlen
  have hhead : 10 ∉ head := fun hmem => h.newline (List.mem_append_right _ hmem)
  have hn : min (size - 1 - line.length) (head.length + 1) = (head ++ [10]).length := by
    rw [List.length_append, List.length_singleton]
    omega
  have hsplit : head ++ 10 :: rest = head ++ [10] ++ rest := by simp
  rw [copy, takeWhile_of_notMem hhead, hn, hsplit, List.take_left, List.drop_left,
    List.append_assoc]

/-- An array that is full before the newline. -/
theorem copy_full {head rest : List UInt8} (hbuffer : buffer = head ++ rest)
    (hline : Open size line) (hhead : 10 ∉ head)
    (hle : head.length ≤ (buffer.takeWhile (· != 10)).length)
    (hfull : size ≤ line.length + head.length + 1) :
    Fits size (copy size line buffer).1 ∧ Complete size (copy size line buffer).1 := by
  have hlt := hline.length_lt
  have hn : min (size - 1 - line.length) ((buffer.takeWhile (· != 10)).length + 1) =
      size - 1 - line.length := by omega
  have hcopy : (copy size line buffer).1 = line ++ head.take (size - 1 - line.length) := by
    rw [copy, hn, hbuffer, List.take_append_of_le_length (by omega)]
  have hlength : (line ++ head.take (size - 1 - line.length)).length + 1 = size := by
    rw [List.length_append, List.length_take]
    omega
  rw [hcopy]
  refine ⟨⟨by omega, fun hmem => ?_⟩, Or.inl hlength.ge⟩
  rcases List.mem_append.1 (List.dropLast_subset _ hmem) with hmem | hmem
  · exact hline.newline hmem
  · exact hhead (List.mem_of_mem_take hmem)

/-- **What a copy leads to**: a whole line, or an open one and an empty buffer. -/
theorem copy_spec (h : Open size line) :
    Fits size (copy size line buffer).1 ∧
      (Complete size (copy size line buffer).1 ∨
        Open size (copy size line buffer).1 ∧ (copy size line buffer).2 = []) := by
  by_cases hmem : 10 ∈ buffer
  · obtain ⟨head, rest, rfl, hhead⟩ := List.eq_append_cons_of_mem hmem
    rcases Nat.lt_or_ge (line.length + head.length + 1) size with hlt | hge
    · have hopen : Open size (line ++ head) :=
        ⟨by rwa [List.length_append], by simp [h.newline, hhead]⟩
      rw [copy_line hopen]
      refine ⟨⟨?_, ?_⟩, Or.inl (Or.inr ?_)⟩
      · rw [List.length_append, List.length_singleton]
        exact hopen.length_lt
      · rw [List.dropLast_concat]
        exact hopen.newline
      · rw [List.getLast?_concat]
    · have hsplit : head ++ 10 :: rest = head ++ 10 :: rest := rfl
      have hfull := copy_full hsplit h hhead (by rw [takeWhile_of_notMem hhead]) hge
      exact ⟨hfull.1, Or.inl hfull.2⟩
  · rcases Nat.lt_or_ge (line.length + buffer.length + 1) size with hlt | hge
    · have hopen : Open size (line ++ buffer) :=
        ⟨by rwa [List.length_append], by simp [h.newline, hmem]⟩
      rw [copy_of_open hopen]
      exact ⟨hopen.fits, Or.inr ⟨hopen, rfl⟩⟩
    · have hfull := copy_full (List.append_nil buffer).symm h hmem (by rw [takeWhile_self hmem]) hge
      exact ⟨hfull.1, Or.inl hfull.2⟩

/-- A piece that is the rest of a line, or a part of it, is copied whole. -/
theorem copy_piece {piece : List UInt8} (h : Open size line) (hpiece : 10 ∉ piece.dropLast)
    (hlen : line.length + piece.length < size) : (copy size line piece).2 = [] := by
  rcases List.eq_nil_or_concat' piece with rfl | ⟨head, b, rfl⟩
  · exact List.drop_nil
  · rw [List.dropLast_concat] at hpiece
    rw [List.length_append, List.length_singleton] at hlen
    have hopen : Open size (line ++ head) :=
      ⟨by rw [List.length_append]; omega, by simp [h.newline, hpiece]⟩
    have hn : (head ++ [b]).length ≤
        min (size - 1 - line.length) (((head ++ [b]).takeWhile (· != 10)).length + 1) := by
      have hle : head.length ≤ ((head ++ [b]).takeWhile (· != 10)).length := by
        rw [List.takeWhile_append_of_pos fun x hx => by
          simpa using fun e : x = 10 => hpiece (e ▸ hx), List.length_append]
        exact Nat.le_add_right _ _
      rw [List.length_append, List.length_singleton]
      omega
    exact List.drop_of_length_le hn

end Copy

/-! ## The reader -/

/-- A stream and its reader. -/
structure Reader where
  /-- What has arrived and was not read. -/
  pending : List UInt8
  /-- Nothing more arrives. -/
  ended : Bool
  buffer : List UInt8
  /-- The line that is being read. -/
  line : Option (List UInt8)
  deriving DecidableEq

namespace Reader

def init : Reader := ⟨[], false, [], none⟩

/-- There is something to read, or the stream has ended: `select` and `poll` say the same. -/
def ready (r : Reader) : Bool := !r.pending.isEmpty || r.ended

/-- A piece of the stream arrives. -/
def arrive (bytes : List UInt8) (r : Reader) : Reader := { r with pending := r.pending ++ bytes }

/-- The call begins, with what is in the buffer. -/
def enter (size : ℕ) (r : Reader) : Reader :=
  { r with buffer := (copy size [] r.buffer).2, line := some (copy size [] r.buffer).1 }

/-- The buffer is filled with the next `n` bytes, and the call goes on. -/
def refill (size n : ℕ) (r : Reader) : Option Reader :=
  match r.line with
  | some line =>
    if ¬ Complete size line ∧ 0 < n ∧ n ≤ r.pending.length then
      some {
        r with
        pending := r.pending.drop n
        buffer := (copy size line (r.pending.take n)).2
        line := some (copy size line (r.pending.take n)).1 }
    else none
  | none => none

/-- The call returns: the line, or nothing at the end of the stream. -/
def finish (size : ℕ) (r : Reader) : Option (Option (List UInt8) × Reader) :=
  match r.line with
  | some line =>
    if Complete size line then some (some line, { r with line := none })
    else if r.ended ∧ r.pending = [] then
      some (if line = [] then none else some line, { r with line := none })
    else none
  | none => none

/-- A signal interrupts the call, which waits for more; what it has read is lost. -/
def interrupt (size : ℕ) (r : Reader) : Option Reader :=
  match r.line with
  | some line =>
    if ¬ Complete size line ∧ r.pending = [] then some { r with line := none } else none
  | none => none

/-- Where the bytes of a stream are, with the lines that were returned. -/
structure Inv (size : ℕ) (typed : List UInt8) (lines : List (List UInt8)) (r : Reader) : Prop where
  stream : typed = lines.flatten ++ (r.line.getD [] ++ (r.buffer ++ r.pending))
  fits : ∀ line ∈ lines, line ≠ [] ∧ Fits size line
  complete : r.ended = false → ∀ line ∈ lines, Complete size line
  reading : ∀ line, r.line = some line → Fits size line ∧
    (Complete size line ∨ Open size line ∧ r.buffer = [])

variable {size n : ℕ} {typed : List UInt8} {lines : List (List UInt8)} {r r' : Reader}

theorem inv_init (size : ℕ) : init.Inv size [] [] where
  stream := rfl
  fits _ h := by cases h
  complete _ _ h := by cases h
  reading _ h := by cases h

theorem Inv.arrive (h : r.Inv size typed lines) (bytes : List UInt8) :
    (r.arrive bytes).Inv size (typed ++ bytes) lines :=
  { h with stream := by simp [h.stream, Reader.arrive] }

theorem Inv.close (h : r.Inv size typed lines) : Inv size typed lines { r with ended := true } :=
  { h with complete := fun hended => by cases hended }

theorem Inv.enter (h : r.Inv size typed lines) (hline : r.line = none) (hsize : 1 < size) :
    (r.enter size).Inv size typed lines where
  stream := by
    have hcopy := copy_append size [] r.buffer
    rw [List.nil_append] at hcopy
    have hstream := h.stream
    rw [hline] at hstream
    simp only [hstream, Reader.enter, Option.getD_some, Option.getD_none, List.nil_append,
      ← List.append_assoc _ _ r.pending, hcopy]
  fits := h.fits
  complete := h.complete
  reading line heq := by
    cases heq
    exact copy_spec (open_nil hsize)

theorem Inv.refill (h : r.Inv size typed lines) (hs : r.refill size n = some r') :
    r'.Inv size typed lines := by
  rw [Reader.refill] at hs
  cases hline : r.line with
  | none =>
    rw [hline] at hs
    cases hs
  | some line =>
    rw [hline] at hs
    simp only at hs
    split at hs
    · rename_i hcond
      obtain rfl := Option.some.inj hs
      obtain ⟨hopen, hempty⟩ := (h.reading line hline).2.resolve_left hcond.1
      refine ⟨?_, h.fits, h.complete, fun line' heq => ?_⟩
      · have hcopy := copy_append size line (r.pending.take n)
        simp only [h.stream, hline, hempty, Option.getD_some, List.nil_append]
        rw [← List.append_assoc _ _ (r.pending.drop n), hcopy, List.append_assoc line,
          List.take_append_drop]
      · cases heq
        exact copy_spec hopen
    · cases hs

theorem finish_cases {out : Option (List UInt8)} (hs : r.finish size = some (out, r')) :
    ∃ line, r.line = some line ∧ r' = { r with line := none } ∧
      (Complete size line ∧ out = some line ∨
        ¬ Complete size line ∧ r.ended = true ∧ r.pending = [] ∧
          out = if line = [] then none else some line) := by
  rw [finish] at hs
  cases hline : r.line with
  | none =>
    rw [hline] at hs
    cases hs
  | some line =>
    rw [hline] at hs
    simp only at hs
    split at hs
    · rename_i hcomplete
      cases hs
      exact ⟨line, rfl, rfl, Or.inl ⟨hcomplete, rfl⟩⟩
    · rename_i hcomplete
      split at hs
      · rename_i hend
        cases hs
        exact ⟨line, rfl, rfl, Or.inr ⟨hcomplete, hend.1, hend.2, rfl⟩⟩
      · cases hs

/-- **A line is returned.** -/
theorem Inv.finish {line : List UInt8} (h : r.Inv size typed lines) (hsize : 1 < size)
    (hs : r.finish size = some (some line, r')) :
    r'.Inv size typed (lines ++ [line]) ∧ r'.line = none := by
  obtain ⟨line', hline, rfl, hout⟩ := finish_cases hs
  have hfits := (h.reading line' hline).1
  have hstream := h.stream
  rw [hline, Option.getD_some] at hstream
  rcases hout with ⟨hcomplete, heq⟩ | ⟨-, hended, -, heq⟩
  · obtain rfl := Option.some.inj heq
    have hne : line ≠ [] := by
      rintro rfl
      exact (open_nil hsize).not_complete hcomplete
    refine ⟨⟨by simp [hstream], ?_, ?_, fun _ h => by cases h⟩, rfl⟩
    · exact List.forall_mem_append.2 ⟨h.fits, List.forall_mem_singleton.2 ⟨hne, hfits⟩⟩
    · exact fun hended =>
        List.forall_mem_append.2 ⟨h.complete hended, List.forall_mem_singleton.2 hcomplete⟩
  · split at heq
    · cases heq
    · rename_i hne
      obtain rfl := Option.some.inj heq
      refine ⟨⟨by simp [hstream], ?_, fun hfalse => ?_, fun _ h => by cases h⟩, rfl⟩
      · exact List.forall_mem_append.2 ⟨h.fits, List.forall_mem_singleton.2 ⟨hne, hfits⟩⟩
      · change r.ended = false at hfalse
        rw [hended] at hfalse
        cases hfalse

/-- The end of the stream: nothing is returned, and nothing is lost. -/
theorem Inv.finish_end (h : r.Inv size typed lines) (hs : r.finish size = some (none, r')) :
    r'.Inv size typed lines ∧ r'.line = none := by
  obtain ⟨line', hline, rfl, hout⟩ := finish_cases hs
  rcases hout with ⟨-, heq⟩ | ⟨-, -, -, heq⟩
  · cases heq
  · split at heq
    · rename_i hnil
      subst hnil
      have hstream := h.stream
      rw [hline] at hstream
      exact ⟨⟨hstream, h.fits, h.complete, fun _ h => by cases h⟩, rfl⟩
    · cases heq

/-- What stays true of the lines when the reader is given up. -/
structure Taken (size : ℕ) (typed : List UInt8) (lines : List (List UInt8)) : Prop where
  isPrefix : lines.flatten <+: typed
  fits : ∀ line ∈ lines, line ≠ [] ∧ Fits size line

/-- The lines put together are the beginning of what has arrived. -/
theorem Inv.taken (h : r.Inv size typed lines) : Taken size typed lines := by
  refine ⟨?_, h.fits⟩
  rw [h.stream]
  exact List.prefix_append _ _

theorem Taken.arrive (h : Taken size typed lines) (bytes : List UInt8) :
    Taken size (typed ++ bytes) lines :=
  ⟨h.isPrefix.trans (List.prefix_append _ _), h.fits⟩

/-! ### A terminal, which delivers a line at a time -/

theorem buffer_enter (size : ℕ) (h : r.buffer = []) : (r.enter size).buffer = [] := by
  rw [Reader.enter, h]
  exact List.drop_nil

theorem buffer_finish {out : Option (List UInt8)} (hs : r.finish size = some (out, r')) :
    r'.buffer = r.buffer := by
  obtain ⟨line, -, rfl, -⟩ := finish_cases hs
  rfl

theorem buffer_interrupt (hs : r.interrupt size = some r') : r'.buffer = r.buffer := by
  rw [Reader.interrupt] at hs
  split at hs
  · split at hs
    · obtain rfl := Option.some.inj hs
      rfl
    · cases hs
  · cases hs

/-- The next piece is the rest of one line that fits, or a part of it. -/
def TakesPiece (size n : ℕ) (r : Reader) : Prop :=
  ∀ line, r.line = some line → 10 ∉ (r.pending.take n).dropLast ∧
    line.length + (r.pending.take n).length < size

theorem Inv.buffer_refill (h : r.Inv size typed lines) (hpiece : r.TakesPiece size n)
    (hs : r.refill size n = some r') : r'.buffer = [] := by
  rw [Reader.refill] at hs
  cases hline : r.line with
  | none =>
    rw [hline] at hs
    cases hs
  | some line =>
    rw [hline] at hs
    simp only at hs
    split at hs
    · rename_i hcond
      obtain rfl := Option.some.inj hs
      obtain ⟨hopen, -⟩ := (h.reading line hline).2.resolve_left hcond.1
      exact copy_piece hopen (hpiece line hline).1 (hpiece line hline).2
    · cases hs

/-- **Only the buffer holds something back**: between two calls, with nothing left to read and an
empty buffer, all that has arrived is in the lines. -/
theorem Inv.flatten_eq (h : r.Inv size typed lines) (hline : r.line = none)
    (hbuffer : r.buffer = []) (hpending : r.pending = []) : lines.flatten = typed := by
  rw [h.stream, hline, hbuffer, hpending]
  simp

end Reader

/-! ## A user's side of the stream -/

/-- A reader with the bytes that were typed and the lines that were read. -/
structure Console where
  stdin : Reader
  typed : List UInt8
  lines : List (List UInt8)
  deriving DecidableEq

namespace Console

def init : Console := ⟨.init, [], []⟩

/-- The user types. -/
def type (bytes : List UInt8) (c : Console) : Option Console :=
  if c.stdin.ended then none
  else some { c with stdin := c.stdin.arrive bytes, typed := c.typed ++ bytes }

def hangup (c : Console) : Console := { c with stdin := { c.stdin with ended := true } }

/-- `fgets` is called. -/
def enter (size : ℕ) (c : Console) : Console := { c with stdin := c.stdin.enter size }

def refill (size n : ℕ) (c : Console) : Option Console :=
  (c.stdin.refill size n).map fun stdin => { c with stdin }

/-- `fgets` returns. -/
def finish (size : ℕ) (c : Console) : Option (Option (List UInt8) × Console) :=
  (c.stdin.finish size).map fun out =>
    (out.1, { c with stdin := out.2, lines := c.lines ++ out.1.toList })

def interrupt (size : ℕ) (c : Console) : Option Console :=
  (c.stdin.interrupt size).map fun stdin => { c with stdin }

/-- In a call. -/
def Busy (size : ℕ) (c : Console) : Prop := c.stdin.Inv size c.typed c.lines

/-- Between two calls. -/
structure Idle (size : ℕ) (c : Console) : Prop where
  inv : c.stdin.Inv size c.typed c.lines
  line : c.stdin.line = none

/-- The lines, whatever has become of the reader. -/
def Taken (size : ℕ) (c : Console) : Prop := Reader.Taken size c.typed c.lines

variable {size : ℕ} {c c' : Console}

theorem idle_init (size : ℕ) : init.Idle size := ⟨Reader.inv_init size, rfl⟩

theorem Idle.taken (h : c.Idle size) : c.Taken size := h.inv.taken

theorem Busy.taken (h : c.Busy size) : c.Taken size := Reader.Inv.taken h

theorem type_eq_some {bytes : List UInt8} (hs : c.type bytes = some c') :
    c' = { c with stdin := c.stdin.arrive bytes, typed := c.typed ++ bytes } := by
  rw [type] at hs
  split at hs
  · cases hs
  · exact (Option.some.inj hs).symm

theorem Idle.type {bytes : List UInt8} (h : c.Idle size) (hs : c.type bytes = some c') :
    c'.Idle size := by
  obtain rfl := type_eq_some hs
  exact ⟨h.inv.arrive bytes, h.line⟩

theorem Busy.type {bytes : List UInt8} (h : c.Busy size) (hs : c.type bytes = some c') :
    c'.Busy size := by
  obtain rfl := type_eq_some hs
  exact Reader.Inv.arrive h bytes

theorem Taken.type {bytes : List UInt8} (h : c.Taken size) (hs : c.type bytes = some c') :
    c'.Taken size := by
  obtain rfl := type_eq_some hs
  exact Reader.Taken.arrive h bytes

theorem Idle.hangup (h : c.Idle size) : c.hangup.Idle size := ⟨h.inv.close, h.line⟩

theorem Busy.hangup (h : c.Busy size) : c.hangup.Busy size := Reader.Inv.close h

theorem Idle.enter (h : c.Idle size) (hsize : 1 < size) : (c.enter size).Busy size :=
  h.inv.enter h.line hsize

theorem Busy.refill {n : ℕ} (h : c.Busy size) (hs : c.refill size n = some c') :
    c'.Busy size := by
  obtain ⟨stdin, hstdin, rfl⟩ := Option.map_eq_some_iff.1 hs
  exact Reader.Inv.refill h hstdin

/-- **A call returns**, with the next line or at the end. -/
theorem Busy.finish {out : Option (List UInt8)} (h : c.Busy size) (hsize : 1 < size)
    (hs : c.finish size = some (out, c')) : c'.Idle size := by
  obtain ⟨⟨line, stdin⟩, hfinish, heq⟩ := Option.map_eq_some_iff.1 hs
  obtain ⟨rfl, rfl⟩ := Prod.mk.inj heq
  cases line with
  | none =>
    obtain ⟨hinv, hline⟩ := Reader.Inv.finish_end h hfinish
    refine ⟨?_, hline⟩
    simpa using hinv
  | some line =>
    obtain ⟨hinv, hline⟩ := Reader.Inv.finish h hsize hfinish
    exact ⟨hinv, hline⟩

theorem finish_eq_some {out : Option (List UInt8)} (hs : c.finish size = some (out, c')) :
    c'.typed = c.typed ∧ c'.lines = c.lines ++ out.toList := by
  obtain ⟨⟨line, stdin⟩, -, heq⟩ := Option.map_eq_some_iff.1 hs
  obtain ⟨rfl, rfl⟩ := Prod.mk.inj heq
  exact ⟨rfl, rfl⟩

theorem refill_eq_some {n : ℕ} (hs : c.refill size n = some c') :
    c'.typed = c.typed ∧ c'.lines = c.lines := by
  obtain ⟨stdin, -, rfl⟩ := Option.map_eq_some_iff.1 hs
  exact ⟨rfl, rfl⟩

theorem interrupt_eq_some (hs : c.interrupt size = some c') :
    c'.typed = c.typed ∧ c'.lines = c.lines := by
  obtain ⟨stdin, -, rfl⟩ := Option.map_eq_some_iff.1 hs
  exact ⟨rfl, rfl⟩

/-! ### On a terminal -/

theorem buffer_finish {out : Option (List UInt8)} (hs : c.finish size = some (out, c')) :
    c'.stdin.buffer = c.stdin.buffer := by
  obtain ⟨⟨line, stdin⟩, hfinish, heq⟩ := Option.map_eq_some_iff.1 hs
  obtain ⟨rfl, rfl⟩ := Prod.mk.inj heq
  exact Reader.buffer_finish hfinish

theorem buffer_interrupt (hs : c.interrupt size = some c') :
    c'.stdin.buffer = c.stdin.buffer := by
  obtain ⟨stdin, hinterrupt, rfl⟩ := Option.map_eq_some_iff.1 hs
  exact Reader.buffer_interrupt hinterrupt

theorem Busy.buffer_refill {n : ℕ} (h : c.Busy size) (hpiece : c.stdin.TakesPiece size n)
    (hs : c.refill size n = some c') : c'.stdin.buffer = [] := by
  obtain ⟨stdin, hrefill, rfl⟩ := Option.map_eq_some_iff.1 hs
  exact Reader.Inv.buffer_refill h hpiece hrefill

end Console

/-! ## The text of a line -/

open CString

/-- A line as a string, without the newline at its end. -/
def chomp (line : List UInt8) : List UInt8 :=
  let buffer := cstr line
  if buffer.getLast? = some 10 then buffer.dropLast else buffer

theorem zero_notMem_chomp (line : List UInt8) : 0 ∉ chomp line := by
  have h := zero_notMem_cstr line
  rw [chomp]
  split
  · exact fun hmem => h (List.dropLast_subset _ hmem)
  · exact h

theorem length_chomp_le (line : List UInt8) : (chomp line).length ≤ line.length := by
  have h := length_cstr_le line
  rw [chomp]
  split
  · rw [List.length_dropLast]
    omega
  · exact h

end EltexPractice.LineInput
