import EltexPractice.Foundations.CString
import EltexPractice.Foundations.Entries
import EltexPractice.Foundations.OptionScan

/-!
# The arguments of the copier

`main` of task 1 takes each `-p` and the name behind it out of `argv` while it looks through it: the
later entries move down by two places, `argc` gets smaller, and the index goes back by one. What is
left are the files, which are copied one after the other.

* `Inv`, `Inv.body_file`, `Inv.body_option`: what a turn of the loop leaves of the command line.
* `removal_spec`: the loop ends with what the reading from left to right (`scan`) finds.
* `main_spec`: what `main` prints, calls and returns.

An argument is the list of its bytes before the NUL, so `strcmp` is equality.
-/

namespace EltexPractice.Copier.Arguments

open CString OptionScan

/-- `"-p"` -/
def keyP : List UInt8 := ascii "-p"

/-- The variables of `main`. -/
structure Vars where
  argv : List (List UInt8)
  argc : ℕ
  i : ℕ
  fifoName : Option (List UInt8)

/-- The variables in front of the loop. -/
def Vars.init (argv : List (List UInt8)) : Vars := ⟨argv, argv.length, 1, none⟩

/-- Why the loop is left before its end. -/
inductive Fault
  /-- An entry outside `argv` is used. -/
  | outside
  /-- `return EXIT_FAILURE` for a `-p` without a name -/
  | missing

/-- What uses an entry outside `argv` ends there. -/
def inside {α : Type} (x : Option α) : Except Fault α := x.elim (.error .outside) .ok

theorem inside_some_bind {α β : Type} (a : α) (f : α → Except Fault β) :
    (inside (some a) >>= f) = f a := rfl

/-- The body of the loop. -/
def body (s : Vars) : Except Fault Vars := do
  let a ← inside s.argv[s.i]?
  if a = keyP then
    if s.i + 1 < s.argc then
      let fifoName ← inside s.argv[s.i + 1]?
      let argv ← inside (moveDown 2 (s.argc - 2 - s.i) s.i s.argv)
      return ⟨argv, s.argc - 2, s.i - 1, some fifoName⟩
    else throw .missing
  else return s

/-- `for (int i = 1; i < argc; i++)`, from the test on. -/
def loop : ℕ → Vars → Option (Except Fault Vars)
  | 0, _ => none
  | fuel + 1, s =>
    if s.i < s.argc then
      match body s with
      | .error fault => some (.error fault)
      | .ok s => loop fuel { s with i := s.i + 1 }
    else some (.ok s)

/-- A call of `copy_file`. -/
structure Call where
  srcFilename : List UInt8
  fifoName : Option (List UInt8)

/-- `EXIT_FAILURE` -/
def exitFailure : ℕ := 1

/-- What `main` has printed, the calls it has made, and what it returns. -/
structure Ended where
  stderr : List UInt8
  calls : List Call
  status : ℕ

/-- `fprintf(stderr, "Usage: …", argv[0])`; `%s` of no string is `(null)`. -/
def usage (program : Option (List UInt8)) : List UInt8 :=
  ascii "Usage: " ++ program.getD (ascii "(null)") ++
    ascii " [-p <fifo_name>] <file1> [file2] [file3] ...\n"

section

variable (copyFile : List Call → Call → ℤ)

/-- The loop with `k` files to go, the first of them at `i`; `copyFile` says what `copy_file`
returns after the calls so far. -/
def copyAll (s : Vars) : ℕ → ℕ → List Call → ℕ → Option (List Call × ℕ)
  | 0, _, calls, overallStatus => some (calls, overallStatus)
  | k + 1, i, calls, overallStatus => do
    let call := ⟨← s.argv[i]?, s.fifoName⟩
    copyAll s k (i + 1) (calls ++ [call])
      (if copyFile calls call ≠ 0 then exitFailure else overallStatus)

/-- What `main` does after the loop. -/
def afterLoop : Except Fault Vars → Option Ended
  | .error .outside => none
  | .error .missing => some ⟨ascii "Error: Missing argument for option -p\n", [], exitFailure⟩
  | .ok s =>
    if s.argc < 2 then some ⟨usage s.argv[0]?, [], exitFailure⟩
    else (copyAll copyFile s (s.argc - 1) 1 [] 0).map fun out => ⟨[], out.1, out.2⟩

/-- `main` -/
def main (fuel : ℕ) (argv : List (List UInt8)) : Option Ended :=
  (loop fuel (.init argv)).bind (afterLoop copyFile)

end

/-! ## The loop -/

/-- The command line `args` of `program` when `items` of it have been looked at and `rest` has not;
behind `argc` there are stale entries. -/
structure Inv (program : List UInt8) (args : List (List UInt8)) (items : List (Item keyP))
    (rest : List (List UInt8)) (s : Vars) : Prop where
  read : args = OptionScan.args items ++ rest
  argv : ∃ stale, s.argv = program :: files items ++ (rest ++ stale)
  i : s.i = (files items).length + 1
  argc : s.argc = (files items).length + 1 + rest.length
  fifoName : s.fifoName = (values items).getLast?

section

variable {program : List UInt8} {args rest : List (List UInt8)} {items : List (Item keyP)}
  {s : Vars}

theorem inv_init (program : List UInt8) (args : List (List UInt8)) :
    Inv program args [] args (.init (program :: args)) where
  read := rfl
  argv := ⟨[], by rw [List.append_nil]; rfl⟩
  i := rfl
  argc := Nat.add_comm ..
  fifoName := rfl

namespace Inv

/-- The entries that have not been looked at. -/
theorem getElem?_argv (h : Inv program args items rest s) {k : ℕ} (hk : k < rest.length) :
    s.argv[s.i + k]? = rest[k]? := by
  obtain ⟨stale, hargv⟩ := h.argv
  have hlen : (program :: files items).length = s.i := by rw [h.i, List.length_cons]
  rw [hargv, ← hlen, List.getElem?_append_right (Nat.le_add_right _ k), Nat.add_sub_cancel_left,
    List.getElem?_append_left hk]

theorem lt_argc (h : Inv program args items rest s) {k : ℕ} :
    s.i + k < s.argc ↔ k < rest.length := by
  rw [h.i, h.argc]
  omega

/-- A file stays in its place. -/
theorem body_file {a : List UInt8} (h : Inv program args items (a :: rest) s) (ha : a ≠ keyP) :
    body s = .ok s ∧
      Inv program args (items ++ [.file a ha]) rest { s with i := s.i + 1 } := by
  have hentry : s.argv[s.i]? = some a := h.getElem?_argv (k := 0) (by simp)
  have hbody : body s = .ok s := by
    rw [body, hentry, inside_some_bind, if_neg ha]
    rfl
  refine ⟨hbody, ?_, ?_, ?_, ?_, ?_⟩
  · rw [args_concat, List.append_assoc]
    exact h.read
  · obtain ⟨stale, hargv⟩ := h.argv
    rw [hargv, files_concat_file]
    exact ⟨stale, by simp⟩
  · rw [h.i, files_concat_file, List.length_append, List.length_singleton]
  · rw [h.argc, files_concat_file, List.length_append, List.length_cons, List.length_singleton]
    omega
  · rw [values_concat_file]
    exact h.fifoName

/-- An option is taken out. -/
theorem body_option {value : List UInt8} (h : Inv program args items (keyP :: value :: rest) s) :
    ∃ s', body s = .ok s' ∧
      Inv program args (items ++ [.option value]) rest { s' with i := s'.i + 1 } := by
  have hentry : s.argv[s.i]? = some keyP := h.getElem?_argv (k := 0) (by simp)
  have hvalue : s.argv[s.i + 1]? = some value := h.getElem?_argv (k := 1) (by simp)
  have hlt : s.i + 1 < s.argc := h.lt_argc.2 (by simp)
  have hleft : s.argc - 2 - s.i = rest.length := by
    rw [h.argc, h.i, List.length_cons, List.length_cons]
    omega
  have hmove : ∃ stale, moveDown 2 (s.argc - 2 - s.i) s.i s.argv =
      some (program :: files items ++ (rest ++ stale)) := by
    obtain ⟨stale, hargv⟩ := h.argv
    have hi : s.i = (program :: files items).length := by rw [h.i, List.length_cons]
    rw [hleft, hargv, hi]
    exact exists_moveDown _ [keyP, value] rest stale
  obtain ⟨stale, hmove⟩ := hmove
  have hbody : body s = .ok ⟨program :: files items ++ (rest ++ stale), s.argc - 2, s.i - 1,
      some value⟩ := by
    rw [body, hentry, inside_some_bind, if_pos rfl, if_pos hlt, hvalue, inside_some_bind, hmove,
      inside_some_bind]
    rfl
  refine ⟨_, hbody, ?_, ?_, ?_, ?_, ?_⟩
  · rw [args_concat, List.append_assoc]
    exact h.read
  · rw [files_concat_option]
    exact ⟨stale, rfl⟩
  · rw [files_concat_option, h.i, Nat.add_sub_cancel]
  · rw [files_concat_option, h.argc, List.length_cons, List.length_cons]
    rfl
  · rw [values_concat_option, List.getLast?_concat]

theorem body_missing (h : Inv program args items [keyP] s) : body s = .error .missing := by
  have hentry : s.argv[s.i]? = some keyP := h.getElem?_argv (k := 0) (by simp)
  have hlast : ¬ s.i + 1 < s.argc := fun hlt => by simpa using h.lt_argc.1 hlt
  rw [body, hentry, inside_some_bind, if_pos rfl, if_neg hlast]
  rfl

theorem loop_of_ok {s' : Vars} (hlt : s.i < s.argc) (hbody : body s = .ok s') (fuel : ℕ) :
    loop (fuel + 1) s = loop fuel { s' with i := s'.i + 1 } := by
  rw [loop, if_pos hlt, hbody]

/-- A turn of the loop for each item. -/
theorem exists_loop (more : List (Item keyP))
    (h : Inv program args items (OptionScan.args more ++ rest) s) :
    ∃ s', Inv program args (items ++ more) rest s' ∧
      ∀ fuel, loop (fuel + more.length) s = loop fuel s' := by
  induction more generalizing items s with
  | nil =>
    rw [List.append_nil]
    exact ⟨s, h, fun _ => rfl⟩
  | cons item more ih =>
    have hlt : s.i < s.argc := h.lt_argc.2 (by cases item <;> exact Nat.succ_pos _)
    obtain ⟨s₁, hbody, hnext⟩ : ∃ s₁, body s = .ok s₁ ∧
        Inv program args (items ++ [item]) (OptionScan.args more ++ rest)
          { s₁ with i := s₁.i + 1 } := by
      cases item with
      | file a ha => exact ⟨s, h.body_file ha⟩
      | option value => exact h.body_option
    obtain ⟨s', hinv, hloop⟩ := ih hnext
    rw [List.append_assoc] at hinv
    refine ⟨s', hinv, fun fuel => ?_⟩
    rw [List.length_cons, ← Nat.add_assoc, loop_of_ok hlt hbody, hloop]

theorem loop_of_nil (h : Inv program args items [] s) (fuel : ℕ) :
    loop (fuel + 1) s = some (.ok s) := by
  have hend : ¬ s.i < s.argc := fun hlt => Nat.lt_irrefl 0 (h.lt_argc.1 hlt)
  rw [loop, if_neg hend]

theorem loop_of_flag (h : Inv program args items [keyP] s) (fuel : ℕ) :
    loop (fuel + 1) s = some (.error .missing) := by
  have hlt : s.i < s.argc := h.lt_argc.2 Nat.one_pos
  rw [loop, if_pos hlt, h.body_missing]

end Inv

end

/-- What is in the variables when the loop has ended: `argv[1 .. argc)` are the files, and
`fifo_name` is the last value. -/
structure Removed (argv : List (List UInt8)) (items : List (Item keyP)) (s : Vars) : Prop where
  argc_le : s.argc ≤ s.argv.length
  program : s.argv[0]? = argv[0]?
  files : (s.argv.take s.argc).drop 1 = files items
  fifoName : s.fifoName = (values items).getLast?

namespace Removed

variable {argv : List (List UInt8)} {items : List (Item keyP)} {s : Vars}

theorem length_files (h : Removed argv items s) :
    (OptionScan.files items).length = s.argc - 1 := by
  rw [← h.files, List.length_drop, List.length_take, min_eq_left h.argc_le]

theorem getElem?_argv (h : Removed argv items s) {k : ℕ}
    (hk : k < (OptionScan.files items).length) :
    s.argv[1 + k]? = (OptionScan.files items)[k]? := by
  rw [h.length_files] at hk
  rw [← h.files, List.getElem?_drop, List.getElem?_take_of_lt (by omega)]

end Removed

theorem Inv.removed {program : List UInt8} {args : List (List UInt8)} {items : List (Item keyP)}
    {s : Vars} (h : Inv program args items [] s) : Removed (program :: args) items s := by
  obtain ⟨stale, hargv⟩ := h.argv
  have hargc : s.argc = (program :: files items).length := h.argc
  refine ⟨?_, ?_, ?_, h.fifoName⟩
  · rw [hargv, hargc, List.length_append]
    exact Nat.le_add_right _ _
  · rw [hargv]
    rfl
  · rw [hargv, hargc, List.take_left]
    rfl

section

variable (program : List UInt8) (items : List (Item keyP))

/-- Every item has been looked at, and the loop has at least one more turn. -/
theorem exists_loop_init (rest : List (List UInt8)) :
    ∃ s, Inv program (args items ++ rest) items rest s ∧ ∀ fuel,
      (args items ++ rest).length < fuel →
        ∃ k, loop fuel (.init (program :: (args items ++ rest))) = loop (k + 1) s := by
  obtain ⟨s, hinv, hloop⟩ := (inv_init program (args items ++ rest)).exists_loop items
  refine ⟨s, hinv, fun fuel hfuel => ⟨fuel - items.length - 1, ?_⟩⟩
  have hle := length_le_length_args items
  rw [List.length_append] at hfuel
  rw [← hloop]
  congr 1
  omega

theorem loop_missing {fuel : ℕ} (hfuel : (args items ++ [keyP]).length < fuel) :
    loop fuel (.init (program :: (args items ++ [keyP]))) = some (.error .missing) := by
  obtain ⟨s, hinv, hloop⟩ := exists_loop_init program items [keyP]
  obtain ⟨k, hk⟩ := hloop fuel hfuel
  rw [hk, hinv.loop_of_flag]

theorem exists_removed :
    ∃ s, Removed (program :: args items) items s ∧ ∀ fuel, (args items).length < fuel →
      loop fuel (.init (program :: args items)) = some (.ok s) := by
  obtain ⟨s, hinv, hloop⟩ := exists_loop_init program items []
  rw [List.append_nil] at hinv hloop
  refine ⟨s, hinv.removed, fun fuel hfuel => ?_⟩
  obtain ⟨k, hk⟩ := hloop fuel hfuel
  rw [hk, hinv.loop_of_nil]

end

/-- The two ways the loop ends. -/
theorem loop_cases (argv : List (List UInt8)) :
    (scan keyP argv.tail = none ∧
      ∀ fuel, argv.length < fuel → loop fuel (.init argv) = some (.error .missing)) ∨
    ∃ items s, scan keyP argv.tail = some items ∧ Removed argv items s ∧
      ∀ fuel, argv.length < fuel → loop fuel (.init argv) = some (.ok s) := by
  cases argv with
  | nil =>
    refine Or.inr ⟨[], .init [], rfl, ⟨le_rfl, rfl, rfl, rfl⟩, fun fuel hfuel => ?_⟩
    obtain ⟨k, rfl⟩ := Nat.exists_eq_add_of_lt hfuel
    rfl
  | cons program args =>
    rw [List.tail_cons]
    cases hscan : scan keyP args with
    | none =>
      obtain ⟨items, rfl⟩ := scan_eq_none_iff.1 hscan
      exact Or.inl ⟨rfl, fun fuel hfuel => loop_missing program items (Nat.lt_of_succ_lt hfuel)⟩
    | some items =>
      obtain rfl := scan_eq_some_iff.1 hscan
      obtain ⟨s, hremoved, hloop⟩ := exists_removed program items
      exact Or.inr ⟨items, s, rfl, hremoved, fun fuel hfuel => hloop fuel (Nat.lt_of_succ_lt hfuel)⟩

/-- **The loop takes out exactly the options**: it ends, and it reports a missing argument if the
reading from left to right meets a `-p` in the last place. -/
theorem removal_spec (argv : List (List UInt8)) :
    ∃ out, (∀ fuel, argv.length < fuel → loop fuel (.init argv) = some out) ∧
      (out = .error .missing ↔ scan keyP argv.tail = none) ∧
      ∀ items, scan keyP argv.tail = some items → ∃ s, out = .ok s ∧ Removed argv items s := by
  obtain ⟨hscan, hloop⟩ | ⟨items, s, hscan, hremoved, hloop⟩ := loop_cases argv
  · refine ⟨_, hloop, iff_of_true rfl hscan, fun items hitems => ?_⟩
    rw [hscan] at hitems
    cases hitems
  · refine ⟨_, hloop, iff_of_false (fun h => by cases h) ?_, fun items' hitems => ?_⟩
    · rw [hscan]
      exact Option.some_ne_none items
    · obtain rfl := Option.some.inj (hscan.symm.trans hitems)
      exact ⟨s, rfl, hremoved⟩

/-! ## `main` -/

/-- Each of the calls returns 0, after the ones before it. -/
def AllCopied (copyFile : List Call → Call → ℤ) (calls : List Call) : Prop :=
  ∀ k call, calls[k]? = some call → copyFile (calls.take k) call = 0

theorem allCopied_cons {copyFile : List Call → Call → ℤ} {call : Call} {calls : List Call} :
    AllCopied copyFile (call :: calls) ↔
      copyFile [] call = 0 ∧ AllCopied (fun earlier => copyFile (call :: earlier)) calls := by
  rw [AllCopied, ← Nat.and_forall_add_one]
  simp [AllCopied]

section

variable (copyFile : List Call → Call → ℤ) {s : Vars}

/-- The calls for the files from `i` on. -/
theorem copyAll_eq {files : List (List UInt8)} {i : ℕ}
    (hfiles : ∀ k, k < files.length → s.argv[i + k]? = files[k]?) (calls : List Call)
    (overallStatus : ℕ) :
    ∃ status, copyAll copyFile s files.length i calls overallStatus =
        some (calls ++ files.map (⟨·, s.fifoName⟩), status) ∧
      (status = 0 ↔ overallStatus = 0 ∧
        AllCopied (fun earlier => copyFile (calls ++ earlier)) (files.map (⟨·, s.fifoName⟩))) := by
  induction files generalizing i calls overallStatus with
  | nil =>
    refine ⟨overallStatus, ?_, ?_⟩
    · rw [List.map_nil, List.append_nil]
      rfl
    · exact (and_iff_left fun k call hcall => by cases hcall).symm
  | cons file files ih =>
    have hfile : s.argv[i]? = some file := hfiles 0 (Nat.succ_pos _)
    have hrest (k : ℕ) (hk : k < files.length) : s.argv[i + 1 + k]? = files[k]? := by
      rw [Nat.add_assoc, Nat.add_comm 1]
      exact hfiles (k + 1) (Nat.succ_lt_succ hk)
    obtain ⟨status, hcopy, hstatus⟩ := ih hrest (calls ++ [⟨file, s.fifoName⟩])
      (if copyFile calls ⟨file, s.fifoName⟩ ≠ 0 then exitFailure else overallStatus)
    refine ⟨status, ?_, hstatus.trans ?_⟩
    · rw [List.append_assoc] at hcopy
      rw [List.length_cons, copyAll, hfile]
      exact hcopy
    · rw [List.map_cons, allCopied_cons, List.append_nil]
      by_cases hzero : copyFile calls ⟨file, s.fifoName⟩ = 0
      · simp [hzero]
      · simp [hzero, exitFailure]

/-- What `main` leaves behind: an error text, or a call for each file in its order, with the last
name given. -/
theorem main_spec (argv : List (List UInt8)) :
    ∃ e, (∀ fuel, argv.length < fuel → main copyFile fuel argv = some e) ∧
      (scan keyP argv.tail = none →
        e = ⟨ascii "Error: Missing argument for option -p\n", [], exitFailure⟩) ∧
      ∀ items, scan keyP argv.tail = some items →
        (files items = [] → e = ⟨usage argv[0]?, [], exitFailure⟩) ∧
        (files items ≠ [] → e.stderr = [] ∧
          e.calls = (files items).map (⟨·, (values items).getLast?⟩) ∧
          (e.status = 0 ↔ AllCopied copyFile e.calls)) := by
  obtain ⟨hscan, hloop⟩ | ⟨items, s, hscan, hremoved, hloop⟩ := loop_cases argv
  · refine ⟨_, fun fuel hfuel => by rw [main, hloop fuel hfuel]; rfl, fun _ => rfl, ?_⟩
    intro items hitems
    rw [hscan] at hitems
    cases hitems
  · have hlen := hremoved.length_files
    obtain ⟨status, hcopy, hstatus⟩ :=
      copyAll_eq copyFile (i := 1) (fun k => hremoved.getElem?_argv) [] 0
    rw [hlen] at hcopy
    have hmain (fuel : ℕ) (hfuel : argv.length < fuel) : main copyFile fuel argv =
        some (if s.argc < 2 then ⟨usage argv[0]?, [], exitFailure⟩
          else ⟨[], (files items).map (⟨·, s.fifoName⟩), status⟩) := by
      rw [main, hloop fuel hfuel, Option.bind_some, afterLoop, hcopy, hremoved.program]
      split <;> rfl
    refine ⟨_, hmain, fun hnone => ?_, fun items' hitems => ?_⟩
    · rw [hscan] at hnone
      cases hnone
    · obtain rfl := Option.some.inj (hscan.symm.trans hitems)
      constructor
      · intro hfiles
        rw [hfiles, List.length_nil] at hlen
        exact if_pos (by omega)
      · intro hfiles
        have hpos := List.length_pos_iff.2 hfiles
        rw [if_neg (by omega), ← hremoved.fifoName]
        exact ⟨rfl, rfl, hstatus.trans (and_iff_right rfl)⟩

end

end EltexPractice.Copier.Arguments
