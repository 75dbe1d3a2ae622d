import Mathlib.Data.List.Basic

/-!
# Options with a value among other arguments

A command line on which the argument `flag` takes the one behind it as its value, whatever that is.
The reading from left to right is `scan`; it has no result when `flag` comes last. The arguments
that are no part of an option are the files.

* `scan_eq_some_iff`: the reading is the only way to take the command line apart.
* `scan_eq_none_iff`: the command lines without one.
* `scan_file`, `scan_option`, `scan_append`: what comes next, and what has been read.
-/

namespace EltexPractice.OptionScan

variable {α : Type*} {flag : α}

/-- What a command line consists of. -/
inductive Item (flag : α)
  | file (a : α) (h : a ≠ flag)
  | option (value : α)

/-- The arguments of an item. -/
def Item.args : Item flag → List α
  | .file a _ => [a]
  | .option value => [flag, value]

/-- The arguments of a list of items. -/
def args (items : List (Item flag)) : List α := items.flatMap Item.args

/-- The arguments that are not part of an option. -/
def files (items : List (Item flag)) : List α :=
  items.filterMap fun
    | .file a _ => some a
    | .option _ => none

/-- The values of the options. -/
def values (items : List (Item flag)) : List α :=
  items.filterMap fun
    | .file _ _ => none
    | .option value => some value

section Lists

variable (items : List (Item flag)) {a value : α} {h : a ≠ flag}

@[simp] theorem args_file : args (.file a h :: items) = a :: args items := rfl

@[simp] theorem args_option : args (.option value :: items) = flag :: value :: args items := rfl

theorem args_concat (item : Item flag) : args (items ++ [item]) = args items ++ item.args := by
  rw [args, List.flatMap_append, List.flatMap_singleton, args]

theorem length_le_length_args : items.length ≤ (args items).length := by
  induction items with
  | nil => exact Nat.zero_le _
  | cons item items ih => cases item <;> simp <;> omega

@[simp] theorem files_concat_file : files (items ++ [.file a h]) = files items ++ [a] :=
  List.filterMap_append

@[simp] theorem files_concat_option : files (items ++ [.option value]) = files items :=
  List.filterMap_append.trans (List.append_nil _)

@[simp] theorem values_concat_file : values (items ++ [.file a h]) = values items :=
  List.filterMap_append.trans (List.append_nil _)

@[simp] theorem values_concat_option :
    values (items ++ [.option value]) = values items ++ [value] :=
  List.filterMap_append

end Lists

/-! ## The reading from left to right -/

variable [DecidableEq α]

/-- The items of a command line, from left to right. -/
def scan (flag : α) : List α → Option (List (Item flag))
  | [] => some []
  | a :: rest =>
    if h : a = flag then
      match rest with
      | [] => none
      | value :: rest => (scan flag rest).map (.option value :: ·)
    else (scan flag rest).map (.file a h :: ·)

@[simp] theorem scan_nil : scan flag [] = some [] := rfl

theorem scan_file {a : α} (h : a ≠ flag) (rest : List α) :
    scan flag (a :: rest) = (scan flag rest).map (.file a h :: ·) := by
  rw [scan.eq_def]
  exact dif_neg h

theorem scan_flag : scan flag [flag] = none := by
  rw [scan, dif_pos rfl]

theorem scan_option (value : α) (rest : List α) :
    scan flag (flag :: value :: rest) = (scan flag rest).map (.option value :: ·) := by
  rw [scan, dif_pos rfl]

/-- The value can be the flag itself. -/
example : (scan 0 [0, 0, 5, 0, 7]).map values = some [0, 7] := rfl

/-- What has been read stays read. -/
theorem scan_append (items : List (Item flag)) (rest : List α) :
    scan flag (args items ++ rest) = (scan flag rest).map (items ++ ·) := by
  induction items with
  | nil => exact Option.map_id'.symm
  | cons item items ih =>
    cases item with
    | file a h => rw [args_file, List.cons_append, scan_file h, ih, Option.map_map]; rfl
    | option value =>
      rw [args_option, List.cons_append, List.cons_append, scan_option, ih, Option.map_map]; rfl

theorem scan_args (items : List (Item flag)) : scan flag (args items) = some items := by
  have h := scan_append items []
  rwa [List.append_nil, scan_nil, Option.map_some, List.append_nil] at h

theorem scan_args_flag (items : List (Item flag)) : scan flag (args items ++ [flag]) = none := by
  rw [scan_append, scan_flag, Option.map_none]

/-- A command line consists of items, or of items and the flag at the end. -/
theorem exists_items (flag : α) (l : List α) :
    ∃ items : List (Item flag), l = args items ∨ l = args items ++ [flag] := by
  fun_induction scan flag l with
  | case1 => exact ⟨[], Or.inl rfl⟩
  | case2 => exact ⟨[], Or.inr rfl⟩
  | case3 value rest ih =>
    obtain ⟨items, rfl | rfl⟩ := ih
    · exact ⟨.option value :: items, Or.inl rfl⟩
    · exact ⟨.option value :: items, Or.inr rfl⟩
  | case4 a rest h ih =>
    obtain ⟨items, rfl | rfl⟩ := ih
    · exact ⟨.file a h :: items, Or.inl rfl⟩
    · exact ⟨.file a h :: items, Or.inr rfl⟩

/-- **A command line is read in one way**, and `scan` finds it. -/
theorem scan_eq_some_iff {l : List α} {items : List (Item flag)} :
    scan flag l = some items ↔ args items = l := by
  constructor
  · intro h
    obtain ⟨items', rfl | rfl⟩ := exists_items flag l
    · rw [scan_args] at h
      rw [Option.some.inj h]
    · rw [scan_args_flag] at h
      cases h
  · rintro rfl
    exact scan_args items

theorem scan_eq_none_iff {l : List α} :
    scan flag l = none ↔ ∃ items : List (Item flag), l = args items ++ [flag] := by
  constructor
  · intro h
    obtain ⟨items, rfl | rfl⟩ := exists_items flag l
    · rw [scan_args] at h
      cases h
    · exact ⟨items, rfl⟩
  · rintro ⟨items, rfl⟩
    exact scan_args_flag items

end EltexPractice.OptionScan
