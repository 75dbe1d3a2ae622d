import EltexPractice.Foundations.Words
import Mathlib.Data.Int.Order.Basic
import Mathlib.Data.List.Basic
import Mathlib.Data.List.TakeWhile

/-!
# C strings

A C string is the list of its bytes before the terminating NUL, and a pointer into a string is
the suffix it points to, so the difference of two pointers is a difference of lengths. A buffer
is the list of all its bytes; `cstr` reads the string it holds.

* `strncpy`, `snprintf`: the bounded copies, and what `cstr` reads after them.
* `fgets`, `cutAt`: a line of the input, and its part before the newline.
* `decimal`: the text `%d` prints.
* `strtol`, `atoi`, `scanInt`, `scanStr`: what `atoi`, `%d` and `%Ns` read. A value beyond `long`
  saturates, and the conversion to `int` keeps the low 32 bits.
* `scanInt_decimal`: reading back a printed `int`, whatever follows it, gives the `int`.
-/

namespace EltexPractice.CString

/-- The bytes of an ASCII literal. -/
def ascii (s : String) : List UInt8 := s.toList.map fun c => UInt8.ofNat c.toNat

/-- The bytes of a literal with other characters. -/
def utf8 (s : String) : List UInt8 := s.toUTF8.toList

/-- The string in a buffer: its bytes before the first NUL. -/
def cstr (buf : List UInt8) : List UInt8 := buf.takeWhile (· != 0)

theorem cstr_eq_self {s : List UInt8} (h : 0 ∉ s) : cstr s = s := by
  refine List.takeWhile_eq_self_iff.2 fun b hb => ?_
  simpa using fun h0 : b = 0 => h (h0 ▸ hb)

theorem zero_notMem_cstr (buf : List UInt8) : 0 ∉ cstr buf := by
  intro h
  simpa using List.mem_takeWhile_imp h

theorem length_cstr_le (buf : List UInt8) : (cstr buf).length ≤ buf.length :=
  (List.takeWhile_sublist _).length_le

theorem length_cstr_lt {buf : List UInt8} (h : 0 ∈ buf) : (cstr buf).length < buf.length := by
  refine lt_of_le_of_ne (length_cstr_le buf) fun hlen => zero_notMem_cstr buf ?_
  have hall : cstr buf = buf := (List.takeWhile_sublist _).eq_of_length hlen
  rwa [hall]

theorem cstr_append_of_notMem {s : List UInt8} (h : 0 ∉ s) (rest : List UInt8) :
    cstr (s ++ rest) = s ++ cstr rest :=
  List.takeWhile_append_of_pos fun b hb => by simpa using fun h0 : b = 0 => h (h0 ▸ hb)

/-- What follows the terminating NUL is not part of the string. -/
theorem cstr_append_zero {s : List UInt8} (h : 0 ∉ s) (rest : List UInt8) :
    cstr (s ++ 0 :: rest) = s := by
  rw [cstr_append_of_notMem h]
  simp [cstr]

/-- A buffer with a NUL holds its string whatever follows it. -/
theorem cstr_append_of_mem {buf : List UInt8} (h : 0 ∈ buf) (rest : List UInt8) :
    cstr (buf ++ rest) = cstr buf := by
  obtain ⟨s, t, rfl, hs⟩ := List.eq_append_cons_of_mem h
  rw [List.append_assoc, List.cons_append, cstr_append_zero hs, cstr_append_zero hs]

/-- A NUL ends a string, if the string does not end before. -/
theorem cstr_append_cons_zero (s rest : List UInt8) : cstr (s ++ 0 :: rest) = cstr s := by
  by_cases h : 0 ∈ s
  · exact cstr_append_of_mem h _
  · rw [cstr_append_zero h, cstr_eq_self h]

/-- Terminating a buffer cuts its string. -/
theorem cstr_set {buf : List UInt8} {n : ℕ} (h : n < buf.length) :
    cstr (buf.set n 0) = cstr (buf.take n) := by
  rw [List.set_eq_take_append_cons_drop, if_pos h]
  exact cstr_append_cons_zero _ _

/-! ## Bounded copies -/

/-- `strncpy(dst, src, n)`: at most `n` bytes of the string `src`, padded with NULs up to `n`;
the bytes of `dst` from `n` on are kept. -/
def strncpy (dst src : List UInt8) (n : ℕ) : List UInt8 :=
  src.take n ++ List.replicate (n - src.length) 0 ++ dst.drop n

theorem length_strncpy {dst : List UInt8} {n : ℕ} (src : List UInt8) (h : n ≤ dst.length) :
    (strncpy dst src n).length = dst.length := by
  simp only [strncpy, List.length_append, List.length_take, List.length_replicate,
    List.length_drop]
  omega

/-- A copy into a zeroed array that keeps its last byte. -/
theorem strncpy_zeros (src : List UInt8) (n : ℕ) :
    strncpy (List.replicate (n + 1) 0) src n =
      src.take n ++ 0 :: List.replicate (n - src.length) 0 := by
  rw [strncpy, List.drop_replicate, Nat.add_sub_cancel_left, List.append_assoc,
    List.replicate_append_replicate, List.replicate_succ]

/-- A copy of `n` bytes, terminated right after them, holds the first `n` bytes of the source. -/
theorem cstr_set_strncpy {dst src : List UInt8} {n : ℕ} (hdst : n < dst.length)
    (hsrc : 0 ∉ src) : cstr ((strncpy dst src n).set n 0) = src.take n := by
  have h0 : 0 ∉ src.take n := fun h => hsrc (List.mem_of_mem_take h)
  have hlen : (src.take n ++ List.replicate (n - src.length) 0).length = n := by
    simp only [List.length_append, List.length_take, List.length_replicate]
    omega
  rw [strncpy, List.drop_eq_getElem_cons hdst, List.set_append_right _ _ hlen.le, hlen,
    Nat.sub_self, List.append_assoc, List.set_cons_zero, List.append_cons,
    ← List.replicate_succ', List.replicate_succ]
  exact cstr_append_zero h0 _

/-- `snprintf(buf, size, …)`: the text, cut to leave room for the NUL. -/
def snprintf (size : ℕ) (text : List UInt8) : List UInt8 := text.take (size - 1)

theorem snprintf_eq_self {size : ℕ} {text : List UInt8} (h : text.length < size) :
    snprintf size text = text := List.take_of_length_le (by omega)

/-! ## Searching -/

/-- `strchr(s, c)`: the suffix of `s` that starts at the first `c`. -/
def strchr (s : List UInt8) (c : UInt8) : Option (List UInt8) :=
  match s.dropWhile (· != c) with
  | [] => none
  | t => some t

theorem strchr_append {a : List UInt8} {c : UInt8} (h : c ∉ a) (b : List UInt8) :
    strchr (a ++ c :: b) c = some (c :: b) := by
  have ha : (a ++ c :: b).dropWhile (· != c) = c :: b := by
    rw [List.dropWhile_append_of_pos fun x hx => by simpa using fun e : x = c => h (e ▸ hx)]
    simp
  rw [strchr, ha]

theorem strchr_eq_none {s : List UInt8} {c : UInt8} (h : c ∉ s) : strchr s c = none := by
  have hs : s.dropWhile (· != c) = [] :=
    List.dropWhile_eq_nil_iff.2 fun x hx => by simpa using fun e : x = c => h (e ▸ hx)
  rw [strchr, hs]

/-- `strrchr(s, c)`: the suffix of `s` that starts at the last `c`. -/
def strrchr : List UInt8 → UInt8 → Option (List UInt8)
  | [], _ => none
  | b :: s, c =>
    match strrchr s c with
    | some t => some t
    | none => if b = c then some (b :: s) else none

theorem suffix_of_strrchr {s t : List UInt8} {c : UInt8} (h : strrchr s c = some t) : t <:+ s := by
  induction s with
  | nil => cases h
  | cons b s ih =>
    rw [strrchr] at h
    split at h
    · rename_i hrec
      obtain rfl := Option.some.inj h
      exact (ih hrec).trans (List.suffix_cons b s)
    · split at h
      · obtain rfl := Option.some.inj h
        exact List.suffix_refl _
      · cases h

theorem notMem_of_strrchr {s : List UInt8} {c : UInt8} (h : strrchr s c = none) : c ∉ s := by
  induction s with
  | nil => exact List.not_mem_nil
  | cons b s ih =>
    rw [strrchr] at h
    split at h
    · cases h
    · rename_i hrec
      split at h
      · cases h
      · rename_i hne
        exact List.not_mem_cons_of_ne_of_not_mem (fun e => hne e.symm) (ih hrec)

/-- The last `c` has no `c` behind it. -/
theorem notMem_drop_strrchr {s t : List UInt8} {c : UInt8} (h : strrchr s c = some t) :
    c ∉ t.drop 1 := by
  induction s with
  | nil => cases h
  | cons b s ih =>
    rw [strrchr] at h
    split at h
    · rename_i hrec
      obtain rfl := Option.some.inj h
      exact ih hrec
    · rename_i hrec
      split at h
      · obtain rfl := Option.some.inj h
        exact notMem_of_strrchr hrec
      · cases h

/-! ## Reading a line -/

/-- `fgets(buf, size, stream)`: at most `size - 1` bytes of what is left to read, up to the newline,
and what is left behind them; `none` at the end of the stream. -/
def fgets (size : ℕ) (input : List UInt8) : Option (List UInt8 × List UInt8) :=
  let n := min (size - 1) ((input.takeWhile (· != 10)).length + 1)
  if input = [] then none else some (input.take n, input.drop n)

/-- `s[strcspn(s, reject)] = 0`: the string up to the first byte of `reject`. -/
def cutAt (reject s : List UInt8) : List UInt8 := s.takeWhile (· ∉ reject)

/-- A line that fits is read with its newline. -/
theorem fgets_line {size : ℕ} {line : List UInt8} (h : 10 ∉ line) (hlen : line.length + 1 < size)
    (rest : List UInt8) : fgets size (line ++ 10 :: rest) = some (line ++ [10], rest) := by
  have hline : (line ++ 10 :: rest).takeWhile (· != 10) = line := by
    rw [List.takeWhile_append_of_pos fun b hb => by simpa using fun e : b = 10 => h (e ▸ hb)]
    simp
  have hsplit : line ++ 10 :: rest = line ++ [10] ++ rest := by simp
  have hn : min (size - 1) (line.length + 1) = (line ++ [10]).length := by
    rw [List.length_append, List.length_singleton]
    omega
  rw [fgets, hline, if_neg (by simp), hn, hsplit, List.take_left, List.drop_left]

theorem cutAt_append {reject line : List UInt8} (h : ∀ b ∈ line, b ∉ reject) {b : UInt8}
    (hb : b ∈ reject) (rest : List UInt8) : cutAt reject (line ++ b :: rest) = line := by
  rw [cutAt, List.takeWhile_append_of_pos fun x hx => by simpa using h x hx]
  simp [hb]

/-! ## Classes of characters -/

/-- `isspace` in the C locale: blank, `\t`, `\n`, `\v`, `\f`, `\r`. -/
def isspace (b : UInt8) : Bool := b == 32 || (9 ≤ b && b ≤ 13)

def isdigit (b : UInt8) : Bool := 48 ≤ b && b ≤ 57

/-! ## Printing an `int` -/

/-- The text of `printf("%d", n)`. -/
def decimal (n : ℤ) : List UInt8 :=
  let ds := (Nat.toDigits 10 n.natAbs).map fun c => UInt8.ofNat c.toNat
  if n < 0 then 45 :: ds else ds

/-- The value of a string of digits. -/
def digitsVal (ds : List UInt8) : ℕ := ds.foldl (fun v d => 10 * v + (d.toNat - 48)) 0

/-- The digits `%d` prints, without the sign. -/
theorem digits_spec (n : ℕ) :
    ((Nat.toDigits 10 n).map fun c => UInt8.ofNat c.toNat) ≠ [] ∧
      (∀ b ∈ (Nat.toDigits 10 n).map fun c => UInt8.ofNat c.toNat, isdigit b = true) ∧
      digitsVal ((Nat.toDigits 10 n).map fun c => UInt8.ofNat c.toNat) = n := by
  have hdigit : ∀ c ∈ Nat.toDigits 10 n, 48 ≤ c.toNat ∧ c.toNat ≤ 57 := fun c hc => by
    have := Nat.isDigit_of_mem_toDigits (by decide) (by decide) hc
    simp only [Char.isDigit, Bool.and_eq_true, decide_eq_true_eq] at this
    exact this
  have htoNat : ∀ c ∈ Nat.toDigits 10 n, (UInt8.ofNat c.toNat).toNat = c.toNat := fun c hc => by
    rw [UInt8.toNat_ofNat', Nat.mod_eq_of_lt]
    have := hdigit c hc
    omega
  refine ⟨by simp, ?_, ?_⟩
  · intro b hb
    obtain ⟨c, hc, rfl⟩ := List.mem_map.1 hb
    have h := hdigit c hc
    simp only [isdigit, Bool.and_eq_true, decide_eq_true_eq, UInt8.le_iff_toNat_le, htoNat c hc]
    exact h
  · conv_rhs => rw [← Nat.ofDigitChars_ten_toDigits (n := n)]
    rw [digitsVal, List.foldl_map, Nat.ofDigitChars]
    refine List.foldl_ext _ _ _ fun v c hc => ?_
    rw [htoNat c hc]
    rfl

theorem isdigit_range {b : UInt8} (h : isdigit b = true) : 48 ≤ b.toNat ∧ b.toNat ≤ 57 := by
  simpa [isdigit, UInt8.le_iff_toNat_le] using h

/-- A printed `int` consists of digits and at most a minus sign. -/
theorem mem_decimal {n : ℤ} {b : UInt8} (h : b ∈ decimal n) : b = 45 ∨ isdigit b = true := by
  have hd := (digits_spec n.natAbs).2.1
  rw [decimal] at h
  split at h
  · rcases List.mem_cons.1 h with rfl | h
    · exact Or.inl rfl
    · exact Or.inr (hd b h)
  · exact Or.inr (hd b h)

/-- A byte that is neither a digit nor a minus sign does not occur in a printed `int`. -/
theorem notMem_decimal {n : ℤ} {b : UInt8} (h : b ≠ 45) (h' : isdigit b = false) :
    b ∉ decimal n := fun hb => by
  rcases mem_decimal hb with rfl | hb
  · exact h rfl
  · rw [h'] at hb
    cases hb

/-- An `int` is printed in at most 11 bytes. -/
theorem length_decimal_le {n : ℤ} (h : n.natAbs < 10 ^ 10) : (decimal n).length ≤ 11 := by
  have hd : (Nat.toDigits 10 n.natAbs).length ≤ 10 :=
    (Nat.length_toDigits_le_iff (by decide) (by decide)).2 h
  rw [decimal]
  split <;> simp <;> omega

/-! ## Reading numbers and words -/

/-- The optional sign in front of a number. -/
def splitSign : List UInt8 → Bool × List UInt8
  | [] => (false, [])
  | b :: r => if b = 45 then (true, r) else if b = 43 then (false, r) else (false, b :: r)

/-- `strtol(s, &end, 10)`: the value and what follows the digits; `none` when there is no digit.
Leading white space and one sign are accepted, and the value saturates at the ends of `long`. -/
def strtol (s : List UInt8) : Option (ℤ × List UInt8) :=
  let (neg, s) := splitSign (s.dropWhile isspace)
  match s.takeWhile isdigit with
  | [] => none
  | ds =>
    let v : ℤ := if neg then -digitsVal ds else digitsVal ds
    some (max (-2 ^ 63) (min (2 ^ 63 - 1) v), s.dropWhile isdigit)

/-- `atoi(s)`. -/
def atoi (s : List UInt8) : ℤ :=
  match strtol s with
  | none => 0
  | some (v, _) => toInt v

/-- `%d` of `sscanf`. -/
def scanInt (s : List UInt8) : Option (ℤ × List UInt8) :=
  match strtol s with
  | none => none
  | some (v, rest) => some (toInt v, rest)

/-- Literal text of a `sscanf` format, without white space. -/
def scanLit (lit s : List UInt8) : Option (List UInt8) :=
  if lit.isPrefixOf s then some (s.drop lit.length) else none

/-- `%<width>s` of `sscanf`: white space is skipped, then at most `width` bytes that are not white
space are read. -/
def scanStr (width : ℕ) (s : List UInt8) : Option (List UInt8 × List UInt8) :=
  let s := s.dropWhile isspace
  match (s.takeWhile fun b => !isspace b).take width with
  | [] => none
  | w => some (w, s.drop w.length)

@[simp] theorem scanLit_append (lit s : List UInt8) : scanLit lit (lit ++ s) = some s := by
  simp [scanLit]

theorem isspace_of_isdigit {b : UInt8} (h : isdigit b = true) : isspace b = false := by
  have := isdigit_range h
  simp [isspace, UInt8.le_iff_toNat_le, ← UInt8.toNat_inj]
  omega

/-- The byte after a number, if any, is not a digit. -/
def NumberEnds (rest : List UInt8) : Prop := ∀ b ∈ rest.head?, isdigit b = false

theorem span_digits {ds rest : List UInt8} (hds : ∀ b ∈ ds, isdigit b = true)
    (hrest : NumberEnds rest) :
    (ds ++ rest).takeWhile isdigit = ds ∧ (ds ++ rest).dropWhile isdigit = rest := by
  have hstop : rest.takeWhile isdigit = [] ∧ rest.dropWhile isdigit = rest := by
    rcases rest with _ | ⟨b, r⟩
    · simp
    · have hb : isdigit b = false := hrest b (by simp)
      simp [hb]
  rw [List.takeWhile_append_of_pos hds, List.dropWhile_append_of_pos hds, hstop.1, hstop.2,
    List.append_nil]
  exact ⟨rfl, rfl⟩

/-- Reading back a printed number. -/
theorem strtol_decimal {n : ℤ} {rest : List UInt8} (hrest : NumberEnds rest)
    (h₁ : -2 ^ 63 ≤ n) (h₂ : n < 2 ^ 63) : strtol (decimal n ++ rest) = some (n, rest) := by
  obtain ⟨hne, hds, hval⟩ := digits_spec n.natAbs
  obtain ⟨htake, hdrop⟩ := span_digits hds hrest
  rw [decimal]
  generalize (Nat.toDigits 10 n.natAbs).map (fun c => UInt8.ofNat c.toNat) = ds at *
  obtain ⟨d, ds', rfl⟩ := List.exists_cons_of_ne_nil hne
  split
  · rename_i hneg
    have hsign : splitSign ((45 :: d :: ds' ++ rest).dropWhile isspace) =
        (true, d :: ds' ++ rest) := by
      simp [splitSign, show isspace 45 = false from rfl]
    simp only [strtol, hsign, htake, hdrop, hval, if_true]
    congr 2
    omega
  · rename_i hpos
    have hd : isdigit d = true := hds d (by simp)
    have hr := isdigit_range hd
    have hsign : splitSign ((d :: ds' ++ rest).dropWhile isspace) = (false, d :: ds' ++ rest) := by
      have h45 : d ≠ 45 := by rintro rfl; simp at hr
      have h43 : d ≠ 43 := by rintro rfl; simp at hr
      simp [splitSign, isspace_of_isdigit hd, h45, h43]
    simp only [strtol, hsign, htake, hdrop, hval, Bool.false_eq_true, if_false]
    congr 2
    omega

/-- **Reading back a printed `int`** with `%d` gives the `int`, and stops right after it. -/
theorem scanInt_decimal {n : ℤ} {rest : List UInt8} (hrest : NumberEnds rest)
    (h₁ : -2 ^ 31 ≤ n) (h₂ : n < 2 ^ 31) : scanInt (decimal n ++ rest) = some (n, rest) := by
  have h := strtol_decimal (n := n) hrest (by omega) (by omega)
  simp only [scanInt, h, toInt_eq_self h₁ h₂]

theorem atoi_decimal {n : ℤ} {rest : List UInt8} (hrest : NumberEnds rest)
    (h₁ : -2 ^ 31 ≤ n) (h₂ : n < 2 ^ 31) : atoi (decimal n ++ rest) = n := by
  have h := strtol_decimal (n := n) hrest (by omega) (by omega)
  simp only [atoi, h, toInt_eq_self h₁ h₂]

theorem takeWhile_append_cons {p : UInt8 → Bool} {b : UInt8} (hb : p b = false)
    (s rest : List UInt8) : (s ++ b :: rest).takeWhile p = s.takeWhile p := by
  induction s with
  | nil => rw [List.nil_append, List.takeWhile_cons_of_neg (by simp [hb]), List.takeWhile_nil]
  | cons c s ih => rw [List.cons_append, List.takeWhile_cons, List.takeWhile_cons, ih]

theorem dropWhile_append_cons {p : UInt8 → Bool} {b : UInt8} (hb : p b = false)
    (s rest : List UInt8) : (s ++ b :: rest).dropWhile p = s.dropWhile p ++ b :: rest := by
  induction s with
  | nil => rw [List.nil_append, List.dropWhile_cons_of_neg (by simp [hb]), List.dropWhile_nil,
      List.nil_append]
  | cons c s ih =>
    rw [List.cons_append, List.dropWhile_cons, List.dropWhile_cons]
    split
    · exact ih
    · rfl

/-- A byte that does not belong to a number. -/
structure EndsNumber (b : UInt8) : Prop where
  not_space : isspace b = false
  not_digit : isdigit b = false
  not_minus : b ≠ 45
  not_plus : b ≠ 43

theorem splitSign_append {b : UInt8} (hb : EndsNumber b) (s rest : List UInt8) :
    splitSign (s ++ b :: rest) = ((splitSign s).1, (splitSign s).2 ++ b :: rest) := by
  cases s with
  | nil =>
    have hnone : splitSign (b :: rest) = (false, b :: rest) := by
      rw [splitSign, if_neg hb.not_minus, if_neg hb.not_plus]
    exact hnone
  | cons c s =>
    rw [List.cons_append, splitSign, splitSign]
    split
    · rfl
    · split <;> rfl

/-- `atoi` stops at a byte that does not belong to a number. -/
theorem atoi_append {b : UInt8} (hb : EndsNumber b) (s rest : List UInt8) :
    atoi (s ++ b :: rest) = atoi s := by
  have hsign := splitSign_append hb (s.dropWhile isspace) rest
  have hvalue : (strtol (s ++ b :: rest)).map (·.1) = (strtol s).map (·.1) := by
    rw [strtol, strtol, dropWhile_append_cons hb.not_space, hsign]
    dsimp only
    rw [takeWhile_append_cons hb.not_digit]
    split <;> rfl
  rw [atoi, atoi]
  cases h : strtol s with
  | none =>
    rw [h, Option.map_none, Option.map_eq_none_iff] at hvalue
    rw [hvalue]
  | some x =>
    rw [h, Option.map_some, Option.map_eq_some_iff] at hvalue
    obtain ⟨y, hy, hxy⟩ := hvalue
    rw [hy]
    exact congrArg toInt hxy

/-- The white space `scanStr` skips. -/
def leadingSpace (s : List UInt8) : List UInt8 := s.takeWhile isspace

/-- The word behind the leading white space. -/
def firstWord (s : List UInt8) : List UInt8 := (s.dropWhile isspace).takeWhile fun b => !isspace b

theorem leadingSpace_of_no_space {s : List UInt8} (h : ∀ b ∈ s, isspace b = false) :
    leadingSpace s = [] := by
  rcases s with _ | ⟨b, s⟩
  · rfl
  · rw [leadingSpace, List.takeWhile_cons, h b List.mem_cons_self, if_neg (by decide)]

theorem firstWord_of_no_space {s : List UInt8} (h : ∀ b ∈ s, isspace b = false) :
    firstWord s = s := by
  have hskip : s.dropWhile isspace = s := by
    rcases s with _ | ⟨b, s⟩
    · rfl
    · rw [List.dropWhile_cons, h b List.mem_cons_self, if_neg (by decide)]
  rw [firstWord, hskip, List.takeWhile_eq_self_iff]
  intro b hb
  rw [h b hb, Bool.not_false]

theorem dropWhile_take (p : UInt8 → Bool) (s : List UInt8) (k : ℕ) :
    (s.take k).dropWhile p = (s.dropWhile p).take (k - (s.takeWhile p).length) := by
  induction s generalizing k with
  | nil => simp
  | cons b s ih =>
    rcases k with _ | k
    · simp
    · rw [List.take_succ_cons, List.dropWhile_cons, List.dropWhile_cons, List.takeWhile_cons]
      cases p b with
      | true => simpa only [if_true, List.length_cons, Nat.add_sub_add_right] using ih k
      | false => rfl

/-- Cutting a string cuts its first word by what the white space leaves. -/
theorem firstWord_take (s : List UInt8) (k : ℕ) :
    firstWord (s.take k) = (firstWord s).take (k - (leadingSpace s).length) := by
  rw [firstWord, dropWhile_take, ← List.take_takeWhile]
  rfl

/-- `scanStr` reads the first word up to the width. -/
theorem scanStr_eq (width : ℕ) (s : List UInt8) :
    (scanStr width s).map (·.1) =
      if (firstWord s).take width = [] then none else some ((firstWord s).take width) := by
  rw [scanStr]
  change Option.map _ (match (firstWord s).take width with
    | [] => none
    | w => some (w, (s.dropWhile isspace).drop w.length)) = _
  split
  · rename_i hnil
    rw [if_pos hnil]
    rfl
  · rename_i hne
    rw [if_neg hne]
    rfl

/-- A word read by `scanStr` is not empty and fits the width. -/
theorem scanStr_spec {width : ℕ} {s w rest : List UInt8} (h : scanStr width s = some (w, rest)) :
    w ≠ [] ∧ w.length ≤ width ∧ ∀ b ∈ w, b ∈ s := by
  rw [scanStr] at h
  split at h
  · cases h
  · rename_i hne
    obtain ⟨rfl, -⟩ := Prod.mk.inj (Option.some.inj h)
    refine ⟨hne, List.length_take_le _ _, fun b hb => ?_⟩
    exact (List.dropWhile_sublist _).subset
      ((List.takeWhile_sublist _).subset (List.mem_of_mem_take hb))

/-! ## What is left to read is part of the string -/

theorem splitSign_subset (s : List UInt8) : (splitSign s).2 ⊆ s := by
  rcases s with _ | ⟨b, r⟩
  · exact List.Subset.refl _
  · rw [splitSign]
    split
    · exact List.subset_cons_self b r
    · split
      · exact List.subset_cons_self b r
      · exact List.Subset.refl _

theorem strtol_subset {s rest : List UInt8} {v : ℤ} (h : strtol s = some (v, rest)) :
    rest ⊆ s := by
  simp only [strtol] at h
  split at h
  · cases h
  · obtain ⟨-, rfl⟩ := Prod.mk.inj (Option.some.inj h)
    exact List.Subset.trans (List.dropWhile_sublist _).subset
      (List.Subset.trans (splitSign_subset _) (List.dropWhile_sublist _).subset)

theorem scanInt_subset {s rest : List UInt8} {v : ℤ} (h : scanInt s = some (v, rest)) :
    rest ⊆ s := by
  rw [scanInt] at h
  split at h
  · cases h
  · rename_i hs
    obtain ⟨-, rfl⟩ := Prod.mk.inj (Option.some.inj h)
    exact strtol_subset hs

theorem scanLit_subset {lit s rest : List UInt8} (h : scanLit lit s = some rest) : rest ⊆ s := by
  rw [scanLit] at h
  split at h
  · obtain rfl := Option.some.inj h
    exact (List.drop_sublist _ _).subset
  · cases h

end EltexPractice.CString
