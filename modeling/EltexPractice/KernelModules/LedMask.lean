import EltexPractice.Foundations.CString
import EltexPractice.Foundations.Words
import Mathlib.Data.List.Induction

/-!
# The LED mask in sysfs

`foo_show` and `foo_store` of the LED module: the value of `test` as a text. `kstrtoint` takes an
optional sign, digits and one line break at most, and nothing else.

* `Denotes`: the texts of the values 0 to 7.
* `store_law`: `foo_store` takes these texts and no others, and what `foo_show` gives is one.
-/

namespace EltexPractice.KbLeds

open CString

/-! ## Numbers in the kernel -/

/-- `_kstrtoull` in base 10. -/
def kstrtoull (s : List UInt8) : Option ℕ :=
  let digits := s.takeWhile isdigit
  let rest := s.dropWhile isdigit
  if digits = [] ∨ 2 ^ 64 ≤ digitsVal digits then none
  else if rest = [] ∨ rest = [10] then some (digitsVal digits)
  else none

/-- `kstrtoll` in base 10. -/
def kstrtoll (s : List UInt8) : Option ℤ :=
  let (neg, s) := splitSign s
  match kstrtoull s with
  | none => none
  | some n =>
    if neg then if n ≤ 2 ^ 63 then some (-n) else none
    else if n < 2 ^ 63 then some n else none

/-- `kstrtoint` in base 10; `none` for an error. -/
def kstrtoint (buf : List UInt8) : Option ℤ :=
  match kstrtoll (cstr buf) with
  | none => none
  | some v => if v = toInt v then some v else none

/-! ## The attribute -/

def EINVAL : ℤ := 22

/-- `sprintf(buf, "%d\n", test)` -/
def fooShow (test : ℤ) : List UInt8 := decimal test ++ [10]

/-- `temp_val`, when it is a number from 0 to 7. -/
def tempVal (buf : List UInt8) : Option ℤ :=
  match kstrtoint buf with
  | none => none
  | some tempVal => if tempVal < 0 ∨ tempVal > 7 then none else some tempVal

/-- What `foo_store` returns, and `test` behind it. -/
def fooStore (test : ℤ) (buf : List UInt8) : ℤ × ℤ :=
  match tempVal buf with
  | none => (-EINVAL, test)
  | some tempVal => (buf.length, tempVal)

/-! ## The texts that are taken -/

/-- The texts of `v`: a sign, zeros, the digit and a line break. -/
def Denotes (text : List UInt8) (v : ℕ) : Prop :=
  ∃ (sign ending : List UInt8) (zeros : ℕ),
    text = sign ++ (List.replicate zeros 48 ++ UInt8.ofNat (48 + v) :: ending) ∧ v ≤ 7 ∧
      (sign = [] ∨ sign = [43] ∨ sign = [45] ∧ v = 0) ∧ (ending = [] ∨ ending = [10])

theorem kstrtoull_eq_some {s : List UInt8} {n : ℕ} :
    kstrtoull s = some n ↔ ∃ digits ending, s = digits ++ ending ∧ digits ≠ [] ∧
      (∀ b ∈ digits, isdigit b = true) ∧ (ending = [] ∨ ending = [10]) ∧
        digitsVal digits = n ∧ n < 2 ^ 64 := by
  constructor
  · intro h
    rw [kstrtoull] at h
    split at h
    · cases h
    · rename_i hdigits
      rw [not_or] at hdigits
      split at h
      · rename_i hrest
        obtain rfl := Option.some.inj h
        exact ⟨_, _, (List.takeWhile_append_dropWhile (p := isdigit)).symm, hdigits.1,
          fun b hb => List.mem_takeWhile_imp hb, hrest, rfl, Nat.lt_of_not_le hdigits.2⟩
      · cases h
  · rintro ⟨digits, ending, rfl, hne, hdigits, hending, hval, hlt⟩
    have hends : NumberEnds ending := by
      rcases hending with rfl | rfl <;> simp [NumberEnds, isdigit]
    obtain ⟨htake, hdrop⟩ := span_digits hdigits hends
    rw [kstrtoull, htake, hdrop, if_neg, if_pos hending, hval]
    rw [hval]
    exact not_or.2 ⟨hne, Nat.not_le.2 hlt⟩

theorem digitsVal_concat (ds : List UInt8) (d : UInt8) :
    digitsVal (ds ++ [d]) = 10 * digitsVal ds + (d.toNat - 48) := by
  simp [digitsVal]

theorem ofNat_digit {d : UInt8} (hd : isdigit d = true) :
    UInt8.ofNat (48 + (d.toNat - 48)) = d := by
  have hrange := isdigit_range hd
  rw [Nat.add_sub_cancel' hrange.1]
  exact UInt8.ofNat_toNat

/-- Digits of value 0 are zeros. -/
theorem eq_zeros {ds : List UInt8} (h : ∀ b ∈ ds, isdigit b = true) (hval : digitsVal ds = 0) :
    ds = List.replicate ds.length 48 := by
  induction ds using List.reverseRecOn with
  | nil => rfl
  | append_singleton ds d ih =>
    obtain ⟨hds, hd⟩ := List.forall_mem_append.1 h
    rw [digitsVal_concat] at hval
    have hdigit := ofNat_digit (hd d (List.mem_singleton.2 rfl))
    rw [show d.toNat - 48 = 0 by omega] at hdigit
    rw [ih hds (by omega), ← hdigit, List.length_append, List.length_replicate,
      List.length_singleton, List.replicate_succ']
    rfl

theorem digitsVal_zeros (zeros : ℕ) : digitsVal (List.replicate zeros 48) = 0 := by
  induction zeros with
  | zero => rfl
  | succ zeros ih =>
    rw [List.replicate_succ', digitsVal_concat, ih]
    rfl

/-- Digits of a value of one digit are that digit behind zeros. -/
theorem digitsVal_eq_iff {ds : List UInt8} {v : ℕ} (hv : v ≤ 9) :
    (ds ≠ [] ∧ (∀ b ∈ ds, isdigit b = true) ∧ digitsVal ds = v) ↔
      ∃ zeros, ds = List.replicate zeros 48 ++ [UInt8.ofNat (48 + v)] := by
  have hdigit : (UInt8.ofNat (48 + v)).toNat = 48 + v := by
    rw [UInt8.toNat_ofNat', Nat.mod_eq_of_lt (by omega)]
  constructor
  · rintro ⟨hne, hds, hval⟩
    rcases List.eq_nil_or_concat ds with rfl | ⟨front, d, rfl⟩
    · exact absurd rfl hne
    · rw [List.concat_eq_append] at hds hval ⊢
      obtain ⟨hfront, hd⟩ := List.forall_mem_append.1 hds
      have hd := hd d (List.mem_singleton.2 rfl)
      rw [digitsVal_concat] at hval
      have hzero : digitsVal front = 0 := by omega
      rw [hzero, Nat.mul_zero, Nat.zero_add] at hval
      refine ⟨front.length, ?_⟩
      rw [← eq_zeros hfront hzero, ← hval, ofNat_digit hd]
  · rintro ⟨zeros, rfl⟩
    refine ⟨by simp, List.forall_mem_append.2 ⟨fun b hb => ?_, fun b hb => ?_⟩, ?_⟩
    · rw [List.eq_of_mem_replicate hb]
      rfl
    · rw [List.mem_singleton.1 hb]
      simp only [isdigit, Bool.and_eq_true, decide_eq_true_eq, UInt8.le_iff_toNat_le, hdigit]
      refine ⟨by simp, ?_⟩
      simp only [UInt8.reduceToNat]
      omega
    · rw [digitsVal_concat, digitsVal_zeros, hdigit]
      omega

/-- **The texts of a small number** behind the sign. -/
theorem kstrtoull_iff {s : List UInt8} {v : ℕ} (hv : v ≤ 9) :
    kstrtoull s = some v ↔ ∃ (ending : List UInt8) (zeros : ℕ),
      s = List.replicate zeros 48 ++ UInt8.ofNat (48 + v) :: ending ∧
        (ending = [] ∨ ending = [10]) := by
  rw [kstrtoull_eq_some]
  constructor
  · rintro ⟨digits, ending, rfl, hne, hdigits, hending, hval, -⟩
    obtain ⟨zeros, rfl⟩ := (digitsVal_eq_iff hv).1 ⟨hne, hdigits, hval⟩
    exact ⟨ending, zeros, by simp, hending⟩
  · rintro ⟨ending, zeros, rfl, hending⟩
    obtain ⟨hne, hdigits, hval⟩ := (digitsVal_eq_iff hv).2 ⟨zeros, rfl⟩
    exact ⟨_, ending, by simp, hne, hdigits, hending, hval, by omega⟩

theorem splitSign_spec (s : List UInt8) :
    ∃ sign, s = sign ++ (splitSign s).2 ∧
      ((splitSign s).1 = true ∧ sign = [45] ∨
        (splitSign s).1 = false ∧ (sign = [] ∨ sign = [43])) := by
  rcases s with _ | ⟨b, s⟩
  · exact ⟨[], rfl, Or.inr ⟨rfl, Or.inl rfl⟩⟩
  · rw [splitSign]
    by_cases hminus : b = 45
    · rw [if_pos hminus, hminus]
      exact ⟨[45], rfl, Or.inl ⟨rfl, rfl⟩⟩
    · rw [if_neg hminus]
      by_cases hplus : b = 43
      · rw [if_pos hplus, hplus]
        exact ⟨[43], rfl, Or.inr ⟨rfl, Or.inr rfl⟩⟩
      · rw [if_neg hplus]
        exact ⟨[], rfl, Or.inr ⟨rfl, Or.inl rfl⟩⟩

/-- A text whose first byte is a digit has no sign. -/
theorem splitSign_of_digit {b : UInt8} (hb : isdigit b = true) (s : List UInt8) :
    splitSign (b :: s) = (false, b :: s) := by
  have hrange := isdigit_range hb
  have hminus : b ≠ 45 := by rintro rfl; simp at hrange
  have hplus : b ≠ 43 := by rintro rfl; simp at hrange
  rw [splitSign, if_neg hminus, if_neg hplus]

theorem splitSign_body {v : ℕ} (hv : v ≤ 9) (zeros : ℕ) (ending : List UInt8) :
    splitSign (List.replicate zeros 48 ++ UInt8.ofNat (48 + v) :: ending) =
      (false, List.replicate zeros 48 ++ UInt8.ofNat (48 + v) :: ending) := by
  cases zeros with
  | zero =>
    have hdigits : ∀ b ∈ [UInt8.ofNat (48 + v)], isdigit b = true :=
      ((digitsVal_eq_iff hv).2 ⟨0, rfl⟩).2.1
    exact splitSign_of_digit (hdigits _ (List.mem_singleton.2 rfl)) _
  | succ zeros => exact splitSign_of_digit rfl _

theorem kstrtoll_eq_some {s : List UInt8} {v : ℤ} :
    kstrtoll s = some v ↔ ∃ n, kstrtoull (splitSign s).2 = some n ∧
      ((splitSign s).1 = true ∧ n ≤ 2 ^ 63 ∧ v = -n ∨
        (splitSign s).1 = false ∧ n < 2 ^ 63 ∧ v = n) := by
  rcases hs : splitSign s with ⟨neg, r⟩
  rw [kstrtoll, hs]
  simp only
  cases kstrtoull r with
  | none => simp
  | some n => cases neg <;> simp [eq_comm]

theorem kstrtoint_eq_some {buf : List UInt8} {v : ℤ} :
    kstrtoint buf = some v ↔ kstrtoll (cstr buf) = some v ∧ v = toInt v := by
  rw [kstrtoint]
  cases kstrtoll (cstr buf) with
  | none => simp
  | some t =>
    simp only
    split
    · rename_i ht
      constructor
      · intro h
        obtain rfl := Option.some.inj h
        exact ⟨rfl, ht⟩
      · exact And.left
    · rename_i ht
      constructor
      · intro h
        cases h
      · rintro ⟨h, hv⟩
        obtain rfl := Option.some.inj h
        exact absurd hv ht

theorem tempVal_eq_some_iff {buf : List UInt8} {t : ℤ} :
    tempVal buf = some t ↔ kstrtoint buf = some t ∧ 0 ≤ t ∧ t ≤ 7 := by
  rw [tempVal]
  cases kstrtoint buf with
  | none => simp
  | some t' =>
    simp only
    split
    · rename_i hrange
      constructor
      · intro h
        cases h
      · rintro ⟨h, hlow, hhigh⟩
        obtain rfl := Option.some.inj h
        omega
    · rename_i hrange
      constructor
      · intro h
        obtain rfl := Option.some.inj h
        exact ⟨rfl, by omega, by omega⟩
      · exact And.left

/-- **What `foo_store` validates.** -/
theorem tempVal_eq_some {buf : List UInt8} {t : ℤ} :
    tempVal buf = some t ↔ ∃ v : ℕ, t = v ∧ Denotes (cstr buf) v := by
  rw [tempVal_eq_some_iff, kstrtoint_eq_some, kstrtoll_eq_some]
  constructor
  · rintro ⟨⟨⟨n, hn, hsigned⟩, -⟩, hlow, hhigh⟩
    obtain ⟨sign, htext, hsign⟩ := splitSign_spec (cstr buf)
    have hsmall : n ≤ 7 := by
      rcases hsigned with ⟨-, -, rfl⟩ | ⟨-, -, rfl⟩ <;> omega
    obtain ⟨ending, zeros, hbody, hending⟩ := (kstrtoull_iff (by omega)).1 hn
    rw [hbody] at htext
    rcases hsigned with ⟨hneg, -, rfl⟩ | ⟨hpos, -, rfl⟩
    · obtain rfl : n = 0 := by omega
      refine ⟨0, rfl, sign, ending, zeros, htext, hsmall, ?_, hending⟩
      rcases hsign with ⟨-, hsign⟩ | ⟨hpos, -⟩
      · exact Or.inr (Or.inr ⟨hsign, rfl⟩)
      · rw [hneg] at hpos
        cases hpos
    · refine ⟨n, rfl, sign, ending, zeros, htext, hsmall, ?_, hending⟩
      rcases hsign with ⟨hneg, -⟩ | ⟨-, hsign⟩
      · rw [hpos] at hneg
        cases hneg
      · exact hsign.imp_right Or.inl
  · rintro ⟨v, rfl, sign, ending, zeros, htext, hv, hsign, hending⟩
    have hbody := splitSign_body (v := v) (by omega) zeros ending
    have hn := (kstrtoull_iff (s := List.replicate zeros 48 ++ UInt8.ofNat (48 + v) :: ending)
      (by omega : v ≤ 9)).2 ⟨ending, zeros, rfl, hending⟩
    have hint := toInt_eq_self (v := v) (by omega) (by omega)
    refine ⟨⟨⟨v, ?_⟩, hint.symm⟩, by omega, by omega⟩
    rw [htext]
    rcases hsign with rfl | rfl | ⟨rfl, rfl⟩
    · rw [List.nil_append, hbody]
      exact ⟨hn, Or.inr ⟨rfl, by omega, rfl⟩⟩
    · exact ⟨hn, Or.inr ⟨rfl, by omega, rfl⟩⟩
    · exact ⟨hn, Or.inl ⟨rfl, by omega, rfl⟩⟩

theorem tempVal_range {buf : List UInt8} {t : ℤ} (h : tempVal buf = some t) : 0 ≤ t ∧ t ≤ 7 :=
  (tempVal_eq_some_iff.1 h).2

/-- What is shown is the text of a value. -/
theorem denotes_fooShow {v : ℕ} (hv : v ≤ 7) : Denotes (cstr (fooShow v)) v := by
  have htext : cstr (fooShow v) = [UInt8.ofNat (48 + v), 10] := by
    rcases v with _ | _ | _ | _ | _ | _ | _ | _ | v
    all_goals first | rfl | omega
  exact ⟨[], [10], 0, htext, hv, Or.inl rfl, Or.inr rfl⟩

/-- **The attribute**: `foo_store` takes the texts of 0 to 7 and no others, and what `foo_show`
gives can be stored again. -/
theorem store_law (test : ℤ) (buf : List UInt8) :
    (∀ v : ℕ, Denotes (cstr buf) v → fooStore test buf = ((buf.length : ℤ), (v : ℤ))) ∧
      ((∀ v, ¬Denotes (cstr buf) v) → fooStore test buf = (-EINVAL, test)) ∧
      ∀ v : ℕ, v ≤ 7 → fooStore test (fooShow v) = (((fooShow v).length : ℤ), (v : ℤ)) := by
  have hstored : ∀ (text : List UInt8) (v : ℕ), Denotes (cstr text) v →
      fooStore test text = ((text.length : ℤ), (v : ℤ)) := fun text v h => by
    rw [fooStore, tempVal_eq_some.2 ⟨v, rfl, h⟩]
  refine ⟨hstored buf, fun h => ?_, fun v hv => hstored _ v (denotes_fooShow hv)⟩
  have hnone : tempVal buf = none :=
    Option.eq_none_iff_forall_ne_some.2 fun t ht => by
      obtain ⟨v, -, hv⟩ := tempVal_eq_some.1 ht
      exact h v hv
  rw [fooStore, hnone]

/-- A text with a sign and a leading zero. -/
theorem store_law_seven : fooStore 3 [43, 48, 55, 10] = (4, 7) :=
  (store_law 3 [43, 48, 55, 10]).1 7
    ⟨[43], [10], 1, rfl, le_rfl, Or.inr (Or.inl rfl), Or.inr rfl⟩

end EltexPractice.KbLeds
