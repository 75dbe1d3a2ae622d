import EltexPractice.Foundations.Words
import Mathlib.Data.Nat.ModEq
import Mathlib.Algebra.BigOperators.Group.List.Basic

/-!
# One's-complement sums

The sum of words below a base `B` with the carry added at the end (`onesSum`), as in the checksum
of the internet protocols.

* `EndAround B n r`: the word `r` is what such sums make of the number `n`. It is unique
  (`EndAround.unique`), and both `onesSum` (`endAround_onesSum`) and two foldings of a plain sum
  below `B * B` (`endAround_fold`) reach it.
* The word that completes a sum (`EndAround.complement`), and when it is zero
  (`EndAround.eq_top_iff`).
* `beWords`, `leWords`: bytes as 16-bit words in the two byte orders. The order does not matter:
  the sum of one is the sum of the other with its bytes exchanged (`ntohs_onesSum_leWords`).
-/

namespace EltexPractice

/-- The carries of `n` added to its last digit. -/
def foldCarry (B n : ℕ) : ℕ := n / B + n % B

/-- The sum of words with the carry added at the end. -/
def onesSum (B : ℕ) (l : List ℕ) : ℕ := l.foldl (fun a b => foldCarry B (a + b)) 0

/-- The word `r` has the residue of `n` modulo `B - 1`, and is zero only for zero. -/
structure EndAround (B n r : ℕ) : Prop where
  lt : r < B
  modEq : r ≡ n [MOD B - 1]
  eq_zero_iff : r = 0 ↔ n = 0

section

variable {B n m r r' : ℕ}

theorem foldCarry_modEq (hB : 0 < B) (n : ℕ) : foldCarry B n ≡ n [MOD B - 1] := by
  have hn := Nat.div_add_mod n B
  have hmul : B * (n / B) = (B - 1) * (n / B) + n / B := by
    rw [Nat.sub_mul, Nat.one_mul, Nat.sub_add_cancel (Nat.le_mul_of_pos_left _ hB)]
  have hdvd : n = (B - 1) * (n / B) + foldCarry B n := by
    unfold foldCarry
    omega
  conv_rhs => rw [hdvd]
  exact (Nat.mul_add_mod_self_left ..).symm

theorem foldCarry_eq_zero : foldCarry B n = 0 ↔ n = 0 := by
  rw [foldCarry, Nat.add_eq_zero_iff]
  constructor
  · rintro ⟨hdiv, hmod⟩
    rw [← Nat.div_add_mod n B, hdiv, hmod, Nat.mul_zero]
  · rintro rfl
    exact ⟨Nat.zero_div B, Nat.zero_mod B⟩

/-- The sum of two words is folded to a word. -/
theorem foldCarry_lt (hn : n + 1 < 2 * B) : foldCarry B n < B := by
  rw [foldCarry]
  rcases lt_or_ge n B with h | h
  · rw [Nat.div_eq_of_lt h, Nat.mod_eq_of_lt h]
    omega
  · rw [Nat.div_eq_of_lt_le (k := 1) (by omega) (by omega), Nat.mod_eq_sub_mod h,
      Nat.mod_eq_of_lt (by omega)]
    omega

/-- A number of two digits is folded to the sum of two words. -/
theorem foldCarry_add_one_lt (hB : 0 < B) (hn : n < B * B) : foldCarry B n + 1 < 2 * B := by
  have hdiv : n / B < B := Nat.div_lt_of_lt_mul hn
  have hmod : n % B < B := Nat.mod_lt n hB
  rw [foldCarry]
  omega

namespace EndAround

/-- There is one such word. -/
theorem unique (h : EndAround B n r) (h' : EndAround B n r') : r = r' := by
  have hmod : r ≡ r' [MOD B - 1] := h.modEq.trans h'.modEq.symm
  have hzero : r = 0 ↔ r' = 0 := h.eq_zero_iff.trans h'.eq_zero_iff.symm
  have hr := h.lt
  have hr' := h'.lt
  rcases Nat.eq_zero_or_pos r with h₀ | hpos
  · rw [h₀, hzero.1 h₀]
  · have hpos' : 0 < r' := Nat.pos_of_ne_zero fun h₀ => hpos.ne' (hzero.2 h₀)
    -- both less one are below the modulus
    have hpred : r - 1 ≡ r' - 1 [MOD B - 1] := by
      refine Nat.ModEq.add_right_cancel' 1 ?_
      rwa [Nat.sub_add_cancel hpos, Nat.sub_add_cancel hpos']
    have := Nat.ModEq.eq_of_lt_of_lt hpred (by omega) (by omega)
    omega

theorem self (h : n < B) : EndAround B n n := ⟨h, rfl, Iff.rfl⟩

/-- Folding a number does not change its word. -/
theorem of_foldCarry (hB : 0 < B) (h : EndAround B (foldCarry B n) r) : EndAround B n r :=
  ⟨h.lt, h.modEq.trans (foldCarry_modEq hB n), h.eq_zero_iff.trans foldCarry_eq_zero⟩

/-- The words of two numbers are added with the carry at the end. -/
theorem add (h : EndAround B n r) (h' : EndAround B m r') :
    EndAround B (n + m) (foldCarry B (r + r')) := by
  have hr := h.lt
  have hr' := h'.lt
  refine ⟨foldCarry_lt (by omega), (foldCarry_modEq (by omega) _).trans (h.modEq.add h'.modEq), ?_⟩
  rw [foldCarry_eq_zero, Nat.add_eq_zero_iff, Nat.add_eq_zero_iff, h.eq_zero_iff, h'.eq_zero_iff]

/-- The word is the largest one exactly for the multiples of `B - 1` except zero. -/
theorem eq_top_iff (hB : 1 < B) (h : EndAround B n r) : r = B - 1 ↔ n ≠ 0 ∧ B - 1 ∣ n := by
  constructor
  · rintro rfl
    exact ⟨fun hn => absurd (h.eq_zero_iff.2 hn) (by omega),
      (Nat.modEq_zero_iff_dvd.1 (h.modEq.symm.trans (Nat.modEq_zero_iff_dvd.2 dvd_rfl)))⟩
  · rintro ⟨hne, hdvd⟩
    refine h.unique ⟨by omega, ?_, iff_of_false (by omega) hne⟩
    exact (Nat.modEq_zero_iff_dvd.2 dvd_rfl).trans (Nat.modEq_zero_iff_dvd.2 hdvd).symm

/-- With the complement of its word, a sum comes to the largest word. -/
theorem complement (hB : 1 < B) (h : EndAround B n r) :
    EndAround B (n + (B - 1 - r)) (B - 1) := by
  have hr := h.lt
  refine ⟨by omega, ?_, iff_of_false (by omega) ?_⟩
  · have hsum : r + (B - 1 - r) ≡ n + (B - 1 - r) [MOD B - 1] := h.modEq.add_right _
    rwa [Nat.add_sub_cancel' (by omega)] at hsum
  · rw [Nat.add_eq_zero_iff]
    rintro ⟨hn, hcomplement⟩
    have := h.eq_zero_iff.2 hn
    omega

end EndAround

/-- The one's-complement sum is the word of the plain sum. -/
theorem endAround_onesSum (hB : 0 < B) {l : List ℕ} (hl : ∀ x ∈ l, x < B) :
    EndAround B l.sum (onesSum B l) := by
  -- from any sum so far on
  have key : ∀ l : List ℕ, (∀ x ∈ l, x < B) → ∀ n a, EndAround B n a →
      EndAround B (n + l.sum) (l.foldl (fun a b => foldCarry B (a + b)) a) := by
    intro l
    induction l with
    | nil =>
      intro _ n a h
      exact h
    | cons x l ih =>
      intro hl n a h
      rw [List.sum_cons, ← Nat.add_assoc, List.foldl_cons]
      exact ih (fun y hy => hl y (List.mem_cons_of_mem _ hy)) _ _
        (h.add (.self (hl x List.mem_cons_self)))
  rw [← Nat.zero_add l.sum]
  exact key l hl 0 0 (.self hB)

/-- Two foldings suffice below `B * B`. -/
theorem endAround_fold (hB : 0 < B) (hn : n < B * B) :
    EndAround B n (foldCarry B (foldCarry B n)) := by
  have hlt := foldCarry_lt (foldCarry_add_one_lt hB hn)
  exact .of_foldCarry hB (.of_foldCarry hB (.self hlt))

end

/-! ## Bytes as words -/

/-- The value of two bytes in network order. -/
def beValue (b b' : UInt8) : ℕ := 256 * b.toNat + b'.toNat

/-- The 16-bit words of bytes, padded with a zero byte. -/
def wordsBy (value : UInt8 → UInt8 → ℕ) : List UInt8 → List ℕ
  | [] => []
  | [b] => [value b 0]
  | b :: b' :: bs => value b b' :: wordsBy value bs

/-- The words in network order. -/
def beWords : List UInt8 → List ℕ := wordsBy beValue

/-- The words in the host's order. -/
def leWords : List UInt8 → List ℕ := wordsBy fun b b' => beValue b' b

/-- The checksum of bytes: the complement of the one's-complement sum of their words. -/
def internetChecksum (bytes : List UInt8) : ℕ := 65535 - onesSum 65536 (beWords bytes)

theorem beValue_lt (b b' : UInt8) : beValue b b' < 65536 := by
  have hb := b.toNat_lt
  have hb' := b'.toNat_lt
  unfold beValue
  omega

section

variable {value : UInt8 → UInt8 → ℕ}

theorem wordsBy_lt (hvalue : ∀ b b', value b b' < 65536) {bytes : List UInt8} :
    ∀ x ∈ wordsBy value bytes, x < 65536 := by
  induction bytes using wordsBy.induct with
  | case1 => exact nofun
  | case2 b => simpa [wordsBy] using hvalue b 0
  | case3 b b' bs ih => simpa [wordsBy] using ⟨hvalue b b', ih⟩

/-- Behind an even number of bytes the words begin anew. -/
theorem wordsBy_append {bytes rest : List UInt8} (h : bytes.length % 2 = 0) :
    wordsBy value (bytes ++ rest) = wordsBy value bytes ++ wordsBy value rest := by
  induction bytes using wordsBy.induct with
  | case1 => rfl
  | case2 b => cases h
  | case3 b b' bs ih =>
    have hbs : bs.length % 2 = 0 := by
      rw [List.length_cons, List.length_cons] at h
      omega
    rw [List.cons_append, List.cons_append, wordsBy, wordsBy, ih hbs, List.cons_append]

/-- There are half as many words as bytes. -/
theorem sum_wordsBy_le (hvalue : ∀ b b', value b b' < 65536) (bytes : List UInt8) :
    (wordsBy value bytes).sum ≤ 65535 * ((bytes.length + 1) / 2) := by
  induction bytes using wordsBy.induct with
  | case1 => simp [wordsBy]
  | case2 b =>
    have := hvalue b 0
    simp only [wordsBy, List.sum_cons, List.sum_nil, List.length_cons, List.length_nil]
    omega
  | case3 b b' bs ih =>
    have := hvalue b b'
    simp only [wordsBy, List.sum_cons, List.length_cons]
    omega

end

theorem beWords_append {bytes rest : List UInt8} (h : bytes.length % 2 = 0) :
    beWords (bytes ++ rest) = beWords bytes ++ beWords rest := wordsBy_append h

theorem leWords_append {bytes rest : List UInt8} (h : bytes.length % 2 = 0) :
    leWords (bytes ++ rest) = leWords bytes ++ leWords rest := wordsBy_append h

theorem sum_leWords_le (bytes : List UInt8) :
    (leWords bytes).sum ≤ 65535 * ((bytes.length + 1) / 2) :=
  sum_wordsBy_le (fun b b' => beValue_lt b' b) bytes

/-- The sums of the words in the two orders. -/
theorem sum_leWords (bytes : List UInt8) :
    ((leWords bytes).sum ≡ 256 * (beWords bytes).sum [MOD 65535]) ∧
      ((leWords bytes).sum = 0 ↔ (beWords bytes).sum = 0) := by
  have hword : ∀ b b', (beValue b' b ≡ 256 * beValue b b' [MOD 65535]) ∧
      (beValue b' b = 0 ↔ beValue b b' = 0) := fun b b' => by
    simp only [beValue, Nat.ModEq]
    omega
  induction bytes using wordsBy.induct with
  | case1 => exact ⟨rfl, Iff.rfl⟩
  | case2 b => simpa [leWords, beWords, wordsBy] using hword b 0
  | case3 b b' bs ih =>
    obtain ⟨hmod, hzero⟩ := hword b b'
    simp only [leWords, beWords, wordsBy, List.sum_cons, Nat.mul_add, Nat.add_eq_zero_iff]
    exact ⟨hmod.add ih.1, and_congr hzero ih.2⟩

theorem endAround_leWords (bytes : List UInt8) :
    EndAround 65536 (leWords bytes).sum (onesSum 65536 (leWords bytes)) :=
  endAround_onesSum (by decide) (wordsBy_lt fun b b' => beValue_lt b' b)

theorem endAround_beWords (bytes : List UInt8) :
    EndAround 65536 (beWords bytes).sum (onesSum 65536 (beWords bytes)) :=
  endAround_onesSum (by decide) (wordsBy_lt beValue_lt)

/-- **The byte order does not matter**: with its bytes exchanged, the sum of the words in the
host's order is the sum of the words in network order. -/
theorem ntohs_onesSum_leWords (bytes : List UInt8) :
    ntohs (onesSum 65536 (leWords bytes)) = onesSum 65536 (beWords bytes) := by
  have hle := endAround_leWords bytes
  have hbe := endAround_beWords bytes
  refine EndAround.unique ⟨ntohs_lt _, ?_, ?_⟩ hbe
  · -- exchanging the bytes of a word multiplies it by 256, and so back
    have hswap : ntohs (onesSum 65536 (leWords bytes)) ≡
        256 * onesSum 65536 (leWords bytes) [MOD 65535] := by
      have hlt := hle.lt
      have hmul : 256 * onesSum 65536 (leWords bytes) = ntohs (onesSum 65536 (leWords bytes)) +
          65535 * (onesSum 65536 (leWords bytes) / 256) := by
        unfold ntohs
        omega
      rw [hmul]
      exact (Nat.add_mul_mod_self_left ..).symm
    have hsum : 256 * onesSum 65536 (leWords bytes) ≡
        256 * (256 * (beWords bytes).sum) [MOD 65535] :=
      (hle.modEq.trans (sum_leWords bytes).1).mul_left 256
    refine hswap.trans (hsum.trans ?_)
    simp only [Nat.ModEq]
    omega
  · have hzero : ntohs (onesSum 65536 (leWords bytes)) = 0 ↔
        onesSum 65536 (leWords bytes) = 0 := by
      have := hle.lt
      unfold ntohs
      omega
    exact hzero.trans (hle.eq_zero_iff.trans (sum_leWords bytes).2)

end EltexPractice
