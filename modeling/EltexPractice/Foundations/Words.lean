import Mathlib.Algebra.Ring.Int.Defs
import Mathlib.Algebra.Ring.Nat
import Mathlib.Order.Nat

/-!
# Machine words

The conversions of C that lose information (`toInt`), the two byte orders (`leBytes` and `leValue`
for the host's, `be16` for the network's, `ntohs` between them) and an `int` in memory (`intBytes`),
each with its round trip.
-/

namespace EltexPractice

/-- Conversion of a `long` to `int`. -/
def toInt (v : ℤ) : ℤ := v.bmod (2 ^ 32)

theorem toInt_eq_self {v : ℤ} (h₁ : -2 ^ 31 ≤ v) (h₂ : v < 2 ^ 31) : toInt v = v := by
  rw [toInt, Int.bmod_eq_of_le] <;> omega

/-! ## Little endian -/

/-- The value of bytes in the host's order. -/
def leValue : List UInt8 → ℕ
  | [] => 0
  | b :: bs => b.toNat + 256 * leValue bs

/-- The `w` low bytes of `v` in the host's order. -/
def leBytes : (w v : ℕ) → List UInt8
  | 0, _ => []
  | w + 1, v => UInt8.ofNat v :: leBytes w (v / 256)

@[simp] theorem length_leBytes (w v : ℕ) : (leBytes w v).length = w := by
  induction w generalizing v with
  | zero => rfl
  | succ w ih => rw [leBytes, List.length_cons, ih]

/-- A value stored in `w` bytes is read back modulo `256 ^ w`. -/
theorem leValue_leBytes (w v : ℕ) : leValue (leBytes w v) = v % 256 ^ w := by
  induction w generalizing v with
  | zero => simp [leBytes, leValue, Nat.mod_one]
  | succ w ih =>
    rw [leBytes, leValue, ih, UInt8.toNat_ofNat', show 2 ^ 8 = 256 from rfl, pow_succ', Nat.mod_mul]

theorem leValue_leBytes_of_lt {w v : ℕ} (h : v < 256 ^ w) : leValue (leBytes w v) = v := by
  rw [leValue_leBytes, Nat.mod_eq_of_lt h]

theorem leValue_lt (l : List UInt8) : leValue l < 256 ^ l.length := by
  induction l with
  | nil => simp [leValue]
  | cons b l ih =>
    have hb := b.toNat_lt
    rw [leValue, List.length_cons, pow_succ']
    omega

/-- Bytes are those of the value read from them. -/
theorem leBytes_leValue (l : List UInt8) : leBytes l.length (leValue l) = l := by
  induction l with
  | nil => rfl
  | cons b l ih =>
    have hb := b.toNat_lt
    have hlow : UInt8.ofNat (leValue (b :: l)) = b := by
      rw [← UInt8.toNat_inj, UInt8.toNat_ofNat', leValue]
      omega
    have hhigh : leValue (b :: l) / 256 = leValue l := by
      rw [leValue]
      omega
    rw [List.length_cons, leBytes, hlow, hhigh, ih]

/-- An `int` as it lies in memory. -/
def intBytes (n : ℤ) : List UInt8 := leBytes 4 (n % 2 ^ 32).toNat

@[simp] theorem length_intBytes (n : ℤ) : (intBytes n).length = 4 := length_leBytes 4 _

/-- An `int` stored in memory is read back. -/
theorem toInt_leValue_intBytes {n : ℤ} (h₁ : -2 ^ 31 ≤ n) (h₂ : n < 2 ^ 31) :
    toInt (leValue (intBytes n)) = n := by
  have hpos : 0 ≤ n % 2 ^ 32 := Int.emod_nonneg n (by decide)
  have hlt : n % 2 ^ 32 < 2 ^ 32 := Int.emod_lt_of_pos n (by decide)
  have hvalue : ((leValue (intBytes n) : ℕ) : ℤ) = n % 2 ^ 32 := by
    rw [intBytes, leValue_leBytes_of_lt (by omega), Int.toNat_of_nonneg hpos]
  rw [hvalue, toInt]
  have hmod : (n % 2 ^ 32).bmod (2 ^ 32) = n.bmod (2 ^ 32) := Int.emod_bmod ..
  rw [hmod]
  exact toInt_eq_self h₁ h₂

/-- Four bytes are those of the `int` read from them. -/
theorem intBytes_toInt_leValue {l : List UInt8} (h : l.length = 4) :
    intBytes (toInt (leValue l)) = l := by
  have hlt := leValue_lt l
  rw [h] at hlt
  have hmod : (toInt (leValue l) % 2 ^ 32).toNat = leValue l := by
    rw [toInt]
    have : (leValue l : ℤ).bmod (2 ^ 32) % 2 ^ 32 = (leValue l : ℤ) % 2 ^ 32 := Int.bmod_emod ..
    omega
  rw [intBytes, hmod, ← h, leBytes_leValue]

/-! ## Network order -/

/-- The two bytes of a 16-bit value in network order. -/
def be16 (v : ℕ) : List UInt8 := [UInt8.ofNat (v / 256), UInt8.ofNat v]

/-- `ntohs` and `htons`: exchange the two bytes. -/
def ntohs (v : ℕ) : ℕ := v % 256 * 256 + v / 256 % 256

@[simp] theorem length_be16 (v : ℕ) : (be16 v).length = 2 := rfl

theorem ntohs_lt (v : ℕ) : ntohs v < 65536 := by
  unfold ntohs
  omega

theorem leValue_be16 (v : ℕ) : leValue (be16 v) = ntohs v := by
  simp only [be16, leValue, UInt8.toNat_ofNat', ntohs]
  omega

theorem ntohs_ntohs {v : ℕ} (h : v < 65536) : ntohs (ntohs v) = v := by
  have hhi : v / 256 % 256 = v / 256 := Nat.mod_eq_of_lt (by omega)
  have hdiv : ntohs v / 256 = v % 256 := by
    unfold ntohs
    omega
  have hmod : ntohs v % 256 = v / 256 := by
    unfold ntohs
    omega
  rw [ntohs, hdiv, hmod, Nat.mod_mod]
  omega

/-- A 16-bit field in network order is read back. -/
theorem ntohs_leValue_be16 {v : ℕ} (h : v < 65536) : ntohs (leValue (be16 v)) = v := by
  rw [leValue_be16, ntohs_ntohs h]

/-- Two bytes are those of the value read from them. -/
theorem be16_ntohs_leValue (a b : UInt8) : be16 (ntohs (leValue [a, b])) = [a, b] := by
  have ha := a.toNat_lt
  have hb := b.toNat_lt
  have hvalue : ntohs (leValue [a, b]) = 256 * a.toNat + b.toNat := by
    simp only [leValue, ntohs]
    omega
  have hhi : (256 * a.toNat + b.toNat) / 256 = a.toNat := by omega
  have hlo : UInt8.ofNat (256 * a.toNat + b.toNat) = b := by
    rw [← UInt8.toNat_inj, UInt8.toNat_ofNat']
    omega
  rw [be16, hvalue, hhi, hlo, UInt8.ofNat_toNat]

end EltexPractice
