import Mathlib.Algebra.Order.Field.Basic
import Mathlib.Data.Rat.Defs
import Mathlib.Algebra.Order.Ring.Rat
import Mathlib.Tactic.Ring
import Mathlib.Tactic.FieldSimp
import Mathlib.Tactic.NormNum

/-!
# IEEE-754 doubles

The finite values of a binary64 number, and the rounding to the nearest of them
(ties to the even significand) that a conversion from a wide integer performs.

## Main definitions

- `IsDouble` — a rational that is the value of a finite double
- `Double` — those rationals
- `roundToDouble` — round to nearest, ties to even, to 53 significant bits
- `Double.ofInt` — the conversion of an integer of at most 64 bits
-/

/-- `q` is an integer significand of at most 53 bits, scaled by a binary
    exponent in the range of a double. -/
def IsDouble (q : ℚ) : Prop :=
  ∃ m e : ℤ, |m| < 2 ^ 53 ∧ -1074 ≤ e ∧ e ≤ 971 ∧ q = m * 2 ^ e

/-- The finite values of a double. -/
abbrev Double := {q : ℚ // IsDouble q}

/-- Drop the low `shift` bits of `n`, rounding to nearest with ties to even. -/
def dropBits (n shift : ℕ) : ℕ :=
  if 2 ^ shift < 2 * (n % 2 ^ shift) ∨
      (2 ^ shift = 2 * (n % 2 ^ shift) ∧ n / 2 ^ shift % 2 = 1) then
    n / 2 ^ shift + 1
  else n / 2 ^ shift

/-- Round to nearest, ties to even, to 53 significant bits. -/
def roundToDouble (n : ℤ) : ℤ :=
  let shift := n.natAbs.log2 - 52
  n.sign * (dropBits n.natAbs shift * 2 ^ shift : ℕ)

/-- A significand of 53 bits stays one, or becomes `2 ^ 53` itself. -/
theorem dropBits_le (n : ℕ) : dropBits n (n.log2 - 52) ≤ 2 ^ 53 := by
  have hquotient : n / 2 ^ (n.log2 - 52) < 2 ^ 53 := by
    rw [Nat.div_lt_iff_lt_mul (by positivity), ← pow_add]
    exact Nat.lt_of_lt_of_le Nat.lt_log2_self (Nat.pow_le_pow_right (by norm_num) (by omega))
  unfold dropBits
  split <;> omega

theorem isDouble_intCast_mul {m : ℤ} {k : ℕ} (hm : |m| ≤ 2 ^ 53) (hk : k ≤ 970) :
    IsDouble ((m * 2 ^ k : ℤ) : ℚ) := by
  rcases lt_or_eq_of_le hm with hlt | heq
  · exact ⟨m, k, hlt, by omega, by omega, by push_cast; rw [zpow_natCast]⟩
  · -- a significand of exactly 2^53 is half of itself at the next exponent
    obtain ⟨h, rfl⟩ : ∃ h, m = 2 * h := by
      rcases abs_choice m with habs | habs
      · exact ⟨2 ^ 52, by omega⟩
      · exact ⟨-2 ^ 52, by omega⟩
    refine ⟨h, (k : ℤ) + 1, ?_, by omega, by omega, ?_⟩
    · have habs : |2 * h| = 2 * |h| := by rw [abs_mul]; rfl
      omega
    · push_cast
      rw [zpow_add₀ (by norm_num), zpow_natCast]
      ring

/-- Rounding lands on a double. -/
theorem isDouble_roundToDouble {n : ℤ} (hn : n.natAbs < 2 ^ 64) :
    IsDouble (roundToDouble n : ℚ) := by
  have hlog : n.natAbs.log2 < 64 := by
    by_cases h0 : n.natAbs = 0
    · simp [h0]
    · exact (Nat.log2_lt h0).mpr hn
  have hsign : |n.sign| ≤ 1 := by
    rcases Int.sign_trichotomy n with h | h | h <;> simp [h]
  have hrounded : (dropBits n.natAbs (n.natAbs.log2 - 52) : ℤ) ≤ 2 ^ 53 := by
    exact_mod_cast dropBits_le n.natAbs
  have habs : |n.sign * (dropBits n.natAbs (n.natAbs.log2 - 52) : ℤ)| ≤ 2 ^ 53 := by
    rw [abs_mul, Nat.abs_cast]
    calc |n.sign| * (dropBits n.natAbs (n.natAbs.log2 - 52) : ℤ)
        ≤ 1 * (dropBits n.natAbs (n.natAbs.log2 - 52) : ℤ) := by gcongr
      _ ≤ 2 ^ 53 := by rw [one_mul]; exact hrounded
  have hdouble := isDouble_intCast_mul (k := n.natAbs.log2 - 52) habs (by omega)
  rw [mul_assoc] at hdouble
  simpa only [roundToDouble, Nat.cast_mul, Nat.cast_pow, Nat.cast_ofNat] using hdouble

/-- Integers of at most 53 bits are not rounded. -/
theorem roundToDouble_of_natAbs_lt {n : ℤ} (hn : n.natAbs < 2 ^ 53) : roundToDouble n = n := by
  have hlog : n.natAbs.log2 < 53 := by
    by_cases h0 : n.natAbs = 0
    · simp [h0]
    · exact (Nat.log2_lt h0).mpr hn
  have hshift : n.natAbs.log2 - 52 = 0 := by omega
  have hdrop : dropBits n.natAbs 0 = n.natAbs := by simp [dropBits, Nat.mod_one]
  simp only [roundToDouble]
  rw [hshift, hdrop, pow_zero, Nat.mul_one]
  exact Int.sign_mul_natAbs n

/-- Rounding does not go below a power of two. -/
theorem two_pow_log2_le_roundToDouble {n : ℤ} (hn : 2 ^ 52 ≤ n.natAbs) :
    2 ^ n.natAbs.log2 ≤ (roundToDouble n).natAbs := by
  have hne : n.natAbs ≠ 0 := by omega
  have hlog : 52 ≤ n.natAbs.log2 := (Nat.le_log2 hne).mpr hn
  have hdrop : n.natAbs / 2 ^ (n.natAbs.log2 - 52) ≤ dropBits n.natAbs (n.natAbs.log2 - 52) := by
    unfold dropBits
    split <;> omega
  have hquotient : 2 ^ 52 ≤ n.natAbs / 2 ^ (n.natAbs.log2 - 52) := by
    rw [Nat.le_div_iff_mul_le (by positivity), ← pow_add, Nat.add_sub_cancel' hlog]
    exact Nat.log2_self_le hne
  have hsign : n.sign.natAbs = 1 := Int.natAbs_sign_of_ne_zero (Int.natAbs_ne_zero.mp hne)
  calc 2 ^ n.natAbs.log2 = 2 ^ 52 * 2 ^ (n.natAbs.log2 - 52) := by
        rw [← pow_add, Nat.add_sub_cancel' hlog]
    _ ≤ dropBits n.natAbs (n.natAbs.log2 - 52) * 2 ^ (n.natAbs.log2 - 52) :=
        Nat.mul_le_mul_right _ (hquotient.trans hdrop)
    _ = (roundToDouble n).natAbs := by
        simp only [roundToDouble]
        rw [Int.natAbs_mul, hsign, one_mul, Int.natAbs_natCast]

/-- No other integer is rounded to one of at most 53 bits. -/
theorem eq_of_roundToDouble_eq {m n : ℤ} (hn : n.natAbs < 2 ^ 53)
    (h : roundToDouble m = n) : m = n := by
  by_cases hm : m.natAbs < 2 ^ 53
  · rw [← h, roundToDouble_of_natAbs_lt hm]
  · have hlog : 53 ≤ m.natAbs.log2 := (Nat.le_log2 (by omega)).mpr (by omega)
    have hle : 2 ^ 53 ≤ 2 ^ m.natAbs.log2 := Nat.pow_le_pow_right (by norm_num) hlog
    have hround : 2 ^ m.natAbs.log2 ≤ (roundToDouble m).natAbs :=
      two_pow_log2_le_roundToDouble (by omega)
    rw [h] at hround
    omega

/-- The nearest double to an integer of at most 64 bits. -/
def Double.ofInt (n : ℤ) (hn : n.natAbs < 2 ^ 64) : Double :=
  ⟨roundToDouble n, isDouble_roundToDouble hn⟩

-- 2^53 + 1 ties to the even neighbour below, 2^53 + 3 to the one above
example : roundToDouble (2 ^ 53 + 1) = 2 ^ 53 := by decide
example : roundToDouble (-(2 ^ 53 + 3)) = -(2 ^ 53 + 4) := by decide
