/-
Rational numbers rounded to a number of significant bits.

A binary floating-point operation computes its exact result and rounds
it to the nearest number with `p` significant bits, ties to the even
one. Exponents are unbounded here, so the rounded number is a rational
again (`roundTo`).

# Quotients of integers

Rounding moves a number by at most its `2 ^ p`-th part
(`abs_roundTo_sub_le`). A quotient `n / b` of integers with `|n| < 2 ^ p`
is at least `1 / b` away from every integer it is not equal to, which is
more, so rounding moves it neither onto nor past an integer:
`floor_roundTo_div` and `ceil_roundTo_div`.
-/
import Mathlib

namespace LlmTemporalWorker.Lib

-- ===== to the integers

/-- The nearest integer, the even one of two. -/
def roundEven (x : ℚ) : ℤ :=
  if x - ⌊x⌋ < 1 / 2 ∨ (x - ⌊x⌋ = 1 / 2 ∧ ⌊x⌋ % 2 = 0) then ⌊x⌋
  else ⌊x⌋ + 1

theorem roundEven_intCast (n : ℤ) : roundEven n = n := by
  unfold roundEven
  rw [Int.floor_intCast, sub_self, if_pos (Or.inl (by norm_num))]

theorem abs_roundEven_sub_le (x : ℚ) : |(roundEven x : ℚ) - x| ≤ 1 / 2 := by
  have hle := Int.floor_le x
  have hlt := Int.lt_floor_add_one x
  unfold roundEven
  split
  · rename_i h
    rw [abs_le]
    rcases h with h | ⟨h, -⟩
    · exact ⟨by linarith, by linarith⟩
    · exact ⟨by linarith, by linarith⟩
  · rename_i h
    rw [not_or] at h
    push_cast
    rw [abs_le]
    exact ⟨by linarith, by linarith⟩

-- ===== to `p` bits

/-- The power of two that `p` significant bits of a number count in. -/
def bitUnit (p : ℕ) (x : ℚ) : ℚ := 2 ^ (Int.log 2 |x| + 1 - p)

/-- A number rounded to `p` significant bits, ties to even. -/
def roundTo (p : ℕ) (x : ℚ) : ℚ :=
  if x = 0 then 0 else roundEven (x / bitUnit p x) * bitUnit p x

variable {p : ℕ}

theorem bitUnit_pos (p : ℕ) (x : ℚ) : 0 < bitUnit p x := by
  exact zpow_pos (by norm_num) _

/-- Half a unit is at most the `2 ^ p`-th part of the number. -/
theorem bitUnit_le {x : ℚ} (hx : x ≠ 0) : bitUnit p x / 2 ≤ |x| / 2 ^ p := by
  have hlog : (2 : ℚ) ^ Int.log 2 |x| ≤ |x| := by
    have := Int.zpow_log_le_self (b := 2) (r := |x|) (by norm_num)
      (abs_pos.mpr hx)
    exact_mod_cast this
  have hunit : bitUnit p x / 2 = (2 : ℚ) ^ Int.log 2 |x| / 2 ^ p := by
    unfold bitUnit
    rw [zpow_sub₀ (by norm_num), zpow_add₀ (by norm_num), zpow_one,
      zpow_natCast]
    ring
  rw [hunit]
  gcongr

/-- Rounding moves a number by at most its `2 ^ p`-th part. -/
theorem abs_roundTo_sub_le (p : ℕ) (x : ℚ) :
    |roundTo p x - x| ≤ |x| / 2 ^ p := by
  unfold roundTo
  split
  · rename_i hx
    simp [hx]
  rename_i hx
  have hpos := bitUnit_pos p x
  have hsplit : roundEven (x / bitUnit p x) * bitUnit p x - x
      = (roundEven (x / bitUnit p x) - x / bitUnit p x) * bitUnit p x := by
    field_simp
  rw [hsplit, abs_mul, abs_of_pos hpos]
  calc |(roundEven (x / bitUnit p x) : ℚ) - x / bitUnit p x|
        * bitUnit p x
      ≤ 1 / 2 * bitUnit p x := by
        gcongr
        exact abs_roundEven_sub_le _
    _ = bitUnit p x / 2 := by ring
    _ ≤ |x| / 2 ^ p := bitUnit_le hx

variable {n b z : ℤ}

/-- An integer of at most `p` bits is kept. -/
theorem roundTo_intCast (h : |n| < 2 ^ p) : roundTo p n = n := by
  unfold roundTo
  split
  · rename_i hn
    exact hn.symm
  rename_i hn
  have hn0 : n ≠ 0 := by exact_mod_cast hn
  have habs : |(n : ℚ)| = ((n.natAbs : ℕ) : ℚ) := by
    rw [Nat.cast_natAbs, Int.cast_abs]
  -- its unit is a power of two with a negative exponent
  have hlog : Int.log 2 |(n : ℚ)| + 1 ≤ p := by
    rw [habs, Int.log_natCast]
    have hlt : n.natAbs < 2 ^ p := by
      zify
      exact h
    have := (Nat.log_lt_iff_lt_pow (b := 2) (by norm_num)
      (Int.natAbs_ne_zero.mpr hn0)).mpr hlt
    omega
  obtain ⟨k, hk⟩ : ∃ k : ℕ, Int.log 2 |(n : ℚ)| + 1 - p = -(k : ℤ) :=
    ⟨(p - (Int.log 2 |(n : ℚ)| + 1)).toNat, by omega⟩
  have hunit : bitUnit p (n : ℚ) = ((2 : ℚ) ^ k)⁻¹ := by
    rw [bitUnit, hk, zpow_neg, zpow_natCast]
  have hwhole : (n : ℚ) / bitUnit p n = ((n * 2 ^ k : ℤ) : ℚ) := by
    rw [hunit, div_inv_eq_mul]
    push_cast
    rfl
  rw [hwhole, roundEven_intCast, ← hwhole, div_mul_cancel₀ _ (bitUnit_pos p _).ne']

-- ===== quotients

/-- Rounding moves a quotient by less than one part of the divisor. -/
theorem abs_roundTo_div_sub_lt (hn : |n| < 2 ^ p) (hb : 0 < b) :
    |roundTo p (n / b) - n / b| < 1 / b := by
  have hbq : (0 : ℚ) < b := by exact_mod_cast hb
  have hnq : |(n : ℚ)| < 2 ^ p := by exact_mod_cast hn
  have hp : (0 : ℚ) < 2 ^ p := by positivity
  calc |roundTo p (n / b) - n / b|
      ≤ |(n : ℚ) / b| / 2 ^ p := abs_roundTo_sub_le p _
    _ = |(n : ℚ)| / 2 ^ p / b := by
        rw [abs_div, abs_of_pos hbq, div_right_comm]
    _ < 1 / b := by
        gcongr
        exact (div_lt_one hp).mpr hnq

/-- A quotient above an integer stays above it. -/
theorem lt_roundTo_div (hn : |n| < 2 ^ p) (hb : 0 < b) (h : z * b < n) :
    (z : ℚ) < roundTo p (n / b) := by
  have hbq : (0 : ℚ) < b := by exact_mod_cast hb
  have hnear := (abs_lt.mp (abs_roundTo_div_sub_lt hn hb)).1
  have hgap : (z : ℚ) + 1 / b ≤ n / b := by
    rw [le_div_iff₀ hbq, add_mul, div_mul_cancel₀ _ hbq.ne']
    exact_mod_cast h
  linarith

/-- A quotient below an integer stays below it. -/
theorem roundTo_div_lt (hn : |n| < 2 ^ p) (hb : 0 < b) (h : n < z * b) :
    roundTo p (n / b) < (z : ℚ) := by
  have hbq : (0 : ℚ) < b := by exact_mod_cast hb
  have hnear := (abs_lt.mp (abs_roundTo_div_sub_lt hn hb)).2
  have hgap : (n : ℚ) / b ≤ z - 1 / b := by
    rw [div_le_iff₀ hbq, sub_mul, div_mul_cancel₀ _ hbq.ne']
    exact_mod_cast (by omega : n ≤ z * b - 1)
  linarith

/-- A quotient that is an integer is kept. -/
theorem roundTo_div_of_eq (hn : |n| < 2 ^ p) (hb : 0 < b) (h : n = z * b) :
    roundTo p (n / b) = (z : ℚ) := by
  subst h
  have hbq : (b : ℚ) ≠ 0 := by exact_mod_cast hb.ne'
  push_cast
  rw [mul_div_cancel_right₀ _ hbq]
  refine roundTo_intCast (lt_of_le_of_lt ?_ hn)
  rw [abs_mul, abs_of_pos hb]
  exact le_mul_of_one_le_right (abs_nonneg z) hb

/-- Rounding a quotient down to an integer may round it before. -/
theorem floor_roundTo_div (hn : |n| < 2 ^ p) (hb : 0 < b) : ⌊roundTo p (n / b)⌋ = n / b := by
  have hdiv := Int.ediv_mul_add_emod n b
  have hmod := Int.emod_lt_of_pos n hb
  have hmod0 := Int.emod_nonneg n hb.ne'
  rw [Int.floor_eq_iff]
  constructor
  · rcases hmod0.eq_or_lt with h0 | hpos
    · exact (roundTo_div_of_eq hn hb (by omega)).ge
    · exact (lt_roundTo_div hn hb (by omega)).le
  · have htop := roundTo_div_lt (z := n / b + 1) hn hb (by rw [Int.add_mul]; omega)
    exact_mod_cast htop

/-- So may rounding it up. -/
theorem ceil_roundTo_div (hn : |n| < 2 ^ p) (hb : 0 < b) :
    ⌈roundTo p (n / b)⌉ = (n + b - 1) / b := by
  have hdiv := Int.ediv_mul_add_emod (n + b - 1) b
  have hmod := Int.emod_lt_of_pos (n + b - 1) hb
  have hmod0 := Int.emod_nonneg (n + b - 1) hb.ne'
  rw [Int.ceil_eq_iff]
  constructor
  · have hlow := lt_roundTo_div (z := (n + b - 1) / b - 1) hn hb (by rw [Int.sub_mul]; omega)
    exact_mod_cast hlow
  · rcases eq_or_ne n ((n + b - 1) / b * b) with heq | hne
    · exact (roundTo_div_of_eq hn hb heq).le
    · exact (roundTo_div_lt hn hb (by omega)).le

end LlmTemporalWorker.Lib
