/-
Natural numbers kept to a fixed number of significant digits.

Two number formats drop low digits in the same way. A serializer that
prints with `%.<d>g` keeps `d` significant decimal digits; a binary
floating-point sum keeps the format's significant binary digits. Below
`β ^ d` an integer survives as it is, above it the low digits are
rounded away, ties to the even neighbour. `roundSig β d n` is the
number a reader gets back.

# Shape of the lemmas

The rounding unit of `n` is the power of `β` that leaves `d` digits in
front. A number is unchanged exactly when its unit divides it
(`roundSig_eq_self_iff`); the rounded number is divisible by its own
unit, also when rounding carries into one more digit, so rounding twice
is rounding once (`roundSig_roundSig`). Rounding does not cross a
number it leaves unchanged (`le_roundSig`).
-/
import Mathlib

namespace LlmTemporalWorker.Lib

variable {β d n : Nat}

-- ===== the unit

/-- The power of `β` that `d` significant digits of `n` count in. -/
def sigUnit (β d n : Nat) : Nat := β ^ (Nat.log β n + 1 - d)

/-- `n` rounded to `d` significant digits in base `β`, ties to even. -/
def roundSig (β d n : Nat) : Nat :=
  let p := sigUnit β d n
  let q := n / p
  let r := n % p
  if 2 * r < p ∨ (2 * r = p ∧ q % 2 = 0) then q * p else (q + 1) * p

theorem sigUnit_pos (hβ : 1 < β) (d n : Nat) : 0 < sigUnit β d n := Nat.pow_pos (by omega)

/-- Numbers of at most `d` digits are counted in ones. -/
theorem sigUnit_of_lt (hβ : 1 < β) (hd : 0 < d) (h : n < β ^ d) : sigUnit β d n = 1 := by
  have hlog : Nat.log β n + 1 - d = 0 := by
    rcases Nat.eq_zero_or_pos n with rfl | hn
    · rw [Nat.log_zero_right]
      omega
    · have := (Nat.log_lt_iff_lt_pow hβ hn.ne').mpr h
      omega
  rw [sigUnit, hlog, pow_zero]

/-- The rounded number is one of the two multiples of the unit around
`n`. -/
theorem roundSig_cases (hβ : 1 < β) (d n : Nat) : roundSig β d n = n / sigUnit β d n * sigUnit β d n
      ∨ (roundSig β d n = (n / sigUnit β d n + 1) * sigUnit β d n ∧ n % sigUnit β d n ≠ 0) := by
  have hp := sigUnit_pos hβ d n
  by_cases h : 2 * (n % sigUnit β d n) < sigUnit β d n ∨ (2 * (n % sigUnit β d n) = sigUnit β d n
        ∧ n / sigUnit β d n % 2 = 0)
  · exact Or.inl (if_pos h)
  · refine Or.inr ⟨if_neg h, ?_⟩
    intro h0
    exact h (Or.inl (by omega))

/-- Rounding never falls below the multiple of the unit under `n`. -/
theorem floor_le_roundSig (hβ : 1 < β) (d n : Nat) :
    n / sigUnit β d n * sigUnit β d n ≤ roundSig β d n := by
  rcases roundSig_cases hβ d n with hr | ⟨hr, -⟩
  · exact hr.ge
  · rw [hr]
    exact Nat.mul_le_mul_right _ (Nat.le_succ _)

-- ===== fixed numbers

/-- A number is kept exactly when its unit divides it. -/
theorem roundSig_eq_self_iff (hβ : 1 < β) (d n : Nat) : roundSig β d n = n ↔ sigUnit β d n ∣ n := by
  constructor
  · intro h
    rcases roundSig_cases hβ d n with hr | ⟨hr, -⟩
    · exact ⟨n / sigUnit β d n, by rw [mul_comm, ← hr, h]⟩
    · exact ⟨n / sigUnit β d n + 1, by rw [mul_comm, ← hr, h]⟩
  · intro h
    rcases roundSig_cases hβ d n with hr | ⟨-, hr⟩
    · rw [hr, Nat.div_mul_cancel h]
    · exact absurd (Nat.mod_eq_zero_of_dvd h) hr

/-- Numbers of at most `d` digits are kept. -/
theorem roundSig_of_lt (hβ : 1 < β) (hd : 0 < d) (h : n < β ^ d) : roundSig β d n = n := by
  rw [roundSig_eq_self_iff hβ, sigUnit_of_lt hβ hd h]
  exact one_dvd n

/-- Where digits are lost, the quotient by the unit has `d` digits. -/
private theorem quotient_bounds (hβ : 1 < β) (hd : 0 < d) (h : β ^ d ≤ n) :
    β ^ (d - 1) ≤ n / sigUnit β d n ∧ n / sigUnit β d n < β ^ d := by
  have hn : n ≠ 0 := by
    have : 0 < β ^ d := Nat.pow_pos (by omega)
    omega
  have hlog : d ≤ Nat.log β n := Nat.le_log_of_pow_le hβ h
  constructor
  · rw [Nat.le_div_iff_mul_le (sigUnit_pos hβ d n), sigUnit, ← pow_add]
    rw [show d - 1 + (Nat.log β n + 1 - d) = Nat.log β n by omega]
    exact Nat.pow_log_le_self β hn
  · rw [Nat.div_lt_iff_lt_mul (sigUnit_pos hβ d n), sigUnit, ← pow_add]
    rw [show d + (Nat.log β n + 1 - d) = Nat.log β n + 1 by omega]
    exact Nat.lt_pow_succ_log_self hβ n

/-- A `d`-digit multiple of a power of `β` is counted in that power. -/
private theorem sigUnit_mul_pow {q e : Nat} (hβ : 1 < β) (hd : 0 < d)
    (hlo : β ^ (d - 1) ≤ q) (hhi : q < β ^ d) :
    sigUnit β d (q * β ^ e) = β ^ e := by
  have hlog : Nat.log β (q * β ^ e) = d - 1 + e := by
    refine Nat.log_eq_of_pow_le_of_lt_pow ?_ ?_
    · rw [pow_add]
      exact Nat.mul_le_mul_right _ hlo
    · rw [show d - 1 + e + 1 = d + e by omega, pow_add]
      exact Nat.mul_lt_mul_of_pos_right hhi (Nat.pow_pos (by omega))
  rw [sigUnit, hlog, show d - 1 + e + 1 - d = e by omega]

/-- Rounding twice is rounding once. -/
theorem roundSig_roundSig (hβ : 1 < β) (hd : 0 < d) (n : Nat) :
    roundSig β d (roundSig β d n) = roundSig β d n := by
  rcases Nat.lt_or_ge n (β ^ d) with h | h
  · rw [roundSig_of_lt hβ hd h, roundSig_of_lt hβ hd h]
  · obtain ⟨hlo, hhi⟩ := quotient_bounds hβ hd h
    have hcases := roundSig_cases hβ d n
    rw [roundSig_eq_self_iff hβ]
    obtain ⟨e, he⟩ : ∃ e, sigUnit β d n = β ^ e := ⟨_, rfl⟩
    rw [he] at hlo hhi hcases
    rcases hcases with hr | ⟨hr, -⟩
    · rw [hr, sigUnit_mul_pow hβ hd hlo hhi]
      exact Dvd.intro_left _ rfl
    · rcases Nat.lt_or_ge (n / β ^ e + 1) (β ^ d) with hlt | hge
      · rw [hr, sigUnit_mul_pow hβ hd (by omega) hlt]
        exact Dvd.intro_left _ rfl
      · -- the carry: the rounded number is a bare power of the base
        have hpow : (n / β ^ e + 1) * β ^ e = β ^ (d - 1) * β ^ (e + 1) := by
          rw [show n / β ^ e + 1 = β ^ d by omega, ← pow_add, ← pow_add]
          congr 1
          omega
        rw [hr, hpow, sigUnit_mul_pow hβ hd le_rfl (Nat.pow_lt_pow_right hβ (by omega))]
        exact Dvd.intro_left _ rfl

/-- Rounding does not fall below a number it keeps. -/
theorem le_roundSig {s : Nat} (hβ : 1 < β) (hd : 0 < d)
    (hs : roundSig β d s = s) (hle : s ≤ n) : s ≤ roundSig β d n := by
  rcases Nat.lt_or_ge n (β ^ d) with h | h
  · rw [roundSig_of_lt hβ hd h]
    exact hle
  · refine le_trans ?_ (floor_le_roundSig hβ d n)
    rcases (Nat.log_mono_right (b := β) hle).eq_or_lt with hlog | hlog
    · -- same length: both are counted in one unit
      have hunit : sigUnit β d s = sigUnit β d n := by
        rw [sigUnit, sigUnit, hlog]
      have hdvd : sigUnit β d n ∣ s := by
        rw [← hunit]
        exact (roundSig_eq_self_iff hβ d s).mp hs
      calc s = s / sigUnit β d n * sigUnit β d n := (Nat.div_mul_cancel hdvd).symm
        _ ≤ n / sigUnit β d n * sigUnit β d n := Nat.mul_le_mul_right _ (Nat.div_le_div_right hle)
    · -- `n` is longer: its leading digit alone exceeds `s`
      have hdlog : d ≤ Nat.log β n := Nat.le_log_of_pow_le hβ h
      calc s ≤ β ^ (Nat.log β s + 1) := (Nat.lt_pow_succ_log_self hβ s).le
        _ ≤ β ^ Nat.log β n := Nat.pow_le_pow_right (by omega) hlog
        _ = β ^ (d - 1) * sigUnit β d n := by
            rw [sigUnit, ← pow_add]
            congr 1
            omega
        _ ≤ n / sigUnit β d n * sigUnit β d n := Nat.mul_le_mul_right _ (quotient_bounds hβ hd h).1

end LlmTemporalWorker.Lib
