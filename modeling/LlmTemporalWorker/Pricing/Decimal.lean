/-
Prices and their roundings (pricing/decimal.go, money.go).

A catalog price is an exact decimal. A charge is a price times a number
of units, rounded up once: to 10⁻¹⁸ dollars for the exact amount and to
micro-dollars for the amount the legacy stores count. The lemmas say
that the second rounding always covers the first, also after amounts
are added and after both are multiplied by a safety ratio.
-/
import LlmTemporalWorker.Pricing.Usd
import LlmTemporalWorker.Lib.Lists

namespace LlmTemporalWorker.Pricing

-- ===== quotients

/-- `QuoRem`, with one added for a remainder. -/
def quoUp (n d : Nat) : Nat :=
  if n % d ≠ 0 then n / d + 1 else n / d

variable {n d micro : Nat} {usd : Usd}

theorem quoUp_le_iff {c : Nat} (hd : 0 < d) : quoUp n d ≤ c ↔ n ≤ c * d := by
  have hsplit := Nat.div_add_mod n d
  have hcomm : d * (n / d) = n / d * d := Nat.mul_comm _ _
  unfold quoUp
  split
  · rename_i hrem
    rw [Nat.succ_le_iff, Nat.div_lt_iff_lt_mul hd]
    constructor
    · omega
    · intro hle
      refine Nat.lt_of_le_of_ne hle fun heq => hrem ?_
      rw [heq, Nat.mul_mod_left]
  · constructor
    · intro hle
      have := Nat.mul_le_mul_right d hle
      omega
    · intro hle
      exact Nat.div_le_of_le_mul (by rw [Nat.mul_comm]; exact hle)

theorem le_quoUp_mul (hd : 0 < d) : n ≤ quoUp n d * d := (quoUp_le_iff hd).mp (Nat.le_refl _)

theorem quoUp_mono {m : Nat} (hd : 0 < d) (h : n ≤ m) : quoUp n d ≤ quoUp m d :=
  (quoUp_le_iff hd).mpr (Nat.le_trans h (le_quoUp_mul hd))

-- ===== exact amounts

/-- `USD.valid` of a computed amount. -/
def Usd.ofUnits (units : Nat) : Except String Usd :=
  if h : units ≤ 10 ^ 38 - 1 then .ok ⟨units, h⟩
  else .error "USD value exceeds NUMERIC(38,18)"

def Usd.add (usd other : Usd) : Except String Usd :=
  Usd.ofUnits (usd.units + other.units)

/-- `USD.MulRatio`: rounded up. -/
def Usd.mulRatio (usd : Usd) (numerator denominator : Int) : Except String Usd :=
  if numerator < 0 ∨ denominator ≤ 0 then
    .error "USD ratio must be non-negative with a positive denominator"
  else Usd.ofUnits (quoUp (usd.units * numerator.toNat) denominator.toNat)

theorem Usd.ofUnits_ok {units : Nat} (h : Usd.ofUnits units = .ok usd) : usd.units = units := by
  unfold Usd.ofUnits at h
  split at h
  · cases h
    rfl
  · cases h

theorem Usd.ext_units {other : Usd} (h : usd.units = other.units) : usd = other := by
  cases usd
  cases other
  cases h
  rfl

-- ===== micro-dollars

/-- `MicroUSD.Add`, also of values out of range. -/
def addMicro (money other : Int) : Except String Int :=
  if money < 0 ∨ other < 0 ∨ nanoUsdSafeLimit < money
      ∨ nanoUsdSafeLimit < other ∨ nanoUsdSafeLimit - money < other then
    .error "microUSD addition overflows safe range"
  else .ok (money + other)

theorem addMicro_ok_iff {money other total : Int} : addMicro money other = .ok total
      ↔ 0 ≤ money ∧ 0 ≤ other ∧ money + other ≤ nanoUsdSafeLimit ∧ total = money + other := by
  unfold addMicro
  split
  · simp only [reduceCtorEq, false_iff]
    omega
  · simp only [Except.ok.injEq]
    omega

/-- `MicroUSD.Add` of amounts that are never negative. -/
def microAdd (money other : Nat) : Except String Nat :=
  (addMicro money other).map Int.toNat

theorem microAdd_ok_iff {money other total : Nat} : microAdd money other = .ok total
      ↔ total = money + other ∧ total ≤ nanoUsdSafeLimit := by
  unfold microAdd addMicro
  split
  · simp only [Except.map, reduceCtorEq, false_iff]
    omega
  · simp only [Except.map, Except.ok.injEq]
    omega

-- ===== prices

/-- `DecimalUSD`: a non-negative decimal that fits the exact amounts. Its
source text is left out. -/
structure DecimalUsd where
  (numerator scale : Nat)
  scale_le : scale ≤ 18
  bounded : numerator * 10 ^ (18 - scale) ≤ 10 ^ 38 - 1
deriving DecidableEq, Repr

/-- The zero value: a known-free price. -/
def DecimalUsd.zero : DecimalUsd := ⟨0, 0, by decide, by decide⟩

/-- `CeilUSD`: a charge at the exact scale. -/
def ceilUsd (price : DecimalUsd) (units unitsPerPrice : Int) : Except String Usd :=
  if units < 0 ∨ unitsPerPrice ≤ 0 then
    .error "units must be non-negative and units_per_price positive"
  else Usd.ofUnits (quoUp (price.numerator * units.toNat * 10 ^ 18)
      (10 ^ price.scale * unitsPerPrice.toNat))

/-- `CeilMicroUSD`: the same charge in micro-dollars. -/
def ceilMicroUsd (price : DecimalUsd) (units unitsPerPrice : Int) : Except String Nat :=
  if units < 0 ∨ unitsPerPrice ≤ 0 then
    .error "units must be non-negative and units_per_price positive"
  else
    let quotient := quoUp (price.numerator * units.toNat * 1000000)
      (10 ^ price.scale * unitsPerPrice.toNat)
    if 2 ^ 63 ≤ quotient then .error "microUSD result overflows int64"
    else if nanoUsdSafeLimit < quotient then
      .error "microUSD result exceeds Redis-safe range"
    else .ok quotient

/-- `multiplyCeil` (budget/estimate.go). -/
def multiplyCeil (value : Nat) (ratio : ℚ) : Except String Nat :=
  let quotient := quoUp (value * ratio.num.toNat) ratio.den
  if 2 ^ 63 ≤ quotient then .error "estimate multiplier overflows int64"
  else if nanoUsdSafeLimit < quotient then
    .error "estimate exceeds safe range"
  else .ok quotient

-- ===== coverage

/-- A micro-dollar amount is at least the exact amount. -/
def Covers (micro : Nat) (usd : Usd) : Prop :=
  usd.units ≤ micro * 10 ^ 12

theorem ceilMicroFromUsd_eq (usd : Usd) :
    ceilMicroFromUsd usd = microFromBig (quoUp usd.units (10 ^ 12)) := by
  unfold ceilMicroFromUsd quoUp
  simp only [Nat.pos_iff_ne_zero]

/-- What covers an exact amount is at least its own rounding. -/
theorem Covers.ceil (h : Covers micro usd) (hsafe : micro ≤ nanoUsdSafeLimit) :
    ∃ required, ceilMicroFromUsd usd = .ok required ∧ required ≤ micro := by
  have hle : quoUp usd.units (10 ^ 12) ≤ micro := (quoUp_le_iff (by decide)).mpr h
  have hlimit : nanoUsdSafeLimit < 2 ^ 63 := by decide
  refine ⟨_, ?_, hle⟩
  rw [ceilMicroFromUsd_eq]
  unfold microFromBig
  rw [if_neg (by omega), if_neg (by omega)]

theorem covers_ceil {required : Nat}
    (h : ceilMicroFromUsd usd = .ok required) : Covers required usd := by
  rw [ceilMicroFromUsd_eq] at h
  unfold microFromBig at h
  split at h
  · cases h
  split at h
  · cases h
  · cases h
    exact le_quoUp_mul (by decide)

theorem Covers.add {micro' total : Nat} {usd' sum : Usd}
    (h : Covers micro usd) (h' : Covers micro' usd')
    (hsum : usd.add usd' = .ok sum)
    (htotal : microAdd micro micro' = .ok total) : Covers total sum := by
  unfold Covers at *
  rw [Usd.ofUnits_ok hsum, (microAdd_ok_iff.mp htotal).1, Nat.add_mul]
  exact Nat.add_le_add h h'

/-- One charge rounded twice. -/
theorem covers_charge {price : DecimalUsd} {units unitsPerPrice : Int}
    (husd : ceilUsd price units unitsPerPrice = .ok usd)
    (hmicro : ceilMicroUsd price units unitsPerPrice = .ok micro) :
    Covers micro usd := by
  unfold ceilUsd at husd
  split at husd
  · cases husd
  rename_i hsign
  have hden : 0 < 10 ^ price.scale * unitsPerPrice.toNat :=
    Nat.mul_pos (Nat.pow_pos (by decide)) (by omega)
  unfold ceilMicroUsd at hmicro
  rw [if_neg hsign] at hmicro
  simp only at hmicro
  split at hmicro
  · cases hmicro
  split at hmicro
  · cases hmicro
  cases hmicro
  unfold Covers
  rw [Usd.ofUnits_ok husd, quoUp_le_iff hden]
  have hup := le_quoUp_mul (n := price.numerator * units.toNat * 1000000) hden
  calc price.numerator * units.toNat * 10 ^ 18
      = price.numerator * units.toNat * 1000000 * 10 ^ 12 := by
        rw [show 10 ^ 18 = 1000000 * 10 ^ 12 from by decide,
          Nat.mul_assoc _ 1000000]
    _ ≤ _ * 10 ^ 12 := Nat.mul_le_mul_right _ hup
    _ = _ := by rw [Nat.mul_right_comm]

theorem multiplyCeil_ok {value result : Nat} {ratio : ℚ}
    (h : multiplyCeil value ratio = .ok result) :
    result = quoUp (value * ratio.num.toNat) ratio.den ∧ result ≤ nanoUsdSafeLimit := by
  unfold multiplyCeil at h
  simp only at h
  split at h
  · cases h
  split at h
  · cases h
  · cases h
    exact ⟨rfl, by omega⟩

/-- Both amounts times one ratio. -/
theorem Covers.ratio {result : Nat} {product : Usd} {ratio : ℚ} (h : Covers micro usd)
    (hproduct : usd.mulRatio ratio.num ratio.den = .ok product)
    (hresult : multiplyCeil micro ratio = .ok result) :
    Covers result product := by
  unfold Usd.mulRatio at hproduct
  split at hproduct
  · cases hproduct
  have hden : 0 < ratio.den := ratio.den_pos
  have hup := le_quoUp_mul (n := micro * ratio.num.toNat) hden
  unfold Covers at *
  rw [Usd.ofUnits_ok hproduct, Int.toNat_natCast, (multiplyCeil_ok hresult).1, quoUp_le_iff hden]
  calc usd.units * ratio.num.toNat
      ≤ micro * 10 ^ 12 * ratio.num.toNat := Nat.mul_le_mul_right _ h
    _ = micro * ratio.num.toNat * 10 ^ 12 := Nat.mul_right_comm _ _ _
    _ ≤ _ * 10 ^ 12 := Nat.mul_le_mul_right _ hup
    _ = _ := Nat.mul_right_comm _ _ _

end LlmTemporalWorker.Pricing
