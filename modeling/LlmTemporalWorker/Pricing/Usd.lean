/-
Exact and materialized money (pricing/decimal.go, money.go,
nano_usd.go).

An exact amount is a whole number of 10⁻¹⁸ dollars below 10²⁰ dollars.
The ledger counts nano-dollars: charges are rounded up to them, limits
down, so a materialized charge is never less and a materialized limit
never more than the exact one. The legacy store counts micro-dollars,
and rounds the same way at its boundary.
-/
import Mathlib

namespace LlmTemporalWorker.Pricing

/-- `USD`: an exact non-negative amount in `NUMERIC(38,18)`. -/
structure Usd where
  units : Nat
  bounded : units ≤ 10 ^ 38 - 1
deriving DecidableEq, Repr

def Usd.zero : Usd := ⟨0, by decide⟩

variable (usd : Usd)

def Usd.isZero : Bool := usd.units == 0

/-- `NanoUSDSafeLimit`, and `RedisSafeLimit` for micro-dollars. -/
def nanoUsdSafeLimit : Nat := 2 ^ 53 - 1

def nanoUsdScaleFactor : Nat := 10 ^ 9

/-- `USDFromMicro`: a legacy amount of 10⁻⁶ dollars. -/
def usdFromMicro (money : Int) : Except String Usd :=
  if h : 0 ≤ money ∧ money ≤ nanoUsdSafeLimit then
    .ok ⟨money.toNat * 10 ^ 18 / 1000000, by
      have hle : money.toNat ≤ 2 ^ 53 - 1 := by
        have := h.2
        simp only [nanoUsdSafeLimit] at this
        omega
      omega⟩
  else .error "microUSD value is outside the Redis-safe range"

/-- `validateNanoSource`. -/
def nanoSourceOk : Bool :=
  usd.units ≤ nanoUsdSafeLimit * nanoUsdScaleFactor

def nanoFromBig (value : Nat) : Except String Nat :=
  if 2 ^ 63 ≤ value then .error "nanoUSD result overflows int64"
  else if nanoUsdSafeLimit < value then
    .error "nanoUSD result exceeds Redis safe integer range"
  else .ok value

/-- `FloorNanoUSD`: a limit. -/
def floorNanoUsd : Except String Nat :=
  if nanoSourceOk usd then nanoFromBig (usd.units / nanoUsdScaleFactor)
  else .error "USD value exceeds the nanoUSD Redis safe limit"

/-- `CeilNanoUSD`: a charge. -/
def ceilNanoUsd : Except String Nat :=
  if nanoSourceOk usd then
    nanoFromBig (if 0 < usd.units % nanoUsdScaleFactor then
      usd.units / nanoUsdScaleFactor + 1
    else usd.units / nanoUsdScaleFactor)
  else .error "USD value exceeds the nanoUSD Redis safe limit"

-- ===== micro-dollars

/-- `MicroUSD.Valid`. -/
def microValid (money : Int) : Bool :=
  decide (0 ≤ money) && decide (money ≤ nanoUsdSafeLimit)

/-- The range tests of `MicroFromUSD` and `CeilMicroFromUSD`. -/
def microFromBig (value : Nat) : Except String Nat :=
  if 2 ^ 63 ≤ value then
    .error "USD value overflows microUSD compatibility range"
  else if nanoUsdSafeLimit < value then
    .error "USD value exceeds Redis-safe microUSD range"
  else .ok value

/-- `MicroFromUSD`: a limit, rounded down. -/
def microFromUsd : Except String Nat :=
  microFromBig (usd.units / 10 ^ 12)

/-- `CeilMicroFromUSD`: a charge, rounded up. -/
def ceilMicroFromUsd : Except String Nat :=
  microFromBig (if 0 < usd.units % 10 ^ 12 then usd.units / 10 ^ 12 + 1
    else usd.units / 10 ^ 12)

/-- `USD.String`: eighteen fractional digits. -/
def Usd.text : String :=
  let digits := (toString usd.units).toList
  let digits := if digits.length ≤ 18 then
      List.replicate (18 - digits.length + 1) '0' ++ digits
    else digits
  let position := digits.length - 18
  String.ofList (digits.take position) ++ "." ++ String.ofList (digits.drop position)

-- ===== nano-dollars

theorem nanoFromBig_ok {value nano : Nat} (h : nanoFromBig value = .ok nano) :
    nano = value ∧ nano ≤ nanoUsdSafeLimit := by
  unfold nanoFromBig at h
  split at h
  · cases h
  split at h
  · cases h
  · cases h
    exact ⟨rfl, by omega⟩

/-- A materialized limit is at most the exact one. -/
theorem floorNanoUsd_le {usd : Usd} {nano : Nat} (h : floorNanoUsd usd = .ok nano) :
    nanoUsdScaleFactor * nano ≤ usd.units := by
  unfold floorNanoUsd at h
  split at h
  · rw [(nanoFromBig_ok h).1]
    exact Nat.mul_div_le _ _
  · cases h

/-- A materialized charge is at least the exact one. -/
theorem le_ceilNanoUsd {usd : Usd} {nano : Nat} (h : ceilNanoUsd usd = .ok nano) :
    usd.units ≤ nanoUsdScaleFactor * nano := by
  unfold ceilNanoUsd at h
  split at h
  · rw [(nanoFromBig_ok h).1]
    have hdiv := Nat.div_add_mod usd.units nanoUsdScaleFactor
    have hlt : usd.units % nanoUsdScaleFactor < nanoUsdScaleFactor := Nat.mod_lt _ (by decide)
    split
    · rw [Nat.mul_add]
      omega
    · omega
  · cases h

end LlmTemporalWorker.Pricing
