/-
`active_for` and `check_reservations` in the numbers Lua has
(storage/redis/functions/admission.lua).

Lua computes in doubles. Where it divides, the quotient is rounded to 53
bits before `math.floor` or `math.ceil` sees it. The definitions here
round after every operation, in the order of the source. For times below
2^53 microseconds they compute what the actions' model has in integers
(`activeForDouble_eq` in the proofs), so that model is the code's there.
-/
import LlmTemporalWorker.Admission.Function
import LlmTemporalWorker.Lib.Rounding
import LlmTemporalWorker.Lib.SlidingWindow

namespace LlmTemporalWorker.Admission

open Lib Budget

-- ===== numbers

/-- `math.floor(a / b)`. -/
def luaFloorDiv (a b : Int) : Int := ⌊roundTo 53 (a / b)⌋

/-- `math.ceil(a / b)`. -/
def luaCeilDiv (a b : Int) : Int := ⌈roundTo 53 (a / b)⌉

/-- `now_micros`. -/
def Clock.nowDouble (c : Clock) : Int :=
  luaDouble (luaDouble (c.seconds * 1000000) + c.micros)

-- ===== window

/-- The first and the last index that `active_for` visits, if its bounds
are positive. -/
def luaRange (bucketNs durationNs now : Int) : Option (Int × Int) :=
  let bucketUs := luaCeilDiv bucketNs 1000
  let durationUs := luaCeilDiv durationNs 1000
  if bucketUs ≤ 0 ∨ durationUs ≤ 0 then none
  else some (luaFloorDiv (luaDouble (now - durationUs)) bucketUs, luaFloorDiv now bucketUs)

/-- `HGET budget_key decimal(index)`: a negative index names no field. -/
def Keyspace.field (K : Keyspace) (w : WindowKey) (index : Int) : Option Int :=
  if index < 0 then none else K.hget w index.toNat

/-- The loop of `active_for`. -/
def sumFields (field : Int → Option Int) : List Int → Nat → Except Status Nat
  | [], active => .ok active
  | index :: rest, active =>
    match field index with
    | none => sumFields field rest active
    | some value =>
      match integer value with
      | none => .error .stateUnavailable
      | some parsed =>
        let active := luaDouble ((active : Int) + parsed)
        if (maxSafe : Int) < active then .error .stateUnavailable
        else sumFields field rest active.toNat

/-- `active_for`. -/
def activeForDouble (K : Keyspace) (r : ReservationWire Int) (now : Int) : Except Status Nat :=
  match reservationFields r with
  | none => .error .invalidReservation
  | some f =>
    match luaRange f.bucketNs f.durationNs now with
    | none => .error .invalidReservation
    | some (first, last) =>
      sumFields (K.field r.key) (visited first last) 0

/-- The loop of `check_reservations`. -/
def checkLoopDouble (K : Keyspace) (requested : Nat) (now : Int) :
    List (ReservationWire Int) → Except Reply Unit
  | [] => .ok ()
  | r :: rest =>
    match activeForDouble K r now with
    | .error status => .error (.bare status)
    | .ok active =>
      let limit := (integer r.limit).getD 0
      if limit < active ∨ limit - active < requested then
        .error ⟨.denied, none, some (denial r active requested)⟩
      else checkLoopDouble K requested now rest

/-- `check_reservations`. -/
def checkReservationsDouble (K : Keyspace) (rs : List (ReservationWire Int)) (requested now : Int) :
    Except Reply Unit :=
  match integer requested with
  | none => .error (.bare .invalidRequest)
  | some value => checkLoopDouble K value now rs

-- ===== the integers

theorem luaFloorDiv_eq {a b : Int} (ha : a.natAbs < 2 ^ 53) (hb : 0 < b) :
    luaFloorDiv a b = a / b := by
  refine floor_roundTo_div ?_ hb
  rw [← Int.natCast_natAbs]
  exact_mod_cast ha

theorem luaCeilDiv_eq {a b : Int} (ha : a.natAbs < 2 ^ 53) (hb : 0 < b) :
    luaCeilDiv a b = (a + b - 1) / b := by
  refine ceil_roundTo_div ?_ hb
  rw [← Int.natCast_natAbs]
  exact_mod_cast ha

theorem nowDouble_eq {c : Clock} (h : c.nowMicros < 2 ^ 53) : c.nowDouble = c.nowMicros := by
  unfold Clock.nowMicros at *
  have hproduct : luaDouble (c.seconds * 1000000) = ((c.seconds * 1000000 : Nat) : Int) := by
    rw [luaDouble_of_le (by omega)]
    rfl
  rw [Clock.nowDouble, hproduct, luaDouble_of_le (by omega)]
  rfl

/-- A sum of safe integers is over the limit as a double exactly when it
is as an integer. -/
theorem maxSafe_lt_luaDouble {n : Nat} : (maxSafe : Int) < luaDouble n ↔ maxSafe < n := by
  by_cases h : n ≤ 2 ^ 53
  · rw [luaDouble_of_le (by simpa using h)]
    omega
  have hkeep : roundSig 2 53 (2 ^ 53) = 2 ^ 53 := by decide +kernel
  have hround := le_roundSig (β := 2) (d := 53) (by decide) (by decide)
    hkeep (n := n) (by omega)
  have hdouble : luaDouble n = roundSig 2 53 n := by
    rw [luaDouble, if_neg (by simpa using h)]
    have hsign : (n : Int).sign = 1 := Int.sign_eq_one_of_pos (by omega)
    rw [hsign, Int.one_mul, Int.natAbs_natCast]
  have hmax : maxSafe < 2 ^ 53 := by decide
  omega

/-- The range of `active_for`, in integers. -/
theorem luaRange_eq {bucketNs durationNs now : Nat} (hb : bucketNs ≤ maxSafe)
    (hd : durationNs ≤ maxSafe) (hnow : now < 2 ^ 53) :
    luaRange bucketNs durationNs now = if ((bucketNs + 999) / 1000 : Nat) = 0
          ∨ ((durationNs + 999) / 1000 : Nat) = 0 then none
        else some (((now : Int) - ((durationNs + 999) / 1000 : Nat))
            / ((bucketNs + 999) / 1000 : Nat),
          (now : Int) / ((bucketNs + 999) / 1000 : Nat)) := by
  have hmax : maxSafe < 2 ^ 53 := by decide
  have hceil : ∀ n : Nat, n ≤ maxSafe → luaCeilDiv n 1000 = ((n + 999) / 1000 : Nat) := by
    intro n hn
    rw [luaCeilDiv_eq (by rw [Int.natAbs_natCast]; omega) (by decide)]
    omega
  unfold luaRange
  rw [hceil _ hb, hceil _ hd]
  split
  · rw [if_pos (by omega)]
  rw [if_neg (by omega)]
  have hsub : luaDouble ((now : Int) - ((durationNs + 999) / 1000 : Nat))
      = (now : Int) - ((durationNs + 999) / 1000 : Nat) :=
    luaDouble_of_le (by omega)
  rw [hsub, luaFloorDiv_eq (by omega) (by omega),
    luaFloorDiv_eq (by omega) (by omega)]

end LlmTemporalWorker.Admission
