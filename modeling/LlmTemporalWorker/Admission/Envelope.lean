/-
The reservation envelope (admission/reservation.go).

A request carries one scalar amount and one reservation per budget
window. The stores charge the windows from the vector and report the
scalar, so the two must agree: every reservation holds the scalar
amount, and no bucket of a window appears twice. An exact projection
may accompany them; the micro-dollar amounts must then cover it, and
the micro-dollar limits must not exceed it.

An exact amount here is valid by its type, so the source's calls of
`USD.Validate` have no counterpart.
-/
import LlmTemporalWorker.Admission.Types

namespace LlmTemporalWorker.Admission

open Budget (WindowReservation)
open Pricing

/-- The bucket of a window that a reservation charges: `identity`. -/
structure Place where
  (policy window : String)
  bucket : Int
deriving DecidableEq, Repr

/-- A reservation's `identity`. -/
def place (r : WindowReservation) : Place :=
  ⟨r.policyId, r.windowId, r.bucket⟩

/-- The loop of `ValidateReservationEnvelope`. -/
def envelopeLoop (expected : Int) (seen : List Place) (index : Nat) :
    List WindowReservation → Except String Unit
  | [] => .ok ()
  | r :: rest =>
    if r.amount ≠ expected then
      .error ("reservation " ++ toString index ++ " amount "
        ++ toString r.amount ++ " does not match scalar reservation "
        ++ toString expected)
    else if place r ∈ seen then
      .error ("duplicate reservation identity at index " ++ toString index)
    else envelopeLoop expected (place r :: seen) (index + 1) rest

/-- The loop accepts reservations of the scalar amount in buckets that
are new and apart. -/
theorem envelopeLoop_ok_iff {expected : Int} {seen : List Place} {index : Nat}
    {rs : List WindowReservation} :
    envelopeLoop expected seen index rs = .ok () ↔
      (∀ r ∈ rs, r.amount = expected) ∧ (rs.map place).Nodup ∧ ∀ r ∈ rs, place r ∉ seen := by
  induction rs generalizing seen index with
  | nil => simp [envelopeLoop]
  | cons r rest ih =>
    unfold envelopeLoop
    by_cases hamount : r.amount = expected
    · by_cases hseen : place r ∈ seen
      · simp [hamount, hseen]
      · rw [if_neg (not_not_intro hamount), if_neg hseen, ih]
        simp only [List.mem_cons, forall_eq_or_imp, List.map_cons,
          List.nodup_cons, List.mem_map, not_exists, not_and, not_or]
        constructor
        · intro ⟨ha, hn, hs⟩
          exact ⟨⟨hamount, ha⟩, ⟨fun r' hr' => (hs r' hr').1, hn⟩, hseen,
            fun r' hr' => (hs r' hr').2⟩
        · intro ⟨⟨_, ha⟩, ⟨hp, hn⟩, _, hs⟩
          exact ⟨ha, hn, fun r' hr' => ⟨hp r' hr', hs r' hr'⟩⟩
    · simp [hamount]

def validateReservationEnvelope (reservations : List WindowReservation)
    (expected : Int) : Except String Unit :=
  if expected < 0 ∨ !microValid expected then
    .error "invalid scalar reservation amount"
  else envelopeLoop expected [] 0 reservations

/-- A charge of `amount` covers the exact amount it stands for. -/
def coversExact (amount : Int) (exact : Usd)
    (boundary : String) (short : Nat → String) : Except String Unit :=
  match ceilMicroFromUsd exact with
  | .error e => .error (boundary ++ e)
  | .ok required =>
    if amount < required then .error (short required) else .ok ()

/-- The checks of one reservation against the exact scalar. -/
def exactReservation (expectedUsd : Usd) (index : Nat)
    (r : WindowReservation) : Except String Unit := do
  let name := "reservation " ++ toString index
  if !expectedUsd.isZero then
    if r.amountUsd.isZero ∨ r.amountUsd.units ≠ expectedUsd.units then
      throw (name ++ " USD amount " ++ r.amountUsd.text
        ++ " does not match scalar USD reservation " ++ expectedUsd.text)
    coversExact r.amount r.amountUsd
      (name ++ " USD amount cannot cross Redis boundary: ") fun required =>
        name ++ " MicroUSD amount " ++ toString r.amount
          ++ " under-reserves exact USD amount " ++ r.amountUsd.text
          ++ " (requires at least " ++ toString required ++ ")"
  else if !r.amountUsd.isZero then
    throw (name ++ " supplies an exact USD amount" ++ " without a scalar USD reservation")
  if !r.limitUsd.isZero then
    match microFromUsd r.limitUsd with
    | .error e =>
      throw (name ++ " USD limit cannot cross Redis boundary: " ++ e)
    | .ok limit =>
      -- a limit under one micro-dollar still grants one unit
      let limit := if limit = 0 then 1 else limit
      if (limit : Int) < r.limit then
        throw (name ++ " MicroUSD limit " ++ toString r.limit
          ++ " exceeds exact USD limit " ++ r.limitUsd.text
          ++ " (maximum " ++ toString limit ++ ")")

/-- The last loop of `ValidateExactUSDReservationEnvelope`. -/
def exactLoop (expectedUsd : Usd) (index : Nat) : List WindowReservation → Except String Unit
  | [] => .ok ()
  | r :: rest => do
      exactReservation expectedUsd index r
      exactLoop expectedUsd (index + 1) rest

def validateExactUsdReservationEnvelope (reservations : List WindowReservation) (expected : Int)
    (expectedUsd : Usd) : Except String Unit := do
  validateReservationEnvelope reservations expected
  let hasExact := !expectedUsd.isZero || reservations.any fun r =>
    !r.amountUsd.isZero || !r.limitUsd.isZero
  if hasExact then
    if !expectedUsd.isZero then
      coversExact expected expectedUsd "scalar USD reservation cannot cross Redis boundary: "
        fun required => "scalar MicroUSD reservation "
          ++ toString expected ++ " under-reserves exact USD reservation "
          ++ expectedUsd.text ++ " (requires at least "
          ++ toString required ++ ")"
    exactLoop expectedUsd 0 reservations

end LlmTemporalWorker.Admission
