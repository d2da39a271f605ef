/-
The worker's side of the ledger: `RedisBudgetMaterializer`
(storage/redis/budget_materializer.go) with the events it settles
(budget/journal.go) and the requests it takes
(storage/durable/contract.go).

A materializer checks a request, rounds its exact amounts to
nano-dollars and calls one of the three actions. What it takes from its
host (digests, JSON, the clock's layout) is the parameter `Host`. Times
are nanoseconds since the Unix epoch.

An error is its text. Where the source checks several identities in the
order of a Go map, the model checks them in the order of the literal.
-/
import LlmTemporalWorker.Budget.Reconcile
import LlmTemporalWorker.Lib.Digits
import LlmTemporalWorker.Pricing.Usd

namespace LlmTemporalWorker.Budget

open Lib Pricing

-- ===== identity

/-- `strings.TrimSpace(value) == value`. -/
def trimmed (value : String) : Bool :=
  !(value.toList.head?.any isSpace) && !(value.toList.getLast?.any isSpace)

/-- The test of `validateID` and `validateIdentity`. -/
def identityOk (value : String) : Bool :=
  value ≠ "" && value.utf8ByteSize ≤ 128 && trimmed value
    && !value.toList.any fun c => c.toNat ∈ [0x00, 0x0d, 0x0a]

/-- `validateID`, `validateIdentity`. -/
def validateIdentity (value name : String) : Except String Unit :=
  if identityOk value then .ok ()
  else .error (name ++ " is empty or unsafe")

/-- The zero `time.Time`: the first of January of the year one. -/
def zeroTime : Int := -62135596800 * 10 ^ 9

def unixMilli (t : Int) : Int := t.fdiv (10 ^ 6)

-- ===== events

/-- `ActualCostStatus`. -/
inductive CostStatus where
  | pending
  | exact
  | unknown
deriving DecidableEq, Repr

structure CompletionEvent where
  (eventId generationId operationId windowId : String)
  (bucketStart reservationRevision : Int)
  kind : JournalKind
  (reservedDecreaseUsd accountedIncreaseUsd accountedDecreaseUsd : Usd)
  actualCostUsd : Option Usd
  costStatus : CostStatus
  unknownReasonCode : String
  occurredAt : Int
deriving DecidableEq, Repr

def safeReasonCode (value : String) : Bool :=
  value.utf8ByteSize ≠ 0 && value.utf8ByteSize ≤ 64 && value.toList.all fun c =>
      ('a' ≤ c && c ≤ 'z') || ('0' ≤ c && c ≤ '9') || c = '_'

def validateKindDeltas (e : CompletionEvent) : Except String Unit :=
  match e.kind with
  | .finalizeExact =>
    match e.actualCostUsd with
    | some cost =>
      if e.costStatus ≠ .exact
          ∨ (cost.isZero ∧ !e.accountedIncreaseUsd.isZero) then
        .error "finalize_exact requires an exact actual cost"
      else if e.reservedDecreaseUsd.isZero
          ∨ e.accountedIncreaseUsd.units ≠ cost.units
          ∨ !e.accountedDecreaseUsd.isZero then
        .error "finalize_exact deltas are inconsistent"
      else .ok ()
    | none => .error "finalize_exact requires an exact actual cost"
  | .finalizeUnknown =>
    if e.costStatus ≠ .unknown ∨ e.actualCostUsd.isSome
        ∨ e.unknownReasonCode = "" then
      .error "finalize_unknown requires a safe unknown cost"
    else if e.reservedDecreaseUsd.isZero
        ∨ e.accountedIncreaseUsd.units ≠ e.reservedDecreaseUsd.units
        ∨ !e.accountedDecreaseUsd.isZero then
      .error "finalize_unknown deltas are inconsistent"
    else .ok ()
  | .retainAmbiguous =>
    if e.costStatus ≠ .unknown ∨ e.actualCostUsd.isSome
        ∨ e.unknownReasonCode = "" then
      .error "retain_ambiguous requires a safe unknown cost"
    else if !e.reservedDecreaseUsd.isZero
        ∨ !e.accountedIncreaseUsd.isZero
        ∨ !e.accountedDecreaseUsd.isZero then
      .error "retain_ambiguous must not change accounting"
    else .ok ()
  | .resolveUnknownExact =>
    match e.actualCostUsd with
    | some cost =>
      if e.costStatus ≠ .exact then
        .error "resolve_unknown_exact requires an exact cost"
      else if e.reservedDecreaseUsd.isZero
            = e.accountedDecreaseUsd.isZero
          ∨ e.accountedIncreaseUsd.units ≠ cost.units then
        .error "resolve_unknown_exact deltas are inconsistent"
      else .ok ()
    | none => .error "resolve_unknown_exact requires an exact cost"
  | .release =>
    if e.costStatus ≠ .exact
        ∨ e.actualCostUsd.map Usd.units ≠ some 0
        ∨ e.reservedDecreaseUsd.isZero
        ∨ !e.accountedIncreaseUsd.isZero
        ∨ !e.accountedDecreaseUsd.isZero then
      .error "release must return a known zero cost"
    else .ok ()
  | .reserve => .error "invalid completion event kind \"reserve\""

def CompletionEvent.validate (e : CompletionEvent) : Except String Unit := do
  validateIdentity e.eventId "event_id"
  validateIdentity e.generationId "generation_id"
  validateIdentity e.operationId "operation_id"
  validateIdentity e.windowId "window_id"
  if e.bucketStart = zeroTime ∨ e.occurredAt = zeroTime then
    throw "budget completion timestamps are required"
  if e.reservationRevision < 0 then
    throw "reservation revision must be non-negative"
  if e.unknownReasonCode ≠ "" ∧ !safeReasonCode e.unknownReasonCode then
    throw "unknown cost reason code is unsafe"
  if e.costStatus ≠ .unknown ∧ e.unknownReasonCode ≠ "" then
    throw "unknown cost reason is only valid for unknown cost"
  validateKindDeltas e

-- ===== requests

structure WindowReservation where
  (policyId windowId : String)
  (bucket amount limit : Int)
  (amountUsd limitUsd : Usd)
  (bucketNanos durationNanos : Int)
deriving DecidableEq, Repr

structure ReserveRequest where
  (operationId generationId : String)
  reservations : List WindowReservation
  expiresAt : Int
deriving DecidableEq, Repr

structure ClaimRequest where
  (operationId generationId incarnationId : String)
deriving DecidableEq, Repr

structure ReconcileRequest where
  (operationId generationId incarnationId : String)
  events : List CompletionEvent
deriving DecidableEq, Repr

/-- Sixty-four lower-case hexadecimal digits. -/
def isHexDigest (text : String) : Bool :=
  text.utf8ByteSize == 64 && text.toList.all fun c => c.isDigit || ('a' ≤ c && c ≤ 'f')

/-- A request fingerprint, as `durableRequestFingerprint` returns it:
the SHA-256 sum of the request in `hex.EncodeToString`. -/
@[ext] structure Fingerprint where
  text : String
  hex : isHexDigest text = true
deriving DecidableEq, Repr

/-- What `durableRequestFingerprint` marshals. -/
structure RequestWire where
  (operationId generationId : String)
  expiresAt : Int
  reservations : List Reservation
deriving DecidableEq, Repr

/-- What the materializer takes from its host. -/
structure Host where
  sha256 : String → Fingerprint
  marshalRequest : RequestWire → String
  marshalEvent : CompletionEvent → String
  rfc3339Nano : Int → String

/-- `RedisBudgetMaterializer`: the snapshot it is bound to and the
marker its calls carry. -/
structure Materializer where
  (generation incarnation : String)
  authority : Option String
deriving DecidableEq, Repr

-- ===== the rounded reservation

variable (H : Host)

/-- `durableUSD`: the exact amount, or the legacy one. -/
def durableUsd (exact : Usd) (legacy : Int) : Except String Usd :=
  if exact.isZero then usdFromMicro legacy else .ok exact

def budgetStartLease : Int := 15 * 60 * 10 ^ 9

variable (operation generation : String)

def durableReservationEventId (policy window : String) (bucketStart : Int) :
    String :=
  (H.sha256 (operation ++ "\x00" ++ generation ++ "\x00" ++ policy
    ++ "\x00" ++ window ++ "\x00" ++ toString bucketStart
    ++ "\x00revision-1")).text

/-- A positive exact amount, with the errors of its field. -/
def positiveUsd (index : Nat) (field : String) (exact : Usd) (legacy : Int) : Except String Usd :=
  match durableUsd exact legacy with
  | .error err =>
    .error ("reservation " ++ toString index ++ " " ++ field ++ ": " ++ err)
  | .ok usd =>
    if usd.isZero then
      .error ("reservation " ++ toString index ++ " " ++ field ++ ": "
        ++ field ++ " must be positive")
    else .ok usd

/-- The `CeilNanoUSD` of an amount, with the errors of its field. -/
def amountNanoOf (index : Nat) (amount : Usd) : Except String Nat :=
  match ceilNanoUsd amount with
  | .error err =>
    .error ("reservation " ++ toString index ++ " amount materialization: " ++ err)
  | .ok nano => .ok nano

/-- The `FloorNanoUSD` of a limit, with the errors of its field. -/
def limitNanoOf (index : Nat) (limit : Usd) : Except String Nat :=
  match floorNanoUsd limit with
  | .error err =>
    .error ("reservation " ++ toString index ++ " limit materialization: " ++ err)
  | .ok nano =>
    if nano = 0 then
      .error ("reservation " ++ toString index
        ++ " limit materialization: limit rounds down to zero")
    else .ok nano

/-- The start of a reservation's bucket. -/
def WindowReservation.bucketStart (v : WindowReservation) : Int :=
  v.bucket * v.bucketNanos

/-- The checks of one reservation's identity and bounds. -/
def WindowReservation.checkBounds (v : WindowReservation) (index : Nat) : Except String Unit :=
  if v.policyId = "" ∨ v.windowId = "" ∨ 128 < v.policyId.utf8ByteSize
      ∨ 128 < v.windowId.utf8ByteSize then
    .error ("reservation " ++ toString index ++ " has unsafe policy/window identity")
  else if v.bucket < 0 ∨ v.bucketNanos ≤ 0
      ∨ v.durationNanos < v.bucketNanos then
    .error ("reservation " ++ toString index ++ " has invalid bucket bounds")
  else if (2 ^ 62 : Int).tdiv v.bucketNanos < v.bucket then
    .error ("reservation " ++ toString index ++ " bucket overflows timestamp")
  else .ok ()

/-- One turn of `canonicalDurableReservations`, but for the duplicate
checks: the reservation on the wire. -/
def canonicalReservation (expiresAt now : Int) (index : Nat) (v : WindowReservation) :
    Except String Reservation := do
  v.checkBounds index
  let amount ← positiveUsd index "amount" v.amountUsd v.amount
  let limit ← positiveUsd index "limit" v.limitUsd v.limit
  let amountNano ← amountNanoOf index amount
  let limitNano ← limitNanoOf index limit
  return {
    policyId := v.policyId
    windowId := v.windowId
    bucket := v.bucket.toNat
    amountNano := amountNano
    limitNano := limitNano
    bucketNanos := v.bucketNanos.toNat
    durationNanos := v.durationNanos.toNat
    bucketStartNanos := v.bucketStart
    -- the quote-time expiry is a floor, raised at acceptance
    windowExpiresMillis := unixMilli (v.bucketStart + v.durationNanos + v.bucketNanos)
    expiresMillis := unixMilli (if expiresAt = zeroTime then now + budgetStartLease else expiresAt)
    eventId := durableReservationEventId H operation generation v.policyId v.windowId v.bucketStart
    amountUsd := amount.units
    limitUsd := limit.units }

/-- The loop of `canonicalDurableReservations`: the source checks the
bucket key, without the policy, before the identity. -/
def canonicalLoop (operation generation : String) (expiresAt now : Int) :
    Nat → List WindowReservation → List String → List String → Except String (List Reservation)
  | _, [], _, _ => .ok []
  | index, v :: rest, seenWindowBucket, seen => do
      let r ← canonicalReservation H operation generation expiresAt now
        index v
      let bucketKey := v.windowId ++ "\x00" ++ toString v.bucketStart
      if bucketKey ∈ seenWindowBucket then
        throw ("reservation " ++ toString index ++ " duplicates window/bucket start")
      let identity := v.policyId ++ "\x00" ++ v.windowId ++ "\x00"
        ++ toString v.bucket
      if identity ∈ seen then
        throw ("reservation " ++ toString index ++ " duplicates policy/window/bucket")
      let tail ← canonicalLoop operation generation expiresAt now
        (index + 1) rest (bucketKey :: seenWindowBucket)
        (identity :: seen)
      return r :: tail

/-- The order of the wire: policy, window, bucket text. -/
def Reservation.before (r s : Reservation) : Bool :=
  if r.policyId ≠ s.policyId then r.policyId < s.policyId
  else if r.windowId ≠ s.windowId then r.windowId < s.windowId
  else toString r.bucket ≤ toString s.bucket

def canonicalDurableReservations (values : List WindowReservation) (expiresAt now : Int) :
    Except String (List Reservation) := do
  let result ← canonicalLoop H operation generation expiresAt now 0
    values [] []
  return result.insertionSort fun r s => r.before s

-- ===== calls

def durableTtlSeconds (expiresAt now : Int) (rs : List Reservation) :
    Int :=
  if expiresAt ≠ zeroTime then
    if expiresAt - now ≤ 0 then 0
    else (expiresAt - now + 10 ^ 9 - 1).tdiv (10 ^ 9)
  else
    rs.foldl (fun longest r =>
      max longest ((r.expiresMillis - unixMilli now + 999).tdiv 1000)) 1

def durableRequestFingerprint (request : ReserveRequest) (rs : List Reservation) : Fingerprint :=
  H.sha256 (H.marshalRequest
    { operationId := request.operationId
      generationId := request.generationId
      expiresAt := request.expiresAt
      reservations := rs.map fun r => { r with expiresMillis := 0 } })

/-- The three clock readings of `Accept`. -/
structure AcceptClock where
  (quoted ttl occurred : Int)
deriving DecidableEq, Repr

/-- The call `Accept` makes. -/
def acceptCall (m : Materializer) (clock : AcceptClock)
    (request : ReserveRequest) : Except String ReserveArgs := do
  validateIdentity request.operationId "operation id"
  if request.generationId ≠ m.generation then
    throw "Redis durable budget generation mismatch"
  if request.reservations = [] then
    throw "Redis durable budget reservation list must not be empty"
  let rs ← canonicalDurableReservations H request.operationId
    request.generationId request.reservations request.expiresAt
    clock.quoted
  let ttl := durableTtlSeconds request.expiresAt clock.ttl rs
  return {
    generationId := request.generationId
    incarnationId := m.incarnation
    operationId := request.operationId
    fingerprint := (durableRequestFingerprint H request rs).text
    ttl := if ttl ≤ 0 then 1 else ttl
    occurredAt := H.rfc3339Nano clock.occurred
    reservations := rs
    authority := m.authority }

/-- `ClaimRequest.Validate`, and the first checks of `Reconcile`. -/
def validateIds (incarnation : String) : Except String Unit := do
  validateIdentity operation "operation id"
  validateIdentity generation "generation id"
  validateIdentity incarnation "incarnation id"

/-- A request of another snapshot fails before Redis is called. -/
def Materializer.checkSnapshot (m : Materializer)
    (generation incarnation : String) : Except String Unit := do
  if generation ≠ m.generation then
    throw "Redis durable budget generation mismatch"
  if incarnation ≠ m.incarnation then
    throw "Redis durable budget incarnation mismatch"

/-- The call `Claim` makes. -/
def claimCall (m : Materializer) (request : ClaimRequest) : Except String ClaimArgs := do
  validateIds request.operationId request.generationId request.incarnationId
  m.checkSnapshot request.generationId request.incarnationId
  return {
    generationId := request.generationId
    incarnationId := request.incarnationId
    operationId := request.operationId
    authority := m.authority }

/-- The loop of `ReconcileRequest.Validate`. -/
def validateEvents (request : ReconcileRequest) :
    List CompletionEvent → List String → List String → Except String Unit
  | [], _, _ => .ok ()
  | e :: rest, seenIds, seenWindows => do
      let identity := e.windowId ++ "\x00" ++ H.rfc3339Nano e.bucketStart
      if e.eventId ∈ seenIds ∨ identity ∈ seenWindows then
        throw "duplicate completion event or window/bucket"
      match e.validate with
      | .error err => throw ("completion event: " ++ err)
      | .ok () => pure ()
      if e.operationId ≠ request.operationId
          ∨ e.generationId ≠ request.generationId then
        throw "completion event identity does not match request"
      validateEvents request rest (e.eventId :: seenIds) (identity :: seenWindows)

def ReconcileRequest.validate (request : ReconcileRequest) : Except String Unit := do
  validateIds request.operationId request.generationId request.incarnationId
  if request.events = [] then
    throw "Redis reconciliation requires at least one completion event"
  validateEvents H request request.events [] []

/-- A delta rounded up, with the errors of its field. -/
def deltaNano (field : String) (usd : Usd) : Except String Nat :=
  match ceilNanoUsd usd with
  | .error err => .error (field ++ " materialization: " ++ err)
  | .ok nano => .ok nano

/-- One event on the wire. -/
def wireEvent (e : CompletionEvent) : Except String Event := do
  let reservedDecrease ← deltaNano "reserved decrease"
    e.reservedDecreaseUsd
  let accountedIncrease ← deltaNano "accounted increase"
    e.accountedIncreaseUsd
  let accountedDecrease ← deltaNano "accounted decrease"
    e.accountedDecreaseUsd
  return {
    eventId := e.eventId
    windowId := e.windowId
    bucketStartNanos := e.bucketStart
    reservationRevision := e.reservationRevision
    kind := e.kind
    reservedDecreaseNano := reservedDecrease
    accountedIncreaseNano := accountedIncrease
    accountedDecreaseNano := accountedDecrease
    fingerprint := (H.sha256 (H.marshalEvent e)).text }

/-- The call `Reconcile` makes. -/
def reconcileCall (m : Materializer) (request : ReconcileRequest) :
    Except String ReconcileArgs := do
  request.validate H
  m.checkSnapshot request.generationId request.incarnationId
  let events ← request.events.mapM (wireEvent H)
  return {
    generationId := request.generationId
    incarnationId := request.incarnationId
    operationId := request.operationId
    events := events
    authority := m.authority }

end LlmTemporalWorker.Budget
