/-
The worker's side of recovery (storage/redis/budget_recovery.go): how a
saved operation is turned back into the record Redis held, and how the
floor ledger is turned into raised buckets.

`recoveredRecord` rebuilds the record; its errors are texts, as in
`Materializer`. `applyRecoveryFloors` reads the floor ledger with
`HSCAN` and raises every bucket to the sum of its fields. What the scan
returns is a parameter: Redis promises every field that is there for
the whole scan, and may return a field more than once.
-/
import LlmTemporalWorker.Budget.Materializer
import LlmTemporalWorker.Budget.Recovery

namespace LlmTemporalWorker.Budget

open Lib Pricing

-- ===== accepted results

structure ReservationEvent where
  (eventId generationId operationId windowId : String)
  (bucketStart reservationRevision : Int)
  amountUsd : Usd
  occurredAt : Int
deriving DecidableEq, Repr

def ReservationEvent.validate (e : ReservationEvent) : Except String Unit := do
  validateIdentity e.eventId "event_id"
  validateIdentity e.generationId "generation_id"
  validateIdentity e.operationId "operation_id"
  validateIdentity e.windowId "window_id"
  if e.bucketStart = zeroTime ∨ e.occurredAt = zeroTime then
    throw "budget reservation timestamps are required"
  if e.reservationRevision < 0 then
    throw "reservation revision must be non-negative"
  if e.amountUsd.isZero then
    throw "reservation amount must be positive"

/-- `durable.ReserveResult`, as far as recovery reads it. -/
structure ReserveResult where
  operationId : String
  accepted : Bool
  (generationId incarnationId : String)
  events : List ReservationEvent
  windowExpiries : FMap String Int
deriving DecidableEq

/-- The events of a result belong to its request. -/
def ReserveResult.checkEvents (request : ReserveRequest) :
    List ReservationEvent → Except String Unit
  | [] => .ok ()
  | e :: rest => do
      match e.validate with
      | .error err => throw ("reservation event: " ++ err)
      | .ok () => pure ()
      if e.operationId ≠ request.operationId
          ∨ e.generationId ≠ request.generationId then
        throw "reservation event identity does not match request"
      checkEvents request rest

def ReserveResult.validate (result : ReserveResult)
    (request : ReserveRequest) : Except String Unit := do
  validateIdentity request.operationId "operation id"
  validateIdentity result.operationId "operation id"
  if result.operationId ≠ request.operationId then
    throw "operation id changed during Redis acceptance"
  validateIdentity request.generationId "generation id"
  validateIdentity result.generationId "generation id"
  if result.generationId ≠ request.generationId then
    throw "generation id changed during Redis acceptance"
  if result.accepted then
    validateIdentity result.incarnationId "incarnation id"
    if result.events.isEmpty then
      throw "Redis accepted a reservation without reservation events"
  else if !result.events.isEmpty then
    throw "denied reservation must not produce reservation events"
  if result.windowExpiries.entries.any fun e =>
      !(result.events.any (·.eventId == e.1)) || e.2 == zeroTime then
    throw "reservation window expiry does not match a reservation event"
  checkEvents request result.events

-- ===== saved records

structure BudgetRecoveryOperation where
  request : ReserveRequest
  reservation : ReserveResult
  claimed : Bool
  (startedAt startBy : Int)
  settlement : Option ReconcileRequest
deriving DecidableEq

/-- What a saved operation satisfies (storage/cloudstate,
`ProviderExecution.Validate`, and `budgetRecoveryOperation`): `Accept`
returned its reservation events, at revision one, and a settlement needs
a claim and continues those events one by one. -/
structure Saved (op : BudgetRecoveryOperation) : Prop where
  accepted : ∀ e ∈ op.reservation.events, e.reservationRevision = 1
  settled : ∀ s, op.settlement = some s → op.claimed = true ∧ List.Forall₂ (fun reserved event =>
      event.windowId = reserved.windowId ∧ event.bucketStart = reserved.bucketStart
        ∧ event.reservationRevision = reserved.reservationRevision + 1
        ∧ event.reservedDecreaseUsd = reserved.amountUsd)
      op.reservation.events s.events

/-- An error that wraps `ErrBudgetRecoveryConflict`. -/
def recoveryConflict (text : String) : String :=
  "Redis budget recovery found a conflicting operation record: " ++ text

def budgetRecoveryClockSkew : Int := 5 * 60 * 10 ^ 9

/-- `recoveredWindowExpiry`. `maxRecoveryInteger` is `MAX_SAFE`. -/
def recoveredWindowExpiry (value : Reservation) (recorded startedAt : Int) : Except String Int :=
  let invalid := recoveryConflict "reservation window expiry is out of range"
  let floor := value.windowExpiresMillis
  if floor ≤ 0 ∨ (maxSafe : Int) < floor then .error invalid
  else if recorded ≠ zeroTime then
    if (maxSafe : Int) < unixMilli recorded then .error invalid
    else .ok (max floor (unixMilli recorded))
  else if value.bucketNanos < 10 ^ 6
      ∨ value.durationNanos < value.bucketNanos then .error invalid
  else
    let bucketMillis : Int := value.bucketNanos / 10 ^ 6
    let durationMillis : Int := value.durationNanos / 10 ^ 6
    let accepted := unixMilli (startedAt + budgetRecoveryClockSkew)
    if accepted < 0 ∨ (maxSafe : Int) < accepted
        ∨ (maxSafe : Int) < durationMillis then .error invalid
    else
      let bucketEnd := (accepted / bucketMillis + 1) * bucketMillis
      if maxSafe - durationMillis < bucketEnd then .error invalid
      else .ok (max floor (bucketEnd + durationMillis))

/-- The status a saved event leaves. -/
def recoveredStatus (kind : JournalKind) : ReservationStatus :=
  if kind = .finalizeUnknown ∨ kind = .retainAmbiguous then .ambiguous
  else .finalized

/-- The key of the map `settled`. -/
def settledKey (windowId : String) (bucketStart : Int) : String :=
  windowId ++ "\x00" ++ toString bucketStart

/-- A canonical reservation advanced by its saved event, if the
operation has a settlement. -/
def recoveredReservation (op : BudgetRecoveryOperation)
    (settled : FMap String CompletionEvent) (value : Reservation) :
    Except String HeldReservation :=
  let held : HeldReservation :=
    { value with
      reservedNano := value.amountNano
      accountedNano := 0
      reservationRevision := 1
      status := .reserved }
  match settled.lookup (settledKey value.windowId value.bucketStartNanos)
    with
  | some event =>
    if !op.claimed ∧ event.kind ≠ .release then
      .error (recoveryConflict "unclaimed settlement")
    else
      match ceilNanoUsd event.accountedIncreaseUsd with
      | .error err => .error err
      | .ok accounted =>
        .ok
          { held with
            reservedNano :=
              if event.kind = .retainAmbiguous then value.amountNano
              else 0
            accountedNano := accounted
            reservationRevision := event.reservationRevision.toNat
            status := recoveredStatus event.kind }
  | none =>
    if op.settlement.isSome then
      .error (recoveryConflict "settlement does not cover every reservation")
    else .ok held

/-- The loop of `recoveredRecord`, with the earliest occurrence. -/
def recoveredLoop (op : BudgetRecoveryOperation) (events : FMap String ReservationEvent)
    (settled : FMap String CompletionEvent) :
    List Reservation → Int → Except String (List HeldReservation × Int)
  | [], occurredAt => .ok ([], occurredAt)
  | value :: rest, occurredAt => do
      match events.lookup value.eventId with
      | none => throw (recoveryConflict "reservation event is missing")
      | some reserved =>
        let occurredAt :=
          if occurredAt = zeroTime ∨ reserved.occurredAt < occurredAt
          then reserved.occurredAt else occurredAt
        let expiry ← recoveredWindowExpiry value
          ((op.reservation.windowExpiries.lookup value.eventId).getD zeroTime) op.startedAt
        let x ← recoveredReservation op settled
          { value with
            windowExpiresMillis := expiry
            expiresMillis := unixMilli op.startBy }
        let (tail, occurredAt) ← recoveredLoop op events settled rest
          occurredAt
        return (x :: tail, occurredAt)

variable (H : Host)

/-- The settlement of a saved operation belongs to its reservation. -/
def BudgetRecoveryOperation.checkSettlement (op : BudgetRecoveryOperation) : Except String Unit :=
  match op.settlement with
  | none => .ok ()
  | some s =>
    if s.operationId ≠ op.request.operationId
        ∨ s.generationId ≠ op.request.generationId
        ∨ s.incarnationId ≠ op.reservation.incarnationId
        ∨ (s.validate H).toOption.isNone then
      .error (recoveryConflict "settlement does not match its reservation")
    else .ok ()

/-- The settlement's events, none without one. -/
def BudgetRecoveryOperation.settlementEvents
    (op : BudgetRecoveryOperation) : List CompletionEvent :=
  match op.settlement with
  | none => []
  | some s => s.events

def recoveredRecord (op : BudgetRecoveryOperation) : Except String RecoveredOperation := do
  if (op.reservation.validate op.request).toOption.isNone
      ∨ !op.reservation.accepted ∨ op.startedAt = zeroTime
      ∨ op.startBy = zeroTime then
    throw (recoveryConflict "invalid durable recovery record")
  let rs ← canonicalDurableReservations H op.request.operationId
    op.request.generationId op.request.reservations op.request.expiresAt
    op.startedAt
  op.checkSettlement H
  let settled := op.settlementEvents.foldl (fun acc e =>
    acc.insert (settledKey e.windowId e.bucketStart) e) ∅
  let (xs, occurredAt) ← recoveredLoop op
    (op.reservation.events.foldl (fun acc e => acc.insert e.eventId e) ∅)
    settled rs zeroTime
  return {
    operationId := op.request.operationId
    generationId := op.request.generationId
    incarnationId := op.reservation.incarnationId
    fingerprint := (durableRequestFingerprint H op.request rs).text
    occurredAt := H.rfc3339Nano occurredAt
    startByMillis := unixMilli op.startBy
    claimed := op.claimed
    reservations := xs
    events := op.settlementEvents.foldl (fun acc e =>
      acc.insert e.eventId (H.sha256 (H.marshalEvent e)).text) ∅ }

-- ===== merging

/-- The merges of a pass, one `RecoverOperation` after the other. The
first one that is not answered `restored` or `unchanged` stops it. -/
def mergeAll (marker token : String) :
    List (RedisTime × RecoveredOperation) → Recovery → Recovery × Bool
  | [], S => (S, true)
  | (t, d) :: rest, S =>
    match durableRecoverOperation t marker token d S with
    | (S', reply) =>
      if reply.merges then mergeAll marker token rest S'
      else (S', false)

-- ===== floors

/-- What one bucket must hold and the largest of its limits, by window
and bucket. -/
abbrev FloorTotals := FMap (WindowKey × Nat) (Nat × Nat)

/-- One entry of the scan. -/
def addFloor (totals : FloorTotals) (f : Floor) : Except String FloorTotals :=
  if 2 ^ 63 ≤ f.bucket ∨ f.total = 0 ∨ f.limit = 0 then
    .error (recoveryConflict "malformed recovery floor")
  else
    let current := (totals.lookup (f.key, f.bucket)).getD (0, 0)
    if maxSafe - f.total < current.1 then
      .error (recoveryConflict "recovery floor overflows")
    else
      .ok (totals.insert (f.key, f.bucket) (current.1 + f.total, max current.2 f.limit))

/-- The scan's entries, added up. -/
def floorTotals (scan : List (FloorField × Floor)) : Except String FloorTotals :=
  scan.foldlM (fun totals e => addFloor totals e.2) ∅

/-- One call's worth of floors. -/
abbrev FloorChunk := WindowKey × List RecoveryFloor

/-- The floors of a chunk, by window and bucket. -/
def FloorChunk.fields (c : FloorChunk) : List ((WindowKey × Nat) × Nat × Nat) :=
  c.2.map fun f => ((c.1, f.bucket), f.floorNano, f.limitNano)

/-- The order in which Go ranges over the two maps, cut into calls of at
most 4096 floors each. -/
structure FloorOrder where
  chunks : FloorTotals → List FloorChunk
  bounded : ∀ totals, ∀ c ∈ chunks totals, c.2 ≠ [] ∧ c.2.length ≤ 4096
  complete : ∀ totals, ((chunks totals).flatMap FloorChunk.fields).Perm
    (totals.entries.map fun e => (e.1, e.2))

/-- The `durable_recover_floor` calls of a pass. -/
def raiseAll (marker token : String) : List FloorChunk → Recovery → Recovery × Bool
  | [], S => (S, true)
  | (w, floors) :: rest, S =>
    match durableRecoverFloor marker token w floors S with
    | (S', .raised _) => raiseAll marker token rest S'
    | (S', _) => (S', false)

/-- `ApplyRecoveryFloors`, given what the scan returned. -/
def applyRecoveryFloors (marker token : String)
    (scan : List (FloorField × Floor)) (order : FloorOrder)
    (S : Recovery) : Recovery × Bool :=
  match floorTotals scan with
  | .error _ => (S, false)
  | .ok totals => raiseAll marker token (order.chunks totals) S

/-- What Redis promises of a scan that nothing is written beside: every
field that is there is returned, and nothing else. A field may be
returned more than once. -/
structure Scanned (floors : FMap FloorField Floor)
    (scan : List (FloorField × Floor)) : Prop where
  complete : ∀ {k f}, floors.lookup k = some f → (k, f) ∈ scan
  sound : ∀ {k f}, (k, f) ∈ scan → floors.lookup k = some f

-- ===== a pass

/-- One full recovery: what it merges in which order and when, what its
scan returned, and in which order it raised the buckets. -/
structure Pass where
  token : String
  force : Bool
  merges : List (RedisTime × RecoveredOperation)
  scan : List (FloorField × Floor)
  order : FloorOrder

/-- A pass up to its floors. -/
def Pass.merged (marker : String) (p : Pass) (S : Recovery) : Recovery × Bool :=
  mergeAll marker p.token p.merges (recoverBegin marker p.force S).1

/-- A pass up to its commit. -/
def Pass.floored (marker : String) (p : Pass) (S : Recovery) : Recovery × Bool :=
  applyRecoveryFloors marker p.token p.scan p.order (p.merged marker S).1

/-- A whole pass. -/
def Pass.run (marker : String) (p : Pass) (S : Recovery) : Recovery :=
  (recoverCommit marker true (p.floored marker S).1).1

/-- The pass went through: recovery was needed, and no merge and no
floor stopped it. -/
structure Pass.Completes (marker : String) (p : Pass) (S : Recovery) :
    Prop where
  begins : (recoverBegin marker p.force S).2 = .recovering
  merges : (p.merged marker S).2 = true
  scanned : Scanned (p.merged marker S).1.floors p.scan
  floors : (p.floored marker S).2 = true

end LlmTemporalWorker.Budget
