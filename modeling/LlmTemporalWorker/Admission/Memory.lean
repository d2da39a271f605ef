/-
The in-memory admission store (storage/memory/admission.go, with the
requests of admission/types.go and the outcomes of
admission/transition.go).

The store keeps operations by their identity and by their scope, and
counts micro-dollars per bucket of a budget window. It runs one call at
a time. Nothing rolls a call back: a call that returns an error leaves
the store as far as it got, so every function here returns the store
next to its answer.

# Layout

The bucket counts and the window geometries are a record of their own
(`Ledger`), since `checkReservations`, `addReservation` and `reconcile`
touch nothing else. The geometry of a window that was seen has a
positive width by its type; the source tells an unseen window by the
width zero.

Times are nanoseconds since the Unix epoch, of any age as `time.Time`
has them; where the source takes `UnixNano` of a time or subtracts from
it, the result is an `int64` and wraps (`firstBucket`). A call reads the
store's clock several times, so a clock is the sequence of its readings. The
poll-after times of pending operations and the functions that only read
are left out.
-/
import LlmTemporalWorker.Admission.Envelope
import LlmTemporalWorker.Budget.Window
import LlmTemporalWorker.Lib.Loop
import LlmTemporalWorker.Lib.Run

namespace LlmTemporalWorker.Admission.Memory

open Lib Budget Pricing

-- ===== errors

/-- The errors of admission/state.go, and all others by their text. -/
inductive StoreError where
  | operationNotFound
  | operationConflict
  | invalidToken
  | invalidTransition
  | stateUnavailable
  | other (text : String)
deriving DecidableEq, Repr

-- ===== ledger

/-- `bucketGeometry` of a window that was seen. -/
structure BucketGeometry where
  (bucketNanos durationNanos : Int)
  mixed : Bool
  positive : 0 < bucketNanos
deriving DecidableEq, Repr

/-- `buckets` and `geometry`. -/
structure Ledger where
  buckets : FMap WindowKey (FMap Int Int)
  geometry : FMap WindowKey BucketGeometry
deriving DecidableEq

def Ledger.empty : Ledger := ⟨∅, ∅⟩

/-- `budgetKey` of a reservation. -/
def budgetKey (r : WindowReservation) : WindowKey := ⟨r.policyId, r.windowId⟩

/-- The window a place belongs to. -/
def windowOf (p : Place) : WindowKey := ⟨p.policy, p.window⟩

/-- The entry of a bucket. -/
def Ledger.entry (ledger : Ledger) (p : Place) : Option Int :=
  (ledger.buckets.lookup (windowOf p)).bind (·.lookup p.bucket)

/-- The value of a bucket: nothing where there is no entry. -/
def Ledger.value (ledger : Ledger) (p : Place) : Int :=
  (ledger.entry p).getD 0

/-- `store.buckets[key][bucket] = value`. -/
def Ledger.setValue (ledger : Ledger) (p : Place) (value : Int) : Ledger :=
  { ledger with
    buckets := ledger.buckets.insert (windowOf p)
      (((ledger.buckets.lookup (windowOf p)).getD ∅).insert p.bucket value) }

def floorDiv (value divisor : Int) : Int :=
  let quotient := value.tdiv divisor
  let remainder := value.tmod divisor
  if remainder ≠ 0 ∧ (decide (remainder < 0) != decide (divisor < 0)) then
    quotient - 1
  else quotient

/-- What an `int64` makes of a number: it wraps. -/
def wrap64 (n : Int) : Int := n.bmod (2 ^ 64)

/-- The first bucket of a window of a length that ends at a time:
`floorDiv(at.UnixNano()-duration, bucket)`. -/
def firstBucket (at_ duration bucket : Int) : Int :=
  floorDiv (wrap64 (wrap64 at_ - duration)) bucket

/-- A denial of a reservation. -/
def denialOf (r : WindowReservation) (active : Int) : Denial :=
  ⟨r.policyId, r.windowId, r.limit, active, r.amount⟩

def Ledger.checkReservations (ledger : Ledger) (at_ : Int) : List WindowReservation → Option Denial
  | [] => none
  | r :: rest =>
    if r.limit ≤ 0 ∨ r.bucketNanos ≤ 0 ∨ r.durationNanos ≤ 0 then
      some (denialOf r 0)
    else
      let first := firstBucket at_ r.durationNanos r.bucketNanos
      let last := floorDiv (wrap64 at_) r.bucketNanos
      match addAllMicro 0 ((visited first last).map fun index =>
          ledger.value ⟨r.policyId, r.windowId, index⟩) with
      -- the total that fails is not kept
      | .error _ => some (denialOf r 0)
      | .ok active =>
        if r.limit < active ∨ r.limit - active < r.amount then
          some (denialOf r active)
        else ledger.checkReservations at_ rest

/-- The geometry that `addReservation` records. -/
def widened (known : Option BucketGeometry) (r : WindowReservation)
    (h : 0 < r.bucketNanos) : BucketGeometry :=
  match known with
  | none => ⟨r.bucketNanos, r.durationNanos, false, h⟩
  | some g =>
    ⟨g.bucketNanos, max g.durationNanos r.durationNanos,
      g.mixed || g.bucketNanos != r.bucketNanos, g.positive⟩

/-- The bookkeeping of `addReservation` before it counts. -/
def Ledger.opened (ledger : Ledger) (r : WindowReservation) : Ledger :=
  { geometry :=
      if h : 0 < r.bucketNanos ∧ 0 < r.durationNanos then
        ledger.geometry.insert (budgetKey r) (widened (ledger.geometry.lookup (budgetKey r)) r h.1)
      else ledger.geometry
    buckets :=
      if (ledger.buckets.lookup (budgetKey r)).isNone then
        ledger.buckets.insert (budgetKey r) ∅
      else ledger.buckets }

def Ledger.addReservation (amount : Int) (r : WindowReservation)
    (ledger : Ledger) : Ledger × Except StoreError Unit :=
  if amount < 0 ∨ !microValid amount then
    (ledger, .error (.other "invalid reservation amount"))
  else
    let ledger := ledger.opened r
    match addMicro (ledger.value (place r)) amount with
    | .error e => (ledger, .error (.other e))
    | .ok next => (ledger.setValue (place r) next, .ok ())

/-- The loop of `Begin` and `Continue` that charges the reservations. -/
def Ledger.addReservations (rs : List WindowReservation)
    (ledger : Ledger) : Ledger × Except StoreError Unit :=
  untilError (fun r => Ledger.addReservation r.amount r) rs ledger

/-- One turn of `reconcile`. -/
def Ledger.reconcileOne (actual : Int) (r : WindowReservation)
    (ledger : Ledger) : Ledger × Except StoreError Unit :=
  match ledger.addReservation 0 r with
  | (ledger, .error e) => (ledger, .error e)
  | (ledger, .ok ()) =>
    let current := ledger.value (place r)
    if current < r.amount then (ledger, .error .stateUnavailable)
    else
      let current := current - r.amount
      if 0 < actual then
        match addMicro current actual with
        | .error e => (ledger, .error (.other e))
        | .ok current => (ledger.setValue (place r) current, .ok ())
      else (ledger.setValue (place r) current, .ok ())

/-- `reconcile`; the scalar reservation is not read. -/
def Ledger.reconcile (rs : List WindowReservation) (actual : Int)
    (ledger : Ledger) : Ledger × Except StoreError Unit :=
  if actual < 0 ∨ !microValid actual then
    (ledger, .error (.other "invalid reconciliation cost"))
  else untilError (Ledger.reconcileOne actual) rs ledger

-- ===== operations

/-- `Operation` with the fields that only the memory store fills. -/
structure MemoryOperation extends Operation where
  (reservedCostUsd incurredCostUsd actualCostUsd : Option Usd)
  retryable : Bool
deriving DecidableEq, Repr

/-- The digest of 32 zero bytes. -/
def zeroDigest : Digest :=
  ⟨"0000000000000000000000000000000000000000000000000000000000000000",
    by decide, by decide⟩

/-- The zero value, which a map read gives for a missing key. -/
def MemoryOperation.zero : MemoryOperation :=
  { id := "", scopeKey := "", requestDigest := zeroDigest
    state := .other "", reservedMicroUsd := 0, incurredMicroUsd := 0
    finalMicroUsd := 0, reservations := [], configVersion := ""
    priceVersion := "", attempt := .empty, resultRef := none
    dispatchToken := "", leaseUntil := zeroTime, createdAt := zeroTime
    updatedAt := zeroTime, expiresAt := zeroTime, reservedCostUsd := none
    incurredCostUsd := none, actualCostUsd := none, retryable := false }

inductive BeginResult where
  | admitted (operation : MemoryOperation) (existing : Bool)
  | denied (denial : Denial)
deriving DecidableEq, Repr

structure ContinueResult where
  operation : MemoryOperation
  denied : Option Denial
deriving DecidableEq, Repr

structure DispatchRequest where
  (operationId dispatchToken : String)
  attempt : AttemptFacts
  leaseUntil : Int
deriving DecidableEq, Repr

/-- `ProviderPendingRequest`, without the poll-after time. -/
structure ProviderPendingRequest where
  (operationId dispatchToken providerOperationId endpointId provider : String)
deriving DecidableEq, Repr

/-- `AttemptOutcome`, the part this store reads. -/
structure AttemptOutcome where
  certainty : DispatchCertainty
  incurred : Int
  attempt : AttemptFacts
deriving DecidableEq, Repr

structure ContinueRequest where
  (operationId dispatchToken : String)
  outcome : AttemptOutcome
  remaining : Int
  remainingUsd : Usd
  reservations : List WindowReservation
  (leaseUntil expiresAt : Int)
deriving DecidableEq, Repr

/-- `CompleteRequest`, the part this store reads. -/
structure CompleteRequest where
  (operationId dispatchToken : String)
  actual : Int
  actualCostUsd : Usd
  resultRef : Option BlobRef
  attempt : AttemptFacts
deriving DecidableEq, Repr

/-- `FailRequest`, the part this store reads. -/
structure FailRequest where
  (operationId dispatchToken : String)
  certainty : DispatchCertainty
  incurred : Int
  incurredCostUsd : Usd
  attempt : AttemptFacts
  retryable : Bool
deriving DecidableEq, Repr

/-- `ValidateOutcome`; `quoted` is the layout of a string under `%q`. -/
def validateOutcome (quoted : DispatchCertainty → String)
    (certainty : DispatchCertainty) (incurred : Int) :
    Except StoreError Unit :=
  if certainty ≠ .notDispatched ∧ certainty ≠ .rejected
      ∧ certainty ≠ .accepted ∧ certainty ≠ .ambiguous then
    .error (.other ("invalid dispatch certainty " ++ quoted certainty))
  else if incurred < 0 ∨ !microValid incurred then
    .error (.other "invalid incurred cost")
  else .ok ()

/-- An exact cost is recorded when there is one, or nothing to record
it for. -/
def exactCost (usd : Usd) (micro : Int) (otherwise : Option Usd) : Option Usd :=
  if !usd.isZero || micro == 0 then some usd else otherwise

/-- `+ 1` on an `int`. -/
def goSucc (n : Int) : Int := wrap64 (n + 1)

-- ===== store

structure AdmissionStore where
  operations : FMap String MemoryOperation
  providerIds : FMap String String
  reopens : FMap String Nat
  byScope : FMap String String
  ledger : Ledger
deriving DecidableEq

/-- `NewAdmissionStore`. -/
def AdmissionStore.new : AdmissionStore := ⟨∅, ∅, ∅, ∅, .empty⟩

variable (store : AdmissionStore) (clock : Nat → Int) (request : BeginRequest)

/-- `store.operations[operation.ID] = operation`. -/
def AdmissionStore.put (operation : MemoryOperation) : AdmissionStore :=
  { store with
    operations := store.operations.insert operation.id operation }

def AdmissionStore.loadToken (id token : String) : Except StoreError MemoryOperation :=
  match store.operations.lookup id with
  | none => .error .operationNotFound
  | some operation =>
    if operation.dispatchToken ≠ token then .error .invalidToken
    else .ok operation

/-- A call on the operation that a token holds. -/
def AdmissionStore.withToken {α : Type} (id token : String)
    (body : MemoryOperation → AdmissionStore × Except StoreError α) :
    AdmissionStore × Except StoreError α :=
  match store.loadToken id token with
  | .error e => (store, .error e)
  | .ok operation => body operation

-- ===== sweep

/-- An operation that the sweep removes. -/
def MemoryOperation.expired (now : Int) (operation : MemoryOperation) :
    Bool :=
  !(!operation.state.terminal || operation.expiresAt == zeroTime
    || decide (now < operation.expiresAt))

/-- The operation of an identity is one that the sweep removes. -/
def AdmissionStore.expires (now : Int) (id : String) : Bool :=
  (store.operations.lookup id).any (·.expired now)

/-- The places that some operation's reservations name. -/
def referenced (operations : FMap String MemoryOperation) : List Place :=
  operations.entries.flatMap fun e => e.2.reservations.map place

/-- The bucket loop of `sweepLocked`. -/
def Ledger.swept (ledger : Ledger) (now : Int) (inUse : List Place) :
    Ledger :=
  let left (key : WindowKey) (buckets : FMap Int Int) :
      Option (FMap Int Int) :=
    match ledger.geometry.lookup key with
    | none => some buckets
    | some g =>
      if g.mixed then some buckets
      else
        let first := firstBucket now g.durationNanos g.bucketNanos
        let kept := buckets.filterMap fun index value =>
          if first ≤ index ∨ ⟨key.policy, key.window, index⟩ ∈ inUse then
            some value
          else none
        if kept.entries.length = 0 then none else some kept
  { buckets := ledger.buckets.filterMap left
    -- a window's geometry goes with its last bucket
    geometry := ledger.geometry.filterMap fun key g =>
      match ledger.buckets.lookup key with
      | none => some g
      | some buckets => (left key buckets).map fun _ => g }

/-- What `sweepLocked` leaves. -/
def AdmissionStore.swept (now : Int) :
    AdmissionStore :=
  let operations := store.operations.filterMap fun _ operation =>
    if operation.expired now then none else some operation
  { operations := operations
    providerIds := store.providerIds.filterMap fun id provider =>
      if store.expires now id then none else some provider
    reopens := store.reopens.filterMap fun id count =>
      if store.expires now id then none else some count
    byScope := store.byScope.filterMap fun scope id =>
      if (store.operations.lookup id).any fun operation =>
          operation.expired now && operation.scopeKey == scope then none
      else some id
    ledger := store.ledger.swept now (referenced operations) }

/-- `sweepLocked`: the store, and how many operations were removed. -/
def AdmissionStore.sweepLocked (now : Int) : AdmissionStore × Nat :=
  (store.swept now, store.operations.entries.countP fun e => e.2.expired now)

-- ===== begin

/-- The checks of `Begin` before it takes the lock. -/
def checkBegin (request : BeginRequest) : Except StoreError Unit :=
  if request.id = "" ∨ request.scopeKey = "" ∨ request.reservation < 0
      ∨ !microValid request.reservation then
    .error (.other "invalid admission begin request")
  else match validateExactUsdReservationEnvelope request.reservations
      request.reservation request.reservationUsd with
  | .error e =>
    .error (.other ("invalid admission begin request: " ++ e))
  | .ok () => .ok ()

/-- The operation that `Begin` stores; one that is reopened keeps its
creation time and gets a token of its own. An identity is not empty
here, so the token is never made from the scope key. -/
def newOperation (request : BeginRequest) (now : Int)
    (reopened : Option (MemoryOperation × Nat)) : MemoryOperation :=
  { id := request.id, scopeKey := request.scopeKey
    requestDigest := request.requestDigest, state := .reserved
    reservedMicroUsd := request.reservation, incurredMicroUsd := 0
    finalMicroUsd := 0, reservations := request.reservations
    configVersion := request.configVersion
    priceVersion := request.priceVersion, attempt := .empty
    resultRef := none
    dispatchToken := match reopened with
      | none => request.id
      | some (_, count) => request.id ++ "-reopen-" ++ toString count
    leaseUntil := request.leaseUntil
    createdAt := match reopened with
      | none => now
      | some (operation, _) => operation.createdAt
    updatedAt := now, expiresAt := request.expiresAt
    reservedCostUsd := exactCost request.reservationUsd request.reservation none
    incurredCostUsd := none, actualCostUsd := none, retryable := false }

/-- How often an identity was reserved again. -/
def countReopen (reopens : FMap String Nat) (id : String)
    (reopened : Option MemoryOperation) : FMap String Nat :=
  match reopened with
  | none => reopens
  | some _ => reopens.insert id (reopens.getD id 0 + 1)

/-- `Begin`, from the admission check on. -/
def AdmissionStore.reserve (reopened : Option MemoryOperation) :
    AdmissionStore × Except StoreError BeginResult :=
  match store.ledger.checkReservations (clock 1) request.reservations with
  | some denial => (store, .ok (.denied denial))
  | none =>
    match store.ledger.addReservations request.reservations with
    | (ledger, .error e) => ({ store with ledger := ledger }, .error e)
    | (ledger, .ok ()) =>
      let count := store.reopens.getD request.id 0 + 1
      let operation := newOperation request (clock 2)
        (reopened.map (·, count))
      let store := { store with
        ledger := ledger
        reopens := countReopen store.reopens request.id reopened
        byScope := store.byScope.insert request.scopeKey request.id }
      (store.put operation, .ok (.admitted operation false))

/-- `Begin`, once the store is swept. -/
def AdmissionStore.beginSwept : AdmissionStore × Except StoreError BeginResult :=
  match store.byScope.lookup request.scopeKey with
  | none => store.reserve clock request none
  | some id =>
    let operation := store.operations.getD id .zero
    if operation.requestDigest ≠ request.requestDigest then
      (store, .error .operationConflict)
    else if operation.state ≠ .definiteFailed ∨ !operation.retryable
        ∨ operation.id ≠ request.id then
      (store, .ok (.admitted operation true))
    else store.reserve clock request (some operation)

def AdmissionStore.begin : AdmissionStore × Except StoreError BeginResult :=
  match checkBegin request with
  | .error e => (store, .error e)
  | .ok () => (store.swept (clock 0)).beginSwept clock request

-- ===== transitions

/-- The operation that `MarkDispatching` stores. -/
def dispatched (operation : MemoryOperation) (request : DispatchRequest)
    (now : Int) : MemoryOperation :=
  { operation with
    state := .dispatching
    attempt := { request.attempt with
      attemptNumber := goSucc request.attempt.attemptNumber }
    leaseUntil := request.leaseUntil
    updatedAt := now }

def AdmissionStore.markDispatching (request : DispatchRequest) :
    AdmissionStore × Except StoreError Unit :=
  store.withToken request.operationId request.dispatchToken fun operation =>
      if operation.state ≠ .reserved then
        if operation.state.terminal then (store, .ok ())
        else (store, .error .invalidTransition)
      else (store.put (dispatched operation request (clock 0)), .ok ())

/-- The operation that `MarkProviderPending` stores. -/
def pending (operation : MemoryOperation)
    (request : ProviderPendingRequest) (now : Int) : MemoryOperation :=
  { operation with
    state := .providerPending
    attempt := { operation.attempt with
      endpointId := request.endpointId
      provider := request.provider
      dispatch := .accepted }
    updatedAt := now }

def AdmissionStore.markProviderPending (request : ProviderPendingRequest) :
    AdmissionStore × Except StoreError Unit :=
  if request.providerOperationId = "" ∨ request.endpointId = "" then
    (store, .error (.other "provider operation id and endpoint are required"))
  else store.withToken request.operationId request.dispatchToken fun operation =>
      if operation.state = .providerPending then
        if store.providerIds.getD operation.id ""
            = request.providerOperationId then (store, .ok ())
        else (store, .error .operationConflict)
      else if operation.state ≠ .dispatching then
        (store, .error .invalidTransition)
      else
        ({ store with
            providerIds := store.providerIds.insert operation.id request.providerOperationId }.put
          (pending operation request (clock 0)), .ok ())

/-- Replaces an operation's reservations by a cost, and stores what
becomes of it. -/
def AdmissionStore.settle (operation next : MemoryOperation) (actual : Int) :
    AdmissionStore × Except StoreError Unit :=
  match store.ledger.reconcile operation.reservations actual with
  | (ledger, .error e) => ({ store with ledger := ledger }, .error e)
  | (ledger, .ok ()) => ({ store with ledger := ledger }.put next, .ok ())

/-- The operation that `Complete` stores. -/
def completed (operation : MemoryOperation) (request : CompleteRequest)
    (now : Int) : MemoryOperation :=
  { operation with
    state := .completed
    incurredMicroUsd := request.actual
    finalMicroUsd := request.actual
    actualCostUsd := exactCost request.actualCostUsd request.actual operation.actualCostUsd
    incurredCostUsd := exactCost request.actualCostUsd request.actual operation.incurredCostUsd
    reservedMicroUsd := 0
    resultRef := request.resultRef
    attempt := { request.attempt with dispatch := .accepted }
    updatedAt := now }

def AdmissionStore.complete (request : CompleteRequest) : AdmissionStore × Except StoreError Unit :=
  store.withToken request.operationId request.dispatchToken fun operation =>
      if operation.state = .completed then (store, .ok ())
      else if operation.state ≠ .dispatching
          ∧ operation.state ≠ .providerPending then
        (store, .error .invalidTransition)
      else if request.actual < 0 ∨ !microValid request.actual then
        (store, .error (.other "invalid actual cost"))
      else store.settle operation (completed operation request (clock 0)) request.actual

/-- The operation that `Fail` stores when the provider may have
charged. -/
def failedAmbiguous (operation : MemoryOperation) (request : FailRequest)
    (now : Int) : MemoryOperation :=
  { operation with
    state := .ambiguous
    incurredMicroUsd := request.incurred
    finalMicroUsd := operation.reservedMicroUsd
    incurredCostUsd := exactCost request.incurredCostUsd request.incurred operation.incurredCostUsd
    attempt := { request.attempt with dispatch := request.certainty }
    updatedAt := now }

/-- The operation that `Fail` stores otherwise. -/
def failedDefinite (operation : MemoryOperation) (request : FailRequest)
    (now : Int) : MemoryOperation :=
  { operation with
    state := .definiteFailed
    incurredMicroUsd := request.incurred
    finalMicroUsd := request.incurred
    incurredCostUsd := exactCost request.incurredCostUsd request.incurred operation.incurredCostUsd
    actualCostUsd := exactCost request.incurredCostUsd request.incurred operation.actualCostUsd
    reservedMicroUsd := 0
    retryable := request.retryable && request.incurred == 0
    attempt := { request.attempt with dispatch := request.certainty }
    updatedAt := now }

/-- `retain` in `Fail`. -/
def retains (certainty : DispatchCertainty) : Bool :=
  certainty == .accepted || certainty == .ambiguous

def AdmissionStore.fail (quoted : DispatchCertainty → String)
    (store : AdmissionStore) (clock : Nat → Int) (request : FailRequest) :
    AdmissionStore × Except StoreError Unit :=
  store.withToken request.operationId request.dispatchToken fun operation =>
      if operation.state.terminal then (store, .ok ())
      else match validateOutcome quoted request.certainty
          request.incurred with
      | .error e => (store, .error e)
      | .ok () =>
        if retains request.certainty then
          (store.put (failedAmbiguous operation request (clock 0)), .ok ())
        else store.settle operation (failedDefinite operation request (clock 0)) request.incurred

-- ===== continue

/-- The operation that `Continue` stores when it is denied. -/
def deniedOperation (operation : MemoryOperation)
    (request : ContinueRequest) (now : Int) : MemoryOperation :=
  { operation with
    state := .definiteFailed
    incurredMicroUsd := request.outcome.incurred
    finalMicroUsd := request.outcome.incurred
    reservedMicroUsd := 0
    updatedAt := now }

/-- The operation that `Continue` stores otherwise. -/
def continuedOperation (operation : MemoryOperation)
    (request : ContinueRequest) (now : Int) : MemoryOperation :=
  { operation with
    state := .reserved
    reservations := request.reservations
    reservedMicroUsd := request.remaining
    reservedCostUsd := exactCost request.remainingUsd request.remaining operation.reservedCostUsd
    attempt := { request.outcome.attempt with dispatch := .notDispatched }
    dispatchToken := operation.dispatchToken ++ "-"
      ++ toString (goSucc request.outcome.attempt.attemptNumber)
    leaseUntil := request.leaseUntil
    expiresAt := request.expiresAt
    updatedAt := now }

/-- `Continue`, once the old reservation is released. -/
def AdmissionStore.continueReleased (request : ContinueRequest) (operation : MemoryOperation) :
    AdmissionStore × Except StoreError ContinueResult :=
  match store.ledger.checkReservations (clock 0) request.reservations with
  | some denial =>
    let operation := deniedOperation operation request (clock 1)
    (store.put operation, .ok ⟨operation, some denial⟩)
  | none =>
    match store.ledger.addReservations request.reservations with
    | (ledger, .error e) => ({ store with ledger := ledger }, .error e)
    | (ledger, .ok ()) =>
      let operation := continuedOperation operation request (clock 1)
      ({ store with ledger := ledger }.put operation, .ok ⟨operation, none⟩)

def AdmissionStore.continue (store : AdmissionStore)
    (clock : Nat → Int) (request : ContinueRequest) :
    AdmissionStore × Except StoreError ContinueResult :=
  match validateExactUsdReservationEnvelope request.reservations
      request.remaining request.remainingUsd with
  | .error e =>
    (store, .error (.other ("invalid continuation admission request: " ++ e)))
  | .ok () =>
    store.withToken request.operationId request.dispatchToken fun operation =>
        if operation.state ≠ .dispatching then
          (store, .error .invalidTransition)
        else if retains request.outcome.certainty then
          (store, .error (.other "cannot continue an accepted or ambiguous attempt"))
        else match store.ledger.reconcile operation.reservations
            request.outcome.incurred with
        | (ledger, .error e) =>
          ({ store with ledger := ledger }, .error e)
        | (ledger, .ok ()) =>
          { store with ledger := ledger }.continueReleased clock request operation

-- ===== runs

/-- What the store is asked. -/
inductive Action where
  | begin (request : BeginRequest)
  | markDispatching (request : DispatchRequest)
  | markProviderPending (request : ProviderPendingRequest)
  | continue (request : ContinueRequest)
  | complete (request : CompleteRequest)
  | fail (request : FailRequest)
  | sweep (now : Int)
deriving DecidableEq, Repr

/-- What it answers. -/
inductive Answer where
  | began (result : BeginResult)
  | continued (result : ContinueResult)
  | done
  | removed (count : Nat)
deriving DecidableEq, Repr

/-- A call: what its context reports, the clock's readings while it runs
and the layout of a certainty in an error. -/
structure Call where
  ctxErr : Option String
  clock : Nat → Int
  quoted : DispatchCertainty → String
  action : Action

/-- An action whose context has not ended. -/
def Action.run (action : Action) (quoted : DispatchCertainty → String)
    (clock : Nat → Int) (store : AdmissionStore) :
    AdmissionStore × Except StoreError Answer :=
  match action with
  | .begin r => Prod.map id (Except.map .began) (store.begin clock r)
  | .markDispatching r =>
    Prod.map id (Except.map fun _ => .done) (store.markDispatching clock r)
  | .markProviderPending r =>
    Prod.map id (Except.map fun _ => .done) (store.markProviderPending clock r)
  | .continue r =>
    Prod.map id (Except.map .continued) (store.continue clock r)
  | .complete r =>
    Prod.map id (Except.map fun _ => .done) (store.complete clock r)
  | .fail r =>
    Prod.map id (Except.map fun _ => .done) (store.fail quoted clock r)
  | .sweep now => Prod.map id (.ok ∘ .removed) (store.sweepLocked now)

/-- One call; a sweep takes no context. -/
def Call.run (call : Call) (store : AdmissionStore) : AdmissionStore × Except StoreError Answer :=
  match call.ctxErr, call.action with
  | _, .sweep now => (Action.sweep now).run call.quoted call.clock store
  | some e, _ => (store, .error (.other e))
  | none, action => action.run call.quoted call.clock store

/-- The store after a run of calls on a new one. -/
def storeAfter (calls : List Call) : AdmissionStore :=
  runAll Call.run .new calls

end LlmTemporalWorker.Admission.Memory
