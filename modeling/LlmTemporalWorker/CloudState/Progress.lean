/-
What the records of requests carry.

A request's record carries its progress: the budget plan and the
provider execution of an attempt, and the two instructions that finish a
request. The store keeps progress as a document; here it is the
structure that the document encodes.

The parts of a plan or a response that nothing here reads are one field
each: `sound` says that they pass their checks, `content` stands for
them.
-/
import LlmTemporalWorker.CloudState.Repository
import LlmTemporalWorker.Budget.Recoverer

namespace LlmTemporalWorker.CloudState

open Pricing (Usd)
open Budget (ReserveRequest ReserveResult ReconcileRequest WindowReservation ReservationEvent)

-- ===== budget plans

/-- An instant of the budget store, which counts from the year 1970. -/
def unixNano (t : Int) : Int := t + Budget.zeroTime

inductive BudgetMode
  | reserved
  | free
  | unmatched
  deriving DecidableEq, Repr

structure BudgetPlan where
  mode : BudgetMode
  kind : String
  /-- The operation and the generation of the route. -/
  (operationId generationId : String)
  /-- The candidate of the estimate and its cost. -/
  candidateId : String
  costUsd : Usd
  microUsd : Int
  reservation : ReserveRequest
  quotedAt : Int
  sound : Bool
  deriving DecidableEq, Repr

namespace BudgetPlan

def requiresReservation (plan : BudgetPlan) : Bool :=
  plan.mode == .reserved

def budgetPlanTime (t : Int) : Bool :=
  decide (0 ≤ t) && decide (t < 2 ^ 62)

/-- One window of the reservation. -/
def windowValid (plan : BudgetPlan) (window : WindowReservation) : Bool :=
  safeText window.policyId 128 && safeText window.windowId 128 &&
    decide (0 ≤ window.bucket) && decide (0 < window.bucketNanos) &&
    decide (window.bucketNanos ≤ window.durationNanos) &&
    decide (window.durationNanos % window.bucketNanos = 0) &&
    decide (window.bucket = unixNano plan.quotedAt / window.bucketNanos) &&
    window.amountUsd == plan.costUsd && window.amount == plan.microUsd &&
    decide (0 ≤ window.limit) && !window.limitUsd.isZero &&
    decide (window.durationNanos ≤
      2 ^ 62 - window.bucket * window.bucketNanos - window.bucketNanos) &&
    match Pricing.floorNanoUsd window.limitUsd with
    | .ok limit => limit != 0
    | .error _ => false

def validate (plan : BudgetPlan) : Bool :=
  plan.sound && plan.requiresReservation == !plan.reservation.reservations.isEmpty &&
    (plan.kind == "generate" || plan.kind == "compact") &&
    budgetPlanTime (unixNano plan.quotedAt) &&
    budgetPlanTime plan.reservation.expiresAt &&
    decide (unixNano plan.quotedAt < plan.reservation.expiresAt) &&
    plan.reservation.operationId == plan.operationId &&
    plan.reservation.generationId == plan.generationId &&
    safeText plan.operationId 512 && safeText plan.generationId 512 &&
    safeText plan.candidateId 512 &&
    decide (0 ≤ plan.microUsd) &&
    !(plan.requiresReservation && plan.costUsd.isZero) &&
    !(plan.mode == .free && (!plan.costUsd.isZero || plan.microUsd != 0)) &&
    (Pricing.ceilNanoUsd plan.costUsd).toOption.isSome &&
    decide (plan.reservation.reservations.map (·.windowId)).Nodup &&
    plan.reservation.reservations.all plan.windowValid

end BudgetPlan

-- ===== executions

inductive ProviderCode
  | invalidArgument
  | unsupportedCapability
  | noRoute
  | authentication
  | permissionDenied
  | budgetDenied
  | operationConflict
  | ambiguousDispatch
  | providerRateLimited
  | providerUnavailable
  | providerInvalidResponse
  | deadlineExceeded
  | canceled
  | stateUnavailable
  | stateCorrupt
  | configuration
  | internal
  deriving DecidableEq, Repr

inductive Dispatch
  | notDispatched
  | rejected
  | accepted
  | ambiguous
  deriving DecidableEq, Repr

inductive ExecutionStage
  | claiming
  | submitting
  | pending
  | succeeded
  | failed
  | unknown
  deriving DecidableEq, Repr

def ExecutionStage.terminal (stage : ExecutionStage) : Bool :=
  stage == .succeeded || stage == .failed

structure ExecutionFailure where
  code : ProviderCode
  dispatch : Dispatch
  retryable : Bool
  retryNotBefore : Int
  creditExhausted : Bool
  providerStatus : Int
  deriving DecidableEq, Repr

/-- A response, whether it can be encoded, and its known cost. -/
structure Response where
  content : String
  encodes : Bool
  actualCostUsd : Option Usd
  deriving DecidableEq, Repr

structure ClaimReceipt where
  (incarnationId operationId generationId : String)
  deriving DecidableEq, Repr

structure ProviderExecution where
  startToken : String
  version : Int
  revision : Nat
  stage : ExecutionStage
  reservation : ReserveResult
  claim : Option ClaimReceipt
  (startedAt recoverAfter updatedAt completedAt : Int)
  providerOperationId : String
  pollAfter : Int
  response : Option Response
  failure : Option ExecutionFailure
  settlement : Option ReconcileRequest
  (settled uncached : Bool)
  deriving DecidableEq

/-- The reservation of an attempt that needs none. -/
def noReservation : ReserveResult :=
  ⟨"", false, "", "", [], ∅⟩

-- ===== finalization

inductive CheckpointKind
  | generation
  | compaction
  | cacheReplay
  deriving DecidableEq, Repr

structure Checkpoint where
  (id scopeId originOperationId : String)
  kind : CheckpointKind
  originCacheEntryId : Option String
  content : String
  deriving DecidableEq, Repr

inductive HandoffMode
  | provider
  | cache
  | noWork
  deriving DecidableEq, Repr

structure FinalizationHandoff where
  operationId : String
  mode : HandoffMode
  (checkpointScope checkpointId payload : String)
  deriving DecidableEq, Repr

structure CheckpointFinalization where
  checkpoint : Checkpoint
  handoff : FinalizationHandoff
  deriving DecidableEq, Repr

-- ===== progress

/-- The progress of a record. `versioned` is whether it has its version,
which the first record of a request has not. -/
structure Progress where
  versioned : Bool
  plan : Option BudgetPlan
  execution : Option ProviderExecution
  checkpointFinalization : Option CheckpointFinalization
  finalizationHandoff : Option FinalizationHandoff
  deriving DecidableEq

namespace Progress

def empty : Progress :=
  ⟨false, none, none, none, none⟩

/-- `executionFinalizing`. -/
def finalizing (p : Progress) : Bool :=
  p.checkpointFinalization.isSome || p.finalizationHandoff.isSome

end Progress

end LlmTemporalWorker.CloudState
