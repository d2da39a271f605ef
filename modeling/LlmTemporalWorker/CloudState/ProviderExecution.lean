/-
The execution of one provider attempt, as the durable store keeps it.

An attempt's record carries its budget plan and, once the attempt has
begun, its execution. The execution is written as a whole: begun once,
under a token of its own, and saved from then on, each save naming the
revision it replaces. `validate` judges a single execution against the
plan, `validExecutionTransition` two successive ones.

All times of an execution are instants of the store; the plan's
reservation and the settlement carry those of the budget store.
Executions that are compared by their canonical encoding are equal here.
-/
import LlmTemporalWorker.CloudState.Progress

namespace LlmTemporalWorker.CloudState

open Lib Budget

-- ===== one execution

def ClaimReceipt.validate (receipt : ClaimReceipt) (reservation : ReserveResult) : Bool :=
  receipt.incarnationId == reservation.incarnationId &&
    identityOk receipt.operationId && identityOk receipt.generationId &&
    receipt.operationId == reservation.operationId &&
    receipt.generationId == reservation.generationId

/-- The accepted reservation is the planned one, window by window. -/
def executionReservationMatches (plan : BudgetPlan) (result : ReserveResult) : Bool :=
  result.events.length == plan.reservation.reservations.length &&
    decide (result.events.map (·.eventId)).Nodup &&
    decide (result.events.map (·.windowId)).Nodup &&
    result.events.all fun event =>
      plan.reservation.reservations.any fun window =>
        event.windowId == window.windowId &&
          event.bucketStart == window.bucket * window.bucketNanos &&
          event.amountUsd == window.amountUsd

namespace ProviderExecution

variable (x : ProviderExecution) (plan : BudgetPlan)

/-- A paid attempt that failed before its claim was applied, or an
unreserved one that was closed in the same way. -/
def unclaimed : Bool :=
  x.claim.isNone && x.stage == .failed &&
    match x.failure with
    | none => false
    | some failure => failure.dispatch == .notDispatched &&
        (plan.requiresReservation || failure.code == .budgetDenied)

def validIdentity : Bool :=
  x.version == 1 && x.revision != 0 && decide (x.revision ≤ maxRevisions) &&
    canonicalUuid x.startToken.toList && validTime x.startedAt &&
    decide (plan.quotedAt ≤ x.startedAt) && validTime x.updatedAt &&
    decide (x.startedAt ≤ x.updatedAt) &&
    x.recoverAfter == x.startedAt + budgetStartLease

def validReservation : Bool :=
  if plan.requiresReservation then
    x.reservation.accepted && (x.reservation.validate plan.reservation).toOption.isSome &&
      executionReservationMatches plan x.reservation
  else
    x.reservation == noReservation && x.claim.isNone && x.settlement.isNone

def validStage : Bool :=
  let claimed := !plan.requiresReservation || x.claim.isSome
  match x.stage with
  | .claiming => x.claim.isNone && x.revision == 1
  | .submitting => claimed
  | .pending =>
    claimed && x.providerOperationId != "" && validTime x.pollAfter
  | .succeeded =>
    claimed && x.response.any (·.encodes) && x.failure.isNone
  | .failed | .unknown => x.failure.isSome

def validFailure : Bool :=
  x.failure.all fun failure =>
    (if failure.retryable then
      x.stage == .failed && validTime failure.retryNotBefore &&
        decide (x.completedAt ≤ failure.retryNotBefore)
    else failure.retryNotBefore == 0) &&
    !(failure.creditExhausted && (failure.code != .permissionDenied ||
      failure.dispatch != .rejected))

/-- What belongs to one stage is there in no other. -/
def validOutcome : Bool :=
  (x.stage == .succeeded || x.response.isNone) &&
    (x.stage == .failed || x.stage == .unknown || x.failure.isNone) &&
    (x.stage == .pending || x.pollAfter == 0) &&
    !(x.settled && plan.requiresReservation && x.settlement.isNone && !x.unclaimed plan) &&
    (if x.stage.terminal then
      validTime x.completedAt && decide (x.startedAt ≤ x.completedAt) &&
        decide (x.completedAt ≤ x.updatedAt)
    else x.completedAt == 0 && !(x.settled && x.stage != .unknown)) &&
    (plan.requiresReservation || !x.stage.terminal || x.settled)

/-- One event of a settlement continues one of the reservation. An
unknown outcome is settled in full. -/
def settles (reserved : ReservationEvent) (event : CompletionEvent) :
    Bool :=
  event.windowId == reserved.windowId && event.bucketStart == reserved.bucketStart &&
    event.reservationRevision == reserved.reservationRevision + 1 &&
    event.reservedDecreaseUsd == reserved.amountUsd &&
    (x.stage != .unknown || event.kind == .finalizeUnknown)

def validSettlement (H : Host) (x : ProviderExecution) (plan : BudgetPlan) : Bool :=
  x.settlement.all fun settlement =>
    x.claim.isSome && (x.stage.terminal || x.stage == .unknown) &&
      !(x.stage == .unknown && decide (x.updatedAt < x.recoverAfter)) &&
      (settlement.validate H).toOption.isSome &&
      settlement.operationId == plan.operationId &&
      settlement.generationId == plan.generationId &&
      settlement.incarnationId == x.reservation.incarnationId &&
      settlement.events.length == x.reservation.events.length &&
      (x.reservation.events.zip settlement.events).all fun pair =>
        x.settles pair.1 pair.2

def validate (H : Host) (x : ProviderExecution) (plan : BudgetPlan) :
    Bool :=
  plan.validate && x.validIdentity plan && x.validReservation plan &&
    x.claim.all (·.validate x.reservation) &&
    (x.providerOperationId == "" || safeText x.providerOperationId 4096) &&
    x.validStage plan && x.validFailure && x.validOutcome plan &&
    x.validSettlement H plan

end ProviderExecution

/-- What one save may make of another. A terminal result only gets its
settlement acknowledged, and so does an unknown outcome that has one. -/
def validExecutionTransition (old next : ProviderExecution) : Bool :=
  if old.startToken != next.startToken || old.uncached != next.uncached ||
      old.startedAt != next.startedAt ||
      old.recoverAfter != next.recoverAfter ||
      decide (next.updatedAt < old.updatedAt) ||
      old.reservation != next.reservation ||
      (old.claim.isSome && old.claim != next.claim) ||
      (old.providerOperationId != "" && old.providerOperationId != next.providerOperationId) ||
      (old.completedAt != 0 && old.completedAt != next.completedAt) then
    false
  else if old.stage.terminal then
    !old.settled && next.settled && old == { next with
        revision := old.revision
        updatedAt := old.updatedAt
        settled := old.settled }
  else if old.stage == .unknown && old.settlement.isSome then
    next.stage == .unknown && old.settlement == next.settlement && (next.settled || !old.settled)
  else match old.stage with
    | .claiming =>
      next.stage == .submitting || next.stage == .unknown || next.stage == .failed
    | .submitting | .pending | .unknown =>
      next.stage == .pending || next.stage.terminal || next.stage == .unknown
    | .succeeded | .failed => false

-- ===== the calls

/-- What the calls know beside the store: how settlements are checked,
the documents that progress is kept in (their normal form is the same
progress), whether an encoded progress keeps its limit, and the digest
of an encoded execution. -/
structure Setting where
  host : Host
  docs : Documents Progress
  eventStore : EventStore (Committed Progress)
  normal : ∀ {d d'}, docs.normalize d = .ok d' → d' = d
  payloadFits : Progress → Bool
  digest : ProviderExecution → String

structure SavedProviderExecution where
  plan : BudgetPlan
  execution : ProviderExecution
  deriving DecidableEq

variable (S : Setting)

def budgetPlanProgress (p : Progress) : Except CloudError (Option BudgetPlan) :=
  if !p.versioned then .error .corrupt
  else match p.plan with
    | none => .ok none
    | some plan => if plan.validate then .ok (some plan) else .error .corrupt

/-- The plan and the execution of a record, both checked. -/
def executionProgress (record : Record Progress) :
    Except CloudError (BudgetPlan × Option ProviderExecution) := do
  match ← budgetPlanProgress record.progress with
  | none => throw .planMissing
  | some plan =>
    if plan.kind ≠ record.request.kind ∨
        plan.quotedAt < record.request.createdAt then
      throw .corrupt
    match record.progress.execution with
    | none => return (plan, none)
    | some x =>
      if x.validate S.host plan then return (plan, some x)
      else throw .corrupt

/-- The status of a record with an execution at a stage. -/
def executionStatus : ExecutionStage → Status
  | .succeeded | .failed => .running
  | .unknown => .outcomeUnknown
  | .claiming | .submitting | .pending => .providerPending

/-- The update that writes an execution. -/
def executionUpdate (record : Record Progress) (x : ProviderExecution) : Update Progress :=
  ⟨record.revision, "provider-" ++ S.digest x, executionStatus x.stage,
    { record.progress with execution := some x },
    max x.updatedAt record.updatedAt⟩

namespace Repo

open Program (observe check)

def writeExecution (record : Record Progress) (x : ProviderExecution) : Repo Progress Unit := do
  if !S.payloadFits { record.progress with execution := some x } then
    throw .recordTooLarge
  let _ ← tryUpdate S.docs record.request.scope record.request.id
    (executionUpdate S record x)

/-- The execution that an attempt begins with. -/
def newExecution (token : String) (reservation : ReserveResult)
    (uncached : Bool) (now : Int) : ProviderExecution where
  startToken := token
  version := 1
  revision := 1
  stage := .claiming
  reservation := reservation
  claim := none
  startedAt := now
  recoverAfter := now + budgetStartLease
  updatedAt := now
  completedAt := 0
  providerOperationId := ""
  pollAfter := 0
  response := none
  failure := none
  settlement := none
  settled := false
  uncached := uncached

def beginExecutionLoop (scope : Scope) (id token : String)
    (reservation : ReserveResult) (uncached : Bool) (now : Int) :
    Nat → Repo Progress (SavedProviderExecution × Bool)
  | 0 => throw .conflict
  | rounds + 1 => do
      let record ← read S.docs scope id
      let (plan, existing) ← check (executionProgress S record)
      match existing with
      | some x =>
        repairIndex record
        return (⟨plan, x⟩, false)
      | none =>
        if record.status ≠ .running ∨ record.progress.finalizing then
          throw .conflict
        -- The clock of the worker that quoted may be ahead of this one.
        let now := max now record.updatedAt
        let x := newExecution token reservation uncached now
        if !x.validate S.host plan then throw .invalid
        match ← observe (writeExecution S record x) with
        | .ok _ => return (⟨plan, x⟩, true)
        | .error e =>
          if e.isConflict then
            beginExecutionLoop scope id token reservation uncached now rounds
          else throw e

variable (scope : Scope) (id : String)

/-- Only a confirmed write of its own lets a caller begin. The token is
drawn anew for every call. -/
def beginProviderExecution (token : String) (reservation : ReserveResult)
    (uncached : Bool) (now : Int) :
    Repo Progress (SavedProviderExecution × Bool) :=
  beginExecutionLoop S scope id token reservation uncached now 16

def saveProviderExecution (previous : Nat) (x : ProviderExecution) : Repo Progress Unit := do
  let record ← read S.docs scope id
  let (plan, existing) ← check (executionProgress S record)
  match existing with
  | none => throw .executionMissing
  | some old =>
    if !x.validate S.host plan ∨ x.revision ≠ previous + 1 then
      throw .invalid
    if old = x then
      repairIndex record
    else
      if old.revision ≠ previous ∨ record.progress.finalizing ∨
          !validExecutionTransition old x then
        throw .conflict
      writeExecution S record x

end Repo

-- ===== the system

inductive ExecutionJob
  | begin' (scope : Scope) (id token : String)
      (reservation : ReserveResult) (uncached : Bool) (now : Int)
  | save (scope : Scope) (id : String) (previous : Nat) (x : ProviderExecution)
  deriving DecidableEq

/-- The token of a call that would begin an execution. -/
def ExecutionJob.token : ExecutionJob → Option String
  | .begin' _ _ token _ _ _ => some token
  | .save _ _ _ _ => none

/-- What a call reports: the execution and whether it is fresh, or that
it is saved. -/
inductive ExecutionReport
  | begun (r : Except CloudError (SavedProviderExecution × Bool))
  | saved (r : Except CloudError Unit)
  deriving DecidableEq

abbrev executionCalls : RepoCalls Progress where
  Job := ExecutionJob
  Result := ExecutionReport
  eventStore := S.eventStore
  program
    | .begin' scope id token reservation uncached now =>
      .begun <$> (Repo.beginProviderExecution S scope id token reservation uncached now).run
    | .save scope id previous x =>
      .saved <$> (Repo.saveProviderExecution S scope id previous x).run

end LlmTemporalWorker.CloudState
