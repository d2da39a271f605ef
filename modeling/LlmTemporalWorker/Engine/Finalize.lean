/-
Settling a provider response (engine/finalize.go, generate.go,
llm/hosted_tools.go).

A response that the provider was paid for is priced, stored in the
result store, and then reported to the admission store, which replaces
the reservation by the actual charge. A worker may stop between the two
writes. A later call of the same request finds the operation still
dispatching, reads the stored response, and reports it in the first
worker's place.

The output items, diagnostics and raw provider values of a response are
left out: finalization only cleans them. The result store, the
heartbeats and the continuation store are parameters.
-/
import LlmTemporalWorker.Engine.Quote

namespace LlmTemporalWorker.Engine

open Pricing
open Routing (ServiceClass Candidate)
open Admission (Operation OperationState AttemptFacts BlobRef)

-- ===== responses

/-- `llm.CostStatus`; `unset` is the empty string. -/
inductive CostStatus where
  | unset
  | known
  | unknown
deriving DecidableEq, Repr

/-- The string a status is. -/
def CostStatus.text : CostStatus → String
  | .unset => ""
  | .known => "known"
  | .unknown => "unknown"

/-- `llm.Cost`. -/
structure ResponseCost where
  status : CostStatus
  (reservedCostUsd actualCostUsd : Option Usd)
  (method catalogVersion : String)
deriving DecidableEq, Repr

/-- `web_search_calls` of the raw usage. -/
inductive SearchCalls where
  | absent
  | unreadable
  | count (calls : Int)
deriving DecidableEq, Repr

/-- `llm.Usage`: the counters, and what is read of the raw usage. -/
structure ResponseUsage where
  counters : Usage
  hostedExecutionUsed : Bool
  webSearchCalls : SearchCalls
deriving DecidableEq, Repr

structure RouteFacts where
  (routeId endpointId apiFamily requestedModel resolvedModel : String)
deriving DecidableEq, Repr

structure ServiceFacts where
  (requested attempted : ServiceClass)
  actual : Option ServiceClass
  providerValue : String
  fallbackIndex : Int
deriving DecidableEq, Repr

structure Response where
  (operationKey operationId status : String)
  route : RouteFacts
  service : ServiceFacts
  usage : ResponseUsage
  cost : ResponseCost
  /-- `Provider.RequestID`. -/
  requestId : String
  /-- `Continuation.Handle`. -/
  continuation : Option String
deriving DecidableEq, Repr

/-- `provider.Call`: what was compiled for the candidate. -/
structure Call where
  (model providerTier : String)
deriving DecidableEq, Repr

-- ===== pricing

def contains (text part : String) : Bool :=
  text.toList.tails.any part.toList.isPrefixOf

theorem cents_scale : 2 ≤ 18 := by decide

/-- One cent. -/
def searchFee : DecimalUsd := ⟨1, 2, cents_scale, by decide⟩

def hostedToolCharge (usage : ResponseUsage) (model : String) : Except String Usd :=
  if usage.hostedExecutionUsed then
    .error "container execution charge is not reported"
  else
    match usage.webSearchCalls with
    | .absent => .ok .zero
    | .unreadable => .error "hosted search usage is unknown"
    | .count calls =>
      if calls < 0 then .error "hosted search usage is unknown"
      else if 0 < calls
          ∧ (contains model "gpt-4o-mini" ∨ contains model "gpt-4.1-mini")
      then
        .error "fixed search-content billing is not separately reported"
      else ceilUsd searchFee calls 1

def actualCost (entry : Entry) (response : Response) : Except String Cost :=
  if response.cost.method ≠ "" then
    match response.cost.actualCostUsd with
    | none => .error "provider-reported cost has no exact USD amount"
    | some usd => do
        let legacy ← ceilMicroFromUsd usd
        return ⟨usd, legacy, some .providerReported, entry.version⟩
  else do
    let cost ← costFromUsage entry response.usage.counters
    let fee ← hostedToolCharge response.usage response.route.resolvedModel
    let usd ← cost.usd.add fee
    let micro ← ceilMicroFromUsd usd
    return { cost with usd := usd, micro := micro }

/-- The price of a response: at the class the provider served, when that
differs from the attempted one and can be priced, otherwise at the
quoted entry. -/
def priceResponse (quoted : QuotedCandidate) (entry : Entry)
    (response : Response) : Except String Cost :=
  let atClass := do
    let served ← response.service.actual
    if served = quoted.candidate.attemptedClass then none
    let classEntry ← quoted.classEntries served
    (actualCost classEntry response).toOption
  match atClass with
  | some cost => .ok cost
  | none => actualCost entry response

/-- The reservation a priced response reports. -/
def reservedUsd (reservedCostUsd : Option Usd) (operation : Operation) :
    Usd :=
  match reservedCostUsd with
  | some usd => usd
  | none =>
    if 0 < operation.reservedMicroUsd then
      (usdFromMicro operation.reservedMicroUsd).toOption.getD .zero
    else .zero

/-- The charge and the cost facts of a response. An unpriced response of
a priced candidate is charged its estimate; its facts keep that estimate
as the reservation only. -/
def settleCost (quoted : QuotedCandidate) (reservedCostUsd : Option Usd)
    (operation : Operation) (response : Response) :
    Except String (Totals × ResponseCost) :=
  match quoted.entry with
  | none => .ok (.zero, ⟨.unknown, none, none, "", ""⟩)
  | some entry =>
    if response.cost.status = .unknown then
      .ok (⟨quoted.estimate.costUsd, quoted.estimate.microUsd⟩,
        ⟨.unknown, some quoted.estimate.costUsd, none, "", ""⟩)
    else do
      let cost ← priceResponse quoted entry response
      return (⟨cost.usd, cost.micro⟩, ⟨.known, some (reservedUsd reservedCostUsd operation),
          some cost.usd, (cost.method.map CostMethod.text).getD "",
          cost.catalogVersion⟩)

-- ===== finalization

structure CompleteRequest where
  (operationId dispatchToken : String)
  actual : Nat
  actualCostUsd : Usd
  resultRef : Option BlobRef
  attempt : AttemptFacts
  (costStatus costMethod : String)
deriving DecidableEq, Repr

/-- What finalization depends on. `put` answers with the reference of the
stored response, none if it is not a valid one. -/
structure FinalizeHost where
  beat : String → Bool
  persistContinuation : Response → Except EngineError String
  put : Response → Except String (Option BlobRef)

/-- How finalization ends: without touching the ledger, with a failure
reported at an incurred amount, or with the response stored and the
completion that follows. -/
inductive Finalization where
  | refused (error : EngineError)
  | failed (error : EngineError) (incurred : Nat)
  | stored (response : Response) (complete : CompleteRequest)
deriving DecidableEq, Repr

/-- The facts finalization fills in before it prices the response. -/
def identify (request : Routing.Request) (quoted : QuotedCandidate)
    (operation : Operation) (call : Call) (response : Response) :
    Response :=
  let candidate := quoted.candidate
  { response with
    operationKey := request.operationKey
    operationId := operation.id
    route := { routeId := candidate.routeId
               endpointId := candidate.endpointId
               apiFamily := candidate.family
               requestedModel := request.model
               resolvedModel := call.model }
    service := { response.service with
      requested := candidate.requestedClass
      attempted := candidate.attemptedClass
      fallbackIndex := candidate.fallbackIndex
      providerValue :=
        if response.service.providerValue = ""
            ∧ response.service.actual.isSome then call.providerTier
        else response.service.providerValue } }

/-- The attempt a completion reports. -/
def finalAttempt (candidate : Candidate) (index : Nat) (call : Call)
    (response : Response) : AttemptFacts :=
  { routeId := candidate.routeId, endpointId := candidate.endpointId
    provider := candidate.provider, resolvedModel := call.model
    providerRequestId := response.requestId
    serviceClass := candidate.attemptedClass.text
    attemptNumber := index + 1, dispatch := .accepted }

/-- The error of a failed heartbeat. -/
def heartbeatFailed : EngineError :=
  engineError .stateUnavailable .finalize .notDispatched .sameOperation "progress heartbeat failed"

/-- The continuation of a response, persisted if it has one. -/
def finalContinuation (host : FinalizeHost) (incurred : Nat)
    (response : Response) : Except Finalization Response :=
  match response.continuation with
  | none => .ok response
  | some _ =>
    if !host.beat "continuation_write" then
      .error (.refused heartbeatFailed)
    else
      match host.persistContinuation response with
      | .error error => .error (.failed error incurred)
      | .ok handle => .ok { response with continuation := some handle }

/-- `finalizeSuccess`, up to the `Complete` it sends. -/
def finalizeSuccess (host : FinalizeHost) (request : Routing.Request)
    (quoted : QuotedPlan) (index : Nat) (operation : Operation)
    (reservedCostUsd : Option Usd) (call : Call) (response : Response) :
    Finalization :=
  match quoted.candidates[index]? with
  | none => .refused (engineError .internal .finalize .accepted .never
      "finalization candidate index is invalid")
  | some candidate =>
    let response := identify request candidate operation call response
    match settleCost candidate reservedCostUsd operation response with
    | .error _ => .failed (engineError .providerInvalidResponse .lift
        .accepted .never "response usage could not be priced")
        candidate.estimate.microUsd
    | .ok (actual, cost) =>
      let response := { response with
        cost := cost
        status := if response.status = "" then "completed"
          else response.status }
      if !host.beat "finalization" then .refused heartbeatFailed
      else
        match finalContinuation host actual.micro response with
        | .error ended => ended
        | .ok response =>
          match host.put response with
          | .error _ => .failed (engineError .stateUnavailable .finalize .accepted .sameOperation
              "result store write failed") actual.micro
          | .ok ref => .stored response
              { operationId := operation.id
                dispatchToken := operation.dispatchToken
                actual := actual.micro
                actualCostUsd := actual.usd
                resultRef := ref
                attempt := finalAttempt candidate.candidate index call response
                costStatus := cost.status.text
                costMethod := cost.method }

-- ===== dispatch

/-- The attempt `BeforePossibleWrite` marks an operation with. -/
def dispatchAttempt (candidate : Candidate) (attempt : Int) : AttemptFacts :=
  { routeId := candidate.routeId, endpointId := candidate.endpointId
    provider := candidate.provider, resolvedModel := candidate.model
    providerRequestId := "", serviceClass := candidate.attemptedClass.text
    dispatch := .unset, attemptNumber := attempt }

/-- A reserved operation as the admission stores keep it when it is
marked: they record one more than the attempt number they are given. -/
def marked (operation : Operation) (attempt : AttemptFacts) (leaseUntil : Int) : Operation :=
  { operation with
    state := .dispatching
    attempt := { attempt with attemptNumber := attempt.attemptNumber + 1 }
    leaseUntil := leaseUntil }

-- ===== recovery

/-- What a lookup of a stored response fails with: `ErrResultNotFound`,
or another error. -/
inductive ResultError where
  | notFound
  | other
deriving DecidableEq, Repr

/-- The result store as a later call finds it. -/
structure ResultHost where
  get : Except ResultError Response
  put : Response → Except String (Option BlobRef)

/-- What `resolveExisting` answers. -/
inductive Resolution where
  /-- The stored response of a completed operation. -/
  | replay (response : Response)
  /-- A stored response, with the completion sent for it. -/
  | complete (response : Response) (request : CompleteRequest)
  /-- The operation is to be dispatched or resumed. -/
  | resume
  /-- Another call holds it. -/
  | busy
  | refused (error : EngineError)
deriving DecidableEq, Repr

/-- The attempt a recovered completion reports. -/
def recoveredAttempt (operation : Operation) (response : Response) :
    AttemptFacts :=
  let attempt := operation.attempt
  { attempt with
    dispatch := .accepted
    attemptNumber := if 0 < attempt.attemptNumber then
      attempt.attemptNumber - 1 else attempt.attemptNumber
    providerRequestId := if attempt.providerRequestId = "" then
      response.requestId else attempt.providerRequestId
    resolvedModel := if response.route.resolvedModel ≠ "" then
      response.route.resolvedModel else attempt.resolvedModel }

/-- The charge of a stored response: none if it names no cost. -/
def storedCharge (response : Response) : Except String Totals :=
  match response.cost.actualCostUsd with
  | none => .ok .zero
  | some usd => do
      let micro ← ceilMicroFromUsd usd
      return ⟨usd, micro⟩

/-- `resolveExisting` of a dispatching operation with a stored
response. -/
def completeStored (results : ResultHost) (operation : Operation)
    (response : Response) : Resolution :=
  match storedCharge response with
  | .error _ => .refused (engineError .stateCorrupt .finalize .accepted
      .never "stored result cost is invalid")
  | .ok charge =>
    match results.put response with
    | .error _ => .refused (engineError .stateUnavailable .finalize
        .accepted .sameOperation "stored result reference is unavailable")
    | .ok ref => .complete response
        { operationId := operation.id
          dispatchToken := operation.dispatchToken
          actual := charge.micro, actualCostUsd := charge.usd
          resultRef := ref
          attempt := recoveredAttempt operation response
          costStatus := response.cost.status.text
          costMethod := response.cost.method }

/-- `resolveExisting`. A lease of no time is `none` in the source's
words: its zero value. -/
def resolveExisting (results : ResultHost) (operation : Operation)
    (leaseSet : Bool) (now : Int) : Resolution :=
  match operation.state with
  | .completed =>
    match results.get with
    | .ok response => .replay response
    | .error _ => .refused (engineError .stateCorrupt .finalize .accepted
        .never "completed operation result is unavailable")
  | .dispatching =>
    match results.get with
    | .ok response => completeStored results operation response
    | .error .notFound => .resume
    | .error .other => .refused (engineError .stateUnavailable .finalize
        .accepted .sameOperation "in-flight result lookup failed")
  | .ambiguous => .refused (engineError .ambiguousDispatch .admission
      .ambiguous .never "operation may have reached the provider")
  | .providerPending => .resume
  | .reserved =>
    if leaseSet ∧ now < operation.leaseUntil then .busy else .resume
  | .definiteFailed | .canceled => .refused (engineError
      .operationConflict .admission .notDispatched .never
      "operation is already terminal")
  | .other _ => .refused (engineError .stateCorrupt .admission
      .notDispatched .never "operation state is unknown")

end LlmTemporalWorker.Engine
