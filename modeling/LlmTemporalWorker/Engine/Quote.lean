/-
Quoting a plan (engine/generate.go, attempt.go).

A planned request is priced before it is admitted. Each candidate that
can serve it is quoted: its estimate, and a reservation of that estimate
in every budget window its policies match. Candidates that cannot are
skipped, and a plan of none is refused. The operation is then admitted
for the largest estimate, in the union of the candidates' windows; after
a definite failure it is admitted again for the candidates that remain.

What the engine is given is a parameter: the adapters' verdicts, the
price lookups, and at which candidate the caller cancels.
-/
import LlmTemporalWorker.Admission.Envelope
import LlmTemporalWorker.Budget.Estimate
import LlmTemporalWorker.Budget.Policy
import LlmTemporalWorker.Lib.KeyedBest

namespace LlmTemporalWorker.Engine

open Pricing
open Routing (ServiceClass Candidate)
open Budget (Estimator Estimate EstimateError Policy MatchedWindow
  WindowReservation matchPolicies contextFor)
open Admission (BeginRequest AttemptFacts Digest)

-- ===== errors

/-- `provider.Code`, the codes the modelled paths answer with. -/
inductive Code where
  | invalidArgument
  | noRoute
  | canceled
  | configuration
  | providerInvalidResponse
  | stateUnavailable
  | stateCorrupt
  | operationConflict
  | ambiguousDispatch
  | internal
deriving DecidableEq, Repr

inductive Phase where
  | plan
  | price
  | lift
  | admission
  | continuationWrite
  | finalize
deriving DecidableEq, Repr

/-- `provider.DispatchCertainty`. -/
inductive Dispatch where
  | notDispatched
  | rejected
  | accepted
  | ambiguous
deriving DecidableEq, Repr

/-- `provider.RetryDisposition`. -/
inductive Retry where
  | never
  | sameOperation
  | nextRoute
  | after
deriving DecidableEq, Repr

/-- `provider.Error`; `reason` is its safe detail of that name. -/
structure EngineError where
  code : Code
  phase : Phase
  dispatch : Dispatch
  retry : Retry
  message : String
  reason : Option String
deriving DecidableEq, Repr

def engineError (code : Code) (phase : Phase) (dispatch : Dispatch)
    (retry : Retry) (message : String) : EngineError :=
  ⟨code, phase, dispatch, retry, message, none⟩

/-- How a call ends early: with an error, or with a panic. -/
inductive Stop where
  | failed (error : EngineError)
  | panicked (text : String)
deriving DecidableEq, Repr

-- ===== snapshots

structure Query where
  (provider family endpointId region model providerTier : String)
  at_ : Int
deriving DecidableEq, Repr

structure Quote where
  entry : Entry
  catalogVersion : String
deriving DecidableEq, Repr

/-- What a price lookup fails with: `ErrNoActivePrice`, or another
error. -/
inductive PriceError where
  | noActivePrice
  | other
deriving DecidableEq, Repr

/-- A route of the catalog: its tier for each service class. -/
structure Route where
  id : String
  providerTiers : ServiceClass → Option String

structure Snapshot where
  routes : String → List Route
  prices : Option (Query → Except PriceError Quote)
  budgetPolicies : List Policy
  (requireBudgetMatch requirePriceWhenBudgeted : Bool)
  environment : String

/-- A provider adapter: whether its request validator, if it has one,
refuses the request. -/
structure Adapter where
  refuses : Bool
deriving DecidableEq, Repr

/-- What a quote depends on besides its arguments. -/
structure Host where
  /-- `Adapters.Adapter`. -/
  adapter : Candidate → Option Adapter
  /-- The caller has cancelled before the candidate at this place. -/
  canceled : Nat → Bool
  /-- The caller has cancelled when its validator has refused. -/
  canceledIn : Nat → Bool
  estimator : Estimator

-- ===== quotes

structure QuotedCandidate where
  candidate : Candidate
  entry : Option Entry
  estimate : Estimate
  reservations : List WindowReservation
  classEntries : ServiceClass → Option Entry

structure QuotedPlan where
  candidates : List QuotedCandidate
  maximum : Nat
  maximumUsd : Usd

def QuotedPlan.empty : QuotedPlan := ⟨[], 0, .zero⟩

/-- A version for an entry that names none. -/
def Quote.versioned (quote : Quote) : Entry :=
  if quote.entry.version = "" then
    { quote.entry with version := quote.catalogVersion }
  else quote.entry

/-- The lookup of a candidate's price at a tier. -/
def priceQuery (candidate : Candidate) (tier : String) (now : Int) : Query :=
  ⟨candidate.provider, candidate.family, candidate.endpointId,
    candidate.region, candidate.model, tier, now⟩

/-- `classPriceEntries`: the prices of the route's other classes. -/
def classPriceEntries (snapshot : Snapshot) (request : Routing.Request)
    (candidate : Candidate) (now : Int) (served : ServiceClass) :
    Option Entry := do
  let resolve ← snapshot.prices
  let routes := snapshot.routes request.model
  if candidate.routeIndex < 0 then none
  let route ← routes[candidate.routeIndex.toNat]?
  if route.id ≠ candidate.routeId then none
  let tier ← route.providerTiers served
  if served = candidate.attemptedClass ∨ tier = "" then none
  match resolve (priceQuery candidate tier now) with
  | .error _ => none
  | .ok quote => some quote.versioned

/-- `reservations`: the estimate in every matched window. -/
def reservations (matched : List MatchedWindow) (amount : Nat)
    (amountUsd : Usd) (now : Int) : Except String (List WindowReservation) :=
  matched.mapM fun value => do
    let (_, bucket) ← value.window.range now
    return { policyId := value.policyId, windowId := value.window.id
             bucket := bucket, amount := amount
             limit := value.window.limit, amountUsd := amountUsd
             limitUsd := value.window.limitUsd
             bucketNanos := value.window.bucket
             durationNanos := value.window.duration }

-- ===== quoting loop

/-- Why a candidate is passed over: it has no adapter, or one of the
reasons that a refused plan reports. -/
inductive Skip where
  | adapter
  | request
  | context
  | budgetMatch
  | price
deriving DecidableEq, Repr

/-- One candidate's turn. An unpriced candidate has no estimate and no
reservations, and does not count towards the maxima. -/
inductive Turn where
  | skipped (why : Skip)
  | unpriced (quoted : QuotedCandidate)
  | priced (quoted : QuotedCandidate)

/-- The error of a cancelled quote. -/
def pricingCanceled : Stop :=
  .failed (engineError .canceled .price .notDispatched .never "pricing canceled")

section Loop

variable (host : Host) (request : Routing.Request) (snapshot : Snapshot)
  (resolve : Query → Except PriceError Quote) (now : Int)

/-- The estimate of a priced candidate and its reservations. -/
def priceCandidate (candidate : Candidate) (matched : List MatchedWindow)
    (entry : Entry) : Except Stop Turn :=
  match host.estimator.estimateCandidate request candidate entry with
  | .error .contextLimit => .ok (.skipped .context)
  | .error (.unusablePrice _) => .ok (.skipped .price)
  | .error (.other _) => .error (.failed (engineError .invalidArgument
      .price .notDispatched .never "candidate cost estimate failed"))
  | .ok estimate =>
    match reservations matched estimate.microUsd estimate.costUsd now with
    | .error text => .error (.panicked text)
    | .ok held => .ok (.priced {
        candidate := candidate, entry := some entry, estimate := estimate
        reservations := held
        classEntries := classPriceEntries snapshot request candidate now })

/-- A candidate's match, price and estimate. -/
def quoteMatched (candidate : Candidate) : Except Stop Turn :=
  let matched := matchPolicies snapshot.budgetPolicies
    (contextFor request candidate snapshot.environment)
  if snapshot.requireBudgetMatch ∧ matched = [] then
    .ok (.skipped .budgetMatch)
  else
    match resolve (priceQuery candidate candidate.providerTier now) with
    | .error .noActivePrice =>
      if matched ≠ [] ∨ !snapshot.requirePriceWhenBudgeted then
        .ok (.skipped .price)
      else .ok (.unpriced {
        candidate := candidate, entry := none, estimate := .zero
        reservations := [], classEntries := fun _ => none })
    | .error .other => .error (.failed (engineError .configuration .price
        .notDispatched .never "candidate has no active price"))
    | .ok quote =>
      priceCandidate host request snapshot now candidate matched quote.versioned

/-- The body of `quotePlan`'s loop. -/
def quoteCandidate (index : Nat) (candidate : Candidate) : Except Stop Turn :=
  if host.canceled index then .error pricingCanceled
  else
    match host.adapter candidate with
    | none => .ok (.skipped .adapter)
    | some adapter =>
      if adapter.refuses then
        if host.canceledIn index then .error pricingCanceled
        else .ok (.skipped .request)
      else
        match host.estimator.validateContext request candidate with
        | .error .contextLimit => .ok (.skipped .context)
        | .error _ => .error (.failed (engineError .invalidArgument .plan
            .notDispatched .never "candidate context estimate failed"))
        | .ok _ => quoteMatched host request snapshot resolve now candidate

/-- A priced candidate raises the maxima. -/
def QuotedPlan.push (plan : QuotedPlan) (quoted : QuotedCandidate) :
    QuotedPlan :=
  { candidates := plan.candidates ++ [quoted]
    maximum := if plan.maximum < quoted.estimate.microUsd then
      quoted.estimate.microUsd else plan.maximum
    maximumUsd := if plan.maximumUsd.units < quoted.estimate.costUsd.units
      then quoted.estimate.costUsd else plan.maximumUsd }

/-- `quotePlan`'s loop, with the reasons it skipped for. -/
def quoteLoop (index : Nat) (plan : QuotedPlan) (skips : List Skip) :
    List Candidate → Except Stop (QuotedPlan × List Skip)
  | [] => .ok (plan, skips)
  | candidate :: rest => do
      match ← quoteCandidate host request snapshot resolve now index
          candidate with
      | .skipped why => quoteLoop (index + 1) plan (why :: skips) rest
      | .unpriced quoted =>
        quoteLoop (index + 1)
          { plan with candidates := plan.candidates ++ [quoted] } skips
          rest
      | .priced quoted => quoteLoop (index + 1) (plan.push quoted) skips rest

end Loop

/-- The refusal of a plan without candidates. -/
def noCandidate (skips : List Skip) : EngineError :=
  let detail :=
    if .budgetMatch ∈ skips ∧ .price ∉ skips then
      ("no_matching_budget_policy", "no candidate matches a budget policy")
    else if .context ∈ skips ∧ .price ∉ skips ∧ .budgetMatch ∉ skips then
      ("context_limit", "no candidate fits the model context limit")
    else if .request ∈ skips ∧ .context ∉ skips ∧ .price ∉ skips
        ∧ .budgetMatch ∉ skips then
      ("invalid_request_controls", "no candidate accepts the request controls")
    else ("no_eligible_price", "no candidate has a usable price")
  { engineError .noRoute .price .notDispatched .never detail.2 with
    reason := some detail.1 }

def quotePlan (host : Host) (request : Routing.Request) (plan : List Candidate)
    (snapshot : Snapshot) (now : Int) : Except Stop QuotedPlan :=
  match snapshot.prices with
  | none => .error (.failed (engineError .configuration .price
      .notDispatched .never "pricing resolver is unavailable"))
  | some resolve => do
      let (quoted, skips) ← quoteLoop host request snapshot resolve now 0
        .empty [] plan
      if quoted.candidates.isEmpty then
        throw (.failed (noCandidate skips))
      return quoted

-- ===== aggregation

/-- `key`: the window a reservation is for. -/
def windowKey (r : WindowReservation) : String × String :=
  (r.policyId, r.windowId)

/-- The reservation that replaces the one kept for its window. -/
def replaces (r current : WindowReservation) : Bool :=
  current.amount < r.amount
    || (r.amount == current.amount && decide (current.amountUsd.units < r.amountUsd.units))

/-- The test of `sortReservations`' inner loop. -/
def sortsAfter (r value : WindowReservation) : Bool :=
  decide (value.policyId < r.policyId)
    || (r.policyId == value.policyId && decide (value.windowId < r.windowId))

/-- The inner loop: from the last sorted element backwards, past those
that sort after the value. -/
def insertReservation (value : WindowReservation) : List WindowReservation → List WindowReservation
  | [] => [value]
  | r :: rest =>
    if sortsAfter r value then r :: insertReservation value rest
    else value :: r :: rest

/-- `sortReservations`; the sorted part is held last element first. -/
def sortReservations (values : List WindowReservation) : List WindowReservation :=
  (values.foldl (fun sorted value => insertReservation value sorted) []).reverse

/-- Every window carries the plan's exact maximum. -/
def withExact (expectedUsd : Usd) (r : WindowReservation) :
    WindowReservation :=
  if !expectedUsd.isZero then { r with amountUsd := expectedUsd } else r

/-- `byKey`: per window, the largest reservation of any candidate. -/
def byKey (candidates : List QuotedCandidate) : List WindowReservation :=
  Lib.bestOf windowKey replaces (candidates.flatMap (·.reservations))

/-- `aggregateReservations`. The source ranges over a map here; the
sort makes the result the same for every order. -/
def aggregateReservations (candidates : List QuotedCandidate)
    (expectedUsd : Usd) : List WindowReservation :=
  sortReservations ((byKey candidates).map (withExact expectedUsd))

-- ===== admission

/-- `priceVersion`, the method: the version a candidate was priced at. -/
def QuotedCandidate.priceVersion (quoted : QuotedCandidate) : String :=
  match quoted.entry with
  | none => ""
  | some entry => entry.version

/-- `priceVersion`, the loop: the candidates' common version. -/
def commonVersion (first : String) : List QuotedCandidate → String
  | [] => first
  | quoted :: rest =>
    if quoted.entry.isNone then commonVersion first rest
    else if first = "" then commonVersion quoted.priceVersion rest
    else if quoted.priceVersion ≠ first then "mixed"
    else commonVersion first rest

/-- What an operation is known by. -/
structure Identity where
  (id scopeKey : String)
  digest : Digest
deriving DecidableEq, Repr

/-- The request `beginOrResume` sends. -/
def beginRequest (identity : Identity) (configVersion : String)
    (quoted : QuotedPlan) (leaseUntil expiresAt : Int) : BeginRequest :=
  { id := identity.id, scopeKey := identity.scopeKey
    requestDigest := identity.digest
    reservation := quoted.maximum, reservationUsd := quoted.maximumUsd
    reservations := aggregateReservations quoted.candidates quoted.maximumUsd
    configVersion := configVersion
    priceVersion := commonVersion "" quoted.candidates
    leaseUntil := leaseUntil, expiresAt := expiresAt }

/-- The maxima of the candidates that remain, as
`continueAfterDefiniteFailure` computes them. -/
def remainingPlan (remaining : List QuotedCandidate) : QuotedPlan :=
  { remaining.foldl QuotedPlan.push .empty with candidates := remaining }

structure ContinueRequest where
  (operationId dispatchToken : String)
  attempt : AttemptFacts
  providerRequestId : String
  remaining : Int
  remainingUsd : Usd
  reservations : List WindowReservation
  (leaseUntil expiresAt : Int)
deriving DecidableEq, Repr

/-- The request `continueAfterDefiniteFailure` sends after a candidate
has failed. -/
def continueRequest (operation : Admission.Operation) (failed : Candidate)
    (providerRequestId : String) (remaining : List QuotedCandidate)
    (leaseUntil : Int) : ContinueRequest :=
  let quoted := remainingPlan remaining
  { operationId := operation.id, dispatchToken := operation.dispatchToken
    attempt := {
      routeId := failed.routeId, endpointId := failed.endpointId
      provider := failed.provider, resolvedModel := failed.model
      providerRequestId := ""
      serviceClass := failed.attemptedClass.text
      dispatch := .rejected, attemptNumber := 0 }
    providerRequestId := providerRequestId
    remaining := quoted.maximum, remainingUsd := quoted.maximumUsd
    reservations := aggregateReservations remaining quoted.maximumUsd
    leaseUntil := leaseUntil, expiresAt := operation.expiresAt }

end LlmTemporalWorker.Engine
