/-
The completion of a recovered response.

When a worker stops after it stored a response, a later call completes
the operation from the stored response and the recorded attempt alone.
Both are written by the first worker, so the two completions can be
compared field by field. They agree except in three situations: the
response had no cost and the candidate had a price (the first worker
charges the estimate, the later one nothing), the compiled call named no
model, and the response was finalized by a worker that had resumed the
operation at another place of its plan than it was dispatched from.
-/
import LlmTemporalWorker.Engine.Finalize
import LlmTemporalWorker.Engine.Proofs.Admissible

namespace LlmTemporalWorker.Engine

open Pricing
open Routing (ServiceClass Candidate)
open Admission (Operation AttemptFacts BlobRef)

-- ===== charges

variable {response stored : Response} {operation : Operation}

theorem actualCost_ceil {entry : Entry} {cost : Cost} (h : actualCost entry response = .ok cost) :
    ceilMicroFromUsd cost.usd = .ok cost.micro := by
  unfold actualCost at h
  split at h
  · split at h
    · cases h
    · obtain ⟨legacy, hlegacy, h⟩ := Lib.bind_ok h
      cases h
      exact hlegacy
  · obtain ⟨_, _, h⟩ := Lib.bind_ok h
    obtain ⟨_, _, h⟩ := Lib.bind_ok h
    obtain ⟨_, _, h⟩ := Lib.bind_ok h
    obtain ⟨micro, hmicro, h⟩ := Lib.bind_ok h
    cases h
    exact hmicro

theorem priceResponse_ceil {quoted : QuotedCandidate} {entry : Entry}
    {cost : Cost} (h : priceResponse quoted entry response = .ok cost) :
    ceilMicroFromUsd cost.usd = .ok cost.micro := by
  unfold priceResponse at h
  simp only at h
  split at h
  · rename_i served hserved
    cases h
    obtain ⟨_, _, hserved⟩ := Option.bind_eq_some_iff.mp hserved
    split at hserved
    · cases hserved
    obtain ⟨classEntry, _, hcost⟩ := Option.bind_eq_some_iff.mp hserved
    have hactual : actualCost classEntry response = .ok cost := by
      cases h : actualCost classEntry response with
      | error e =>
        rw [h] at hcost
        cases hcost
      | ok cost' =>
        rw [h] at hcost
        cases hcost
        rfl
    exact actualCost_ceil hactual
  · exact actualCost_ceil h

/-- What a settled response records of its charge: nothing if its cost
is unknown, and otherwise the exact amount that the charge rounds. -/
inductive Recorded (quoted : QuotedCandidate) (actual : Totals) :
    ResponseCost → Prop
  | unpriced {cost : ResponseCost} (hentry : quoted.entry = none)
      (hactual : actual = .zero) (hstatus : cost.status = .unknown)
      (husd : cost.actualCostUsd = none) : Recorded quoted actual cost
  | estimated {cost : ResponseCost} (hentry : quoted.entry.isSome)
      (hactual : actual = ⟨quoted.estimate.costUsd,
        quoted.estimate.microUsd⟩) (hstatus : cost.status = .unknown)
      (husd : cost.actualCostUsd = none) : Recorded quoted actual cost
  | priced {cost : ResponseCost} (hstatus : cost.status = .known)
      (husd : cost.actualCostUsd = some actual.usd)
      (hceil : ceilMicroFromUsd actual.usd = .ok actual.micro) :
      Recorded quoted actual cost

theorem settleCost_recorded {quoted : QuotedCandidate}
    {reservedCostUsd : Option Usd} {actual : Totals} {cost : ResponseCost}
    (h : settleCost quoted reservedCostUsd operation response
      = .ok (actual, cost)) : Recorded quoted actual cost := by
  unfold settleCost at h
  split at h
  · rename_i hentry
    cases h
    exact .unpriced hentry rfl rfl rfl
  · rename_i entry hentry
    split at h
    · cases h
      exact .estimated (by rw [hentry]; rfl) rfl rfl rfl
    obtain ⟨priced, hpriced, h⟩ := Lib.bind_ok h
    cases h
    exact .priced rfl rfl (priceResponse_ceil hpriced)

-- ===== finalization

/-- A finalization that stored its response. -/
structure StoredFinal (host : FinalizeHost) (quoted : QuotedPlan)
    (index : Nat) (operation : Operation) (call : Call)
    (stored : Response) (complete : CompleteRequest)
    (candidate : QuotedCandidate) (actual : Totals) : Prop where
  candidate_at : quoted.candidates[index]? = some candidate
  recorded : Recorded candidate actual stored.cost
  resolvedModel : stored.route.resolvedModel = call.model
  complete_eq : ∃ ref, host.put stored = .ok ref ∧ complete =
    { operationId := operation.id
      dispatchToken := operation.dispatchToken
      actual := actual.micro, actualCostUsd := actual.usd
      resultRef := ref
      attempt := finalAttempt candidate.candidate index call stored
      costStatus := stored.cost.status.text
      costMethod := stored.cost.method }

/-- Only the continuation changes between pricing and storing. -/
theorem finalContinuation_ok {host : FinalizeHost} {incurred : Nat}
    {final : Response}
    (h : finalContinuation host incurred response = .ok final) :
    final.cost = response.cost ∧ final.route = response.route := by
  unfold finalContinuation at h
  split at h
  · cases h
    exact ⟨rfl, rfl⟩
  split at h
  · cases h
  split at h
  · cases h
  · cases h
    exact ⟨rfl, rfl⟩

theorem finalizeSuccess_stored {host : FinalizeHost}
    {request : Routing.Request} {quoted : QuotedPlan} {index : Nat}
    {reservedCostUsd : Option Usd} {call : Call}
    {complete : CompleteRequest}
    (h : finalizeSuccess host request quoted index operation
      reservedCostUsd call response = .stored stored complete) :
    ∃ candidate actual, StoredFinal host quoted index operation call stored
      complete candidate actual := by
  unfold finalizeSuccess at h
  split at h
  · cases h
  rename_i candidate hcandidate
  simp only at h
  split at h
  · cases h
  rename_i actual cost hsettle
  split at h
  · cases h
  split at h
  · rename_i ended hended
    -- a continuation that fails ends without a stored response
    unfold finalContinuation at hended
    split at hended
    · cases hended
    split at hended
    · cases hended
      cases h
    split at hended
    · cases hended
      cases h
    · cases hended
  rename_i final hfinal
  split at h
  · cases h
  rename_i ref hput
  cases h
  obtain ⟨hcost, hroute⟩ := finalContinuation_ok hfinal
  refine ⟨candidate, actual, hcandidate, ?_, ?_, ref, hput, ?_⟩
  · rw [hcost]
    exact settleCost_recorded hsettle
  · rw [hroute]
    rfl
  · rw [hcost]

-- ===== recovery

/-- The operation was dispatched for `first` from the given place of its
plan; the response is finalized for `candidate` at `index`. Both report
the same attempt. -/
structure SameAttempt (first : Candidate) (firstPlace : Nat)
    (candidate : Candidate) (index : Nat) (call : Call) : Prop where
  routeId : first.routeId = candidate.routeId
  endpointId : first.endpointId = candidate.endpointId
  provider : first.provider = candidate.provider
  serviceClass : first.attemptedClass.text = candidate.attemptedClass.text
  place : firstPlace = index
  model : call.model = "" → first.model = ""

theorem recoveredAttempt_iff {first candidate : Candidate}
    {firstPlace index : Nat} {call : Call} {leaseUntil : Int}
    (hmodel : stored.route.resolvedModel = call.model) :
    recoveredAttempt (marked operation (dispatchAttempt first (firstPlace + 1)) leaseUntil) stored
        = finalAttempt candidate index call stored ↔
      SameAttempt first firstPlace candidate index call := by
  simp only [recoveredAttempt, marked, dispatchAttempt, finalAttempt,
    AttemptFacts.mk.injEq, hmodel, if_pos, true_and]
  constructor
  · intro ⟨hroute, hendpoint, hprovider, hresolved, hclass, hplace⟩
    refine ⟨hroute, hendpoint, hprovider, hclass, by omega, fun hempty => ?_⟩
    rw [if_neg (not_not_intro hempty), hempty] at hresolved
    exact hresolved
  · intro h
    refine ⟨h.routeId, h.endpointId, h.provider, ?_, h.serviceClass, ?_⟩
    · by_cases hempty : call.model = ""
      · rw [if_neg (not_not_intro hempty), hempty]
        exact h.model hempty
      · rw [if_pos hempty]
    · have := h.place
      omega

/-- The charge that the stored response records is the one finalization
makes. -/
def SameCharge (candidate : QuotedCandidate) (stored : Response) : Prop :=
  stored.cost.status = .unknown → candidate.entry.isSome →
    candidate.estimate.microUsd = 0 ∧ candidate.estimate.costUsd = .zero

/-- The charge read back from a stored response. -/
theorem storedCharge_ok {candidate : QuotedCandidate} {actual : Totals}
    (h : Recorded candidate actual stored.cost) :
    ∃ charge, storedCharge stored = .ok charge
      ∧ (charge = actual ↔ SameCharge candidate stored) := by
  unfold storedCharge SameCharge
  cases h with
  | unpriced hentry hactual hstatus husd =>
    rw [husd]
    refine ⟨_, rfl, iff_of_true hactual.symm fun _ hsome => ?_⟩
    rw [hentry] at hsome
    cases hsome
  | estimated hentry hactual hstatus husd =>
    rw [husd, hactual]
    refine ⟨_, rfl, ?_⟩
    constructor
    · intro heq _ _
      cases hest : candidate.estimate
      rw [hest] at heq
      cases heq
      exact ⟨rfl, rfl⟩
    · intro h
      obtain ⟨hmicro, husd⟩ := h hstatus hentry
      rw [hmicro, husd]
      rfl
  | priced hstatus husd hceil =>
    rw [husd]
    refine ⟨actual, ?_, iff_of_true rfl fun hunknown => ?_⟩
    · simp only [hceil]
      rfl
    · rw [hstatus] at hunknown
      cases hunknown

/-- A recovered response is completed as its finalization would have
completed it exactly when the stored cost names its charge and the
recorded attempt is the finalized one. -/
theorem recovered_completion_iff {host : FinalizeHost}
    {request : Routing.Request}
    {quoted : QuotedPlan} {index : Nat} {operation : Operation}
    {reservedCostUsd : Option Usd} {call : Call}
    {response stored : Response} {complete : CompleteRequest}
    {candidate : QuotedCandidate} {results : ResultHost}
    {ref : Option BlobRef}
    (hcandidate : quoted.candidates[index]? = some candidate)
    (hfinal : finalizeSuccess host request quoted index operation
      reservedCostUsd call response = .stored stored complete)
    (hget : results.get = .ok stored) (hput : results.put stored = .ok ref)
    (first : Candidate) (firstPlace : Nat) (leaseUntil now : Int)
    (leaseSet : Bool) :
    resolveExisting results (marked operation (dispatchAttempt first (firstPlace + 1))
          leaseUntil) leaseSet now
        = .complete stored { complete with resultRef := ref } ↔
      SameCharge candidate stored
        ∧ SameAttempt first firstPlace candidate.candidate index call := by
  obtain ⟨candidate', actual, hstored⟩ := finalizeSuccess_stored hfinal
  cases hcandidate.symm.trans hstored.candidate_at
  obtain ⟨_, _, hcomplete⟩ := hstored.complete_eq
  obtain ⟨charge, hcharge, hsame⟩ := storedCharge_ok hstored.recorded
  have hresolve : resolveExisting results (marked operation (dispatchAttempt first (firstPlace + 1))
        leaseUntil) leaseSet now
      = completeStored results (marked operation
          (dispatchAttempt first (firstPlace + 1)) leaseUntil) stored := by
    unfold resolveExisting
    simp only [marked, hget]
  rw [hresolve, ← hsame, ← recoveredAttempt_iff hstored.resolvedModel]
  unfold completeStored
  rw [hcharge, hput, hcomplete]
  simp only [Resolution.complete.injEq, CompleteRequest.mk.injEq, true_and, and_true]
  constructor
  · intro ⟨_, _, hmicro, husd, hattempt⟩
    refine ⟨?_, hattempt⟩
    cases charge
    cases actual
    cases hmicro
    cases husd
    rfl
  · intro ⟨hcharge, hattempt⟩
    exact ⟨rfl, rfl, congrArg Totals.micro hcharge, congrArg Totals.usd hcharge, hattempt⟩

-- ===== a response without cost

theorem tenUsd_bounded : 10 * 10 ^ 12 ≤ 10 ^ 38 - 1 := by decide

/-- A candidate priced at ten micro-dollars a request. -/
def pricedCandidate : QuotedCandidate :=
  { candidate := sampleCandidate "a"
    entry := some (sampleEntry 10 tenUsd_bounded)
    estimate := { Budget.Estimate.zero with
      microUsd := 10, costUsd := ⟨10 * 10 ^ 12, tenUsd_bounded⟩ }
    reservations := [], classEntries := fun _ => none }

def pricedPlan : QuotedPlan :=
  ⟨[pricedCandidate], 10, ⟨10 * 10 ^ 12, tenUsd_bounded⟩⟩

/-- A response that used no tokens. -/
def sampleResponse (status : CostStatus) : Response :=
  { operationKey := "", operationId := "", status := ""
    route := ⟨"", "", "", "", ""⟩
    service := ⟨.unset, .unset, none, "", 0⟩
    usage := ⟨⟨0, 0, 0, 0, 0⟩, false, .absent⟩
    cost := ⟨status, none, none, "", ""⟩
    requestId := "r1", continuation := none }

/-- Stores that accept every write. -/
def sampleFinalizeHost : FinalizeHost :=
  { beat := fun _ => true, persistContinuation := fun _ => .ok "h"
    put := fun _ => .ok none }

/-- The finalization of a response at the only candidate. -/
def sampleFinalize (status : CostStatus) : Finalization :=
  finalizeSuccess sampleFinalizeHost sampleRequest pricedPlan 0
    sampleOperation none ⟨"gpt", "default"⟩ (sampleResponse status)

/-- The recovery of a response that was dispatched from a place. -/
def sampleRecovery (stored : Response) (firstPlace : Nat) : Resolution :=
  resolveExisting ⟨.ok stored, sampleFinalizeHost.put⟩ (marked sampleOperation
      (dispatchAttempt (sampleCandidate "a") (firstPlace + 1)) 1) true 0

/-- A response of unknown cost at a priced candidate is charged its
estimate by the worker that received it, and nothing by the one that
recovers it. A response finalized at another place of the plan than it
was dispatched from is recovered under another attempt number. -/
theorem unknown_cost_recovered_free :
    (∃ stored complete, sampleFinalize .unknown = .stored stored complete ∧ complete.actual = 10
      ∧ sampleRecovery stored 0 = .complete stored
        { complete with actual := 0, actualCostUsd := .zero })
      ∧ ∃ stored complete, sampleFinalize .known = .stored stored complete
        ∧ complete.attempt.attemptNumber = 1
        ∧ sampleRecovery stored 1 = .complete stored
          { complete with
            attempt := { complete.attempt with attemptNumber := 2 } } := by
  refine ⟨⟨_, _, rfl, ?_, ?_⟩, _, _, rfl, ?_, ?_⟩ <;> decide +kernel

/-- A response of known cost is recovered with its charge. -/
theorem known_cost_recovered : ∃ stored complete, sampleFinalize .known = .stored stored complete
      ∧ complete.actual = 10
      ∧ sampleRecovery stored 0 = .complete stored complete := by
  obtain ⟨stored, complete, hfinal, hactual, hcost, href⟩ :
      ∃ stored complete, sampleFinalize .known = .stored stored complete
        ∧ complete.actual = 10 ∧ stored.cost.status = .known
        ∧ complete.resultRef = none := by
    refine ⟨_, _, rfl, ?_, rfl, rfl⟩
    decide +kernel
  refine ⟨stored, complete, hfinal, hactual, ?_⟩
  have hcandidate : pricedPlan.candidates[0]? = some pricedCandidate := rfl
  have hput : (ResultHost.mk (.ok stored) sampleFinalizeHost.put).put stored = .ok none := rfl
  have h := recovered_completion_iff hcandidate hfinal rfl hput (sampleCandidate "a") 0 1 0 true
  rw [show complete = { complete with resultRef := none } by rw [← href]]
  refine h.mpr ⟨fun hunknown => ?_, rfl, rfl, rfl, rfl, rfl, nofun⟩
  rw [hcost] at hunknown
  cases hunknown

end LlmTemporalWorker.Engine
