/-
Budget policies and their windows (budget/policy.go, match.go,
window.go).

A policy applies to the requests its matcher admits and charges each of
its windows. A window is divided into buckets of one length; a charge
goes to the bucket of the time it is made at.
-/
import LlmTemporalWorker.Pricing.Usd
import LlmTemporalWorker.Routing.Types

namespace LlmTemporalWorker.Budget

open Pricing (Usd)
open Routing (ServiceClass Candidate)

-- ===== windows

/-- `Window`: lengths in nanoseconds. -/
structure Window where
  id : String
  (duration bucket : Int)
  limitUsd : Usd
  limit : Int
deriving DecidableEq, Repr

/-- `FloorDiv`; a divisor that is not positive stops the program. -/
def floorDiv (value divisor : Int) : Except String Int :=
  if divisor ≤ 0 then .error "floor division divisor must be positive"
  else .ok (value / divisor)

/-- `Window.Range`: the first and the last bucket of the window that ends
at a time. -/
def Window.range (window : Window) (at_ : Int) : Except String (Int × Int) :=
  do
    let current ← floorDiv at_ window.bucket
    let first ← floorDiv (at_ - window.duration) window.bucket
    return (first, current)

-- ===== policies

structure MatchContext where
  (tenant project actor environment logicalModel endpointId : String)
  serviceClass : ServiceClass
deriving DecidableEq, Repr

structure Matcher where
  (tenant project actorPrefix environment logicalModel endpointId : String)
  serviceClass : ServiceClass
deriving DecidableEq, Repr

structure Policy where
  id : String
  match_ : Matcher
  windows : List Window
deriving DecidableEq, Repr

def matchExact (rule value : String) : Bool :=
  if rule == "" || rule == "*" then true
  else value != "" && rule == value

def Matcher.matches (matcher : Matcher) (value : MatchContext) : Bool :=
  if !matchExact matcher.tenant value.tenant
      || !matchExact matcher.project value.project
      || !matchExact matcher.environment value.environment
      || !matchExact matcher.logicalModel value.logicalModel
      || !matchExact matcher.endpointId value.endpointId then false
  else if matcher.actorPrefix != "" && matcher.actorPrefix != "*"
      && !(matcher.actorPrefix.toList.isPrefixOf value.actor.toList) then
    false
  else if matcher.serviceClass != .unset
      && matcher.serviceClass != value.serviceClass then false
  else true

/-- `MatchedWindow`; the context it matched is not read again. -/
structure MatchedWindow where
  policyId : String
  window : Window
deriving DecidableEq, Repr

def matchPolicies (policies : List Policy) (context : MatchContext) : List MatchedWindow :=
  policies.flatMap fun policy =>
    if policy.match_.matches context then
      policy.windows.map (⟨policy.id, ·⟩)
    else []

def contextFor (request : Routing.Request) (candidate : Candidate)
    (environment : String) : MatchContext :=
  { tenant := request.tenant, project := request.project
    actor := request.actor, environment := environment
    logicalModel := request.model, endpointId := candidate.endpointId
    serviceClass :=
      if candidate.attemptedClass = .unset then request.serviceClass
      else candidate.attemptedClass }

theorem mem_matchPolicies {policies : List Policy} {context : MatchContext}
    {matched : MatchedWindow}
    (h : matched ∈ matchPolicies policies context) :
    ∃ policy ∈ policies, matched.policyId = policy.id ∧ matched.window ∈ policy.windows := by
  obtain ⟨policy, hpolicy, h⟩ := List.mem_flatMap.mp h
  split at h
  · obtain ⟨window, hwindow, rfl⟩ := List.mem_map.mp h
    exact ⟨policy, hpolicy, rfl, hwindow⟩
  · cases h

end LlmTemporalWorker.Budget
