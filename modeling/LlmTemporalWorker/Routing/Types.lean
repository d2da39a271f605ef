/-
Requests and candidates (llm/request.go, routing/types.go).

A plan lists the candidates a request may be sent to, in order. Of a
request this development sees what matching, estimating and recording
read. Its text is seen only through the input tokens counted for it:
the count is a function of the candidate, because tokenizers and
adapters differ.
-/
import Mathlib

namespace LlmTemporalWorker.Routing

/-- `ServiceClass`; `unset` is the empty string. -/
inductive ServiceClass where
  | unset
  | economy
  | standard
  | priority
deriving DecidableEq, Repr

/-- The string a class is. -/
def ServiceClass.text : ServiceClass → String
  | .unset => ""
  | .economy => "economy"
  | .standard => "standard"
  | .priority => "priority"

/-- `Candidate`: one route at one service class. -/
structure Candidate where
  (id routeId endpointId provider family region model : String)
  (requestedClass attemptedClass : ServiceClass)
  (fallbackIndex routeIndex contextTokens : Int)
  providerTier : String
deriving DecidableEq, Repr

/-- Go `state.Pinning`: the route and the account that a provider's state
belongs to. -/
structure Pinning where
  (provider endpointId accountRegion family modelLineage : String)
deriving DecidableEq, Repr

structure Request where
  (operationKey tenant project actor model : String)
  serviceClass : ServiceClass
  /-- `Output.MaxTokens`. -/
  maxTokens : Option Int
  /-- `Reasoning.TokenBudget`. -/
  tokenBudget : Option Int
  (webSearch webFetch codeExecution : Bool)
  /-- What `estimateInput` counts on this request. -/
  inputTokens : Candidate → Except String Int
  /-- What it counts on the request normalized and resolved to the
  candidate's model and class. -/
  resolvedTokens : Candidate → Except String Int
  /-- `mediaInputAllowance`. -/
  mediaAllowance : Int

end LlmTemporalWorker.Routing
