/-
The reservation estimate of a candidate (budget/estimate.go, context.go,
llm/hosted_tools.go).

Before a request is sent, its cost is bounded from above: the input
tokens counted for it with an allowance for media and hosted tools, the
output cap and the reasoning cap, each at the candidate's prices, plus
a fee for hosted tools, times a safety ratio. The estimate carries the
bound twice, exactly and in micro-dollars.
-/
import LlmTemporalWorker.Pricing.Cost
import LlmTemporalWorker.Routing.Types

namespace LlmTemporalWorker.Budget

open Pricing
open Routing (Candidate)

-- ===== errors

/-- The estimator's errors: the two a plan skips a candidate for, and
the rest. -/
inductive EstimateError where
  | contextLimit
  | unusablePrice (reason : String)
  | other (reason : String)
deriving DecidableEq, Repr

/-- A failure that has no sentinel. -/
def plainly {α : Type} (result : Except String α) : Except EstimateError α :=
  result.mapError .other

/-- A failure marked `ErrUnusablePrice`. -/
def unusable {α : Type} (about : String) (result : Except String α) : Except EstimateError α :=
  result.mapError fun e => .unusablePrice (about ++ e)

-- ===== tokens

/-- `Estimator`; `tokenizer` says that an exact one is configured. -/
structure Estimator where
  safetyRatio : Option ℚ
  (maxOutput maxReasoning : Int)
  tokenizer : Bool

variable (estimator : Estimator) (request : Routing.Request) (candidate : Candidate)

def Estimator.outputLimit : Except String Int :=
  let limit := if estimator.maxOutput ≤ 0 then 1000 else estimator.maxOutput
  let limit := request.maxTokens.getD limit
  if limit ≤ 0 ∨ 2 ^ 31 - 1 < limit then
    .error "output token limit must be between 1 and 2147483647"
  else .ok limit

def validateContextCounts (limit input output : Int) : Except EstimateError Unit :=
  if limit < 0 ∨ input < 0 ∨ output < 0 then
    .error (.other "context limit and token counts must not be negative")
  else if limit = 0 then .ok ()
  else if limit < input then .error .contextLimit
  else if limit - input < output then .error .contextLimit
  else .ok ()

def Estimator.validateContext : Except EstimateError Unit := do
  if candidate.contextTokens ≠ 0 then
    let input ← plainly (request.resolvedTokens candidate)
    let output ← plainly (estimator.outputLimit request)
    validateContextCounts candidate.contextTokens input output

def saturatingAdd (left right : Int) : Int :=
  if 0 < right ∧ maxInt64 - right < left then maxInt64 else left + right

/-- `addMediaAllowance`: capped at the room the context leaves. -/
def addMediaAllowance (input allowance contextTokens output : Int) : Int :=
  if allowance ≤ 0 then input
  else if 0 < contextTokens then
    if contextTokens ≤ input then input
    else if contextTokens - input ≤ output then input
    else saturatingAdd input (min allowance (contextTokens - input - output))
  else saturatingAdd input allowance

def maxWebSearchCalls : Int := 3

/-- The loop of `hostedResearchInput`: the continuations of the steps
`step` and on. -/
def researchLoop (input output resultTokens contextTokens : Int) : Nat → Int → Int → Int
  | 0, _, total => total
  | calls + 1, step, total =>
    let continuation := saturatingAdd input (saturatingAdd (step * resultTokens) output)
    let continuation := min continuation (contextTokens - output)
    researchLoop input output resultTokens contextTokens calls (step + 1)
      (saturatingAdd total continuation)

def hostedResearchInput (request : Routing.Request) (candidate : Candidate)
    (input output : Int) : Int :=
  let calls := (if request.webSearch then maxWebSearchCalls else 0)
    + (if request.webFetch then maxWebSearchCalls else 0)
  let resultTokens :=
    if request.webFetch then 10000 else if request.webSearch then 8192 else 0
  let calls := if candidate.family = "anthropic_messages" then calls
    else min calls maxWebSearchCalls
  researchLoop input output resultTokens candidate.contextTokens calls.toNat 1 input

/-- The input and output tokens with the allowance for hosted tools. -/
def hostedTokens (request : Routing.Request) (candidate : Candidate)
    (input output : Int) : Except EstimateError (Int × Int) :=
  if request.webSearch || request.webFetch || request.codeExecution then
    if candidate.contextTokens ≤ 0 then
      .error (.unusablePrice "hosted tools require a known context ceiling")
    else if request.codeExecution then
      let rounds : Int :=
        if candidate.family = "anthropic_messages" then 20 else 4
      if maxInt64 / rounds < candidate.contextTokens
          ∨ maxInt64 / rounds < output then
        .error (.other "hosted tool token allowance overflows")
      else .ok (candidate.contextTokens * rounds, output * rounds)
    else .ok (hostedResearchInput request candidate input output, output)
  else .ok (input, output)

/-- `HostedToolReservation`: the fees, in 10⁻¹⁸ dollars. -/
def hostedToolReservation (request : Routing.Request) (family : String) : Usd :=
  let search := if request.webSearch then 3 else 0
  let execution := if request.codeExecution then
    if family = "anthropic_messages" then 5 else 9 else 0
  ⟨(search + execution) * 10 ^ 16, by
    dsimp only [search, execution]
    split <;> split <;> first | decide | (split <;> decide)⟩

-- ===== estimate

structure Estimate where
  candidateId : String
  (inputTokens outputTokens reasoningTokens cacheWriteTokens : Int)
  microUsd : Nat
  costUsd : Usd
  catalogVersion : String
deriving DecidableEq, Repr

/-- The zero value. -/
def Estimate.zero : Estimate := ⟨"", 0, 0, 0, 0, 0, .zero, ""⟩

/-- The tokens an estimate prices. -/
structure TokenBounds where
  (input output reasoning : Int)
  /-- The prompt that selects the price tier. -/
  prompt : Int
deriving DecidableEq, Repr

/-- The token bounds of `EstimateCandidate`. -/
def Estimator.tokenBounds : Except EstimateError TokenBounds := do
  let input ← plainly (request.inputTokens candidate)
  let output ← plainly (estimator.outputLimit request)
  let reasoning := max (request.tokenBudget.getD 0) estimator.maxReasoning
  let promptBound := if estimator.tokenizer then input
    else saturatingAdd input request.mediaAllowance
  let input := if estimator.tokenizer then input
    else addMediaAllowance input request.mediaAllowance candidate.contextTokens output
  validateContextCounts candidate.contextTokens input output
  let (input, output) ← hostedTokens request candidate input output
  return ⟨input, output, reasoning, max promptBound input⟩

/-- The components of an estimate, in the order they are charged. All
input may be written to the cache; none is assumed to be read from it. -/
def TokenBounds.components (tokens : TokenBounds) (prices : UnitPrices) : List Component :=
  [⟨.input, prices.inputPerMillion, tokens.input, 1000000, "input"⟩,
    ⟨.output, prices.outputPerMillion, tokens.output, 1000000, "output"⟩,
    ⟨.reasoning, prices.reasoningPerMillion, tokens.reasoning, 1000000, "reasoning"⟩,
    ⟨.cacheWrite, prices.cacheWritePerMillion, tokens.input, 1000000, "cache_write"⟩,
    ⟨.perRequest, prices.perRequest, 1, 1, "per_request"⟩]

/-- How `EstimateCandidate` reports a failing step. -/
def estimateStepError (name : String) : ChargeStep × String → EstimateError
  | (.exact, e) => .other ("estimate " ++ name ++ ": " ++ e)
  | (.exactTotal, e) => .other e
  | (.legacy, e) => .unusablePrice ("estimate " ++ name
      ++ " microUSD compatibility conversion: " ++ e)
  | (.legacyTotal, e) => .unusablePrice ("estimate " ++ name
      ++ " microUSD compatibility total: " ++ e)

/-- One turn of the loop of `EstimateCandidate`. -/
def chargeEstimate (entry : Entry) (totals : Totals) (c : Component) :
    Except EstimateError Totals :=
  if 0 < c.units ∧ entry.componentUnknown c.component then
    .error (.unusablePrice ("estimate " ++ c.name ++ " has no known USD catalog price"))
  else (Pricing.charge totals c).mapError (estimateStepError c.name)

/-- The fee for hosted tools. -/
def addAllowance (totals : Totals) (allowance : Usd) : Except EstimateError Totals := do
  let usd ← plainly (totals.usd.add allowance)
  let allowanceMicro ← plainly (ceilMicroFromUsd allowance)
  let micro ← plainly (microAdd totals.micro allowanceMicro)
  return ⟨usd, micro⟩

/-- The safety ratio. -/
def applyRatio (totals : Totals) : Option ℚ → Except EstimateError Totals
  | none => .ok totals
  | some ratio =>
    if ratio ≤ 0 then .error (.other "safety ratio must be positive")
    else do
      let usd ← plainly (totals.usd.mulRatio ratio.num ratio.den)
      let micro ← unusable
        "estimate microUSD compatibility multiplier: "
        (multiplyCeil totals.micro ratio)
      return ⟨usd, micro⟩

def Estimator.estimateCandidate (entry : Entry) : Except EstimateError Estimate := do
  unusable "" entry.validateUsagePricing
  let tokens ← estimator.tokenBounds request candidate
  let prices := entry.pricesFor tokens.prompt
  let totals ← (tokens.components prices).foldlM (chargeEstimate entry)
    Totals.zero
  let totals ← addAllowance totals
    (hostedToolReservation request candidate.family)
  let totals ← applyRatio totals estimator.safetyRatio
  return { candidateId := candidate.id
           inputTokens := tokens.input, outputTokens := tokens.output
           reasoningTokens := tokens.reasoning
           cacheWriteTokens := tokens.input
           microUsd := totals.micro, costUsd := totals.usd
           catalogVersion := entry.version }

/-- One candidate's turn in `EstimatePlan`. -/
def Estimator.plannedEstimate (entries : String → Option Entry) (candidate : Candidate) :
    Except EstimateError Estimate :=
  match entries candidate.id with
  | none => .error (.other ("price missing for candidate " ++ candidate.id))
  | some entry => estimator.estimateCandidate request candidate entry

/-- The loop of `EstimatePlan` after its first candidate. -/
def Estimator.planLoop (estimator : Estimator) (request : Routing.Request)
    (entries : String → Option Entry) (maximum : Estimate) :
    List Candidate → Except EstimateError Estimate
  | [] => .ok maximum
  | candidate :: rest => do
      let estimate ← estimator.plannedEstimate request entries candidate
      estimator.planLoop request entries
        (if maximum.costUsd.units < estimate.costUsd.units then estimate
          else maximum) rest

/-- `EstimatePlan`: the estimate of the costliest candidate, the first of
them also when it is free. -/
def Estimator.estimatePlan (candidates : List Candidate) (entries : String → Option Entry) :
    Except EstimateError Estimate :=
  match candidates with
  | [] => .error (.other "cannot estimate an empty route plan")
  | first :: rest => do
      let estimate ← estimator.plannedEstimate request entries first
      estimator.planLoop request entries estimate rest

-- ===== coverage

theorem mapError_ok {α ε ε' : Type} {x : Except ε α} {f : ε → ε'} {a : α}
    (h : x.mapError f = .ok a) : x = .ok a := by
  cases x with
  | error e => cases h
  | ok b =>
    cases h
    rfl

variable {entry : Entry} {totals after : Totals}

theorem safe_chargeEstimate {c : Component} (hsafe : totals.Safe)
    (h : chargeEstimate entry totals c = .ok after) : after.Safe := by
  unfold chargeEstimate at h
  split at h
  · cases h
  · exact hsafe.charge (mapError_ok h)

/-- The components of an estimate, charged one after another. -/
theorem safe_foldlM {components : List Component} (hsafe : totals.Safe)
    (h : components.foldlM (chargeEstimate entry) totals = .ok after) :
    after.Safe := by
  induction components generalizing totals with
  | nil =>
    cases h
    exact hsafe
  | cons c rest ih =>
    obtain ⟨next, hnext, h⟩ := Lib.bind_ok h
    exact ih (safe_chargeEstimate hsafe hnext) h

theorem safe_addAllowance {allowance : Usd} (hsafe : totals.Safe)
    (h : addAllowance totals allowance = .ok after) :
    after.Safe := by
  obtain ⟨usd, husd, h⟩ := Lib.bind_ok h
  obtain ⟨allowanceMicro, hallowance, h⟩ := Lib.bind_ok h
  obtain ⟨micro, hmicro, h⟩ := Lib.bind_ok h
  cases h
  have hcover := covers_ceil (mapError_ok hallowance)
  exact ⟨hsafe.covers.add hcover (mapError_ok husd) (mapError_ok hmicro),
    (microAdd_ok_iff.mp (mapError_ok hmicro)).2⟩

theorem safe_applyRatio {ratio : Option ℚ} (hsafe : totals.Safe)
    (h : applyRatio totals ratio = .ok after) :
    after.Safe := by
  cases ratio with
  | none =>
    cases h
    exact hsafe
  | some ratio =>
    by_cases hpos : ratio ≤ 0
    · rw [applyRatio, if_pos hpos] at h
      cases h
    rw [applyRatio, if_neg hpos] at h
    obtain ⟨usd, husd, h⟩ := Lib.bind_ok h
    obtain ⟨micro, hmicro, h⟩ := Lib.bind_ok h
    cases h
    have hresult := mapError_ok hmicro
    exact ⟨hsafe.covers.ratio (mapError_ok husd) hresult, (multiplyCeil_ok hresult).2⟩

/-- An estimate is reservable: its micro-dollars are in the range of the
legacy stores and cover its exact amount. -/
theorem Estimator.estimateCandidate_safe {estimator : Estimator}
    {request : Routing.Request} {candidate : Candidate}
    {estimate : Estimate}
    (h : estimator.estimateCandidate request candidate entry = .ok estimate) :
    Covers estimate.microUsd estimate.costUsd ∧ estimate.microUsd ≤ nanoUsdSafeLimit := by
  obtain ⟨_, _, h⟩ := Lib.bind_ok h
  obtain ⟨tokens, _, h⟩ := Lib.bind_ok h
  obtain ⟨sum, hsum, h⟩ := Lib.bind_ok h
  obtain ⟨withFee, hfee, h⟩ := Lib.bind_ok h
  obtain ⟨totals, htotals, h⟩ := Lib.bind_ok h
  cases h
  have hsafe := safe_applyRatio (safe_addAllowance (safe_foldlM Totals.Safe.zero hsum) hfee) htotals
  exact ⟨hsafe.covers, hsafe.safe⟩

end LlmTemporalWorker.Budget
