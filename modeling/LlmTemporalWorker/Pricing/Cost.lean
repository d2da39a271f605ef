/-
Price entries and the cost of a usage (pricing/entry.go, cost.go).

An entry prices six components. A component that the catalog left out
is unknown, which is not the same as free: a usage that needs it cannot
be priced. The cost of a usage is the sum of its components' charges,
kept exactly and in micro-dollars side by side.

What selects an entry in the catalog (its route, tier, times and
provenance) is left out: an entry is what a lookup returned.
-/
import LlmTemporalWorker.Pricing.Decimal

namespace LlmTemporalWorker.Pricing

-- ===== entries

inductive PriceComponent where
  | input
  | output
  | cacheRead
  | cacheWrite
  | reasoning
  | perRequest
deriving DecidableEq, Repr

/-- `UnitPrices`: token prices per million, and a price per request. -/
structure UnitPrices where
  (inputPerMillion outputPerMillion cacheReadPerMillion : DecimalUsd)
  (cacheWritePerMillion reasoningPerMillion perRequest : DecimalUsd)
deriving DecidableEq, Repr

/-- Every component free. -/
def UnitPrices.zero : UnitPrices :=
  ⟨.zero, .zero, .zero, .zero, .zero, .zero⟩

/-- `LongPromptPrices`: the tier of prompts over a threshold. -/
structure LongPromptPrices where
  minPromptTokens : Int
  prices : UnitPrices
deriving DecidableEq, Repr

structure Entry where
  family : String
  prices : UnitPrices
  longPrompt : Option LongPromptPrices
  unknownComponents : List PriceComponent
  version : String
deriving DecidableEq, Repr

def Entry.pricesFor (entry : Entry) (promptTokens : Int) : UnitPrices :=
  match entry.longPrompt with
  | some long =>
    if long.minPromptTokens < promptTokens then long.prices
    else entry.prices
  | none => entry.prices

def Entry.componentUnknown (entry : Entry) (component : PriceComponent) :
    Bool :=
  entry.unknownComponents.any (· == component)

/-- The families that report reasoning inside their output. -/
def inclusiveFamilies : List String :=
  ["openai_chat", "openai_responses", "anthropic_messages", "bedrock_messages", "bedrock_converse"]

def Entry.validateUsagePricing (entry : Entry) : Except String Unit := do
  if entry.longPrompt.any (·.minPromptTokens ≤ 0) then
    throw "long-prompt price threshold must be positive"
  if entry.family ∈ inclusiveFamilies then
    if entry.prices.reasoningPerMillion.numerator ≠ 0
        ∨ entry.longPrompt.any (·.prices.reasoningPerMillion.numerator != 0) then
      throw (entry.family ++ " reasoning price must be zero:"
        ++ " reasoning tokens are included in output usage")

-- ===== charges

/-- One priced component of a usage or of an estimate. -/
structure Component where
  component : PriceComponent
  price : DecimalUsd
  (units unitsPerPrice : Int)
  name : String
deriving DecidableEq, Repr

/-- `totalUSD` and `legacyTotal`. -/
structure Totals where
  usd : Usd
  micro : Nat
deriving DecidableEq, Repr

def Totals.zero : Totals := ⟨.zero, 0⟩

/-- The four steps of one component's charge, for the errors that name
them. -/
inductive ChargeStep where
  | exact
  | exactTotal
  | legacy
  | legacyTotal
deriving DecidableEq, Repr

/-- A failing step with its name. -/
def ChargeStep.run {α : Type} (step : ChargeStep)
    (result : Except String α) : Except (ChargeStep × String) α :=
  result.mapError fun e => (step, e)

/-- One turn of the loops of `CostFromUsage` and `EstimateCandidate`. -/
def charge (totals : Totals) (c : Component) : Except (ChargeStep × String) Totals := do
  let value ← ChargeStep.exact.run
    (ceilUsd c.price c.units c.unitsPerPrice)
  let usd ← ChargeStep.exactTotal.run (totals.usd.add value)
  let legacy ← ChargeStep.legacy.run
    (ceilMicroUsd c.price c.units c.unitsPerPrice)
  let micro ← ChargeStep.legacyTotal.run (microAdd totals.micro legacy)
  return ⟨usd, micro⟩

-- ===== costs

/-- `Usage`, the counters that are priced. -/
structure Usage where
  (inputTokens outputTokens cacheReadTokens cacheWriteTokens : Int)
  reasoningTokens : Int
deriving DecidableEq, Repr

inductive CostMethod where
  | providerReported
  | catalogUsage
  | reconstructedUsage
  | retainedReservation
deriving DecidableEq, Repr

/-- The string a method is. -/
def CostMethod.text : CostMethod → String
  | .providerReported => "provider_reported"
  | .catalogUsage => "catalog_usage"
  | .reconstructedUsage => "reconstructed_usage"
  | .retainedReservation => "retained_reservation"

/-- `Cost`; a cost that was never computed has no method. -/
structure Cost where
  usd : Usd
  micro : Nat
  method : Option CostMethod
  catalogVersion : String
deriving DecidableEq, Repr

def maxInt64 : Int := 2 ^ 63 - 1

/-- The prompt that selects the tier: it saturates. -/
def Usage.prompt (usage : Usage) : Int :=
  [usage.inputTokens, usage.cacheReadTokens, usage.cacheWriteTokens].foldl (fun prompt units =>
      if 0 < units then min prompt (maxInt64 - units) + units else prompt)
    0

/-- The components of a usage, in the order they are charged. -/
def Usage.components (usage : Usage) (prices : UnitPrices) : List Component :=
  [⟨.input, prices.inputPerMillion, usage.inputTokens, 1000000, "input"⟩,
    ⟨.output, prices.outputPerMillion, usage.outputTokens, 1000000, "output"⟩,
    ⟨.cacheRead, prices.cacheReadPerMillion, usage.cacheReadTokens, 1000000, "cache_read"⟩,
    ⟨.cacheWrite, prices.cacheWritePerMillion, usage.cacheWriteTokens, 1000000, "cache_write"⟩,
    ⟨.reasoning, prices.reasoningPerMillion, usage.reasoningTokens, 1000000, "reasoning"⟩,
    -- charged once, not per million
    ⟨.perRequest, prices.perRequest, 1, 1, "per_request"⟩]

/-- How `CostFromUsage` words a failing step. -/
def ChargeStep.usageText (name : String) : ChargeStep × String → String
  | (.exact, e) => "usage " ++ name ++ ": " ++ e
  | (.exactTotal, e) => "usage " ++ name ++ " USD total: " ++ e
  | (.legacy, e) =>
    "usage " ++ name ++ " microUSD compatibility conversion: " ++ e
  | (.legacyTotal, e) =>
    "usage " ++ name ++ " microUSD compatibility total: " ++ e

/-- One turn of the loop of `CostFromUsage`. -/
def chargeUsage (entry : Entry) (totals : Totals) (c : Component) : Except String Totals := do
  if c.units < 0 then throw ("usage " ++ c.name ++ " is negative")
  if 0 < c.units ∧ entry.componentUnknown c.component then
    throw ("usage " ++ c.name ++ " has no known USD catalog price")
  (charge totals c).mapError (ChargeStep.usageText c.name)

def costFromUsage (entry : Entry) (usage : Usage) : Except String Cost := do
  entry.validateUsagePricing
  let prices := entry.pricesFor usage.prompt
  let totals ← (usage.components prices).foldlM (chargeUsage entry)
    Totals.zero
  return ⟨totals.usd, totals.micro, some .catalogUsage, entry.version⟩

-- ===== coverage

theorem ChargeStep.run_ok {α : Type} {step : ChargeStep}
    {result : Except String α} {a : α} (h : step.run result = .ok a) :
    result = .ok a := by
  cases result with
  | error e => cases h
  | ok b =>
    cases h
    rfl

/-- A pair of totals that can be reserved: within the range of the
legacy stores, and not less than the exact amount. -/
structure Totals.Safe (totals : Totals) : Prop where
  covers : Covers totals.micro totals.usd
  safe : totals.micro ≤ nanoUsdSafeLimit

theorem Totals.Safe.zero : Totals.zero.Safe := ⟨Nat.le_refl _, by decide⟩

/-- A component's charge keeps the totals reservable. -/
theorem Totals.Safe.charge {totals after : Totals} {c : Component}
    (hsafe : totals.Safe) (h : charge totals c = .ok after) :
    after.Safe := by
  obtain ⟨value, hvalue, h⟩ := Lib.bind_ok h
  obtain ⟨usd, husd, h⟩ := Lib.bind_ok h
  obtain ⟨legacy, hlegacy, h⟩ := Lib.bind_ok h
  obtain ⟨micro, hmicro, h⟩ := Lib.bind_ok h
  cases h
  have hcharge := covers_charge (ChargeStep.run_ok hvalue) (ChargeStep.run_ok hlegacy)
  have htotal := ChargeStep.run_ok hmicro
  exact ⟨hsafe.covers.add hcharge (ChargeStep.run_ok husd) htotal, (microAdd_ok_iff.mp htotal).2⟩

end LlmTemporalWorker.Pricing
