/-
What an estimate covers (budget/estimate.go, pricing/cost.go).

An estimate is reserved before a request is sent, a cost is charged
after it. Two facts make the reservation safe. The cost of a usage
within the estimated tokens is at most the estimate, up to one unit of
10⁻¹⁸ dollars; and the integers that cross to the stores are never
below the exact amounts they stand for, nor limits above theirs.

# Shape of the argument

A run of charges is a sum of one rounded quotient per component
(`Charged`). A cost prices the uncached and the cached input in two
components where an estimate prices all input in one: two roundings
against one, which is the one unit. Everything else is a rounded
quotient against a larger one, also across price tiers, because a usage
that reaches the long tier is within an estimate that does.
-/
import LlmTemporalWorker.Budget.Estimate

namespace LlmTemporalWorker.Pricing

-- ===== prices as units

/-- A price in 10⁻¹⁸ dollars. -/
def DecimalUsd.units (price : DecimalUsd) : Nat :=
  price.numerator * 10 ^ (18 - price.scale)

/-- What a component costs, rounded up to `scale` times 10⁻¹⁸ dollars. -/
def Component.rounded (scale : Nat) (c : Component) : Nat :=
  quoUp (c.price.units * c.units.toNat) (scale * c.unitsPerPrice.toNat)

/-- What a list of components costs, each rounded by itself. -/
def roundedCost (scale : Nat) (components : List Component) : Nat :=
  (components.map (Component.rounded scale)).sum

/-- The scale of the exact amounts. -/
def exactScale : Nat := 1

/-- The scale of micro-dollars. -/
def microScale : Nat := 10 ^ 12

variable {n d : Nat} {totals after : Totals} {c : Component} {entry : Entry}
  {components : List Component}

/-- A common factor does not change a rounded quotient. -/
theorem quoUp_mul_right {k : Nat} (hk : 0 < k) : quoUp (n * k) (d * k) = quoUp n d := by
  unfold quoUp
  rw [Nat.mul_mod_mul_right, Nat.mul_div_mul_right n d hk]
  by_cases hrem : n % d = 0
  · simp [hrem]
  · simp [hrem, hk.ne']

/-- A rounding adds less than one divisor. -/
theorem quoUp_mul_lt (hd : 0 < d) : quoUp n d * d < n + d := by
  have hsplit := Nat.div_add_mod n d
  have hcomm : d * (n / d) = n / d * d := Nat.mul_comm _ _
  unfold quoUp
  split
  · rw [Nat.add_mul]
    omega
  · omega

/-- Two roundings against one. -/
theorem quoUp_add_le {m : Nat} (hd : 0 < d) : quoUp n d + quoUp m d ≤ quoUp (n + m) d + 1 := by
  have hn := quoUp_mul_lt (n := n) hd
  have hm := quoUp_mul_lt (n := m) hd
  have hsum := le_quoUp_mul (n := n + m) hd
  have hlt : (quoUp n d + quoUp m d) * d < (quoUp (n + m) d + 2) * d := by
    rw [Nat.add_mul, Nat.add_mul]
    omega
  have := Nat.lt_of_mul_lt_mul_right hlt
  omega

theorem DecimalUsd.units_mul_pow (price : DecimalUsd) :
    price.units * 10 ^ price.scale = price.numerator * 10 ^ 18 := by
  unfold DecimalUsd.units
  rw [Nat.mul_assoc, ← Nat.pow_add, Nat.sub_add_cancel price.scale_le]

/-- The rounded quotient of `CeilUSD`. -/
theorem Component.rounded_exact (c : Component) :
    quoUp (c.price.numerator * c.units.toNat * 10 ^ 18) (10 ^ c.price.scale * c.unitsPerPrice.toNat)
      = c.rounded exactScale := by
  have hpow : 0 < 10 ^ c.price.scale := Nat.pow_pos (by decide)
  have hnum : c.price.numerator * c.units.toNat * 10 ^ 18
      = c.price.units * c.units.toNat * 10 ^ c.price.scale := by
    rw [Nat.mul_right_comm, ← c.price.units_mul_pow, Nat.mul_right_comm]
  rw [hnum, Nat.mul_comm (10 ^ c.price.scale), quoUp_mul_right hpow,
    Component.rounded, exactScale, Nat.one_mul]

/-- The rounded quotient of `CeilMicroUSD`. -/
theorem Component.rounded_micro (c : Component) :
    quoUp (c.price.numerator * c.units.toNat * 1000000) (10 ^ c.price.scale * c.unitsPerPrice.toNat)
      = c.rounded microScale := by
  have hpow : 0 < 10 ^ c.price.scale := Nat.pow_pos (by decide)
  have hscale : 0 < 10 ^ 12 := by decide
  have hnum : c.price.numerator * c.units.toNat * 1000000 * 10 ^ 12
      = c.price.units * c.units.toNat * 10 ^ c.price.scale := by
    rw [Nat.mul_assoc, show 1000000 * 10 ^ 12 = 10 ^ 18 from by decide,
      Nat.mul_right_comm, ← c.price.units_mul_pow, Nat.mul_right_comm]
  have hden : 10 ^ c.price.scale * c.unitsPerPrice.toNat * 10 ^ 12
      = 10 ^ 12 * c.unitsPerPrice.toNat * 10 ^ c.price.scale := by
    rw [Nat.mul_comm, Nat.mul_comm (10 ^ c.price.scale), ← Nat.mul_assoc]
  rw [← quoUp_mul_right hscale, hnum, hden, quoUp_mul_right hpow]
  rfl

-- ===== runs of charges

/-- What the totals are once the components have been charged. -/
structure Charged (totals after : Totals) (components : List Component) :
    Prop where
  exact : after.usd.units = totals.usd.units + roundedCost exactScale components
  legacy : after.micro = totals.micro + roundedCost microScale components
  counted : ∀ c ∈ components, 0 ≤ c.units

theorem roundedCost_cons (scale : Nat) (c : Component) (rest : List Component) :
    roundedCost scale (c :: rest) = c.rounded scale + roundedCost scale rest := by
  simp [roundedCost]

theorem Charged.nil (totals : Totals) : Charged totals totals [] :=
  ⟨rfl, rfl, List.forall_mem_nil _⟩

/-- One turn of either loop. -/
theorem Charged.cons {next : Totals} {rest : List Component}
    (h : charge totals c = .ok next) (hrest : Charged next after rest) :
    Charged totals after (c :: rest) := by
  obtain ⟨value, hvalue, h⟩ := Lib.bind_ok h
  obtain ⟨usd, husd, h⟩ := Lib.bind_ok h
  obtain ⟨legacy, hlegacy, h⟩ := Lib.bind_ok h
  obtain ⟨micro, hmicro, h⟩ := Lib.bind_ok h
  cases h
  have hvalue := ChargeStep.run_ok hvalue
  unfold ceilUsd at hvalue
  split at hvalue
  · cases hvalue
  rename_i hsign
  unfold ceilMicroUsd at hlegacy
  rw [if_neg hsign] at hlegacy
  simp only at hlegacy
  split at hlegacy
  · cases hlegacy
  split at hlegacy
  · cases hlegacy
  cases hlegacy
  refine ⟨?_, ?_, ?_⟩
  · rw [hrest.exact, Usd.ofUnits_ok (ChargeStep.run_ok husd),
      Usd.ofUnits_ok hvalue, c.rounded_exact, roundedCost_cons,
      Nat.add_assoc]
  · rw [hrest.legacy, (microAdd_ok_iff.mp (ChargeStep.run_ok hmicro)).1,
      c.rounded_micro, roundedCost_cons, Nat.add_assoc]
  · exact List.forall_mem_cons.mpr ⟨by omega, hrest.counted⟩

/-- A component whose sums stay in both ranges is charged. -/
theorem exists_charge (totals : Totals) (hunits : 0 ≤ c.units) (hper : 0 < c.unitsPerPrice)
    (hexact : totals.usd.units + c.rounded exactScale ≤ 10 ^ 38 - 1)
    (hlegacy : totals.micro + c.rounded microScale ≤ nanoUsdSafeLimit) :
    ∃ after, charge totals c = .ok after := by
  have hsign : ¬(c.units < 0 ∨ c.unitsPerPrice ≤ 0) := by omega
  have hlimit : nanoUsdSafeLimit < 2 ^ 63 := by decide
  have hvalue : ceilUsd c.price c.units c.unitsPerPrice = .ok ⟨c.rounded exactScale, by omega⟩ := by
    unfold ceilUsd Usd.ofUnits
    rw [if_neg hsign, c.rounded_exact, dif_pos (by omega)]
  have hmicro : ceilMicroUsd c.price c.units c.unitsPerPrice = .ok (c.rounded microScale) := by
    unfold ceilMicroUsd
    rw [if_neg hsign, c.rounded_micro]
    rw [if_neg (by omega), if_neg (by omega)]
  have husd : totals.usd.add ⟨c.rounded exactScale, by omega⟩
      = .ok ⟨totals.usd.units + c.rounded exactScale, hexact⟩ := by
    unfold Usd.add Usd.ofUnits
    rw [dif_pos hexact]
  have htotal : microAdd totals.micro (c.rounded microScale)
      = .ok (totals.micro + c.rounded microScale) :=
    microAdd_ok_iff.mpr ⟨rfl, by omega⟩
  refine ⟨⟨⟨_, hexact⟩, totals.micro + c.rounded microScale⟩, ?_⟩
  unfold charge
  rw [hvalue, hmicro]
  simp only [ChargeStep.run, Except.mapError, bind, Except.bind, husd, htotal]
  rfl

-- ===== usages

/-- A turn of the loop of `CostFromUsage` that passes is a charge. -/
theorem charge_of_chargeUsage (h : chargeUsage entry totals c = .ok after) :
    charge totals c = .ok after := by
  obtain ⟨-, h⟩ := Lib.refusal_ok h
  obtain ⟨-, h⟩ := Lib.refusal_ok h
  cases hcharge : charge totals c with
  | error e =>
    rw [hcharge] at h
    cases h
  | ok charged =>
    rw [hcharge] at h
    cases h
    rfl

theorem charged_usage (h : components.foldlM (chargeUsage entry) totals = .ok after) :
    Charged totals after components := by
  induction components generalizing totals with
  | nil =>
    cases h
    exact Charged.nil _
  | cons c rest ih =>
    obtain ⟨next, hnext, h⟩ := Lib.bind_ok h
    exact Charged.cons (charge_of_chargeUsage hnext) (ih h)

theorem safe_chargeUsages (hsafe : totals.Safe)
    (h : components.foldlM (chargeUsage entry) totals = .ok after) :
    after.Safe := by
  induction components generalizing totals with
  | nil =>
    cases h
    exact hsafe
  | cons c rest ih =>
    obtain ⟨next, hnext, h⟩ := Lib.bind_ok h
    exact ih (hsafe.charge (charge_of_chargeUsage hnext)) h

/-- What `chargeUsage` asks of a component. -/
structure Component.Chargeable (entry : Entry) (c : Component) : Prop where
  counted : 0 ≤ c.units
  quoted : 0 < c.unitsPerPrice
  known : 0 < c.units → entry.componentUnknown c.component = false

/-- Components whose sums stay in both ranges are charged. -/
theorem exists_chargeUsage (hok : ∀ c ∈ components, c.Chargeable entry)
    (hexact : totals.usd.units + roundedCost exactScale components ≤ 10 ^ 38 - 1)
    (hlegacy : totals.micro + roundedCost microScale components ≤ nanoUsdSafeLimit) :
    ∃ after, components.foldlM (chargeUsage entry) totals = .ok after := by
  induction components generalizing totals with
  | nil => exact ⟨totals, rfl⟩
  | cons c rest ih =>
    have hc := hok c List.mem_cons_self
    rw [roundedCost_cons] at hexact hlegacy
    obtain ⟨next, hnext⟩ := exists_charge totals hc.counted hc.quoted (by omega) (by omega)
    have hcharged := Charged.cons hnext (Charged.nil next)
    have husd := hcharged.exact
    have hmicro := hcharged.legacy
    rw [roundedCost_cons, roundedCost, List.map_nil, List.sum_nil, Nat.add_zero] at husd hmicro
    have hroom : next.usd.units + roundedCost exactScale rest ≤ 10 ^ 38 - 1 := by omega
    obtain ⟨after, hafter⟩ := ih (fun c' hc' => hok c' (List.mem_cons_of_mem _ hc')) hroom
      (by omega)
    refine ⟨after, ?_⟩
    have hknown : ¬(0 < c.units ∧ entry.componentUnknown c.component) := by
      rintro ⟨hpos, hunknown⟩
      rw [hc.known hpos] at hunknown
      cases hunknown
    have hturn : chargeUsage entry totals c = .ok next := by
      unfold chargeUsage
      rw [if_neg (by have := hc.counted; omega), if_neg hknown, hnext]
      rfl
    rw [List.foldlM_cons, hturn]
    exact hafter

-- ===== tiers

/-- Every component of one price list is at most the other's. -/
structure UnitPrices.AtMost (prices others : UnitPrices) : Prop where
  input : prices.inputPerMillion.units ≤ others.inputPerMillion.units
  output : prices.outputPerMillion.units ≤ others.outputPerMillion.units
  cacheRead : prices.cacheReadPerMillion.units ≤ others.cacheReadPerMillion.units
  cacheWrite : prices.cacheWritePerMillion.units ≤ others.cacheWritePerMillion.units
  reasoning : prices.reasoningPerMillion.units ≤ others.reasoningPerMillion.units
  perRequest : prices.perRequest.units ≤ others.perRequest.units

theorem UnitPrices.AtMost.refl (prices : UnitPrices) : prices.AtMost prices := by
  constructor <;> exact Nat.le_refl _

/-- The price lists of an entry, one per tier. -/
def Entry.tiers (entry : Entry) : List UnitPrices :=
  entry.prices :: (entry.longPrompt.map (·.prices)).toList

/-- Reading from the cache costs no more than uncached input. -/
def Entry.CacheReadAtMostInput (entry : Entry) : Prop :=
  ∀ prices ∈ entry.tiers, prices.cacheReadPerMillion.units ≤ prices.inputPerMillion.units

/-- The long tier costs at least as much as the base tier. -/
def Entry.LongAtLeastBase (entry : Entry) : Prop :=
  ∀ long ∈ entry.longPrompt, entry.prices.AtMost long.prices

theorem Entry.pricesFor_mem_tiers (entry : Entry) (promptTokens : Int) :
    entry.pricesFor promptTokens ∈ entry.tiers := by
  unfold Entry.pricesFor Entry.tiers
  cases entry.longPrompt with
  | none => exact List.mem_cons_self
  | some long =>
    dsimp only
    split
    · exact List.mem_cons_of_mem _ List.mem_cons_self
    · exact List.mem_cons_self

/-- A longer prompt is never in a cheaper tier. -/
theorem Entry.LongAtLeastBase.pricesFor {shorter longer : Int}
    (hlong : entry.LongAtLeastBase) (hle : shorter ≤ longer) :
    (entry.pricesFor shorter).AtMost (entry.pricesFor longer) := by
  unfold Entry.pricesFor
  cases htier : entry.longPrompt with
  | none => exact UnitPrices.AtMost.refl _
  | some long =>
    have hbase := hlong long htier
    dsimp only
    split
    · rw [if_pos (by omega)]
      exact UnitPrices.AtMost.refl _
    split
    · exact hbase
    · exact UnitPrices.AtMost.refl _

/-- No counter of a usage is negative. -/
structure Usage.Counted (usage : Usage) : Prop where
  input : 0 ≤ usage.inputTokens
  output : 0 ≤ usage.outputTokens
  cacheRead : 0 ≤ usage.cacheReadTokens
  cacheWrite : 0 ≤ usage.cacheWriteTokens
  reasoning : 0 ≤ usage.reasoningTokens

theorem Usage.counted_of_components {usage : Usage} {prices : UnitPrices}
    (h : ∀ c ∈ usage.components prices, 0 ≤ c.units) : usage.Counted := by
  simp only [Usage.components, List.forall_mem_cons] at h
  exact ⟨h.1, h.2.1, h.2.2.1, h.2.2.2.1, h.2.2.2.2.1⟩

/-- The prompt that selects the tier of a usage is at most its input. -/
theorem Usage.Counted.prompt_le {usage : Usage} (h : usage.Counted) :
    usage.prompt ≤ usage.inputTokens + usage.cacheReadTokens + usage.cacheWriteTokens := by
  have hinput := h.input
  have hread := h.cacheRead
  have hwrite := h.cacheWrite
  simp only [Usage.prompt, List.foldl_cons, List.foldl_nil]
  split <;> split <;> split <;> omega

end LlmTemporalWorker.Pricing

namespace LlmTemporalWorker.Budget

open Pricing
open Routing (Candidate)

-- ===== estimates

variable {scale : Nat} {usage : Usage} {tokens : TokenBounds}
  {entry : Entry} {totals after : Totals} {estimator : Estimator}
  {request : Routing.Request} {candidate : Candidate} {estimate : Estimate}
  {entries : String → Option Entry}

/-- A larger price or a larger count is not rounded to less. -/
theorem rounded_mono {c c' : Component} (hscale : 0 < scale) (hper : 0 < c.unitsPerPrice)
    (hsame : c.unitsPerPrice = c'.unitsPerPrice)
    (hprice : c.price.units ≤ c'.price.units) (hunits : c.units ≤ c'.units) :
    c.rounded scale ≤ c'.rounded scale := by
  unfold Component.rounded
  rw [← hsame]
  refine quoUp_mono (Nat.mul_pos hscale (by omega)) ?_
  exact Nat.mul_le_mul hprice (by omega)

theorem rounded_perMillion_le (component : PriceComponent) (name : String)
    {price other : DecimalUsd} {units bound : Int} (hscale : 0 < scale)
    (hprice : price.units ≤ other.units) (hunits : units ≤ bound) :
    Component.rounded scale ⟨component, price, units, 1000000, name⟩
      ≤ Component.rounded scale ⟨component, other, bound, 1000000, name⟩ :=
  rounded_mono hscale (by decide : (0 : Int) < 1000000) rfl hprice hunits

/-- Uncached and cached input, priced apart, against all input. -/
theorem rounded_input_le {input cached total : Int}
    {price cachePrice otherPrice : DecimalUsd} (hscale : 0 < scale)
    (hcounted : 0 ≤ input) (hcached : 0 ≤ cached)
    (htotal : input + cached ≤ total)
    (hcache : cachePrice.units ≤ price.units)
    (hprice : price.units ≤ otherPrice.units) :
    Component.rounded scale ⟨.input, price, input, 1000000, "input"⟩ + Component.rounded scale
          ⟨.cacheRead, cachePrice, cached, 1000000, "cache_read"⟩
      ≤ Component.rounded scale ⟨.input, otherPrice, total, 1000000, "input"⟩ + 1 := by
  have hd : 0 < scale * (1000000 : Int).toNat := Nat.mul_pos hscale (by decide)
  have hsum : price.units * input.toNat + cachePrice.units * cached.toNat
      ≤ otherPrice.units * total.toNat := by
    calc price.units * input.toNat + cachePrice.units * cached.toNat
        ≤ otherPrice.units * input.toNat + otherPrice.units * cached.toNat :=
          Nat.add_le_add (Nat.mul_le_mul_right _ hprice)
            (Nat.mul_le_mul_right _ (Nat.le_trans hcache hprice))
      _ = otherPrice.units * (input.toNat + cached.toNat) := (Nat.mul_add _ _ _).symm
      _ ≤ otherPrice.units * total.toNat := Nat.mul_le_mul_left _ (by omega)
  exact Nat.le_trans (quoUp_add_le hd) (Nat.add_le_add_right (quoUp_mono hd hsum) 1)

/-- A usage is within the tokens of an estimate. -/
structure Usage.Within (usage : Usage) (input output reasoning : Int) :
    Prop where
  input : usage.inputTokens + usage.cacheReadTokens + usage.cacheWriteTokens ≤ input
  output : usage.outputTokens ≤ output
  reasoning : usage.reasoningTokens ≤ reasoning

/-- The components of a usage against those of an estimate, at either
scale. -/
theorem roundedCost_usage_le {prices others : UnitPrices}
    (hscale : 0 < scale) (hcounted : usage.Counted)
    (hwithin : Usage.Within usage tokens.input tokens.output
      tokens.reasoning) (hcache : prices.cacheReadPerMillion.units
      ≤ prices.inputPerMillion.units) (hprices : prices.AtMost others) :
    roundedCost scale (usage.components prices)
      ≤ roundedCost scale (tokens.components others) + 1 := by
  have hin := hcounted.input
  have hread := hcounted.cacheRead
  have hwrite := hcounted.cacheWrite
  have htotal := hwithin.input
  have hsum : usage.inputTokens + usage.cacheReadTokens ≤ tokens.input := by
    omega
  have hinput := rounded_input_le hscale hin hread hsum hcache hprices.input
  have hwritten : usage.cacheWriteTokens ≤ tokens.input := by omega
  have houtput := rounded_perMillion_le .output "output" hscale hprices.output hwithin.output
  have hcacheWrite := rounded_perMillion_le .cacheWrite "cache_write" hscale hprices.cacheWrite
    hwritten
  have hreasoning := rounded_perMillion_le .reasoning "reasoning" hscale hprices.reasoning
    hwithin.reasoning
  have hrequest : Component.rounded scale ⟨.perRequest, prices.perRequest, 1, 1, "per_request"⟩
      ≤ Component.rounded scale ⟨.perRequest, others.perRequest, 1, 1, "per_request"⟩ :=
    rounded_mono hscale (by decide : (0 : Int) < 1) rfl hprices.perRequest
      (Int.le_refl _)
  simp only [roundedCost, Usage.components, TokenBounds.components,
    List.map_cons, List.map_nil, List.sum_cons, List.sum_nil]
  omega

/-- An estimate's charges, in the loop of `EstimateCandidate`. -/
theorem charged_estimate {components : List Component}
    (h : components.foldlM (chargeEstimate entry) totals = .ok after) :
    Charged totals after components ∧ ∀ c ∈ components, 0 < c.units →
        entry.componentUnknown c.component = false := by
  induction components generalizing totals with
  | nil =>
    cases h
    exact ⟨Charged.nil _, List.forall_mem_nil _⟩
  | cons c rest ih =>
    obtain ⟨next, hnext, h⟩ := Lib.bind_ok h
    obtain ⟨hcharged, hknown⟩ := ih h
    unfold chargeEstimate at hnext
    split at hnext
    · cases hnext
    rename_i hc
    refine ⟨Charged.cons (mapError_ok hnext) hcharged, ?_⟩
    intro c' hc' hpos
    rcases List.mem_cons.mp hc' with rfl | hc'
    · cases hunknown : entry.componentUnknown c'.component with
      | false => rfl
      | true => exact absurd ⟨hpos, hunknown⟩ hc
    · exact hknown c' hc' hpos

/-- A fee only adds. -/
theorem le_addAllowance {allowance : Usd} (h : addAllowance totals allowance = .ok after) :
    totals.usd.units ≤ after.usd.units ∧ totals.micro ≤ after.micro := by
  obtain ⟨usd, husd, h⟩ := Lib.bind_ok h
  obtain ⟨allowanceMicro, -, h⟩ := Lib.bind_ok h
  obtain ⟨micro, hmicro, h⟩ := Lib.bind_ok h
  cases h
  have husd := Usd.ofUnits_ok (mapError_ok husd)
  have hmicro := (microAdd_ok_iff.mp (mapError_ok hmicro)).1
  exact ⟨by dsimp only; omega, by dsimp only; omega⟩

/-- A ratio of at least one does not round an amount below itself. -/
theorem le_quoUp_ratio {value : Nat} {ratio : ℚ} (hratio : 1 ≤ ratio) :
    value ≤ quoUp (value * ratio.num.toNat) ratio.den := by
  have hden : 0 < ratio.den := ratio.den_pos
  have hnum : ratio.den ≤ ratio.num.toNat := by
    have h := (Rat.le_iff _ _).mp hratio
    simp only [Rat.num_one, Rat.den_one] at h
    omega
  refine Nat.le_of_mul_le_mul_right ?_ hden
  calc value * ratio.den
      ≤ value * ratio.num.toNat := Nat.mul_le_mul_left _ hnum
    _ ≤ _ := le_quoUp_mul hden

/-- No ratio, or one of at least one. -/
def SafeRatio (ratio : Option ℚ) : Prop :=
  ∀ value ∈ ratio, 1 ≤ value

theorem le_applyRatio {ratio : Option ℚ} (hsafe : SafeRatio ratio)
    (h : applyRatio totals ratio = .ok after) :
    totals.usd.units ≤ after.usd.units ∧ totals.micro ≤ after.micro := by
  cases ratio with
  | none =>
    cases h
    exact ⟨Nat.le_refl _, Nat.le_refl _⟩
  | some ratio =>
    have hratio := hsafe ratio rfl
    by_cases hpos : ratio ≤ 0
    · rw [applyRatio, if_pos hpos] at h
      cases h
    rw [applyRatio, if_neg hpos] at h
    obtain ⟨usd, husd, h⟩ := Lib.bind_ok h
    obtain ⟨micro, hmicro, h⟩ := Lib.bind_ok h
    cases h
    have husd := mapError_ok husd
    unfold Usd.mulRatio at husd
    split at husd
    · cases husd
    constructor
    · rw [Usd.ofUnits_ok husd]
      exact le_quoUp_ratio hratio
    · rw [(multiplyCeil_ok (mapError_ok hmicro)).1]
      exact le_quoUp_ratio hratio

/-- What an estimate is made from: the tokens it reports, priced at the
tier of a prompt no shorter than they are. -/
structure Estimated (entry : Entry) (estimate : Estimate)
    (tokens : TokenBounds) : Prop where
  valid : entry.validateUsagePricing = .ok ()
  input : tokens.input = estimate.inputTokens
  output : tokens.output = estimate.outputTokens
  reasoning : tokens.reasoning = estimate.reasoningTokens
  prompt : tokens.input ≤ tokens.prompt
  known : ∀ c ∈ tokens.components (entry.pricesFor tokens.prompt),
    0 < c.units → entry.componentUnknown c.component = false
  exact : roundedCost exactScale (tokens.components (entry.pricesFor tokens.prompt))
    ≤ estimate.costUsd.units
  legacy : roundedCost microScale (tokens.components (entry.pricesFor tokens.prompt))
    ≤ estimate.microUsd

theorem tokenBounds_prompt (h : estimator.tokenBounds request candidate = .ok tokens) :
    tokens.input ≤ tokens.prompt := by
  obtain ⟨input, -, h⟩ := Lib.bind_ok h
  obtain ⟨output, -, h⟩ := Lib.bind_ok h
  obtain ⟨_, -, h⟩ := Lib.bind_ok h
  obtain ⟨hosted, -, h⟩ := Lib.bind_ok h
  cases h
  exact le_max_right _ _

theorem Estimator.estimated (hratio : SafeRatio estimator.safetyRatio)
    (h : estimator.estimateCandidate request candidate entry = .ok estimate) :
    ∃ tokens, Estimated entry estimate tokens := by
  obtain ⟨_, hvalid, h⟩ := Lib.bind_ok h
  obtain ⟨tokens, htokens, h⟩ := Lib.bind_ok h
  obtain ⟨sum, hsum, h⟩ := Lib.bind_ok h
  obtain ⟨withFee, hfee, h⟩ := Lib.bind_ok h
  obtain ⟨totals, htotals, h⟩ := Lib.bind_ok h
  cases h
  obtain ⟨hcharged, hknown⟩ := charged_estimate hsum
  have hexact := hcharged.exact
  have hlegacy := hcharged.legacy
  have hfee := le_addAllowance hfee
  have hratio := le_applyRatio hratio htotals
  refine ⟨tokens, mapError_ok hvalid, rfl, rfl, rfl, tokenBounds_prompt htokens, hknown, ?_, ?_⟩
  · dsimp only
    omega
  · dsimp only
    omega

-- ===== one estimate

/-- The cost of a usage within an estimate's tokens, at either scale. -/
theorem Estimated.usage_le (h : Estimated entry estimate tokens)
    (hscale : 0 < scale) (hcache : entry.CacheReadAtMostInput)
    (hlong : entry.LongAtLeastBase) (hcounted : usage.Counted)
    (hwithin : Usage.Within usage estimate.inputTokens
      estimate.outputTokens estimate.reasoningTokens) :
    roundedCost scale (usage.components (entry.pricesFor usage.prompt)) ≤ roundedCost scale
        (tokens.components (entry.pricesFor tokens.prompt)) + 1 := by
  have hprompt : usage.prompt ≤ tokens.prompt := by
    have hle := hcounted.prompt_le
    have htokens := h.prompt
    have hin := hwithin.input
    rw [h.input] at htokens
    omega
  rw [← h.input, ← h.output, ← h.reasoning] at hwithin
  exact roundedCost_usage_le hscale hcounted hwithin
    (hcache _ (entry.pricesFor_mem_tiers _)) (hlong.pricesFor hprompt)

/-- A cost's micro-dollars are in the range of the legacy stores and cover
its exact amount. -/
theorem safe_costFromUsage {cost : Cost} (h : costFromUsage entry usage = .ok cost) :
    Totals.Safe ⟨cost.usd, cost.micro⟩ := by
  obtain ⟨_, -, h⟩ := Lib.bind_ok h
  obtain ⟨totals, htotals, h⟩ := Lib.bind_ok h
  cases h
  exact safe_chargeUsages Totals.Safe.zero htotals

/-- What `CostFromUsage` returns is the rounded cost of the usage. -/
theorem costFromUsage_ok {cost : Cost} (h : costFromUsage entry usage = .ok cost) :
    Charged Totals.zero ⟨cost.usd, cost.micro⟩
      (usage.components (entry.pricesFor usage.prompt)) := by
  obtain ⟨_, -, h⟩ := Lib.bind_ok h
  obtain ⟨totals, htotals, h⟩ := Lib.bind_ok h
  cases h
  exact charged_usage htotals

theorem chargeable_perMillion {component : PriceComponent}
    {price : DecimalUsd} {units : Int} {name : String}
    (hcounted : 0 ≤ units)
    (hknown : 0 < units → entry.componentUnknown component = false) :
    Component.Chargeable entry ⟨component, price, units, 1000000, name⟩ :=
  ⟨hcounted, (by decide : (0 : Int) < 1000000), hknown⟩

/-- The price list's known components are those an estimate needed, and
the cache reads it does not price. -/
theorem Estimated.chargeable (h : Estimated entry estimate tokens) (hcounted : usage.Counted)
    (hwithin : Usage.Within usage estimate.inputTokens
      estimate.outputTokens estimate.reasoningTokens)
    (hread : 0 < usage.cacheReadTokens → entry.componentUnknown .cacheRead = false) :
    ∀ c ∈ usage.components (entry.pricesFor usage.prompt), c.Chargeable entry := by
  have hknown := h.known
  have hin := hwithin.input
  have hout := hwithin.output
  have hreason := hwithin.reasoning
  have hinput := hcounted.input
  have hcacheRead := hcounted.cacheRead
  have hcacheWrite := hcounted.cacheWrite
  simp only [TokenBounds.components, List.forall_mem_cons, h.input, h.output, h.reasoning] at hknown
  obtain ⟨hi, ho, hr, hw, hp, -⟩ := hknown
  simp only [Usage.components, List.forall_mem_cons]
  refine ⟨chargeable_perMillion hinput fun hpos => hi (by omega),
    chargeable_perMillion hcounted.output fun hpos => ho (by omega),
    chargeable_perMillion hcacheRead hread,
    chargeable_perMillion hcacheWrite fun hpos => hw (by omega),
    chargeable_perMillion hcounted.reasoning fun hpos => hr (by omega),
    ⟨Int.one_nonneg, Int.one_pos, fun _ => hp Int.one_pos⟩, nofun⟩

-- ===== plans

/-- The loop keeps an estimate that it was given, and no cheaper one. -/
theorem Estimator.planLoop_ok {maximum best : Estimate}
    {candidates : List Candidate}
    (h : estimator.planLoop request entries maximum candidates = .ok best) :
    maximum.costUsd.units ≤ best.costUsd.units ∧ (∀ candidate ∈ candidates, ∃ estimate,
        estimator.plannedEstimate request entries candidate = .ok estimate
          ∧ estimate.costUsd.units ≤ best.costUsd.units)
      ∧ (best = maximum ∨ ∃ candidate ∈ candidates,
        estimator.plannedEstimate request entries candidate = .ok best) := by
  induction candidates generalizing maximum with
  | nil =>
    cases h
    exact ⟨Nat.le_refl _, List.forall_mem_nil _, Or.inl rfl⟩
  | cons candidate rest ih =>
    obtain ⟨estimate, hestimate, h⟩ := Lib.bind_ok h
    obtain ⟨hle, hall, hbest⟩ := ih h
    have hboth : maximum.costUsd.units ≤ best.costUsd.units
        ∧ estimate.costUsd.units ≤ best.costUsd.units := by
      split at hle <;> exact ⟨by omega, by omega⟩
    refine ⟨hboth.1, ?_, ?_⟩
    · exact List.forall_mem_cons.mpr ⟨⟨estimate, hestimate, hboth.2⟩, hall⟩
    · rcases hbest with hbest | ⟨c, hc, hplanned⟩
      · split at hbest
        · exact Or.inr ⟨candidate, List.mem_cons_self, hbest ▸ hestimate⟩
        · exact Or.inl hbest
      · exact Or.inr ⟨c, List.mem_cons_of_mem _ hc, hplanned⟩

/-- A plan's estimate is one candidate's, and none costs more. -/
theorem Estimator.estimatePlan_ok {candidates : List Candidate}
    {best : Estimate}
    (h : estimator.estimatePlan request candidates entries = .ok best) :
    (∀ candidate ∈ candidates, ∃ estimate,
        estimator.plannedEstimate request entries candidate = .ok estimate
          ∧ estimate.costUsd.units ≤ best.costUsd.units)
      ∧ ∃ candidate ∈ candidates,
        estimator.plannedEstimate request entries candidate = .ok best := by
  cases candidates with
  | nil => cases h
  | cons first rest =>
    obtain ⟨estimate, hestimate, h⟩ := Lib.bind_ok h
    obtain ⟨hle, hall, hbest⟩ := Estimator.planLoop_ok h
    constructor
    · exact List.forall_mem_cons.mpr ⟨⟨estimate, hestimate, hle⟩, hall⟩
    · rcases hbest with rfl | ⟨c, hc, hplanned⟩
      · exact ⟨first, List.mem_cons_self, hestimate⟩
      · exact ⟨c, List.mem_cons_of_mem _ hc, hplanned⟩

theorem Estimator.plannedEstimate_ok (h : estimator.plannedEstimate request entries candidate
      = .ok estimate) :
    ∃ entry, entries candidate.id = some entry ∧ estimator.estimateCandidate request candidate entry
        = .ok estimate := by
  unfold Estimator.plannedEstimate at h
  cases hentry : entries candidate.id with
  | none =>
    rw [hentry] at h
    cases h
  | some entry =>
    rw [hentry] at h
    exact ⟨entry, rfl, h⟩

-- ===== results

/-- An estimate covers the cost of every usage within its tokens, up to
one unit of 10⁻¹⁸ dollars, whatever tier the usage falls into; so does
the estimate of a plan that the candidate is in. The cost can be
computed as long as cache reads have a price and the estimate is not at
the very end of either range. -/
theorem estimate_covers_cost {estimator : Estimator}
    {request : Routing.Request}
    {candidate : Candidate} {entry : Entry} {estimate : Estimate}
    {usage : Usage} (hcache : entry.CacheReadAtMostInput)
    (hlong : entry.LongAtLeastBase)
    (hratio : SafeRatio estimator.safetyRatio)
    (hestimate : estimator.estimateCandidate request candidate entry = .ok estimate)
    (hwithin : Usage.Within usage estimate.inputTokens
      estimate.outputTokens estimate.reasoningTokens) :
    (∀ cost, costFromUsage entry usage = .ok cost → cost.usd.units ≤ estimate.costUsd.units + 1)
      ∧ (∀ cost candidates entries maximum,
        costFromUsage entry usage = .ok cost → candidate ∈ candidates →
        entries candidate.id = some entry →
        estimator.estimatePlan request candidates entries = .ok maximum →
        cost.usd.units ≤ maximum.costUsd.units + 1)
      ∧ (usage.Counted → (0 < usage.cacheReadTokens → entry.componentUnknown .cacheRead = false) →
        estimate.costUsd.units < 10 ^ 38 - 1 →
        estimate.microUsd < nanoUsdSafeLimit →
        ∃ cost, costFromUsage entry usage = .ok cost) := by
  obtain ⟨tokens, htokens⟩ := Estimator.estimated hratio hestimate
  have hcost : ∀ cost, costFromUsage entry usage = .ok cost →
      cost.usd.units ≤ estimate.costUsd.units + 1 := by
    intro cost h
    have hcharged := costFromUsage_ok h
    have hle := htokens.usage_le (by decide : 0 < exactScale) hcache hlong
      (Usage.counted_of_components hcharged.counted) hwithin
    have hexact := hcharged.exact
    have hbound := htokens.exact
    simp only [Totals.zero, Usd.zero] at hexact
    omega
  refine ⟨hcost, ?_, ?_⟩
  · intro cost candidates entries maximum h hmem hentry hplan
    obtain ⟨e, he, hle⟩ := (Estimator.estimatePlan_ok hplan).1 candidate hmem
    obtain ⟨entry', hentry', he⟩ := Estimator.plannedEstimate_ok he
    rw [hentry] at hentry'
    cases hentry'
    rw [hestimate] at he
    cases he
    have := hcost cost h
    omega
  · intro hcounted hread hexactRoom hlegacyRoom
    have hexact := htokens.usage_le (by decide : 0 < exactScale) hcache
      hlong hcounted hwithin
    have hlegacy := htokens.usage_le (by decide : 0 < microScale) hcache
      hlong hcounted hwithin
    have hexactBound := htokens.exact
    have hlegacyBound := htokens.legacy
    obtain ⟨totals, htotals⟩ := exists_chargeUsage (htokens.chargeable hcounted hwithin hread)
      (show Totals.zero.usd.units + _ ≤ _ by
        simp only [Totals.zero, Usd.zero]
        omega)
      (by
        simp only [Totals.zero]
        omega)
    refine ⟨⟨totals.usd, totals.micro, some .catalogUsage, entry.version⟩, ?_⟩
    unfold costFromUsage
    rw [htokens.valid]
    simp only [bind, Except.bind, htotals]
    rfl

section Tiered

/-- A price in cents per million. -/
def cents (amount : Nat) (h : amount ≤ 1000) : DecimalUsd :=
  ⟨amount, 2, by decide, by
    have : amount * 10 ^ 16 ≤ 1000 * 10 ^ 16 := Nat.mul_le_mul_right _ h
    omega⟩

/-- An entry whose prompts over 200000 tokens cost twice as much. -/
def tieredEntry : Entry :=
  { family := "openai_chat"
    prices := ⟨cents 250 (by decide), cents 500 (by decide),
      cents 25 (by decide), cents 313 (by decide), .zero, .zero⟩
    longPrompt := some ⟨200000, ⟨cents 500 (by decide),
      cents 1000 (by decide), cents 50 (by decide), cents 626 (by decide),
      .zero, .zero⟩⟩
    unknownComponents := [], version := "v1" }

def tieredCandidate : Candidate :=
  { id := "a", routeId := "a", endpointId := "a", provider := "openai"
    family := "openai_chat", region := "", model := "gpt"
    requestedClass := .standard, attemptedClass := .standard
    fallbackIndex := 0, routeIndex := 0, contextTokens := 0
    providerTier := "default" }

def tieredRequest : Routing.Request :=
  { operationKey := "op", tenant := "acme", project := "", actor := ""
    model := "gpt", serviceClass := .standard, maxTokens := some 100
    tokenBudget := none, webSearch := false, webFetch := false
    codeExecution := false, inputTokens := fun _ => .ok 300000
    resolvedTokens := fun _ => .ok 300000, mediaAllowance := 0 }

/-- An estimator that adds a tenth. -/
def tieredEstimator : Estimator := ⟨some (11 / 10), 1000, 0, true⟩

/-- A usage in the base tier, with cache reads and writes. -/
def tieredUsage : Usage := ⟨100001, 99, 50001, 30001, 0⟩

theorem tieredEntry_ordered : tieredEntry.CacheReadAtMostInput ∧ tieredEntry.LongAtLeastBase := by
  constructor
  · unfold Entry.CacheReadAtMostInput
    decide
  · intro long hlong
    cases hlong
    constructor <;> decide

/-- A usage of the base tier costs less than the long tier it was
estimated at. -/
theorem estimate_covers_cost_tiered : ∃ estimate cost,
      tieredEstimator.estimateCandidate tieredRequest tieredCandidate tieredEntry = .ok estimate
        ∧ costFromUsage tieredEntry tieredUsage = .ok cost
        ∧ cost.usd.units ≤ estimate.costUsd.units + 1 := by
  obtain ⟨estimate, hestimate, hinput, houtput, hreasoning, hexact, hmicro⟩ : ∃ estimate,
      tieredEstimator.estimateCandidate tieredRequest tieredCandidate tieredEntry = .ok estimate
        ∧ estimate.inputTokens = 300000 ∧ estimate.outputTokens = 100
        ∧ estimate.reasoningTokens = 0
        ∧ estimate.costUsd.units < 10 ^ 38 - 1
        ∧ estimate.microUsd < nanoUsdSafeLimit :=
    ⟨((tieredEstimator.estimateCandidate tieredRequest tieredCandidate
      tieredEntry).toOption.getD .zero), by decide +kernel,
      by decide +kernel, by decide +kernel, by decide +kernel,
      by decide +kernel, by decide +kernel⟩
  have hwithin : Usage.Within tieredUsage estimate.inputTokens
      estimate.outputTokens estimate.reasoningTokens := by
    rw [hinput, houtput, hreasoning]
    constructor <;> decide
  have hratio : SafeRatio tieredEstimator.safetyRatio := by
    intro value hvalue
    cases hvalue
    norm_num
  have hall := estimate_covers_cost tieredEntry_ordered.1
    tieredEntry_ordered.2 hratio hestimate hwithin
  have hcounted : tieredUsage.Counted := by constructor <;> decide
  obtain ⟨cost, hcost⟩ := hall.2.2 hcounted (fun _ => rfl) hexact hmicro
  exact ⟨estimate, cost, hestimate, hcost, hall.1 cost hcost⟩

end Tiered

/-- A limit rounded down and an amount rounded up to whole units. -/
theorem exact_le_of_rounded_le {unit amount limit amountInt limitInt : Nat}
    (hamount : amount ≤ amountInt * unit) (hlimit : limitInt * unit ≤ limit)
    (h : amountInt ≤ limitInt) : amount ≤ limit :=
  calc amount ≤ amountInt * unit := hamount
    _ ≤ limitInt * unit := Nat.mul_le_mul_right _ h
    _ ≤ limit := hlimit

theorem microFromUsd_le {usd : Usd} {micro : Nat}
    (h : microFromUsd usd = .ok micro) : micro * 10 ^ 12 ≤ usd.units := by
  unfold microFromUsd microFromBig at h
  split at h
  · cases h
  split at h
  · cases h
  cases h
  exact Nat.div_mul_le_self _ _

/-- The integers that cross to the stores never reserve too little: the
micro-dollars reported with a cost, with an estimate and with a plan are
at least the exact amount rounded up, and an amount within a limit as
integers is within it exactly. -/
theorem integers_never_under_reserve : (∀ entry usage cost, costFromUsage entry usage = .ok cost →
        ∃ required, ceilMicroFromUsd cost.usd = .ok required ∧ required ≤ cost.micro)
      ∧ (∀ (estimator : Estimator) request candidate entry estimate,
        estimator.estimateCandidate request candidate entry = .ok estimate →
        ∃ required, ceilMicroFromUsd estimate.costUsd = .ok required ∧ required ≤ estimate.microUsd)
      ∧ (∀ (estimator : Estimator) request candidates entries maximum,
        estimator.estimatePlan request candidates entries = .ok maximum →
        ∃ required, ceilMicroFromUsd maximum.costUsd = .ok required ∧ required ≤ maximum.microUsd)
      ∧ (∀ limit amount limitInt amountInt, microFromUsd limit = .ok limitInt →
        ceilMicroFromUsd amount = .ok amountInt → amountInt ≤ limitInt →
        amount.units ≤ limit.units)
      ∧ (∀ limit amount limitInt amountInt, floorNanoUsd limit = .ok limitInt →
        ceilNanoUsd amount = .ok amountInt → amountInt ≤ limitInt →
        amount.units ≤ limit.units) := by
  refine ⟨?_, ?_, ?_, ?_, ?_⟩
  · intro entry usage cost h
    have hsafe := safe_costFromUsage h
    exact hsafe.covers.ceil hsafe.safe
  · intro estimator request candidate entry estimate h
    have hsafe := Estimator.estimateCandidate_safe h
    exact hsafe.1.ceil hsafe.2
  · intro estimator request candidates entries maximum h
    obtain ⟨candidate, -, hplanned⟩ := (Estimator.estimatePlan_ok h).2
    obtain ⟨entry, -, hestimate⟩ := Estimator.plannedEstimate_ok hplanned
    have hsafe := Estimator.estimateCandidate_safe hestimate
    exact hsafe.1.ceil hsafe.2
  · intro limit amount limitInt amountInt hlimit hamount hle
    exact exact_le_of_rounded_le (covers_ceil hamount) (microFromUsd_le hlimit) hle
  · intro limit amount limitInt amountInt hlimit hamount hle
    have hup := le_ceilNanoUsd hamount
    have hdown := floorNanoUsd_le hlimit
    rw [Nat.mul_comm] at hup hdown
    exact exact_le_of_rounded_le hup hdown hle

/-- A cost of one and a half micro-dollars is reported, and counted
against a limit, as two. -/
theorem integers_never_under_reserve_fraction :
    ∃ required, ceilMicroFromUsd ⟨1500000000000, by decide⟩ = .ok required
      ∧ microFromUsd ⟨2700000000000, by decide⟩ = .ok required
      ∧ (1500000000000 : Nat) ≤ 2700000000000 := by
  have h := integers_never_under_reserve.2.2.2.1
    ⟨2700000000000, by decide⟩ ⟨1500000000000, by decide⟩ 2 2 rfl rfl
    (Nat.le_refl _)
  exact ⟨2, rfl, rfl, h⟩

end LlmTemporalWorker.Budget
