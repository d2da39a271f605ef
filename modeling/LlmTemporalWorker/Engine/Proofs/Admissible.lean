/-
When a quoted plan can be admitted.

The envelope wants one micro-dollar amount in every window. The
aggregation keeps, per window, the largest amount of the candidates that
match it, while the scalar is the largest amount of all candidates. The
two agree exactly when every window is matched by some candidate that
has the largest estimate, and then the rest of the envelope holds: the
estimates are reservable, and windows are listed once.

The same is so for every list of remaining candidates, since their
maxima are computed the same way.
-/
import LlmTemporalWorker.Engine.Quote

namespace LlmTemporalWorker.Engine

open Pricing
open Routing (ServiceClass Candidate)
open Budget (Estimator Estimate Policy Window MatchedWindow WindowReservation)
open Admission

-- ===== the envelope

variable {index : Nat} {rs : List WindowReservation} {r : WindowReservation}
  {usd : Usd} {candidates : List QuotedCandidate}

theorem coversExact_ok {amount required : Nat} {exact_ : Usd}
    (h : ceilMicroFromUsd exact_ = .ok required) (hle : required ≤ amount)
    (boundary : String) (short : Nat → String) :
    coversExact amount exact_ boundary short = .ok () := by
  unfold coversExact
  rw [h]
  simp only
  rw [if_neg (by omega)]

/-- The micro-dollar limit is within the exact one, if there is one. -/
def LimitConsistent (limit : Int) (limitUsd : Usd) : Prop :=
  limitUsd.isZero ∨ ∃ most, microFromUsd limitUsd = .ok most ∧ limit ≤ max most 1

/-- A reservation passes that carries the exact scalar, covers it, and
has a consistent limit. -/
theorem exactReservation_ok {expectedUsd : Usd} {micro : Nat}
    (hamount : r.amount = micro) (husd : r.amountUsd = expectedUsd)
    (hcovers : Covers micro expectedUsd) (hsafe : micro ≤ nanoUsdSafeLimit)
    (hlimit : LimitConsistent r.limit r.limitUsd) :
    exactReservation expectedUsd index r = .ok () := by
  obtain ⟨required, hceil, hle⟩ := hcovers.ceil hsafe
  have hcover := coversExact_ok hceil hle
  unfold exactReservation
  by_cases hnone : r.limitUsd.isZero
  · by_cases hzero : expectedUsd.isZero
    · simp [hzero, husd, hnone, pure, Except.pure]
    · simp [hzero, husd, hamount, hcover, hnone, pure, Except.pure, bind, Except.bind]
  · obtain ⟨most, hmost, hwithin⟩ := hlimit.resolve_left hnone
    have hleast : ¬((if most = 0 then 1 else most : Nat) : Int)
        < r.limit := by
      split <;> omega
    by_cases hzero : expectedUsd.isZero
    · simp only [hzero, husd, hnone, hmost]
      rw [if_neg hleast]
      rfl
    · simp [hzero, husd, hamount, hcover, hnone, hmost, pure, Except.pure, bind, Except.bind]
      omega

theorem exactLoop_ok {expectedUsd : Usd}
    (h : ∀ r ∈ rs, ∀ i, exactReservation expectedUsd i r = .ok ()) :
    exactLoop expectedUsd index rs = .ok () := by
  induction rs generalizing index with
  | nil => rfl
  | cons r rest ih =>
    unfold exactLoop
    rw [h r List.mem_cons_self index]
    exact ih fun r' hr' => h r' (List.mem_cons_of_mem _ hr')

/-- A vector that carries both scalars, lists no bucket twice and has
consistent limits passes exactly when its amounts are the scalar. -/
theorem envelope_ok_iff {micro : Nat} (hsafe : micro ≤ nanoUsdSafeLimit)
    (hcovers : Covers micro usd) (hplaces : (rs.map place).Nodup)
    (husd : ∀ r ∈ rs, r.amountUsd = usd)
    (hlimits : ∀ r ∈ rs, LimitConsistent r.limit r.limitUsd) :
    validateExactUsdReservationEnvelope rs micro usd = .ok () ↔ ∀ r ∈ rs, r.amount = micro := by
  have hscalar : validateReservationEnvelope rs micro = .ok () ↔ ∀ r ∈ rs, r.amount = micro := by
    unfold validateReservationEnvelope
    have hvalid : ¬((micro : Int) < 0 ∨ (!microValid micro) = true) := by
      simp only [microValid, Bool.not_eq_true', Bool.and_eq_false_iff, decide_eq_false_iff_not]
      omega
    rw [if_neg hvalid, envelopeLoop_ok_iff]
    exact ⟨fun h => h.1, fun h => ⟨h, hplaces, fun _ _ => List.not_mem_nil⟩⟩
  unfold validateExactUsdReservationEnvelope
  constructor
  · intro h
    obtain ⟨_, henvelope, _⟩ := Lib.bind_ok h
    exact hscalar.mp henvelope
  · intro hamounts
    obtain ⟨required, hceil, hle⟩ := hcovers.ceil hsafe
    have hloop : exactLoop usd 0 rs = .ok () :=
      exactLoop_ok fun r hr i => exactReservation_ok (hamounts r hr)
        (husd r hr) hcovers hsafe (hlimits r hr)
    rw [hscalar.mpr hamounts]
    simp only [coversExact_ok hceil hle, hloop, bind, Except.bind]
    split
    · split <;> rfl
    · rfl

-- ===== aggregation

theorem insertReservation_perm (value : WindowReservation) (sorted : List WindowReservation) :
    (insertReservation value sorted).Perm (value :: sorted) := by
  induction sorted with
  | nil => exact List.Perm.refl _
  | cons r rest ih =>
    unfold insertReservation
    split
    · exact (ih.cons r).trans (List.Perm.swap value r rest)
    · exact List.Perm.refl _

theorem sortReservations_perm (values : List WindowReservation) :
    (sortReservations values).Perm values := by
  have hfold : ∀ (vs sorted : List WindowReservation),
      (vs.foldl (fun sorted value => insertReservation value sorted)
        sorted).Perm (vs ++ sorted) := by
    intro vs
    induction vs with
    | nil => exact fun sorted => List.Perm.refl _
    | cons v rest ih =>
      intro sorted
      refine (ih _).trans ?_
      refine ((insertReservation_perm v sorted).append_left rest).trans ?_
      exact List.perm_middle
  have h := hfold values []
  rw [List.append_nil] at h
  exact (List.reverse_perm _).trans h

theorem le_of_replaces (r current : WindowReservation)
    (h : replaces r current = true) : current.amount ≤ r.amount := by
  simp only [replaces, Bool.or_eq_true, decide_eq_true_eq, Bool.and_eq_true, beq_iff_eq] at h
  omega

theorem le_of_not_replaces (r current : WindowReservation)
    (h : replaces r current = false) : r.amount ≤ current.amount := by
  simp only [replaces, Bool.or_eq_false_iff, decide_eq_false_iff_not] at h
  omega

/-- Every window of the candidates is kept, at its largest amount. -/
theorem exists_byKey {c : QuotedCandidate} (hc : c ∈ candidates) (hr : r ∈ c.reservations) :
    ∃ kept ∈ byKey candidates, windowKey kept = windowKey r ∧ r.amount ≤ kept.amount :=
  Lib.exists_bestOf le_of_replaces le_of_not_replaces (List.mem_flatMap.mpr ⟨c, hc, hr⟩)

theorem mem_byKey (h : r ∈ byKey candidates) : ∃ c ∈ candidates, r ∈ c.reservations :=
  List.mem_flatMap.mp (Lib.mem_of_mem_bestOf h)

@[simp] theorem withExact_key (usd : Usd) (r : WindowReservation) :
    windowKey (withExact usd r) = windowKey r := by
  unfold withExact
  split <;> rfl

@[simp] theorem withExact_amount (usd : Usd) (r : WindowReservation) :
    (withExact usd r).amount = r.amount := by
  unfold withExact
  split <;> rfl

@[simp] theorem withExact_limit (usd : Usd) (r : WindowReservation) :
    (withExact usd r).limit = r.limit := by
  unfold withExact
  split <;> rfl

@[simp] theorem withExact_limitUsd (usd : Usd) (r : WindowReservation) :
    (withExact usd r).limitUsd = r.limitUsd := by
  unfold withExact
  split <;> rfl

theorem mem_aggregate : r ∈ aggregateReservations candidates usd ↔
      ∃ kept ∈ byKey candidates, withExact usd kept = r := by
  unfold aggregateReservations
  rw [(sortReservations_perm _).mem_iff, List.mem_map]

theorem withExact_keys (candidates : List QuotedCandidate) (usd : Usd) :
    (((byKey candidates).map (withExact usd)).map windowKey).Nodup := by
  have hcomp : windowKey ∘ withExact usd = windowKey := funext (withExact_key usd)
  rw [List.map_map, hcomp]
  exact Lib.nodup_bestOf _

/-- No window, hence no bucket, is listed twice. -/
theorem aggregate_places (candidates : List QuotedCandidate) (usd : Usd) :
    ((aggregateReservations candidates usd).map place).Nodup := by
  have hplaces : (((byKey candidates).map (withExact usd)).map place).Nodup := by
    refine List.Nodup.of_map (fun p : Place => (p.policy, p.window)) ?_
    rw [List.map_map]
    exact withExact_keys candidates usd
  exact ((sortReservations_perm _).map place).nodup_iff.mpr hplaces

-- ===== maxima

/-- The maxima of a list of candidates. -/
structure Maxima (candidates : List QuotedCandidate) (maximum : Nat)
    (maximumUsd : Usd) : Prop where
  le : ∀ c ∈ candidates, c.estimate.microUsd ≤ maximum
  leUsd : ∀ c ∈ candidates, c.estimate.costUsd.units ≤ maximumUsd.units
  attained : maximum = 0 ∨ ∃ c ∈ candidates, c.estimate.microUsd = maximum
  attainedUsd : maximumUsd = .zero ∨ ∃ c ∈ candidates, c.estimate.costUsd = maximumUsd

theorem Maxima.empty : Maxima [] 0 .zero :=
  ⟨fun _ h => (nomatch h), fun _ h => (nomatch h), Or.inl rfl, Or.inl rfl⟩

/-- A candidate without an estimate leaves the maxima as they are. -/
theorem Maxima.append {maximum : Nat} {maximumUsd : Usd}
    {c : QuotedCandidate} (h : Maxima candidates maximum maximumUsd)
    (hzero : c.estimate = .zero) :
    Maxima (candidates ++ [c]) maximum maximumUsd := by
  refine ⟨fun c' hc' => ?_, fun c' hc' => ?_, ?_, ?_⟩
  · rcases List.mem_append.mp hc' with hc' | hc'
    · exact h.le c' hc'
    · rw [List.mem_singleton.mp hc', hzero]
      exact Nat.zero_le _
  · rcases List.mem_append.mp hc' with hc' | hc'
    · exact h.leUsd c' hc'
    · rw [List.mem_singleton.mp hc', hzero]
      exact Nat.zero_le _
  · exact h.attained.imp_right fun ⟨c', hc', heq⟩ =>
      ⟨c', List.mem_append_left _ hc', heq⟩
  · exact h.attainedUsd.imp_right fun ⟨c', hc', heq⟩ =>
      ⟨c', List.mem_append_left _ hc', heq⟩

/-- A priced candidate raises them. -/
theorem Maxima.push {plan : QuotedPlan} (c : QuotedCandidate)
    (h : Maxima candidates plan.maximum plan.maximumUsd) :
    Maxima (candidates ++ [c]) (plan.push c).maximum (plan.push c).maximumUsd := by
  refine ⟨fun c' hc' => ?_, fun c' hc' => ?_, ?_, ?_⟩
  · have hle : plan.maximum ≤ (plan.push c).maximum
        ∧ c.estimate.microUsd ≤ (plan.push c).maximum := by
      simp only [QuotedPlan.push]
      split <;> omega
    rcases List.mem_append.mp hc' with hc' | hc'
    · exact Nat.le_trans (h.le c' hc') hle.1
    · rw [List.mem_singleton.mp hc']
      exact hle.2
  · have hle : plan.maximumUsd.units ≤ (plan.push c).maximumUsd.units
        ∧ c.estimate.costUsd.units ≤ (plan.push c).maximumUsd.units := by
      simp only [QuotedPlan.push]
      split <;> omega
    rcases List.mem_append.mp hc' with hc' | hc'
    · exact Nat.le_trans (h.leUsd c' hc') hle.1
    · rw [List.mem_singleton.mp hc']
      exact hle.2
  · simp only [QuotedPlan.push]
    split
    · exact Or.inr ⟨c, List.mem_append_right _ (List.mem_singleton_self c), rfl⟩
    · exact h.attained.imp_right fun ⟨c', hc', heq⟩ =>
        ⟨c', List.mem_append_left _ hc', heq⟩
  · simp only [QuotedPlan.push]
    split
    · exact Or.inr ⟨c, List.mem_append_right _ (List.mem_singleton_self c), rfl⟩
    · exact h.attainedUsd.imp_right fun ⟨c', hc', heq⟩ =>
        ⟨c', List.mem_append_left _ hc', heq⟩

/-- The maxima of remaining candidates are theirs. -/
theorem maxima_remainingPlan (remaining : List QuotedCandidate) :
    Maxima remaining (remainingPlan remaining).maximum (remainingPlan remaining).maximumUsd := by
  have hfold : ∀ (rest done : List QuotedCandidate) (plan : QuotedPlan),
      Maxima done plan.maximum plan.maximumUsd →
      Maxima (done ++ rest) (rest.foldl QuotedPlan.push plan).maximum
        (rest.foldl QuotedPlan.push plan).maximumUsd := by
    intro rest
    induction rest with
    | nil =>
      intro done plan h
      rw [List.append_nil]
      exact h
    | cons c rest ih =>
      intro done plan h
      have := ih (done ++ [c]) (plan.push c) (h.push c)
      rwa [List.append_assoc] at this
  exact hfold remaining [] .empty .empty

-- ===== quotes

/-- What a quote holds: a reservable estimate, and that estimate in
windows of the policies. -/
structure WellQuoted (policies : List Policy) (c : QuotedCandidate) :
    Prop where
  covers : Covers c.estimate.microUsd c.estimate.costUsd
  safe : c.estimate.microUsd ≤ nanoUsdSafeLimit
  amount : ∀ r ∈ c.reservations, r.amount = c.estimate.microUsd
  amountUsd : ∀ r ∈ c.reservations, r.amountUsd = c.estimate.costUsd
  window : ∀ r ∈ c.reservations, ∃ policy ∈ policies,
    ∃ w ∈ policy.windows, r.limit = w.limit ∧ r.limitUsd = w.limitUsd

/-- A matched window's reservation. -/
theorem mem_reservations {matched : List MatchedWindow} {amount : Nat}
    {now : Int} {held : List WindowReservation}
    (h : reservations matched amount usd now = .ok held) (hr : r ∈ held) :
    r.amount = amount ∧ r.amountUsd = usd ∧ ∃ value ∈ matched,
      r.limit = value.window.limit ∧ r.limitUsd = value.window.limitUsd := by
  obtain ⟨value, hvalue, hrun⟩ := Lib.exists_of_forall₂_right (Lib.mapM_ok h) hr
  obtain ⟨⟨_, bucket⟩, _, hrun⟩ := Lib.bind_ok hrun
  cases hrun
  exact ⟨rfl, rfl, value, hvalue, rfl, rfl⟩

/-- What a turn adds to the plan. -/
def Turn.Sound (policies : List Policy) : Turn → Prop
  | .skipped _ => True
  | .unpriced c => WellQuoted policies c ∧ c.estimate = .zero
  | .priced c => WellQuoted policies c

section Loop

variable {host : Host} {request : Routing.Request} {snapshot : Snapshot}
  {resolve : Query → Except PriceError Quote} {now : Int}

variable {candidate : Candidate} {turn : Turn}

theorem priceCandidate_sound {entry : Entry} {context : Budget.MatchContext}
    (h : priceCandidate host request snapshot now candidate
      (Budget.matchPolicies snapshot.budgetPolicies context) entry
        = .ok turn) : turn.Sound snapshot.budgetPolicies := by
  unfold priceCandidate at h
  split at h
  · cases h
    trivial
  · cases h
    trivial
  · cases h
  · rename_i estimate hestimate
    split at h
    · cases h
    rename_i held hheld
    cases h
    have hsafe := Estimator.estimateCandidate_safe hestimate
    refine ⟨hsafe.1, hsafe.2, fun r hr => (mem_reservations hheld hr).1,
      fun r hr => (mem_reservations hheld hr).2.1, fun r hr => ?_⟩
    obtain ⟨_, _, value, hvalue, hlimits⟩ := mem_reservations hheld hr
    obtain ⟨policy, hpolicy, _, hw⟩ := Budget.mem_matchPolicies hvalue
    exact ⟨policy, hpolicy, value.window, hw, hlimits⟩

theorem quoteMatched_sound (h : quoteMatched host request snapshot resolve now candidate
      = .ok turn) : turn.Sound snapshot.budgetPolicies := by
  unfold quoteMatched at h
  simp only at h
  split at h
  · cases h
    trivial
  split at h
  · split at h
    · cases h
      trivial
    · cases h
      exact ⟨⟨Nat.zero_le _, Nat.zero_le _, fun _ h => (nomatch h),
        fun _ h => (nomatch h), fun _ h => (nomatch h)⟩, rfl⟩
  · cases h
  · exact priceCandidate_sound h

theorem quoteCandidate_sound {index : Nat}
    (h : quoteCandidate host request snapshot resolve now index candidate
      = .ok turn) : turn.Sound snapshot.budgetPolicies := by
  unfold quoteCandidate at h
  split at h
  · cases h
  split at h
  · cases h
    trivial
  split at h
  · split at h
    · cases h
    · cases h
      trivial
  split at h
  · cases h
    trivial
  · cases h
  · exact quoteMatched_sound h

/-- The loop's invariant: what is quoted is well quoted, under its
maxima. -/
def QuotedPlan.Sound (policies : List Policy) (plan : QuotedPlan) : Prop :=
  (∀ c ∈ plan.candidates, WellQuoted policies c)
    ∧ Maxima plan.candidates plan.maximum plan.maximumUsd

theorem quoteLoop_sound {index : Nat} {plan quoted : QuotedPlan}
    {skips skips' : List Skip} {candidates : List Candidate}
    (hplan : plan.Sound snapshot.budgetPolicies)
    (h : quoteLoop host request snapshot resolve now index plan skips
      candidates = .ok (quoted, skips')) :
    quoted.Sound snapshot.budgetPolicies := by
  induction candidates generalizing index plan skips with
  | nil =>
    cases h
    exact hplan
  | cons candidate rest ih =>
    obtain ⟨turn, hturn, h⟩ := Lib.bind_ok h
    have hsound := quoteCandidate_sound hturn
    have hall : ∀ c, WellQuoted snapshot.budgetPolicies c → ∀ c' ∈ plan.candidates ++ [c],
          WellQuoted snapshot.budgetPolicies c' := by
      intro c hc c' hc'
      rcases List.mem_append.mp hc' with hc' | hc'
      · exact hplan.1 c' hc'
      · exact List.mem_singleton.mp hc' ▸ hc
    cases turn with
    | skipped why => exact ih hplan h
    | unpriced c => exact ih ⟨hall c hsound.1, hplan.2.append hsound.2⟩ h
    | priced c => exact ih ⟨hall c hsound, hplan.2.push c⟩ h

end Loop

theorem quotePlan_sound {host : Host} {request : Routing.Request}
    {plan : List Candidate} {snapshot : Snapshot} {now : Int}
    {quoted : QuotedPlan}
    (h : quotePlan host request plan snapshot now = .ok quoted) :
    quoted.Sound snapshot.budgetPolicies := by
  unfold quotePlan at h
  split at h
  · cases h
  obtain ⟨⟨plan', skips⟩, hloop, h⟩ := Lib.bind_ok h
  obtain ⟨_, h⟩ := Lib.refusal_ok h
  cases h
  exact quoteLoop_sound ⟨fun _ h => (List.not_mem_nil h).elim, Maxima.empty⟩ hloop

-- ===== admissibility

/-- Every window of the candidates is matched by one of them that has the
largest estimate. -/
def CommonScalar (candidates : List QuotedCandidate) (maximum : Nat) :
    Prop :=
  ∀ c ∈ candidates, ∀ r ∈ c.reservations, ∃ c' ∈ candidates, c'.estimate.microUsd = maximum
      ∧ ∃ r' ∈ c'.reservations, windowKey r' = windowKey r

instance (candidates : List QuotedCandidate) (maximum : Nat) :
    Decidable (CommonScalar candidates maximum) :=
  inferInstanceAs (Decidable (∀ c ∈ candidates, ∀ r ∈ c.reservations,
    ∃ c' ∈ candidates, c'.estimate.microUsd = maximum
      ∧ ∃ r' ∈ c'.reservations, windowKey r' = windowKey r))

/-- The policies' limits agree with their exact limits. -/
def ConsistentPolicies (policies : List Policy) : Prop :=
  ∀ policy ∈ policies, ∀ w ∈ policy.windows, LimitConsistent w.limit w.limitUsd

section Vector

variable {policies : List Policy} {candidates : List QuotedCandidate}
  {plan : QuotedPlan} (hquoted : ∀ c ∈ candidates, WellQuoted policies c)
  (hmax : Maxima candidates plan.maximum plan.maximumUsd)

include hquoted hmax

theorem plan_safe : plan.maximum ≤ nanoUsdSafeLimit := by
  rcases hmax.attained with hzero | ⟨c, hc, heq⟩
  · rw [hzero]
    exact Nat.zero_le _
  · exact heq ▸ (hquoted c hc).safe

theorem plan_covers : Covers plan.maximum plan.maximumUsd := by
  rcases hmax.attainedUsd with hzero | ⟨c, hc, heq⟩
  · rw [hzero]
    exact Nat.zero_le _
  · rw [← heq]
    exact Nat.le_trans (hquoted c hc).covers (Nat.mul_le_mul_right _ (hmax.le c hc))

/-- Every window of the vector carries the exact scalar: if that is zero,
so was every estimate. -/
theorem aggregate_amountUsd {r : WindowReservation}
    (hr : r ∈ aggregateReservations candidates plan.maximumUsd) :
    r.amountUsd = plan.maximumUsd := by
  obtain ⟨kept, hkept, rfl⟩ := mem_aggregate.mp hr
  unfold withExact
  split
  · rfl
  rename_i hzero
  obtain ⟨c, hc, hcr⟩ := mem_byKey hkept
  have hunits : plan.maximumUsd.units = 0 := by
    simpa [Usd.isZero] using hzero
  apply Usd.ext_units
  rw [(hquoted c hc).amountUsd kept hcr, hunits]
  exact Nat.le_zero.mp (hunits ▸ hmax.leUsd c hc)

/-- The amounts of the vector are the scalar exactly when the windows
have a common scalar. -/
theorem aggregate_amounts_iff : (∀ r ∈ aggregateReservations candidates plan.maximumUsd,
        r.amount = plan.maximum) ↔
      CommonScalar candidates plan.maximum := by
  constructor
  · intro h c hc r hr
    obtain ⟨kept, hkept, hkey, _⟩ := exists_byKey hc hr
    obtain ⟨c', hc', hr'⟩ := mem_byKey hkept
    have hamount := h _ (mem_aggregate.mpr ⟨kept, hkept, rfl⟩)
    rw [withExact_amount, (hquoted c' hc').amount kept hr'] at hamount
    exact ⟨c', hc', by exact_mod_cast hamount, kept, hr', hkey⟩
  · intro hcommon r hr
    obtain ⟨kept, hkept, rfl⟩ := mem_aggregate.mp hr
    obtain ⟨c, hc, hcr⟩ := mem_byKey hkept
    obtain ⟨c', hc', hmaximum, r', hr', hkey⟩ := hcommon c hc kept hcr
    obtain ⟨best, hbest, hbestKey, hle⟩ := exists_byKey hc' hr'
    -- one reservation is kept per window, so the best one is this one
    have hsame : best = kept := List.inj_on_of_nodup_map
      (Lib.nodup_bestOf _) hbest hkept (hbestKey.trans hkey)
    have hupper := hmax.le c hc
    rw [withExact_amount]
    rw [hsame, (hquoted c' hc').amount r' hr', hmaximum] at hle
    have heq := (hquoted c hc).amount kept hcr
    omega

/-- The envelope of a list of candidates. -/
theorem aggregate_admissible_iff (hlimits : ConsistentPolicies policies) :
    validateExactUsdReservationEnvelope
        (aggregateReservations candidates plan.maximumUsd) plan.maximum
        plan.maximumUsd = .ok () ↔
      CommonScalar candidates plan.maximum := by
  rw [envelope_ok_iff (plan_safe hquoted hmax) (plan_covers hquoted hmax)
    (aggregate_places candidates plan.maximumUsd)
    (fun r hr => aggregate_amountUsd hquoted hmax hr) fun r hr => ?_]
  · exact aggregate_amounts_iff hquoted hmax
  · obtain ⟨kept, hkept, rfl⟩ := mem_aggregate.mp hr
    obtain ⟨c, hc, hcr⟩ := mem_byKey hkept
    obtain ⟨policy, hpolicy, w, hw, hlimit, hlimitUsd⟩ := (hquoted c hc).window kept hcr
    rw [withExact_limit, withExact_limitUsd, hlimit, hlimitUsd]
    exact hlimits policy hpolicy w hw

end Vector

/-- A quoted plan passes the envelope, when it is begun and after any
definite failure, exactly when each of its windows is matched by a
candidate with the largest estimate of those still to be tried. -/
theorem quoted_plan_admissible_iff {host : Host} {request : Routing.Request}
    {plan : List Candidate} {snapshot : Snapshot} {now : Int}
    {quoted : QuotedPlan}
    (hquote : quotePlan host request plan snapshot now = .ok quoted)
    (hlimits : ConsistentPolicies snapshot.budgetPolicies) :
    (∀ identity configVersion leaseUntil expiresAt,
      let begin_ := beginRequest identity configVersion quoted leaseUntil
        expiresAt
      validateExactUsdReservationEnvelope begin_.reservations
          begin_.reservation begin_.reservationUsd = .ok () ↔
        CommonScalar quoted.candidates quoted.maximum)
      ∧ ∀ remaining, remaining <:+ quoted.candidates →
        ∀ operation failed providerRequestId leaseUntil,
          let continue_ := continueRequest operation failed
            providerRequestId remaining leaseUntil
          validateExactUsdReservationEnvelope continue_.reservations
              continue_.remaining continue_.remainingUsd = .ok () ↔
            CommonScalar remaining (remainingPlan remaining).maximum := by
  obtain ⟨hwell, hmax⟩ := quotePlan_sound hquote
  refine ⟨fun _ _ _ _ => aggregate_admissible_iff hwell hmax hlimits,
    fun remaining hsuffix _ _ _ _ => ?_⟩
  exact aggregate_admissible_iff (fun c hc => hwell c (hsuffix.subset hc))
    (maxima_remainingPlan remaining) hlimits

-- ===== windows of different candidates

section Split

/-- A candidate at an endpoint. -/
def sampleCandidate (endpointId : String) : Candidate :=
  { id := endpointId, routeId := endpointId, endpointId := endpointId
    provider := "openai", family := "openai_chat", region := ""
    model := "gpt", requestedClass := .standard
    attemptedClass := .standard, fallbackIndex := 0, routeIndex := 0
    contextTokens := 0, providerTier := "default" }

def sampleRequest : Routing.Request :=
  { operationKey := "op", tenant := "acme", project := "", actor := ""
    model := "gpt", serviceClass := .standard, maxTokens := none
    tokenBudget := none, webSearch := false, webFetch := false
    codeExecution := false, inputTokens := fun _ => .ok 1
    resolvedTokens := fun _ => .ok 1, mediaAllowance := 0 }

/-- An entry that charges so many micro-dollars per request. -/
def sampleEntry (micros : Nat) (h : micros * 10 ^ 12 ≤ 10 ^ 38 - 1) : Entry :=
  { family := "openai_chat"
    prices := { UnitPrices.zero with
      perRequest := ⟨micros, 6, by decide, h⟩ }
    longPrompt := none, unknownComponents := [], version := "v1" }

/-- Endpoint `a` costs ten micro-dollars a request, any other five. -/
def samplePrices (query : Query) : Except PriceError Quote :=
  if query.endpointId = "a" then .ok ⟨sampleEntry 10 (by decide), "v1"⟩
  else .ok ⟨sampleEntry 5 (by decide), "v1"⟩

/-- A policy of one hourly window for what its matcher admits. -/
def samplePolicy (id tenant endpointId : String) : Policy :=
  { id := id
    match_ := ⟨tenant, "", "", "", "", endpointId, .unset⟩
    windows := [⟨"hour", 3600000000000, 60000000000, .zero, 1000⟩] }

def sampleSnapshot (policies : List Policy) : Snapshot :=
  { routes := fun _ => [], prices := some samplePrices
    budgetPolicies := policies, requireBudgetMatch := true
    requirePriceWhenBudgeted := true, environment := "" }

def sampleHost : Host :=
  { adapter := fun _ => some ⟨false⟩, canceled := fun _ => false
    canceledIn := fun _ => false
    estimator := ⟨none, 1, 0, true⟩ }

/-- The plan of endpoints `a` and `b` under some policies. -/
def sampleQuote (policies : List Policy) : Except Stop QuotedPlan :=
  quotePlan sampleHost sampleRequest
    [sampleCandidate "a", sampleCandidate "b"] (sampleSnapshot policies) 0

/-- What is quoted under a policy for each endpoint. -/
def splitPolicies : List Policy :=
  [samplePolicy "pa" "" "a", samplePolicy "pb" "" "b"]

/-- What is quoted under one policy for the tenant. -/
def sharedPolicies : List Policy := [samplePolicy "p" "acme" ""]

def sampleDigest : Digest :=
  ⟨String.ofList (List.replicate 64 '0'), by decide, by decide⟩

def sampleOperation : Operation :=
  { id := "id", scopeKey := "scope", requestDigest := sampleDigest
    state := .dispatching, reservedMicroUsd := 10, incurredMicroUsd := 0
    finalMicroUsd := 0, reservations := [], configVersion := "c1"
    priceVersion := "v1", attempt := .empty, resultRef := none
    dispatchToken := "t", leaseUntil := 1, createdAt := 0, updatedAt := 0
    expiresAt := 2 }

/-- The envelope's verdict on the plan's `Begin`. -/
def beginVerdict (quoted : QuotedPlan) : Except String Unit :=
  let begin_ := beginRequest ⟨"id", "scope", sampleDigest⟩ "c1" quoted 1 2
  validateExactUsdReservationEnvelope begin_.reservations begin_.reservation begin_.reservationUsd

theorem samplePolicy_consistent {policies : List Policy}
    (h : ∀ policy ∈ policies, ∃ id tenant endpointId, policy = samplePolicy id tenant endpointId) :
    ConsistentPolicies policies := by
  intro policy hpolicy w hw
  obtain ⟨_, _, _, rfl⟩ := h policy hpolicy
  left
  rw [List.mem_singleton.mp hw]
  rfl

/-- A plan whose two candidates are charged to different windows is
quoted, and its admission is refused: the cheaper candidate's window
holds its own estimate, not the plan's. -/
theorem split_plan_refused : ConsistentPolicies splitPolicies
      ∧ ∃ quoted, sampleQuote splitPolicies = .ok quoted ∧ beginVerdict quoted = .error
          "reservation 1 amount 5 does not match scalar reservation 10" := by
  refine ⟨samplePolicy_consistent ?_, _, rfl, rfl⟩
  simp [splitPolicies]

/-- Charged to one window, the same two candidates are admitted, and so
is the cheaper one alone after the other has failed. -/
theorem shared_plan_admitted : ∃ quoted, sampleQuote sharedPolicies = .ok quoted
      ∧ beginVerdict quoted = .ok ()
      ∧ validateExactUsdReservationEnvelope (aggregateReservations quoted.candidates.tail
            (remainingPlan quoted.candidates.tail).maximumUsd)
          (remainingPlan quoted.candidates.tail).maximum
          (remainingPlan quoted.candidates.tail).maximumUsd = .ok () := by
  have hlimits : ConsistentPolicies sharedPolicies :=
    samplePolicy_consistent (by simp [sharedPolicies])
  obtain ⟨quoted, hquote, hcommon, htail⟩ : ∃ quoted, sampleQuote sharedPolicies = .ok quoted
        ∧ CommonScalar quoted.candidates quoted.maximum
        ∧ CommonScalar quoted.candidates.tail (remainingPlan quoted.candidates.tail).maximum :=
    ⟨(sampleQuote sharedPolicies).toOption.getD .empty, rfl,
      by decide +kernel, by decide +kernel⟩
  have h := quoted_plan_admissible_iff hquote hlimits
  refine ⟨quoted, hquote, (h.1 _ _ _ _).mpr hcommon, ?_⟩
  exact (h.2 _ (List.tail_suffix _) (sampleOperation) (sampleCandidate "a") "" 0).mpr htail

end Split

end LlmTemporalWorker.Engine
