/-
Prompt-cache affinity (routing/affinity.go, state/provider_affinity.go).

A plan's candidates stand in groups of one fallback position and service
class. A soft affinity brings the first candidate it matches to the front
of its group; a hard pin leaves that candidate alone in the plan. Times are
nanoseconds from Go's zero time, so that zero is `IsZero`; digests stand
for the bytes they are computed from, or are numbers that are only
compared.
-/
import LlmTemporalWorker.Lib.Lists
import LlmTemporalWorker.Lib.Runs
import LlmTemporalWorker.Routing.Types

namespace LlmTemporalWorker.Routing

open Lib

-- ===== plans

/-- Go `routing.Candidate` as the planner makes it. -/
structure PlanCandidate extends Candidate where
  (endpointAccountHmac endpointDigest legacyEndpointDigest : Nat)
  (modelLineage modelRevision : String)
  priceAvailable : Bool
  (capabilityVersion priceVersion extensionDigest : String)
  pinning : Pinning
  endpointAccountDigest : Nat
deriving DecidableEq, Repr

structure Rejection where
  (code routeId path detail : String)
deriving DecidableEq, Repr

/-- Go `Plan`; the digest is none while it is zero. -/
structure Plan where
  (version model : String)
  candidates : List PlanCandidate
  rejections : List Rejection
  digest : Option String
deriving DecidableEq, Repr

def digestPlan (candidates : List PlanCandidate) : Option String :=
  some (String.join (candidates.map fun c => c.id ++ "\x00"))

-- ===== affinities

structure ProviderCacheAffinity where
  rank : Int
  (provider routeId endpointId : String)
  endpointAccountHmac : Nat
  (region endpointFamily modelLineage routeModelRevision : String)
  providerCacheKeyHmac : Nat
  hasProviderCacheKey : Bool
  cacheEpoch : String
  hardPinned : Bool
  (observedCacheReadTokens observedCacheWriteTokens lastSuccessAt : Int)
  expiresAt : Option Int
deriving DecidableEq, Repr

/-- The errors of affinities, each "provider cache …". -/
inductive AffinityError where
  /-- "affinity rank must not be negative" -/
  | negativeRank
  /-- "affinity %s is required" -/
  | required (field : String)
  /-- "affinity endpoint account HMAC is required" -/
  | accountHmac
  /-- "affinity provider cache key HMAC is empty" -/
  | cacheKeyHmac
  /-- "affinity usage observations must not be negative" -/
  | negativeUsage
  /-- "affinity last success time is required" -/
  | lastSuccess
  /-- "affinity expiry must be after last success" -/
  | expiry
  /-- "affinity rank %d is duplicated" -/
  | duplicateRank (rank : Int)
  /-- "hard pin is not marked hard_pinned" -/
  | notHardPinned
  /-- "hard pin: …" -/
  | hardPin (fault : AffinityError)
  /-- "soft affinity: …" -/
  | soft (fault : AffinityError)
  /-- "soft affinity %d is marked hard_pinned" -/
  | softHardPinned (index : Nat)
  /-- "soft affinity ranks must be strictly increasing" -/
  | ranks
  /-- "affinity route %q is duplicated" -/
  | duplicateRoute (routeId : String)
  /-- "hard pin %q is expired or invalid" -/
  | expiredPin (routeId : String)
  /-- "hard pin %q is not eligible" -/
  | ineligiblePin (routeId : String)
deriving DecidableEq, Repr

namespace ProviderCacheAffinity

variable (a : ProviderCacheAffinity)

def validate : Except AffinityError Unit :=
  if a.rank < 0 then .error .negativeRank
  else match [("provider", a.provider), ("route_id", a.routeId),
      ("endpoint_id", a.endpointId), ("region", a.region),
      ("endpoint_family", a.endpointFamily),
      ("model_lineage", a.modelLineage),
      ("route_model_revision", a.routeModelRevision),
      ("cache_epoch", a.cacheEpoch)].find? (·.2 = "") with
  | some field => .error (.required field.1)
  | none =>
    if a.endpointAccountHmac = 0 then .error .accountHmac
    else if a.hasProviderCacheKey ∧ a.providerCacheKeyHmac = 0 then
      .error .cacheKeyHmac
    else if a.observedCacheReadTokens < 0
        ∨ a.observedCacheWriteTokens < 0 then .error .negativeUsage
    else if a.lastSuccessAt = 0 then .error .lastSuccess
    else if a.expiresAt.any fun e => e = 0 ∨ e ≤ a.lastSuccessAt then
      .error .expiry
    else .ok ()

/-- Go `Active`: an expired record stays valid and has no influence. -/
def active (now : Int) : Bool :=
  match a.validate with
  | .error _ => false
  | .ok _ => a.expiresAt.all fun e => now < e

/-- Go `affinityIdentity`. -/
def identity : String :=
  a.provider ++ "\x00" ++ a.routeId ++ "\x00" ++ a.endpointId ++ "\x00" ++ a.modelLineage

/-- Go `affinityMatchesCandidate`. -/
def matchesCandidate (c : PlanCandidate) : Bool :=
  c.priceAvailable && a.provider = c.provider && a.routeId = c.routeId
    && a.endpointId = c.endpointId && a.region = c.region
    && a.endpointFamily = c.family && a.modelLineage = c.modelLineage
    && a.routeModelRevision = c.modelRevision
    && (a.endpointAccountHmac = 0
      || a.endpointAccountHmac = c.endpointAccountHmac)

end ProviderCacheAffinity

/-- Go `ProviderCacheAffinitySet.Validate`. -/
def validateSet (seen : List Int) : List ProviderCacheAffinity → Except AffinityError Unit
  | [] => .ok ()
  | a :: set => do
      a.validate
      if a.rank ∈ seen then .error (.duplicateRank a.rank)
      else validateSet (a.rank :: seen) set

structure AffinityPreferences where
  hardPin : Option ProviderCacheAffinity
  soft : List ProviderCacheAffinity
deriving DecidableEq, Repr

/-- The loop of `AffinityPreferences.Validate`. -/
def checkSoft (seen : List String) (index : Nat) (previousRank : Int) :
    List ProviderCacheAffinity → Except AffinityError Unit
  | [] => .ok ()
  | a :: soft =>
      if a.hardPinned then .error (.softHardPinned index)
      else if 0 < index ∧ a.rank ≤ previousRank then .error .ranks
      else if a.identity ∈ seen then .error (.duplicateRoute a.routeId)
      else checkSoft (a.identity :: seen) (index + 1) a.rank soft

/-- The check of the hard pin, and the identity it takes. -/
def checkHardPin : Option ProviderCacheAffinity → Except AffinityError (List String)
  | none => .ok []
  | some pin =>
      if pin.hardPinned = false then .error .notHardPinned
      else match pin.validate with
      | .error fault => .error (.hardPin fault)
      | .ok _ => .ok [pin.identity]

def AffinityPreferences.validate (p : AffinityPreferences) : Except AffinityError Unit := do
  let seen ← checkHardPin p.hardPin
  match validateSet [] p.soft with
  | .error fault => .error (.soft fault)
  | .ok _ => checkSoft seen 0 (-1) p.soft

/-- What `sameClassGroup` compares. -/
def PlanCandidate.classGroup (c : PlanCandidate) : Int × ServiceClass :=
  (c.fallbackIndex, c.attemptedClass)

/-- The in-place rotation: the first match moves to the front. -/
def toFront (wanted : PlanCandidate → Bool) (group : List PlanCandidate) : List PlanCandidate :=
  match group.find? wanted with
  | none => group
  | some c => c :: group.eraseP wanted

/-- The affinity loop over one group. -/
def promote (now : Int) (group : List PlanCandidate) :
    List ProviderCacheAffinity → List PlanCandidate
  | [] => group
  | a :: ordered =>
      if a.active now ∧ group.any a.matchesCandidate then
        toFront a.matchesCandidate group
      else promote now group ordered

variable (plan : Plan) (now : Int) (soft : List ProviderCacheAffinity)

def preferProviderCacheAffinity (preferences : Option AffinityPreferences) (now : Int) :
    Except AffinityError Plan :=
  match preferences with
  | none => .ok plan
  | some p => do
      p.validate
      match p.hardPin with
      | some pin =>
          if pin.active now = false then .error (.expiredPin pin.routeId)
          else match plan.candidates.find? pin.matchesCandidate with
          | none => .error (.ineligiblePin pin.routeId)
          | some c =>
              .ok { plan with candidates := [c], digest := digestPlan [c] }
      | none =>
          if plan.candidates.length < 2 then .ok plan
          else
            let candidates := ((runs PlanCandidate.classGroup
              plan.candidates).map fun g => promote now g p.soft).flatten
            .ok { plan with
              candidates := candidates, digest := digestPlan candidates }

-- ===== one group

theorem toFront_perm (wanted : PlanCandidate → Bool)
    (group : List PlanCandidate) : (toFront wanted group).Perm group := by
  unfold toFront
  cases hfind : group.find? wanted with
  | none => exact List.Perm.refl _
  | some c =>
    obtain ⟨hc, front, back, rfl, hfront⟩ := List.find?_eq_some_iff_append.mp hfind
    rw [List.eraseP_append_right _ (by simpa using hfront),
      List.eraseP_cons_of_pos hc]
    exact List.perm_middle.symm

theorem promote_perm (now : Int) (ordered : List ProviderCacheAffinity)
    (group : List PlanCandidate) : (promote now group ordered).Perm group := by
  induction ordered with
  | nil => exact List.Perm.refl _
  | cons a ordered ih =>
    rw [promote]
    split
    · exact toFront_perm _ _
    · exact ih

/-- What becomes of a group: nothing where no active affinity matches, and
otherwise the first match of the best-ranked one moves to the front. -/
def Promoted (soft : List ProviderCacheAffinity) (now : Int)
    (group result : List PlanCandidate) : Prop :=
  (result = group ∧ ∀ a ∈ soft, a.active now → ∀ c ∈ group, a.matchesCandidate c = false) ∨
  ∃ a ∈ soft, ∃ front c back, a.active now = true ∧
    group = front ++ c :: back ∧ result = c :: (front ++ back) ∧
    a.matchesCandidate c = true ∧ c.priceAvailable = true ∧
    (∀ d ∈ front, a.matchesCandidate d = false) ∧
    ∀ b ∈ soft, b.rank < a.rank → b.active now → ∀ d ∈ group, b.matchesCandidate d = false

theorem promoted_promote (now : Int) (group : List PlanCandidate)
    {soft : List ProviderCacheAffinity}
    (hranks : soft.Pairwise (·.rank < ·.rank)) :
    Promoted soft now group (promote now group soft) := by
  induction soft with
  | nil => exact .inl ⟨rfl, fun a ha => nomatch ha⟩
  | cons a soft ih =>
    obtain ⟨hfirst, hrest⟩ := List.pairwise_cons.mp hranks
    rw [promote]
    split
    next hmatch =>
      right
      obtain ⟨c, hfind⟩ := Option.isSome_iff_exists.mp
        (List.find?_isSome.mpr (List.any_eq_true.mp hmatch.2))
      obtain ⟨hc, front, back, hgroup, hfront⟩ := List.find?_eq_some_iff_append.mp hfind
      refine ⟨a, List.mem_cons_self, front, c, back, hmatch.1, hgroup,
        ?_, hc, ?_, by simpa using hfront, ?_⟩
      · rw [toFront, hfind, hgroup, List.eraseP_append_right _ (by simpa using hfront),
          List.eraseP_cons_of_pos hc]
      · simp only [ProviderCacheAffinity.matchesCandidate, Bool.and_eq_true] at hc
        exact hc.1.1.1.1.1.1.1.1
      · intro b hb hlt
        rcases List.mem_cons.mp hb with rfl | hb
        · exact absurd hlt (Int.lt_irrefl _)
        · exact absurd (hfirst b hb) (Int.not_lt.mpr (Int.le_of_lt hlt))
    next hmatch =>
      have hskip : a.active now = true → ∀ d ∈ group, a.matchesCandidate d = false := by
        intro hactive d hd
        by_contra hyes
        exact hmatch ⟨hactive, List.any_eq_true.mpr ⟨d, hd, by simpa using hyes⟩⟩
      rcases ih hrest with ⟨hsame, hnone⟩ |
        ⟨b, hb, front, c, back, hactive, hg, hres, hc, hp, hfront, hbest⟩
      · refine .inl ⟨hsame, ?_⟩
        exact List.forall_mem_cons.mpr ⟨hskip, hnone⟩
      · refine .inr ⟨b, List.mem_cons_of_mem _ hb, front, c, back, hactive,
          hg, hres, hc, hp, hfront, ?_⟩
        intro d hd hlt
        rcases List.mem_cons.mp hd with rfl | hd
        · exact hskip
        · exact hbest d hd hlt

theorem any_promote (now : Int) (group : List PlanCandidate) (ordered : List ProviderCacheAffinity)
    (wanted : PlanCandidate → Bool) :
    (promote now group ordered).any wanted = group.any wanted :=
  (promote_perm now ordered group).any_eq

/-- A group whose match is at the front stays as it is. -/
theorem promote_promote (now : Int) (group : List PlanCandidate)
    (ordered : List ProviderCacheAffinity) :
    promote now (promote now group ordered) ordered = promote now group ordered := by
  induction ordered with
  | nil => rfl
  | cons a ordered ih =>
    by_cases hmatch : a.active now = true ∧ group.any a.matchesCandidate = true
    · have hany := (toFront_perm a.matchesCandidate group).any_eq (f := a.matchesCandidate)
      obtain ⟨c, hfind⟩ := Option.isSome_iff_exists.mp
        (List.find?_isSome.mpr (List.any_eq_true.mp hmatch.2))
      have hmoved : promote now group (a :: ordered)
          = toFront a.matchesCandidate group := if_pos hmatch
      have hfront : toFront a.matchesCandidate group = c :: group.eraseP a.matchesCandidate := by
        rw [toFront, hfind]
      have hc := List.find?_some hfind
      rw [hmoved, promote, if_pos ⟨hmatch.1, hany.trans hmatch.2⟩, hfront,
        toFront, List.find?_cons_of_pos hc, List.eraseP_cons_of_pos hc]
    · have hskip : promote now group (a :: ordered) = promote now group ordered := if_neg hmatch
      rw [hskip, promote, any_promote, if_neg hmatch, ih]

-- ===== the plan

/-- Ranks that pass the loop increase strictly. -/
theorem checkSoft_ranks {seen : List String} {index : Nat}
    {previousRank : Int} {soft : List ProviderCacheAffinity}
    (h : checkSoft seen index previousRank soft = .ok ()) :
    (0 < index → ∀ a ∈ soft, previousRank < a.rank) ∧ soft.Pairwise (·.rank < ·.rank) := by
  induction soft generalizing seen index previousRank with
  | nil => exact ⟨fun _ a ha => (nomatch ha), List.Pairwise.nil⟩
  | cons a soft ih =>
    rw [checkSoft] at h
    split at h
    · cases h
    split at h
    · cases h
    next hrank =>
      split at h
      · cases h
      obtain ⟨hlater, hsorted⟩ := ih h
      have hlater := hlater (Nat.succ_pos index)
      refine ⟨?_, List.pairwise_cons.mpr ⟨hlater, hsorted⟩⟩
      intro hindex b hb
      have hfirst : previousRank < a.rank := by
        by_contra hle
        exact hrank ⟨hindex, Int.not_lt.mp hle⟩
      rcases List.mem_cons.mp hb with rfl | hb
      · exact hfirst
      · exact Int.lt_trans hfirst (hlater b hb)

theorem validate_ranks {p : AffinityPreferences}
    (h : p.validate = .ok ()) : p.soft.Pairwise (·.rank < ·.rank) := by
  obtain ⟨seen, -, h⟩ := bind_ok h
  cases hset : validateSet [] p.soft with
  | error fault => simp [hset] at h
  | ok _ =>
    simp only [hset] at h
    exact (checkSoft_ranks h).2

/-- A plan after its groups have been reordered. -/
def Plan.reordered : Plan :=
  let candidates := ((runs PlanCandidate.classGroup
    plan.candidates).map fun g => promote now g soft).flatten
  { plan with candidates := candidates, digest := digestPlan candidates }

theorem Plan.reordered_perm : (plan.reordered now soft).candidates.Perm plan.candidates :=
  flatten_map_runs_perm (promote_perm now soft)

theorem prefer_soft {p : AffinityPreferences} (hvalid : p.validate = .ok ())
    (hpin : p.hardPin = none) :
    preferProviderCacheAffinity plan (some p) now = .ok (if plan.candidates.length < 2 then plan
          else plan.reordered now p.soft) := by
  simp only [preferProviderCacheAffinity, hvalid, hpin]
  show (if _ then _ else _) = _
  split <;> rfl

/-- A group of one candidate is already in order. -/
theorem reordered_candidates_of_short {plan : Plan} (h : plan.candidates.length < 2) (now : Int)
    (soft : List ProviderCacheAffinity) :
    (plan.reordered now soft).candidates = plan.candidates := by
  have hperm := plan.reordered_perm now soft
  match hc : plan.candidates with
  | [] => exact (hc ▸ hperm).eq_nil
  | [c] => exact List.perm_singleton.mp (hc ▸ hperm)
  | _ :: _ :: _ =>
    rw [hc, List.length_cons, List.length_cons] at h
    omega

theorem reordered_twice : (plan.reordered now soft).reordered now soft
      = plan.reordered now soft := by
  have hruns : runs PlanCandidate.classGroup ((runs PlanCandidate.classGroup plan.candidates).map
        fun g => promote now g soft).flatten = _ :=
    runs_flatten_map (promote_perm now soft)
  have hsame : ((plan.reordered now soft).reordered now soft).candidates
      = (plan.reordered now soft).candidates := by
    simp only [Plan.reordered, hruns, List.map_map]
    refine congrArg List.flatten (List.map_congr_left ?_)
    intro g _
    exact promote_promote now g soft
  show ({ plan with
    candidates := ((plan.reordered now soft).reordered now soft).candidates
    digest := digestPlan ((plan.reordered now soft).reordered now soft).candidates } : Plan) = _
  rw [hsame]
  rfl

/-- **Affinity only reorders.** Without a hard pin, valid preferences give
a permutation that keeps the sequence of class groups and in each group
moves at most the best match to the front; a second application changes
nothing. With a hard pin that is active the plan keeps the first candidate
that matches it; if none does, or the pin is not active, the call fails. -/
theorem affinity_reorders (plan : Plan) (p : AffinityPreferences)
    (now : Int) (hvalid : p.validate = .ok ()) :
    (p.hardPin = none → ∃ result : Plan,
      preferProviderCacheAffinity plan (some p) now = .ok result ∧
      result.candidates.Perm plan.candidates ∧
      result.candidates.map PlanCandidate.classGroup
        = plan.candidates.map PlanCandidate.classGroup ∧
      (∃ groups', result.candidates = groups'.flatten ∧ List.Forall₂ (Promoted p.soft now)
          (runs PlanCandidate.classGroup plan.candidates) groups') ∧
      preferProviderCacheAffinity result (some p) now = .ok result) ∧
    ∀ pin, p.hardPin = some pin → (∃ front c back, plan.candidates = front ++ c :: back ∧
        (∀ d ∈ front, pin.matchesCandidate d = false) ∧ pin.active now = true ∧
        pin.matchesCandidate c = true ∧
        preferProviderCacheAffinity plan (some p) now = .ok { plan with
          candidates := [c], digest := digestPlan [c] }) ∨
      ((pin.active now = false ∨ ∀ c ∈ plan.candidates, pin.matchesCandidate c = false) ∧
        ∃ fault, preferProviderCacheAffinity plan (some p) now = .error fault) := by
  constructor
  · intro hpin
    -- short plans are returned as they are, which reordering agrees with
    have hcandidates : ∀ result : Plan, preferProviderCacheAffinity plan (some p) now = .ok result →
        result.candidates = (plan.reordered now p.soft).candidates := by
      intro result hok
      rw [prefer_soft plan now hvalid hpin] at hok
      cases hok
      split
      next hshort => exact (reordered_candidates_of_short hshort _ _).symm
      · rfl
    refine ⟨_, prefer_soft plan now hvalid hpin, ?_⟩
    have hc := hcandidates _ (prefer_soft plan now hvalid hpin)
    rw [hc]
    refine ⟨plan.reordered_perm now p.soft,
      map_key_flatten_map_runs (promote_perm now p.soft), ⟨_, rfl, ?_⟩, ?_⟩
    · rw [List.forall₂_map_right_iff, List.forall₂_same]
      intro g _
      exact promoted_promote now g (validate_ranks hvalid)
    · rw [prefer_soft _ now hvalid hpin, hc]
      by_cases hshort : plan.candidates.length < 2
      · rw [if_pos hshort, if_pos (by
          rw [reordered_candidates_of_short hshort]; exact hshort)]
      have hlong : ¬(plan.reordered now p.soft).candidates.length < 2 := by
        rw [(plan.reordered_perm now p.soft).length_eq]
        exact hshort
      rw [if_neg hshort, if_neg hlong, reordered_twice]
  · intro pin hpin
    have hprefer : preferProviderCacheAffinity plan (some p) now
        = if pin.active now = false then .error (.expiredPin pin.routeId)
          else match plan.candidates.find? pin.matchesCandidate with
          | none => .error (.ineligiblePin pin.routeId)
          | some c => .ok { plan with
              candidates := [c], digest := digestPlan [c] } := by
      simp only [preferProviderCacheAffinity, hvalid, hpin]
      rfl
    rw [hprefer]
    by_cases hactive : pin.active now = false
    · exact .inr ⟨.inl hactive, _, if_pos hactive⟩
    rw [if_neg hactive]
    cases hfind : plan.candidates.find? pin.matchesCandidate with
    | none =>
      refine .inr ⟨.inr ?_, _, rfl⟩
      simpa using List.find?_eq_none.mp hfind
    | some c =>
      obtain ⟨hc, front, back, hsplit, hfront⟩ := List.find?_eq_some_iff_append.mp hfind
      exact .inl ⟨front, c, back, hsplit, by simpa using hfront, by simpa using hactive, hc, rfl⟩

/-- A priced candidate of the one class group of the samples. -/
def sampleCandidate (id routeId : String) : PlanCandidate :=
  ⟨⟨id, routeId, "e", "p", "f", "x", "m", .standard, .standard, 0,
    0, 0, "t"⟩, 1, 0, 0, "l", "v", true, "", "", "", ⟨"", "", "", "", ""⟩, 0⟩

/-- A plan of two candidates in one group. -/
def samplePlan : Plan :=
  ⟨"1", "m", [sampleCandidate "b" "q", sampleCandidate "c" "r"], [], none⟩

/-- An observation that matches the second of them, until time 9. -/
def sampleAffinity (hardPinned : Bool) : ProviderCacheAffinity :=
  ⟨0, "p", "r", "e", 1, "x", "f", "l", "v", 0, false, "k", hardPinned, 0, 0, 1, some 9⟩

theorem sample_reorders :
    let p : AffinityPreferences := ⟨none, [sampleAffinity false]⟩
    p.validate = .ok () ∧ ∃ result : Plan,
      preferProviderCacheAffinity samplePlan (some p) 5 = .ok result ∧
        result.candidates.Perm samplePlan.candidates ∧
        result.candidates = [sampleCandidate "c" "r", sampleCandidate "b" "q"] ∧
        preferProviderCacheAffinity result (some p) 5 = .ok result := by
  obtain ⟨result, hok, hperm, -, -, htwice⟩ := (affinity_reorders samplePlan
    ⟨none, [sampleAffinity false]⟩ 5 (by decide)).1 rfl
  have hmoved : (preferProviderCacheAffinity samplePlan
      (some ⟨none, [sampleAffinity false]⟩) 5).toOption.map Plan.candidates
        = some [sampleCandidate "c" "r", sampleCandidate "b" "q"] := by decide +kernel
  rw [hok] at hmoved
  exact ⟨by decide, result, hok, hperm, Option.some.inj hmoved, htwice⟩

/-- Valid preferences whose hard pin is no longer active give an error,
not a reordered plan. -/
theorem inactive_pin_fails :
    let p : AffinityPreferences := ⟨some (sampleAffinity true), []⟩
    p.validate = .ok () ∧ (sampleAffinity true).active 9 = false ∧
      preferProviderCacheAffinity samplePlan (some p) 9 = .error (.expiredPin "r") := by
  decide

end LlmTemporalWorker.Routing
