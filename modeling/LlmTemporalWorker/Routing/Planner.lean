/-
The deterministic planner (routing/planner.go, routing/types.go,
routing/class_policy.go, routing/capability.go, state/pinning.go).

Every class of a request is tried on every route of its model; a pair gives
a candidate or a rejection. Three loops range over maps, each once per
pair: over provider tiers, capabilities and extensions. The order of a map
is an argument here (`Orders`), chosen anew for each pair as the runtime
does.

Two of the loops do not show it: invalid tier classes are sorted before the
first is named, and an invalid capability is refused without naming it. The
third names the extension it stops at. So a plan is a function of its input
exactly when no rejection it reports had two extensions to choose from.

A request is seen normalized, its maps as the lists of their entries, its
texts through the lengths and digests that are read.
-/
import LlmTemporalWorker.Routing.Affinity

namespace LlmTemporalWorker.Routing

open Lib

-- ===== inputs

structure Route where
  (id endpointId provider family region accountRegion : String)
  (endpointAccountHmac endpointAccountDigest endpointDigest : Nat)
  legacyEndpointDigest : Nat
  (model modelLineage modelRevision : String)
  classes : List String
  providerTiers : List (String × String)
  (allowedTenants allowedRegions : List String)
  capabilityVersion : String
  /-- Features and the states they are in. -/
  features : List (String × String)
  priceVersion : String
  priceAvailable : Bool
  /-- Windows from one time until another, zero being unbounded. -/
  pricedWindows : Option (List (Int × Int))
  extensionNames : List String
  (contextBytes outputTokens contextTokens : Int)
  pinning : Pinning

/-- What planning reads of a normalized request. -/
structure PlanRequest where
  (model tenant project : String)
  /-- The tag "region", empty when there is none. -/
  region : String
  serviceClass : ServiceClass
  serviceClassFallbacks : List ServiceClass
  /-- The portability is best effort. -/
  bestEffort : Bool
  /-- The names of the extensions. -/
  extensions : List String
  (hasTools structuredOutput reasoning : Bool)
  maxTokens : Option Int
  (webFetch codeExecution webSearch : Bool)
  /-- The length of the canonical JSON and the digest of it. -/
  canonicalBytes : Int
  canonicalDigest : String
  /-- `AdapterTextOverheadBytes`. -/
  textOverhead : String → Int

structure ClassPolicy where
  (tenant project : String)
  classes : List String

structure RouteHealth where
  (isOpen authOpen enabled : Bool)

structure Constraints extends Pinning where
  (present requiresOpaqueState transcriptComplete bestEffort : Bool)

/-- Go `Input`; the request normalized, or why it cannot be. -/
structure Input where
  request : Except String PlanRequest
  version : String
  models : List (String × List Route)
  classPolicies : List ClassPolicy
  continuation : Constraints
  health : List (String × RouteHealth)
  affinity : Option AffinityPreferences
  now : Int

/-- What `digestCandidate` digests. -/
structure Identity where
  (routeId endpointId provider family model lineage revision : String)
  (requested attempted : ServiceClass)
  tier : String
  (fallback routeIndex : Nat)
  (capability price extensionDigest accountRegion region : String)
  endpointAccountHmac : Nat

/-- What planning takes from elsewhere: `%q`, and the hexadecimal SHA-256
of the canonical JSON of an identity. -/
structure PlanHost where
  quoted : String → String
  digest : Identity → Except String String

/-- The order of each map at each class and route. -/
structure Orders where
  tiers : Nat × Nat → List (String × String) → List (String × String)
  tiers_perm : ∀ place entries, (tiers place entries).Perm entries
  features : Nat × Nat → List (String × String) → List (String × String)
  features_perm : ∀ place entries, (features place entries).Perm entries
  extensions : Nat × Nat → List String → List String
  extensions_perm : ∀ place names, (extensions place names).Perm names

/-- The maps as they are listed. -/
def Orders.listed : Orders where
  tiers _ entries := entries
  tiers_perm _ _ := .refl _
  features _ entries := entries
  features_perm _ _ := .refl _
  extensions _ names := names
  extensions_perm _ _ := .refl _

-- ===== classes

def publicClasses : List String := ["economy", "standard", "priority"]

def normalizeServiceClass : ServiceClass → ServiceClass
  | .unset => .standard
  | c => c

/-- Go `ValidateServiceClassFallbacks`: valid, new and not repeated. -/
def fallbacksValid (requested : ServiceClass) : List ServiceClass → List ServiceClass → Bool
  | _, [] => true
  | seen, c :: rest => c != .unset && c != requested && c ∉ seen
      && fallbacksValid requested (c :: seen) rest

def classEnabled (policies : List ClassPolicy) (r : PlanRequest) (c : ServiceClass) : Bool :=
  c == .standard || policies.all fun p =>
    !((p.tenant = "" || p.tenant = r.tenant)
      && (p.project = "" || p.project = r.project)) || c.text ∈ p.classes

def offers (routes : List Route) (c : ServiceClass) : Bool :=
  routes.any fun route =>
    c.text ∈ route.classes && (route.providerTiers.lookup c.text).getD "" ≠ ""

def serviceClasses (policies : List ClassPolicy) (r : PlanRequest)
    (routes : List Route) : List ServiceClass :=
  (normalizeServiceClass r.serviceClass :: r.serviceClassFallbacks).foldl (fun classes c =>
      let c := if classEnabled policies r c && offers routes c then c
        else .standard
      if c ∈ classes then classes else classes ++ [c]) []

-- ===== routes

/-- Go `validateRouteShape`. -/
def shapeFault (host : PlanHost) (route : Route) (tiers : List (String × String)) : Option String :=
  let name := "route " ++ host.quoted route.id
  if route.outputTokens < 0 then
    some (name ++ " has a negative output token limit")
  else if route.contextTokens < 0 then
    some (name ++ " has a negative context token limit")
  else if route.id = "" ∨ route.endpointId = "" ∨ route.provider = ""
      ∨ route.model = "" ∨ route.family = "" then
    some (name ++ " is incomplete")
  else if route.classes = [] then some (name ++ " has no service classes")
  else match route.classes.find? (· ∉ publicClasses) with
  | some c => some (name ++ " contains unknown public service class "
      ++ host.quoted c ++ "; want economy, standard, or priority")
  | none =>
    match (((tiers.map Prod.fst).filter (· ∉ publicClasses)).insertionSort
        (· ≤ ·)).head? with
    | some c => some (name ++ " has a provider tier for unknown public"
        ++ " service class " ++ host.quoted c
        ++ "; want economy, standard, or priority")
    | none => none

/-- Go `CapabilityState.Valid`. -/
def capabilityStates : List String :=
  ["native", "emulated", "unsupported", "unknown"]

/-- Go `Resolve`, and the check of what it returns. -/
def resolves (route : Route) (feature : String) (strict : Bool) : Bool :=
  let state := (route.features.lookup feature).getD "unknown"
  state ∈ capabilityStates && !(strict && (state = "unsupported" || state = "unknown"))
    && state ≠ "unsupported" && state ≠ "unknown"

def requiredFeatures (r : PlanRequest) (c : Constraints) : List String :=
  ["text"] ++ (if r.hasTools then ["tool_call"] else [])
    ++ (if r.structuredOutput then ["structured_output"] else [])
    ++ (if r.reasoning then ["reasoning"] else [])
    ++ if c.present then ["continuation"] else []

/-- The checks of `evaluate` before the extensions: code, path and detail
of a rejection. -/
def checkRoute (input : Input) (r : PlanRequest) (route : Route)
    (attempted : ServiceClass) (features : List (String × String)) :
    Option (String × String × String) :=
  let status := (input.health.lookup route.id).getD ⟨false, false, true⟩
  if route.allowedTenants ≠ [] ∧ r.tenant = "" then
    some ("route_tenant_not_allowed", "context.tenant", "route requires a request tenant")
  else if route.allowedTenants ≠ [] ∧ r.tenant ∉ route.allowedTenants then
    some ("route_tenant_not_allowed", "context.tenant", "route does not permit the request tenant")
  else if r.region ≠ "" ∧ route.allowedRegions ≠ []
      ∧ r.region ∉ route.allowedRegions then
    some ("route_region_not_allowed", "context.tags.region",
      "route does not permit the requested region")
  else if route.model = "" then
    some ("route_model_mismatch", "route.model", "route model is empty")
  else if attempted.text ∉ route.classes then
    some ("route_service_class_unavailable", "route.classes",
      "route is not authorized for service class " ++ attempted.text)
  else if !status.enabled || status.isOpen || status.authOpen then
    some ("route_health_open", "health", "route is disabled or health-open")
  else if features.any (·.2 ∉ capabilityStates) then
    some ("route_capability_unavailable", "capabilities",
      "route contains an invalid capability state")
  else
    match (requiredFeatures r input.continuation).find?
        fun f => !resolves route f (!r.bestEffort) with
    | some f => some ("route_capability_unavailable", "capabilities." ++ f,
        "route cannot satisfy " ++ f)
    | none => none

/-- Go `CheckPinning`: why a continuation is rejected. -/
def checkPinning (c : Constraints) (pin : Pinning) : Option String :=
  let equalNonEmpty (a b : String) : Bool := a = "" || b = "" || a = b
  if !c.present then none
  else if c.requiresOpaqueState then
    if c.provider = "" ∨ c.endpointId = "" ∨ c.family = ""
        ∨ c.modelLineage = "" ∨ c.toPinning ≠ pin then
      some "required provider continuation state has no matching route pin"
    else none
  else if equalNonEmpty c.provider pin.provider
      && equalNonEmpty c.endpointId pin.endpointId
      && equalNonEmpty c.accountRegion pin.accountRegion
      && equalNonEmpty c.family pin.family
      && equalNonEmpty c.modelLineage pin.modelLineage then none
  else if c.transcriptComplete && c.bestEffort then none
  else some "continuation requires its original provider lineage"

def supportsWebSearch (provider family : String) : Bool :=
  (family = "openai_responses" && provider = "openai")
    || (family = "anthropic_messages" && provider = "anthropic")
    || (family = "openai_chat" && provider = "openrouter")

def supportsHostedExecution (provider family : String) : Bool :=
  (provider = "openai" && family = "openai_responses")
    || (provider = "anthropic" && family = "anthropic_messages")

def supportsOutputLimit (route : Route) (r : PlanRequest) : Bool :=
  route.outputTokens = 0 || (0 < route.outputTokens
    && r.maxTokens.any fun n => 0 < n && n ≤ route.outputTokens)

def priceAvailableAt (route : Route) (now : Int) : Bool :=
  match route.pricedWindows with
  | none => route.priceAvailable
  | some windows => if now = 0 then route.priceAvailable
    else windows.any fun w =>
      (w.1 = 0 || w.1 ≤ now) && (w.2 = 0 || now < w.2)

/-- A class on a route, with the places of both. -/
structure Site where
  attempted : ServiceClass
  route : Route
  place : Nat × Nat

def digestCandidate (host : PlanHost) (route : Route)
    (requested attempted : ServiceClass) (place : Nat × Nat)
    (extensionDigest : String) : Except String String :=
  host.digest {
    routeId := route.id, endpointId := route.endpointId
    provider := route.provider, family := route.family
    model := route.model, lineage := route.modelLineage
    revision := route.modelRevision, requested := requested
    attempted := attempted
    tier := (route.providerTiers.lookup attempted.text).getD ""
    fallback := place.1, routeIndex := place.2
    capability := route.capabilityVersion, price := route.priceVersion
    extensionDigest := extensionDigest
    accountRegion := route.accountRegion, region := route.region
    endpointAccountHmac := route.endpointAccountHmac }

/-- The checks of `evaluate` after the extensions, and the candidate. -/
def makeCandidate (host : PlanHost) (input : Input) (r : PlanRequest)
    (site : Site) : Except (String × String × String) PlanCandidate :=
  let route := site.route
  let requested := normalizeServiceClass r.serviceClass
  let digest := if r.extensions = [] then "" else r.canonicalDigest
  let lineage := if route.modelLineage = "" then route.model
    else route.modelLineage
  let revision := if route.modelRevision = "" then route.model
    else route.modelRevision
  let pin := if route.pinning.provider = "" then ⟨route.provider,
    route.endpointId, route.accountRegion, route.family, lineage⟩
    else route.pinning
  let tier := (route.providerTiers.lookup site.attempted.text).getD ""
  let capability := "route_capability_unavailable"
  if r.webFetch ∧ ¬(route.provider = "anthropic"
      ∧ route.family = "anthropic_messages") then
    .error (capability, "web_fetch", "route does not support hosted web fetch")
  else if r.codeExecution
      ∧ !supportsHostedExecution route.provider route.family then
    .error (capability, "code_execution", "route does not support hosted code execution")
  else if r.webSearch ∧ !supportsWebSearch route.provider route.family then
    .error (capability, "web_search", "route does not support provider-hosted web search")
  else if !supportsOutputLimit route r then
    .error (capability, "output.max_tokens", "request output limit is missing"
      ++ " or exceeds the route output ceiling")
  else if 0 < route.contextBytes ∧ route.contextBytes
      < r.canonicalBytes + r.textOverhead route.family then
    .error ("route_context_limit", "request", "request exceeds route context limit")
  else match checkPinning input.continuation pin with
  | some detail => .error ("continuation_pinned", "continuation", detail)
  | none =>
    if tier = "" then
      .error ("route_service_class_unavailable", "route.provider_tiers",
        "route has no provider tier mapping for the attempted class")
    else match digestCandidate host
        { route with modelLineage := lineage } requested site.attempted site.place digest with
    | .error detail => .error ("route_invalid", "candidate", detail)
    | .ok id => .ok {
        id := id, routeId := route.id, endpointId := route.endpointId
        provider := route.provider, family := route.family
        region := route.region, model := route.model
        requestedClass := requested, attemptedClass := site.attempted
        fallbackIndex := site.place.1, routeIndex := site.place.2
        contextTokens := route.contextTokens, providerTier := tier
        endpointAccountHmac := route.endpointAccountHmac
        endpointDigest := route.endpointDigest
        legacyEndpointDigest := route.legacyEndpointDigest
        modelLineage := lineage, modelRevision := revision
        priceAvailable := priceAvailableAt route input.now
        capabilityVersion := route.capabilityVersion
        priceVersion := route.priceVersion, extensionDigest := digest
        pinning := pin
        endpointAccountDigest := route.endpointAccountDigest }

/-- The loop of `evaluate` over the extensions: where it stops. -/
def missingExtension (r : PlanRequest) (route : Route) (names : List String) : Option String :=
  if r.bestEffort then none else names.find? (· ∉ route.extensionNames)

/-- The `reject` of `evaluate`: code, path and detail. -/
def Site.reject (site : Site) (why : String × String × String) : Rejection :=
  ⟨why.1, site.route.id, why.2.1, why.2.2⟩

/-- The rejection that names an extension. -/
def unadvertised (site : Site) (name : String) : Rejection :=
  site.reject ("route_extension_unsupported", "extensions." ++ name,
    "route does not advertise this extension")

/-- One turn of the loop: `validateRouteShape` and `evaluate`. -/
def verdict (host : PlanHost) (input : Input) (r : PlanRequest)
    (o : Orders) (site : Site) : Except Rejection PlanCandidate :=
  match shapeFault host site.route
      (o.tiers site.place site.route.providerTiers) with
  | some detail => .error (site.reject ("route_invalid", "", detail))
  | none =>
    match checkRoute input r site.route site.attempted
        (o.features site.place site.route.features) with
    | some why => .error (site.reject why)
    | none =>
      match missingExtension r site.route
          (o.extensions site.place r.extensions) with
      | some name => .error (unadvertised site name)
      | none => (makeCandidate host input r site).mapError site.reject

-- ===== planning

inductive PlanError where
  | cancelled
  | normalize (fault : String)
  | fallbacks
  /-- "request model is required" -/
  | modelRequired
  /-- "provider cache affinity planning time is required" -/
  | timeRequired
  /-- "no configured routes for logical model %q" -/
  | noRoutes (model : String)
  | affinity (fault : AffinityError)
  /-- "no eligible route candidates" -/
  | noCandidates
deriving DecidableEq, Repr

def Plan.empty : Plan := ⟨"", "", [], [], none⟩

/-- `Plan` up to its loop: the request and its routes. -/
def prepare (cancelled : Bool) (input : Input) :
    Except (Plan × PlanError) (PlanRequest × List Route) :=
  if cancelled then .error (.empty, .cancelled)
  else match input.request with
  | .error fault => .error (.empty, .normalize fault)
  | .ok r =>
    if !fallbacksValid (normalizeServiceClass r.serviceClass) []
        r.serviceClassFallbacks then .error (.empty, .fallbacks)
    else if r.model = "" then .error (.empty, .modelRequired)
    else if input.affinity.isSome ∧ input.now = 0 then
      .error (.empty, .timeRequired)
    else match input.models.lookup r.model with
    | none => .error ({ Plan.empty with
        model := r.model, version := input.version }, .noRoutes r.model)
    | some routes => .ok (r, routes)

/-- The turns of the two loops. -/
def sites (input : Input) (r : PlanRequest) (routes : List Route) : List Site :=
  (serviceClasses input.classPolicies r routes).zipIdx.flatMap fun c =>
    routes.zipIdx.map fun route => ⟨c.1, route.1, (c.2, route.2)⟩

/-- Go `limit`. -/
def rejectionLimit (maxRejections : Int) : Nat :=
  if maxRejections ≤ 0 then 256 else maxRejections.toNat

/-- The body of the loops. -/
def visit (limit : Nat) (found : List PlanCandidate × List Rejection) :
    Except Rejection PlanCandidate → List PlanCandidate × List Rejection
  | .ok c => (found.1 ++ [c], found.2)
  | .error why =>
    if found.2.length < limit then (found.1, found.2 ++ [why]) else found

/-- Go `sortedRejections`, which compares route, code and path. -/
def sortedRejections (values : List Rejection) : List Rejection :=
  let key (r : Rejection) := [r.routeId, r.code, r.path]
  values.insertionSort fun a b => ¬key b < key a

/-- `Plan` after its loop. -/
def conclude (input : Input) (plan : Plan) : Plan × Option PlanError :=
  match preferProviderCacheAffinity plan input.affinity input.now with
  | .error fault => (.empty, some (.affinity fault))
  | .ok plan => ({ plan with digest := digestPlan plan.candidates },
      if plan.candidates = [] then some .noCandidates else none)

/-- Go `DeterministicPlanner.Plan`. -/
def planRequest (host : PlanHost) (maxRejections : Int) (cancelled : Bool)
    (input : Input) (o : Orders) : Plan × Option PlanError :=
  match prepare cancelled input with
  | .error (plan, fault) => (plan, some fault)
  | .ok (r, routes) =>
    let found := ((sites input r routes).map (verdict host input r o)).foldl
      (visit (rejectionLimit maxRejections)) ([], [])
    conclude input ⟨input.version, r.model, found.1, sortedRejections found.2, none⟩

-- ===== one pair

variable {host : PlanHost} {input : Input} {r : PlanRequest} {site : Site}
  {o : Orders}

/-- The tier classes are sorted before one is named. -/
theorem shapeFault_perm {route : Route} {tiers tiers' : List (String × String)}
    (h : tiers.Perm tiers') :
    shapeFault host route tiers = shapeFault host route tiers' := by
  have hsorted : ((tiers.map Prod.fst).filter (· ∉ publicClasses)).insertionSort (· ≤ ·)
      = ((tiers'.map Prod.fst).filter (· ∉ publicClasses)).insertionSort (· ≤ ·) := by
    apply List.Perm.eq_of_sortedLE
    · exact List.sortedLE_insertionSort
    · exact List.sortedLE_insertionSort
    · exact (List.perm_insertionSort _ _).trans
        (((h.map _).filter _).trans (List.perm_insertionSort _ _).symm)
  unfold shapeFault
  rw [hsorted]

/-- An invalid capability is refused without being named. -/
theorem checkRoute_perm {route : Route} {attempted : ServiceClass}
    {features features' : List (String × String)}
    (h : features.Perm features') :
    checkRoute input r route attempted features = checkRoute input r route attempted features' := by
  unfold checkRoute
  rw [h.any_eq]

/-- A pair that passes the earlier checks and lacks two extensions: the
order decides which of them its rejection names. -/
def Ambiguous (host : PlanHost) (input : Input) (r : PlanRequest) (site : Site) : Prop :=
  shapeFault host site.route site.route.providerTiers = none
    ∧ checkRoute input r site.route site.attempted site.route.features = none
    ∧ r.bestEffort = false
    ∧ ∃ a ∈ r.extensions, ∃ b ∈ r.extensions, a ≠ b
      ∧ a ∉ site.route.extensionNames ∧ b ∉ site.route.extensionNames

theorem missingExtension_perm {names : List String}
    (h : names.Perm r.extensions) (hstrict : r.bestEffort = false)
    (hone : ∀ a ∈ r.extensions, ∀ b ∈ r.extensions,
      a ∉ site.route.extensionNames → b ∉ site.route.extensionNames → a = b) :
    missingExtension r site.route names = missingExtension r site.route r.extensions := by
  unfold missingExtension
  rw [hstrict, if_neg Bool.false_ne_true, if_neg Bool.false_ne_true]
  cases hlisted : r.extensions.find? (· ∉ site.route.extensionNames) with
  | none =>
    rw [List.find?_eq_none] at hlisted ⊢
    exact fun a ha => hlisted a (h.mem_iff.mp ha)
  | some b =>
    have hb := List.mem_of_find?_eq_some hlisted
    have hlacks := List.find?_some hlisted
    cases hfound : names.find? (· ∉ site.route.extensionNames) with
    | none =>
      have hnone := List.find?_eq_none.mp hfound b (h.mem_iff.mpr hb)
      exact absurd hlacks hnone
    | some a =>
      have ha := h.mem_iff.mp (List.mem_of_find?_eq_some hfound)
      have hlacks' := List.find?_some hfound
      rw [hone a ha b hb (of_decide_eq_true hlacks') (of_decide_eq_true hlacks)]

theorem verdict_of_not_ambiguous (h : ¬Ambiguous host input r site) :
    verdict host input r o site = verdict host input r .listed site := by
  unfold verdict
  rw [shapeFault_perm (o.tiers_perm _ _), checkRoute_perm (o.features_perm _ _)]
  dsimp only [Orders.listed]
  cases hshape : shapeFault host site.route site.route.providerTiers with
  | some detail => rfl
  | none =>
    cases hcheck : checkRoute input r site.route site.attempted site.route.features with
    | some why => rfl
    | none =>
      cases hstrict : r.bestEffort with
      | true => simp only [missingExtension, hstrict, if_true]
      | false =>
        rw [missingExtension_perm (o.extensions_perm _ _) hstrict]
        intro a ha b hb hlacks hlacks'
        by_contra hne
        exact h ⟨hshape, hcheck, hstrict, a, ha, b, hb, hne, hlacks, hlacks'⟩

/-- The verdict on a pair that passes the earlier checks. -/
theorem verdict_missing {name : String} (h : Ambiguous host input r site)
    (hfound : (o.extensions site.place r.extensions).find?
      (· ∉ site.route.extensionNames) = some name) :
    verdict host input r o site = .error (unadvertised site name) := by
  obtain ⟨hshape, hcheck, hstrict, -⟩ := h
  unfold verdict missingExtension
  rw [shapeFault_perm (o.tiers_perm _ _), checkRoute_perm (o.features_perm _ _), hstrict]
  simp only [hshape, hcheck, Bool.false_eq_true, if_false, hfound]

theorem verdict_of_ambiguous (h : Ambiguous host input r site) : ∃ name, verdict host input r o site
      = .error (unadvertised site name) := by
  obtain ⟨-, -, -, a, ha, -, -, -, hlacks, -⟩ := id h
  have hsome : ((o.extensions site.place r.extensions).find?
      (· ∉ site.route.extensionNames)).isSome := by
    rw [List.find?_isSome]
    exact ⟨a, (o.extensions_perm _ _).mem_iff.mpr ha, by simpa using hlacks⟩
  obtain ⟨name, hname⟩ := Option.isSome_iff_exists.mp hsome
  exact ⟨name, verdict_missing h hname⟩

/-- Candidates and refusals are the same in every order. -/
theorem toOption_verdict : (verdict host input r o site).toOption
      = (verdict host input r .listed site).toOption := by
  by_cases h : Ambiguous host input r site
  · obtain ⟨name, hname⟩ := verdict_of_ambiguous (o := o) h
    obtain ⟨listed, hlisted⟩ := verdict_of_ambiguous (o := .listed) h
    rw [hname, hlisted]
    rfl
  · rw [verdict_of_not_ambiguous h]

-- ===== the loops

/-- The rejection of a turn. -/
def reason? : Except Rejection PlanCandidate → Option Rejection
  | .ok _ => none
  | .error why => some why

/-- What the loops collect: all candidates, and rejections up to the
limit. -/
theorem foldl_visit (limit : Nat) (results : List (Except Rejection PlanCandidate))
    (found : List PlanCandidate × List Rejection)
    (h : found.2.length ≤ limit) :
    results.foldl (visit limit) found = (found.1 ++ results.filterMap Except.toOption,
        (found.2 ++ results.filterMap reason?).take limit) := by
  induction results generalizing found with
  | nil => simp [List.take_of_length_le h]
  | cons result results ih =>
    rw [List.foldl_cons]
    cases result with
    | ok c =>
      rw [visit, ih (found.1 ++ [c], found.2) h,
        List.filterMap_cons_some (f := Except.toOption) rfl,
        List.filterMap_cons_none (f := reason?) rfl, List.append_assoc,
        List.singleton_append]
    | error why =>
      rw [List.filterMap_cons_none (f := Except.toOption) rfl,
        List.filterMap_cons_some (f := reason?) rfl, visit]
      split
      · rename_i hroom
        have hlength : (found.2 ++ [why]).length ≤ limit := by
          rw [List.length_append]
          exact hroom
        rw [ih (found.1, found.2 ++ [why]) hlength, List.append_assoc, List.singleton_append]
      · have hlength : found.2.length = limit := by omega
        rw [ih found h, ← hlength, List.take_left, List.take_left]

/-- A pair that gives no candidate. -/
def refused (host : PlanHost) (input : Input) (r : PlanRequest) (site : Site) : Bool :=
  (verdict host input r .listed site).toOption.isNone

/-- The pairs whose rejections a plan holds. -/
def reported (host : PlanHost) (maxRejections : Int) (input : Input)
    (r : PlanRequest) (routes : List Route) : List Site :=
  ((sites input r routes).filter (refused host input r)).take (rejectionLimit maxRejections)

/-- The plan without its rejections, before affinities. -/
def eligible (host : PlanHost) (input : Input) (r : PlanRequest) (routes : List Route) : Plan :=
  { Plan.empty with
    version := input.version, model := r.model
    candidates := (sites input r routes).filterMap fun site =>
      (verdict host input r .listed site).toOption }

/-- The rejections a plan holds, in the order they are found. -/
def rejections (host : PlanHost) (maxRejections : Int) (input : Input)
    (o : Orders) (r : PlanRequest) (routes : List Route) : List Rejection :=
  (reported host maxRejections input r routes).filterMap fun site =>
    reason? (verdict host input r o site)

variable {maxRejections : Int} {cancelled : Bool} {routes : List Route}

theorem isSome_reason? : (reason? (verdict host input r o site)).isSome
      = refused host input r site := by
  rw [refused, ← toOption_verdict (o := o)]
  cases verdict host input r o site <;> rfl

/-- Only the rejections depend on the orders. -/
theorem planRequest_ok (h : prepare cancelled input = .ok (r, routes)) :
    planRequest host maxRejections cancelled input o
      = conclude input { eligible host input r routes with
          rejections := sortedRejections (rejections host maxRejections input o r routes) } := by
  have hcandidates : (sites input r routes).filterMap
        (fun site => (verdict host input r o site).toOption)
      = (eligible host input r routes).candidates := by
    simp only [eligible, toOption_verdict (o := o)]
  have hrejections : ((sites input r routes).filterMap
        fun site => reason? (verdict host input r o site)).take (rejectionLimit maxRejections)
      = rejections host maxRejections input o r routes := by
    rw [take_filterMap]
    simp only [isSome_reason?]
    rfl
  rw [planRequest, h]
  dsimp only
  rw [foldl_visit _ _ _ (Nat.zero_le _), List.filterMap_map,
    List.filterMap_map, List.nil_append, List.nil_append]
  dsimp only [Function.comp_def]
  rw [hcandidates, hrejections]
  rfl

/-- Affinities pass rejections on. -/
theorem preferProviderCacheAffinity_rejections (plan : Plan)
    (why : List Rejection) (p : Option AffinityPreferences) (now : Int) :
    preferProviderCacheAffinity { plan with rejections := why } p now
      = (preferProviderCacheAffinity plan p now).map fun q => { q with rejections := why } := by
  cases p with
  | none => rfl
  | some p =>
    unfold preferProviderCacheAffinity
    dsimp only
    cases p.validate with
    | error fault => rfl
    | ok _ =>
      cases p.hardPin with
      | none =>
        by_cases hfew : plan.candidates.length < 2
        · simp only [hfew, if_true]
          rfl
        · simp only [hfew, if_false]
          rfl
      | some pin =>
        by_cases hactive : pin.active now = false
        · simp only [hactive, if_true]
          rfl
        · simp only [hactive]
          cases plan.candidates.find? pin.matchesCandidate <;> rfl

-- ===== determinism

/-- No rejection a plan holds had two extensions to name, or the plan is
given up: before its loop, or because its affinities are refused. -/
def Unambiguous (host : PlanHost) (maxRejections : Int) (cancelled : Bool) (input : Input) : Prop :=
  ∀ r routes, prepare cancelled input = .ok (r, routes) →
    (∃ fault, preferProviderCacheAffinity (eligible host input r routes)
      input.affinity input.now = .error fault)
    ∨ ∀ site ∈ reported host maxRejections input r routes, ¬Ambiguous host input r site

/-- The order that comes to one extension first, at one pair. -/
def Orders.naming (place : Nat × Nat) (name : String) : Orders :=
  { Orders.listed with
    extensions := fun p names =>
      if p = place ∧ name ∈ names then name :: names.erase name else names
    extensions_perm := by
      intro p names
      split
      · rename_i h
        exact (List.perm_cons_erase h.2).symm
      · exact .refl _ }

theorem verdict_naming {name : String} (h : Ambiguous host input r site)
    (hmem : name ∈ r.extensions)
    (hlacks : name ∉ site.route.extensionNames) :
    verdict host input r (.naming site.place name) site = .error (unadvertised site name) := by
  apply verdict_missing h
  dsimp only [Orders.naming]
  rw [if_pos ⟨rfl, hmem⟩, List.find?_cons_of_pos (by simpa using hlacks)]

theorem verdict_naming_elsewhere {place : Nat × Nat} {name : String} (h : site.place ≠ place) :
    verdict host input r (.naming place name) site = verdict host input r .listed site := by
  unfold verdict
  dsimp only [Orders.naming]
  rw [if_neg fun hboth => h hboth.1]
  rfl

/-- Every pair has a place of its own. -/
theorem nodup_places : ((sites input r routes).map Site.place).Nodup := by
  have hproduct : (sites input r routes).map Site.place
      = ((serviceClasses input.classPolicies r routes).zipIdx.map
          Prod.snd).product (routes.zipIdx.map Prod.snd) := by
    simp only [sites, List.product, List.map_flatMap, List.flatMap_map,
      List.map_map, Function.comp_def]
  rw [hproduct, List.zipIdx_map_snd, List.zipIdx_map_snd]
  exact (List.nodup_range' ..).product (List.nodup_range' ..)

theorem rejections_eq (h : ∀ site ∈ reported host maxRejections input r
      routes, ¬Ambiguous host input r site) :
    rejections host maxRejections input o r routes
      = rejections host maxRejections input .listed r routes := by
  apply List.filterMap_congr
  intro site hsite
  rw [verdict_of_not_ambiguous (h site hsite)]

/-- At a pair that is reported, the order picks the extension that is
named and nothing else. -/
theorem rejections_naming (hsite : site ∈ reported host maxRejections input
      r routes) (h : Ambiguous host input r site) :
    ∃ before after, ∀ name ∈ r.extensions, name ∉ site.route.extensionNames →
      rejections host maxRejections input (.naming site.place name) r routes
        = before ++ unadvertised site name :: after := by
  have hnodup : ((reported host maxRejections input r routes).map Site.place).Nodup :=
    nodup_places.sublist (((List.take_sublist _ _).trans List.filter_sublist).map _)
  obtain ⟨before, after, hsplit⟩ := List.append_of_mem hsite
  have helse : ∀ other ∈ before ++ after, other.place ≠ site.place := by
    intro other hother heq
    rw [hsplit, List.map_append, List.map_cons, List.nodup_middle, List.nodup_cons] at hnodup
    apply hnodup.1
    rw [← heq, ← List.map_append]
    exact List.mem_map_of_mem hother
  let listed (part : List Site) : List Rejection :=
    part.filterMap fun other => reason? (verdict host input r .listed other)
  refine ⟨listed before, listed after, fun name hmem hlacks => ?_⟩
  have hsame : ∀ part ⊆ before ++ after, part.filterMap (fun other =>
      reason? (verdict host input r (.naming site.place name) other))
      = listed part := by
    intro part hpart
    apply List.filterMap_congr
    intro other hother
    rw [verdict_naming_elsewhere (helse other (hpart hother))]
  have hnamed : reason? (verdict host input r (.naming site.place name) site)
      = some (unadvertised site name) := by
    rw [verdict_naming h hmem hlacks]
    rfl
  unfold rejections
  rw [hsplit, List.filterMap_append,
    List.filterMap_cons_some (f := fun other => reason? (verdict host input
      r (.naming site.place name) other)) hnamed,
    hsame before (List.subset_append_left ..),
    hsame after (List.subset_append_right ..)]

/-- So the rejections of two orders are not the same, sorted or not. -/
theorem rejections_ne (hsite : site ∈ reported host maxRejections input r
      routes) (h : Ambiguous host input r site) :
    ∃ o o', ¬(rejections host maxRejections input o r routes).Perm
      (rejections host maxRejections input o' r routes) := by
  obtain ⟨before, after, hnaming⟩ := rejections_naming hsite h
  obtain ⟨-, -, -, a, ha, b, hb, hne, hlacks, hlacks'⟩ := h
  refine ⟨.naming site.place a, .naming site.place b, fun hperm => hne ?_⟩
  rw [hnaming a ha hlacks, hnaming b hb hlacks', List.perm_append_left_iff] at hperm
  have hone : [unadvertised site a].Perm [unadvertised site b] :=
    (List.perm_append_right_iff after).mp hperm
  have hpath := congrArg Rejection.path (List.singleton_perm_singleton.mp hone)
  exact (String.append_right_inj _).mp hpath

/-- Planning is a function of its input, whatever the order of the maps it
ranges over, exactly when no rejection it reports had two extensions to
name. -/
theorem plan_deterministic_iff (host : PlanHost) (maxRejections : Int)
    (cancelled : Bool) (input : Input) :
    (∀ o o', (planRequest host maxRejections cancelled input o).1
      = (planRequest host maxRejections cancelled input o').1)
    ↔ Unambiguous host maxRejections cancelled input := by
  constructor
  · intro h r routes hprepare
    cases hprefer : preferProviderCacheAffinity
        (eligible host input r routes) input.affinity input.now with
    | error fault => exact .inl ⟨fault, rfl⟩
    | ok plan =>
      refine .inr fun site hsite hambiguous => ?_
      obtain ⟨o, o', hne⟩ := rejections_ne hsite hambiguous
      have heq := h o o'
      rw [planRequest_ok hprepare, planRequest_ok hprepare] at heq
      simp only [conclude, preferProviderCacheAffinity_rejections, hprefer, Except.map] at heq
      have hsorted : sortedRejections (rejections host maxRejections input o r routes)
          = sortedRejections (rejections host maxRejections input o' r routes) :=
        congrArg Plan.rejections heq
      exact hne ((List.perm_insertionSort _ _).symm.trans
        ((List.Perm.of_eq hsorted).trans (List.perm_insertionSort _ _)))
  · intro h o o'
    cases hprepare : prepare cancelled input with
    | error early => simp only [planRequest, hprepare]
    | ok found =>
      obtain ⟨r, routes⟩ := found
      rw [planRequest_ok hprepare, planRequest_ok hprepare]
      rcases h r routes hprepare with ⟨fault, hfault⟩ | hclear
      · simp only [conclude, preferProviderCacheAffinity_rejections, hfault, Except.map]
      · rw [rejections_eq (o := o) hclear, rejections_eq (o := o') hclear]

/-- A request with two extensions for a model with one route. -/
def twoExtensions : Input where
  request := .ok {
    model := "m", tenant := "", project := "", region := ""
    serviceClass := .standard, serviceClassFallbacks := []
    bestEffort := false, extensions := ["x", "y"], hasTools := false
    structuredOutput := false, reasoning := false, maxTokens := none
    webFetch := false, codeExecution := false, webSearch := false
    canonicalBytes := 9, canonicalDigest := "", textOverhead := fun _ => 0 }
  version := "v"
  models := [("m", [{
    id := "r", endpointId := "e", provider := "openai"
    family := "openai_chat", region := "", accountRegion := ""
    endpointAccountHmac := 0, endpointAccountDigest := 0
    endpointDigest := 0, legacyEndpointDigest := 0, model := "m"
    modelLineage := "", modelRevision := "", classes := ["standard"]
    providerTiers := [("standard", "default")], allowedTenants := []
    allowedRegions := [], capabilityVersion := ""
    features := [("text", "native")], priceVersion := ""
    priceAvailable := true, pricedWindows := none, extensionNames := []
    contextBytes := 0, outputTokens := 0, contextTokens := 0
    pinning := ⟨"", "", "", "", ""⟩ }])]
  classPolicies := []
  continuation := ⟨⟨"", "", "", "", ""⟩, false, false, true, false⟩
  health := []
  affinity := none
  now := 1

/-- Its one rejection names the extension that the map gives first. -/
theorem rejection_names_either : (planRequest ⟨id, fun i => .ok i.routeId⟩ 0 false twoExtensions
        .listed).1.rejections
      = [⟨"route_extension_unsupported", "r", "extensions.x",
          "route does not advertise this extension"⟩]
    ∧ (planRequest ⟨id, fun i => .ok i.routeId⟩ 0 false twoExtensions
        (.naming (0, 0) "y")).1.rejections
      = [⟨"route_extension_unsupported", "r", "extensions.y",
          "route does not advertise this extension"⟩] := by
  decide

end LlmTemporalWorker.Routing
