/-
Price catalogs (pricing/catalog.go): compiling a list of entries and
resolving a query.

`CompileUSD` looks for overlap between neighbours only, after sorting each
route's entries by their start. That suffices because no interval is empty:
then "ends before the other starts" is transitive, a chain of neighbours is
a chain of pairs, and among sorted entries being apart at every instant is
the same as ending before. A bound of zero is no bound, so the start sorts
zero first and the tests read zero as infinite.

Accepting is a conjunction of properties of the set of entries, the
identities are distinct, and the compiled entries are sorted by identity:
hence nothing depends on the order of the input.

Times are nanoseconds from Go's zero time. A digest stands for what it is
computed from. Prices and components are valid by their types.
-/
import LlmTemporalWorker.Pricing.Cost

namespace LlmTemporalWorker.Pricing

open Lib

/-- Go `Entry`, with what selects it. -/
structure CatalogEntry extends Entry where
  (provider endpointId region model providerTier : String)
  (effectiveFrom effectiveUntil : Int)
  provenance : String
deriving DecidableEq, Repr

/-- The formatting and encoding the catalog relies on. -/
structure CatalogHost where
  /-- `UTC().Format(time.RFC3339Nano)` -/
  format : Int → String
  /-- whether `json.Marshal` takes an entry, which depends on its times -/
  encodes : CatalogEntry → Bool

/-- The string a component is. -/
def PriceComponent.text : PriceComponent → String
  | .input => "input"
  | .output => "output"
  | .cacheRead => "cache_read"
  | .cacheWrite => "cache_write"
  | .reasoning => "reasoning"
  | .perRequest => "per_request"

/-- Go `decimalUSDForComponent`. -/
def UnitPrices.forComponent (p : UnitPrices) : PriceComponent → DecimalUsd
  | .input => p.inputPerMillion
  | .output => p.outputPerMillion
  | .cacheRead => p.cacheReadPerMillion
  | .cacheWrite => p.cacheWritePerMillion
  | .reasoning => p.reasoningPerMillion
  | .perRequest => p.perRequest

namespace CatalogEntry

variable (e : CatalogEntry)

/-- Go `[6]string` route key. -/
def route : List String :=
  [e.provider, e.family, e.endpointId, e.region, e.model, e.providerTier]

/-- Go `entryKey`. -/
def key (host : CatalogHost) : String :=
  String.intercalate "\x00" (e.route ++ [host.format e.effectiveFrom])

def active (now : Int) : Bool :=
  (e.effectiveFrom = 0 || e.effectiveFrom ≤ now) && (e.effectiveUntil = 0 || now < e.effectiveUntil)

end CatalogEntry

/-- What is wrong with one entry: "pricing entry %d …". -/
inductive EntryFault where
  | usagePricing (text : String)
  /-- "identity is incomplete" -/
  | identityIncomplete
  /-- "repeats unknown component %q" -/
  | repeatsUnknown (component : PriceComponent)
  /-- "marks component %q unknown but supplies a non-zero long-prompt
  price" -/
  | longPriceOfUnknown (component : PriceComponent)
  /-- "marks component %q unknown but supplies a non-zero price" -/
  | priceOfUnknown (component : PriceComponent)
  /-- "effective interval is empty" -/
  | emptyInterval
deriving DecidableEq, Repr

/-- The errors of `CompileUSD`. -/
inductive CompileError where
  /-- "pricing catalog version is required" -/
  | versionRequired
  | entry (index : Nat) (fault : EntryFault)
  /-- "pricing entry %d duplicates pricing identity" -/
  | duplicateIdentity (index : Nat)
  /-- "pricing route %q has overlapping effective intervals" -/
  | overlapping (route : List String)
  /-- the error of `json.Marshal` -/
  | encoding
deriving DecidableEq, Repr

/-- The loop over `UnknownComponents`. -/
def checkUnknown (e : CatalogEntry) (seen : List PriceComponent) :
    List PriceComponent → Option EntryFault
  | [] => none
  | c :: rest =>
      if c ∈ seen then some (.repeatsUnknown c)
      else if e.longPrompt.any
          fun long => (long.prices.forComponent c).numerator != 0 then
        some (.longPriceOfUnknown c)
      else if (e.prices.forComponent c).numerator ≠ 0 then
        some (.priceOfUnknown c)
      else checkUnknown e (c :: seen) rest

/-- The checks on one entry. -/
def checkEntry (e : CatalogEntry) : Option EntryFault :=
  match e.validateUsagePricing with
  | .error text => some (.usagePricing text)
  | .ok _ =>
    if e.provider = "" ∨ e.family = "" ∨ e.endpointId = "" ∨ e.model = ""
        ∨ e.providerTier = "" then some .identityIncomplete
    else match checkUnknown e [] e.unknownComponents with
    | some fault => some fault
    | none =>
      if e.effectiveFrom ≠ 0 ∧ e.effectiveUntil ≠ 0
          ∧ e.effectiveUntil ≤ e.effectiveFrom then some .emptyInterval
      else none

/-- An entry with its unknown components sorted. -/
def CatalogEntry.normalized (e : CatalogEntry) : CatalogEntry :=
  { e with unknownComponents := e.unknownComponents.insertionSort (·.text ≤ ·.text) }

/-- The entry loop of `CompileUSD`: checks and identities. -/
def checkEntries (host : CatalogHost) (seen : List String) (index : Nat) :
    List CatalogEntry → Except CompileError Unit
  | [] => .ok ()
  | e :: rest =>
      match checkEntry e with
      | some fault => .error (.entry index fault)
      | none =>
        if e.key host ∈ seen then .error (.duplicateIdentity index)
        else checkEntries host (e.key host :: seen) (index + 1) rest

/-- The order of starts: no start first. -/
def startsBefore (e f : CatalogEntry) : Prop :=
  e.effectiveFrom = 0 ∨ (f.effectiveFrom ≠ 0 ∧ e.effectiveFrom ≤ f.effectiveFrom)

instance : DecidableRel startsBefore :=
  fun _ _ => inferInstanceAs (Decidable (_ ∨ _))

/-- The test between neighbours, when it passes. -/
def endsBefore (e f : CatalogEntry) : Prop :=
  e.effectiveUntil ≠ 0 ∧ f.effectiveFrom ≠ 0 ∧ e.effectiveUntil ≤ f.effectiveFrom

instance : DecidableRel endsBefore :=
  fun _ _ => inferInstanceAs (Decidable (_ ∧ _))

/-- The entries of one route in the order of their starts. -/
def intervalsOf (route : List String) (entries : List CatalogEntry) : List CatalogEntry :=
  (entries.filter (·.route = route)).insertionSort startsBefore

/-- Go `validatePriceIntervals`. Go goes through the routes in the order of
a map, so it may name another overlapping route. -/
def validatePriceIntervals (entries : List CatalogEntry) : Except CompileError Unit :=
  match entries.find? fun e =>
      ¬ (intervalsOf e.route entries).IsChain endsBefore with
  | some e => .error (.overlapping e.route)
  | none => .ok ()

structure Catalog where
  version : String
  entries : List CatalogEntry
  digest : String × List CatalogEntry
deriving DecidableEq, Repr

/-- The compiled entries: sorted by identity. -/
def compiledEntries (host : CatalogHost) (entries : List CatalogEntry) : List CatalogEntry :=
  (entries.map CatalogEntry.normalized).insertionSort fun e f => e.key host ≤ f.key host

def compileUsd (host : CatalogHost) (version : String)
    (entries : List CatalogEntry) : Except CompileError Catalog :=
  if version = "" then .error .versionRequired
  else do
    checkEntries host [] 0 entries
    validatePriceIntervals entries
    if (entries.map CatalogEntry.normalized).all host.encodes then
      .ok ⟨version, compiledEntries host entries, (version, compiledEntries host entries)⟩
    else .error .encoding

structure Query where
  route : List String
  at_ : Int
deriving DecidableEq, Repr

/-- The instant a query asks about. -/
def Query.instant (q : Query) (now : Int) : Int :=
  if q.at_ = 0 then now else q.at_

/-- Go `Resolve`, at the clock reading `now`: the entry quoted, or none for
`ErrNoActivePrice`. -/
def Catalog.resolve (catalog : Catalog) (q : Query) (now : Int) : Option CatalogEntry :=
  catalog.entries.find? fun e =>
    e.route = q.route && e.active (q.instant now)

-- ===== intervals

/-- No instant at which both are active. -/
def Apart (e f : CatalogEntry) : Prop :=
  ∀ t, ¬(e.active t = true ∧ f.active t = true)

variable {e f : CatalogEntry} {entries : List CatalogEntry}

theorem Apart.symm (h : Apart e f) : Apart f e := fun t ht => h t ht.symm

/-- An interval that is not empty. -/
def NonEmpty (e : CatalogEntry) : Prop :=
  e.effectiveFrom = 0 ∨ e.effectiveUntil = 0 ∨ e.effectiveFrom < e.effectiveUntil

theorem active_iff {t : Int} : e.active t = true ↔ (e.effectiveFrom = 0 ∨ e.effectiveFrom ≤ t) ∧
        (e.effectiveUntil = 0 ∨ t < e.effectiveUntil) := by
  simp [CatalogEntry.active]

theorem apart_of_endsBefore (h : endsBefore e f) : Apart e f := by
  rintro t ⟨he, hf⟩
  rw [active_iff] at he hf
  obtain ⟨huntil, hfrom, hle⟩ := h
  omega

/-- Entries that start in order and are never active together end one
before the other; otherwise the later start, or an instant before both
ends, is in both. -/
theorem endsBefore_of_apart (hsorted : startsBefore e f) (he : NonEmpty e)
    (hf : NonEmpty f) (h : Apart e f) : endsBefore e f := by
  unfold startsBefore at hsorted
  unfold NonEmpty at he hf
  by_contra hnot
  unfold endsBefore at hnot
  by_cases hfrom : f.effectiveFrom = 0
  · refine h ((if e.effectiveUntil = 0 then f.effectiveUntil
      else if f.effectiveUntil = 0 then e.effectiveUntil
      else min e.effectiveUntil f.effectiveUntil) - 1) ⟨?_, ?_⟩ <;>
        rw [active_iff] <;> omega
  · refine h f.effectiveFrom ⟨?_, ?_⟩ <;> rw [active_iff] <;> omega

theorem pairwise_apart_iff (hne : ∀ e ∈ entries, NonEmpty e) :
    (entries.insertionSort startsBefore).IsChain endsBefore ↔ entries.Pairwise Apart := by
  have htotal : Std.Total startsBefore := ⟨fun e f => by
    unfold startsBefore
    omega⟩
  have htrans : IsTrans CatalogEntry startsBefore := ⟨fun e f g hef hfg => by
    unfold startsBefore at *
    omega⟩
  have hperm := List.perm_insertionSort startsBefore entries
  have hsorted := List.pairwise_insertionSort startsBefore entries
  have hmem : ∀ e ∈ entries.insertionSort startsBefore, NonEmpty e :=
    fun e he => hne e (hperm.mem_iff.mp he)
  rw [← hperm.pairwise_iff Apart.symm]
  constructor
  · -- ending before is transitive through an interval that is not empty
    intro hchain
    let ends (e f : CatalogEntry) : Prop := NonEmpty f ∧ endsBefore e f
    have htrans' : Trans ends ends ends := ⟨fun {e f g} hef hfg => by
      obtain ⟨hf, huntil, hfrom, hle⟩ := hef
      obtain ⟨hg, huntil', hfrom', hle'⟩ := hfg
      unfold NonEmpty at hf
      exact ⟨hg, huntil, hfrom', by omega⟩⟩
    have hends : (entries.insertionSort startsBefore).IsChain ends :=
      hchain.imp_of_mem_imp fun e f _ hf h => ⟨hmem f hf, h⟩
    exact (List.isChain_iff_pairwise.mp hends).imp fun h => apart_of_endsBefore h.2
  · intro hapart
    refine List.Pairwise.isChain ?_
    exact (hsorted.and hapart).imp_of_mem fun he hf h =>
      endsBefore_of_apart h.1 (hmem _ he) (hmem _ hf) h.2

-- ===== acceptance

/-- Entries of one route are never active together. -/
def RoutesApart (entries : List CatalogEntry) : Prop :=
  entries.Pairwise fun e f => e.route = f.route → Apart e f

theorem routesApart_iff (entries : List CatalogEntry) : RoutesApart entries ↔
      ∀ e ∈ entries, (entries.filter (·.route = e.route)).Pairwise Apart := by
  constructor
  · intro h e _
    refine (h.filter _).imp_of_mem ?_
    intro f g hf hg hfg
    have hf := of_decide_eq_true (List.mem_filter.mp hf).2
    have hg := of_decide_eq_true (List.mem_filter.mp hg).2
    exact hfg (hf.trans hg.symm)
  · intro h
    refine List.pairwise_iff_forall_sublist.mpr ?_
    intro e f hsub hroute
    have he : e ∈ entries := hsub.subset List.mem_cons_self
    have hpair : [e, f].filter (·.route = e.route) = [e, f] := by
      simp [hroute]
    exact List.pairwise_iff_forall_sublist.mp (h e he) (hpair ▸ hsub.filter _)

theorem nonEmpty_of_checkEntry (h : checkEntry e = none) : NonEmpty e := by
  unfold checkEntry at h
  unfold NonEmpty
  split at h
  · cases h
  split at h
  · cases h
  split at h
  · cases h
  split at h
  · cases h
  · omega

theorem validatePriceIntervals_eq (h : ∀ e ∈ entries, checkEntry e = none) :
    (validatePriceIntervals entries = .ok () ∧ RoutesApart entries) ∨
      ((∃ route, validatePriceIntervals entries
        = .error (.overlapping route)) ∧ ¬RoutesApart entries) := by
  have hchain : ∀ e : CatalogEntry, (intervalsOf e.route entries).IsChain endsBefore ↔
        (entries.filter (·.route = e.route)).Pairwise Apart := fun e =>
    pairwise_apart_iff fun f hf =>
      nonEmpty_of_checkEntry (h f (List.mem_filter.mp hf).1)
  rw [routesApart_iff]
  unfold validatePriceIntervals
  cases hfind : entries.find? fun e =>
      ¬ (intervalsOf e.route entries).IsChain endsBefore with
  | none =>
    refine .inl ⟨rfl, fun e he => (hchain e).mp ?_⟩
    simpa using List.find?_eq_none.mp hfind e he
  | some e =>
    refine .inr ⟨⟨_, rfl⟩, fun hall => ?_⟩
    have hbad := List.find?_some hfind
    simp only [(hchain e).mpr (hall e (List.mem_of_find?_eq_some hfind)),
      not_true_eq_false, decide_false, Bool.false_eq_true] at hbad

theorem checkEntries_ok_iff (host : CatalogHost)
    (entries : List CatalogEntry) (seen : List String) (index : Nat) :
    checkEntries host seen index entries = .ok () ↔ (∀ e ∈ entries, checkEntry e = none) ∧
        (entries.map (·.key host)).Nodup ∧ ∀ e ∈ entries, e.key host ∉ seen := by
  induction entries generalizing seen index with
  | nil => simp [checkEntries]
  | cons e rest ih =>
    rw [checkEntries, List.map_cons, List.nodup_cons, List.forall_mem_cons, List.forall_mem_cons]
    cases hcheck : checkEntry e with
    | some fault => simp
    | none =>
      by_cases hseen : e.key host ∈ seen
      · simp [hseen]
      · simp only [hseen, if_false, ih, List.mem_cons, not_or,
          true_and, not_false_eq_true, List.mem_map, not_exists, not_and]
        constructor
        · rintro ⟨hall, hnodup, hnew⟩
          exact ⟨hall, ⟨fun f hf => (hnew f hf).1, hnodup⟩, fun f hf => (hnew f hf).2⟩
        · rintro ⟨hall, ⟨hne, hnodup⟩, hnew⟩
          exact ⟨hall, hnodup, fun f hf => ⟨hne f hf, hnew f hf⟩⟩

/-- The loop never reports overlap. -/
theorem checkEntries_error {host : CatalogHost} {seen : List String}
    {index : Nat} {fault : CompileError}
    (h : checkEntries host seen index entries = .error fault)
    (route : List String) : fault ≠ .overlapping route := by
  induction entries generalizing seen index with
  | nil => cases h
  | cons e rest ih =>
    rw [checkEntries] at h
    split at h
    · cases h
      simp
    split at h
    · cases h
      simp
    · exact ih h

/-- What the loop over the entries asks for. -/
def Checked (host : CatalogHost) (entries : List CatalogEntry) : Prop :=
  (∀ e ∈ entries, checkEntry e = none) ∧ (entries.map (·.key host)).Nodup

variable {host : CatalogHost} {version : String}
  {entries entries' : List CatalogEntry}

theorem checkEntries_iff : checkEntries host [] 0 entries = .ok () ↔ Checked host entries := by
  simp [checkEntries_ok_iff, Checked]

/-- The outcomes of `CompileUSD`, in the order of its checks. -/
theorem compileUsd_cases (host : CatalogHost) (version : String) (entries : List CatalogEntry) :
    (¬(version ≠ "" ∧ Checked host entries) ∧
      ∃ fault, compileUsd host version entries = .error fault ∧
        ∀ route, fault ≠ .overlapping route) ∨
    (version ≠ "" ∧ Checked host entries) ∧ ((¬RoutesApart entries ∧ ∃ route,
          compileUsd host version entries = .error (.overlapping route)) ∨
        RoutesApart entries ∧ compileUsd host version entries
          = if (entries.map CatalogEntry.normalized).all host.encodes then
              .ok ⟨version, compiledEntries host entries, (version, compiledEntries host entries)⟩
            else .error .encoding) := by
  unfold compileUsd
  by_cases hversion : version = ""
  · exact .inl ⟨fun h => h.1 hversion, _, if_pos hversion, by simp⟩
  rw [if_neg hversion]
  cases hcheck : checkEntries host [] 0 entries with
  | error fault =>
    refine .inl ⟨fun h => ?_, fault, rfl, checkEntries_error hcheck⟩
    rw [checkEntries_iff.mpr h.2] at hcheck
    cases hcheck
  | ok _ =>
    have hchecked := checkEntries_iff.mp hcheck
    refine .inr ⟨⟨hversion, hchecked⟩, ?_⟩
    rcases validatePriceIntervals_eq hchecked.1 with
      ⟨hok, hapart⟩ | ⟨⟨route, herror⟩, hapart⟩
    · rw [hok]
      exact .inr ⟨hapart, rfl⟩
    · rw [herror]
      exact .inl ⟨hapart, route, rfl⟩

theorem compileUsd_ok_iff {catalog : Catalog} : compileUsd host version entries = .ok catalog ↔
      ((version ≠ "" ∧ Checked host entries) ∧ RoutesApart entries ∧
        (entries.map CatalogEntry.normalized).all host.encodes = true) ∧
      catalog = ⟨version, compiledEntries host entries,
        (version, compiledEntries host entries)⟩ := by
  rcases compileUsd_cases host version entries with
    ⟨hnot, fault, herror, -⟩ | ⟨hchecked, ⟨hapart, route, herror⟩ | ⟨hapart, hok⟩⟩
  · rw [herror]
    simp only [reduceCtorEq, false_iff]
    exact fun h => hnot h.1.1
  · rw [herror]
    simp only [reduceCtorEq, false_iff]
    exact fun h => hapart h.1.2.1
  · rw [hok]
    split
    next hall =>
      constructor
      · rintro ⟨⟩
        exact ⟨⟨hchecked, hapart, hall⟩, rfl⟩
      · rintro ⟨-, rfl⟩
        rfl
    next hall =>
      simp only [reduceCtorEq, false_iff]
      exact fun h => hall h.1.2.2

theorem compileUsd_overlapping_iff : (∃ route, compileUsd host version entries
        = .error (.overlapping route)) ↔
      (version ≠ "" ∧ Checked host entries) ∧ ¬RoutesApart entries := by
  rcases compileUsd_cases host version entries with
    ⟨hnot, fault, herror, hother⟩ | ⟨hchecked, ⟨hapart, herror⟩ | ⟨hapart, hok⟩⟩
  · rw [herror]
    refine ⟨?_, fun h => absurd h.1 hnot⟩
    rintro ⟨route, h⟩
    exact absurd (Except.error.inj h) (hother route)
  · exact ⟨fun _ => ⟨hchecked, hapart⟩, fun _ => herror⟩
  · rw [hok]
    refine ⟨?_, fun h => absurd hapart h.2⟩
    rintro ⟨route, h⟩
    split at h <;> cases h

-- ===== order

theorem routesApart_perm (h : entries.Perm entries') : RoutesApart entries ↔ RoutesApart entries' :=
  h.pairwise_iff fun hef hroute => (hef hroute.symm).symm

theorem checked_perm (h : entries.Perm entries') :
    Checked host entries ↔ Checked host entries' := by
  unfold Checked
  rw [(h.map _).nodup_iff]
  simp only [h.mem_iff]

/-- Sorted by distinct identities, the entries have one order. -/
theorem compiledEntries_perm (h : entries.Perm entries') (hchecked : Checked host entries) :
    compiledEntries host entries = compiledEntries host entries' := by
  let before (e f : CatalogEntry) : Prop := e.key host ≤ f.key host
  have hperm := h.map CatalogEntry.normalized
  refine List.Perm.eq_of_pairwise ?_ (List.pairwise_insertionSort before _)
    (List.pairwise_insertionSort before _)
    ((List.perm_insertionSort _ _).trans (hperm.trans (List.perm_insertionSort _ _).symm))
  intro e f he hf hef hfe
  have he := ((List.perm_insertionSort _ _).mem_iff).mp he
  have hf := hperm.mem_iff.mpr (((List.perm_insertionSort _ _).mem_iff).mp hf)
  obtain ⟨e₀, he₀, rfl⟩ := List.mem_map.mp he
  obtain ⟨f₀, hf₀, rfl⟩ := List.mem_map.mp hf
  exact congrArg CatalogEntry.normalized
    (List.inj_on_of_nodup_map hchecked.2 he₀ hf₀ (le_antisymm hef hfe))

-- ===== resolving

/-- At most one entry of a route is active at an instant. -/
theorem active_unique (h : RoutesApart entries) (route : List String) (t : Int) :
    (entries.filter fun e => e.route = route && e.active t).length ≤ 1 := by
  have hpairs := h.filter fun e => e.route = route && e.active t
  have hmem : ∀ e ∈ entries.filter fun e => e.route = route && e.active t,
      e.route = route ∧ e.active t = true := by
    intro e he
    simpa using (List.mem_filter.mp he).2
  revert hpairs hmem
  cases entries.filter fun e => e.route = route && e.active t with
  | nil => exact fun _ _ => Nat.zero_le _
  | cons e rest =>
    cases rest with
    | nil => exact fun _ _ => le_rfl
    | cons f rest =>
      intro hpairs hmem
      obtain ⟨he, hactive⟩ := hmem e (by simp)
      obtain ⟨hf, hactive'⟩ := hmem f (by simp)
      exact absurd ⟨hactive, hactive'⟩
        ((List.pairwise_cons.mp hpairs).1 f (by simp) (he.trans hf.symm) t)

theorem resolve_eq {catalog : Catalog}
    (h : compileUsd host version entries = .ok catalog) (q : Query)
    (now : Int) :
    catalog.resolve q now = (entries.find? fun e =>
      e.route = q.route && e.active (q.instant now)).map CatalogEntry.normalized := by
  obtain ⟨⟨-, hapart, -⟩, rfl⟩ := compileUsd_ok_iff.mp h
  let wanted (e : CatalogEntry) : Bool := e.route = q.route && e.active (q.instant now)
  have hperm : ((compiledEntries host entries).filter wanted).Perm
      ((entries.filter wanted).map CatalogEntry.normalized) := by
    have hmap : (entries.map CatalogEntry.normalized).filter wanted
        = (entries.filter wanted).map CatalogEntry.normalized := by
      rw [List.filter_map]
      rfl
    rw [← hmap]
    exact (List.perm_insertionSort _ _).filter _
  have hlen : ((entries.filter wanted).map CatalogEntry.normalized).length ≤ 1 := by
    rw [List.length_map]
    exact active_unique hapart q.route (q.instant now)
  have hsame : (compiledEntries host entries).filter wanted
      = (entries.filter wanted).map CatalogEntry.normalized := by
    revert hperm hlen
    match (entries.filter wanted).map CatalogEntry.normalized with
    | [] => exact fun hperm _ => hperm.eq_nil
    | [e] => exact fun hperm _ => List.perm_singleton.mp hperm
    | _ :: _ :: _ => exact fun _ hlen => absurd hlen (by simp)
  show (compiledEntries host entries).find? wanted = _
  rw [← List.head?_filter, hsame, List.head?_map, List.head?_filter]

/-- **Catalogs resolve uniquely.** -/
theorem catalog_resolves_uniquely (host : CatalogHost) (version : String)
    (entries : List CatalogEntry) :
    (∀ catalog, compileUsd host version entries = .ok catalog → ∀ (q : Query) (now : Int),
        (entries.filter fun e => e.route = q.route && e.active (q.instant now)).length ≤ 1 ∧
        catalog.resolve q now = (entries.find? fun e => e.route = q.route
          && e.active (q.instant now)).map CatalogEntry.normalized) ∧
    ((∃ route, compileUsd host version entries = .error (.overlapping route)) ↔
      (version ≠ "" ∧ (∀ e ∈ entries, checkEntry e = none) ∧ (entries.map (·.key host)).Nodup) ∧
      ∃ e f, [e, f].Sublist entries ∧ e.route = f.route ∧
        ∃ t, e.active t = true ∧ f.active t = true) ∧
    ∀ entries', entries.Perm entries' → ∀ catalog, compileUsd host version entries = .ok catalog ↔
        compileUsd host version entries' = .ok catalog := by
  refine ⟨?_, ?_, ?_⟩
  · intro catalog hok q now
    exact ⟨active_unique (compileUsd_ok_iff.mp hok).1.2.1 _ _, resolve_eq hok q now⟩
  · rw [compileUsd_overlapping_iff, RoutesApart, List.pairwise_iff_forall_sublist]
    simp only [Checked, Apart, not_forall, not_not, exists_prop]
  · intro entries' hperm catalog
    have hencodes : (entries.map CatalogEntry.normalized).all host.encodes
        = (entries'.map CatalogEntry.normalized).all host.encodes :=
      (hperm.map _).all_eq
    rw [compileUsd_ok_iff, compileUsd_ok_iff, ← checked_perm hperm,
      ← routesApart_perm hperm, ← hencodes]
    constructor <;> rintro ⟨hall, rfl⟩ <;>
      exact ⟨hall, by rw [compiledEntries_perm hperm hall.1.2]⟩

/-- An entry of a route without bounds. -/
def sampleEntry (route : String) : CatalogEntry :=
  ⟨⟨"f", .zero, none, [], ""⟩, route, "e", "", "m", "t", 0, 0, ""⟩

/-- Two such entries of one route are always active together, yet they are
refused for their identity, before intervals are compared. -/
theorem duplicate_before_overlap :
    let host : CatalogHost := ⟨fun _ => "", fun _ => true⟩
    (∃ t, (sampleEntry "p").active t = true) ∧
      compileUsd host "1" [sampleEntry "p", sampleEntry "p"] = .error (.duplicateIdentity 1) := by
  exact ⟨⟨0, by decide⟩, by decide⟩

end LlmTemporalWorker.Pricing
