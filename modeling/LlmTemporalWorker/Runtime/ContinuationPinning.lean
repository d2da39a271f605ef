/-
Continuation pinning (internal/runtime/continuation_pinning.go): provider
state is replayed only to the lineage that produced it.

Provenance names, by its index in the parent transcript, each item whose
provider state was recorded, with the route and account it came from. The
input compiled for a candidate leaves out the state of every item recorded
under another pin. A route that proves no account and a record without one
each get a text in place of the account that is meant to match nothing.

# Method

`remaining` says what is left of an input when the items at some indexes
lose their state: the code cuts where its own comparison of pins fails
(`candidateRequest_eq`), and `recordedPinning_eq_iff` compares it with the
intended one. They differ on one kind of record. Publication never makes
such a record: it stores the text for an unknown account as none
(`responseProvenance`). The scan of the transcript does not see what goes
(`Alike`).
-/
import LlmTemporalWorker.Lib.Digits
import LlmTemporalWorker.Routing.Types
import LlmTemporalWorker.State.Transcript

namespace LlmTemporalWorker.Runtime.Continuation

open State.Transcript Lib
open Routing (Pinning)

variable {α Fault : Type}

-- ===== items

/-- Go `llm.Part`. -/
inductive Part (α : Type) where
  | providerState (value : α)
  | other (value : α)
deriving DecidableEq, Repr

def Part.isState : Part α → Bool
  | .providerState _ => true
  | .other _ => false

/-- What an item holds: its parts, and its further fields as one value. -/
structure Body (α : Type) where
  parts : List (Part α)
  fields : α
deriving DecidableEq, Repr

/-- What the encoders of parts and of other items refuse. -/
structure Encoders (α Fault : Type) where
  part : Part α → Option Fault
  item : Item (Body α) → Option Fault

/-- A message encodes when each of its parts does. -/
def checkItemEncoding (encoders : Encoders α Fault) : Item (Body α) → Option Fault
  | .message _ body => body.parts.findSome? encoders.part
  | item => encoders.item item

def itemHasProviderState : Item (Body α) → Bool
  | .providerState _ => true
  | .message _ body => body.parts.any Part.isState
  | _ => false

def withoutProviderState : Item (Body α) → Option (Item (Body α))
  | .message actor body =>
    let content := body.parts.filter (!·.isState)
    if content = [] then none else some (.message actor { body with parts := content })
  | _ => none

-- ===== pins

structure ProviderStateProvenance where
  ordinal : Int
  (provider endpointId endpointFamily modelLineage account : String)
deriving DecidableEq, Repr

/-- What is read of a `routing.Candidate`. -/
structure Candidate where
  (provider endpointId family model : String)
  endpointAccountDigest : Vector UInt8 32

def unrecordedPinAccount : String := "unrecorded-account"

def unknownRouteAccount : String := "unknown-route-account"

def recordedPinning (value : ProviderStateProvenance) : Pinning :=
  ⟨value.provider, value.endpointId,
    if value.account = "" then unrecordedPinAccount else value.account,
    value.endpointFamily, value.modelLineage⟩

def hexDigit (n : Nat) : Char :=
  if n < 10 then Char.ofNat (0x30 + n) else Char.ofNat (0x57 + n)

/-- `hex.EncodeToString`. -/
def hexText (bytes : List UInt8) : String :=
  String.ofList (bytes.flatMap fun b => [hexDigit (b.toNat / 16), hexDigit (b.toNat % 16)])

def accountKey (digest : Vector UInt8 32) : String :=
  if digest = Vector.replicate 32 0 then unknownRouteAccount else hexText digest.toList

def candidatePinning (candidate : Candidate) : Pinning :=
  ⟨candidate.provider, candidate.endpointId, accountKey candidate.endpointAccountDigest,
    candidate.family, candidate.model⟩

/-- What is read of a `cloudstate.BudgetPlan`: the route that served an
attempt. -/
structure ServedRoute where
  (provider endpointId model family endpointAccount : String)

def planPinning (plan : ServedRoute) : Pinning :=
  ⟨plan.provider, plan.endpointId,
    if plan.endpointAccount = "" then unknownRouteAccount else plan.endpointAccount,
    plan.family, plan.model⟩

def responseProvenance (output : List (Item (Body α))) (offset : Nat) (pin : Pinning) :
    List ProviderStateProvenance :=
  (output.zipIdx offset).filterMap fun (item, ordinal) =>
    if itemHasProviderState item then
      some
        { ordinal := ordinal
          provider := pin.provider
          endpointId := pin.endpointId
          endpointFamily := pin.family
          modelLineage := pin.modelLineage
          -- recorded empty, which later reads as unproven
          account := if pin.accountRegion = unknownRouteAccount then "" else pin.accountRegion }
    else none

inductive ProvenanceError where
  /-- "provider state provenance ordinals must be nonnegative and strictly increasing" -/
  | ordinals
  /-- "provider state provenance requires provider, endpoint, family and model lineage" -/
  | incomplete
deriving DecidableEq, Repr

/-- `strings.TrimSpace(value) == ""`. -/
def blank (value : String) : Bool := value.toList.all isSpace

/-- The loop of `ValidateProviderStateProvenance`. -/
def validateFrom : Int → List ProviderStateProvenance → Option ProvenanceError
  | _, [] => none
  | previous, value :: values =>
    if value.ordinal ≤ previous then some .ordinals
    else if blank value.provider || blank value.endpointId || blank value.endpointFamily ||
      blank value.modelLineage then some .incomplete
    else validateFrom value.ordinal values

def validateProviderStateProvenance (values : List ProviderStateProvenance) :
    Option ProvenanceError :=
  validateFrom (-1) values

/-- Go `byIndex`. -/
abbrev ProviderStatePins := Int → Option Pinning

/-- The loop of `newProviderStatePins`. -/
def pinEach (items : List (Item (Body α))) (pins : ProviderStatePins) :
    List ProviderStateProvenance → Option ProviderStatePins
  | [] => some pins
  | value :: values =>
    if (items[value.ordinal.toNat]?).any itemHasProviderState then
      pinEach items (Function.update pins value.ordinal (some (recordedPinning value))) values
    else none

def newProviderStatePins (items : List (Item (Body α)))
    (provenance : List ProviderStateProvenance) : Option ProviderStatePins :=
  match validateProviderStateProvenance provenance with
  | some _ => none
  | none => pinEach items (fun _ => none) provenance

/-- The loop of `strip`, with the number of items it changed. -/
def stripFrom (pins : ProviderStatePins) (pin : Pinning) :
    Nat → List (Item (Body α)) → List (Item (Body α)) × Nat
  | _, [] => ([], 0)
  | index, item :: items =>
    let (result, dropped) := stripFrom pins pin (index + 1) items
    if (pins index).all (· = pin) then (item :: result, dropped)
    else ((withoutProviderState item).toList ++ result, dropped + 1)

def strip (pins : ProviderStatePins) (input : List (Item (Body α))) (pin : Pinning) :
    List (Item (Body α)) × Nat :=
  stripFrom pins pin 0 input

/-- The Input of `candidateRequest` for a normalized request. -/
def candidateRequest (input : List (Item (Body α))) (pins : ProviderStatePins)
    (candidate : Candidate) : List (Item (Body α)) :=
  (strip pins input (candidatePinning candidate)).1

-- ===== what must be left

/-- The candidate is on the route of a record, and both prove the account. -/
abbrev Candidate.Continues (candidate : Candidate) (value : ProviderStateProvenance) : Prop :=
  (value.provider = candidate.provider ∧ value.endpointId = candidate.endpointId ∧
    value.endpointFamily = candidate.family ∧ value.modelLineage = candidate.model) ∧
    candidate.endpointAccountDigest ≠ Vector.replicate 32 0 ∧
    value.account = hexText candidate.endpointAccountDigest.toList

/-- A record that names the text for an unknown account, on the route of a
candidate that proves none. -/
abbrev Candidate.Confuses (candidate : Candidate) (value : ProviderStateProvenance) : Prop :=
  (value.provider = candidate.provider ∧ value.endpointId = candidate.endpointId ∧
    value.endpointFamily = candidate.family ∧ value.modelLineage = candidate.model) ∧
    candidate.endpointAccountDigest = Vector.replicate 32 0 ∧
    value.account = unknownRouteAccount

/-- Go `hexDigest`: the text of thirty-two bytes. -/
def IsHexDigest (text : String) : Prop :=
  ∃ digest : Vector UInt8 32, text = hexText digest.toList

/-- An account as a saved plan may name it, and as a record does that was
made from one: none, or a digest. -/
def Attested (account : String) : Prop := account = "" ∨ IsHexDigest account

/-- The item at an index has state recorded under a pin that is not the
candidate's. -/
def foreign (provenance : List ProviderStateProvenance) (candidate : Candidate)
    (index : Nat) : Bool :=
  provenance.any fun value => value.ordinal = index ∧ ¬candidate.Continues value

/-- What is left of an item without its provider state. -/
def stateless : Item (Body α) → List (Item (Body α))
  | .providerState _ => []
  | .message actor body =>
    if body.parts.all Part.isState then []
    else [.message actor { body with parts := body.parts.filter (!·.isState) }]
  | item => [item]

/-- The items from an index on, those at the `cut` indexes without their
provider state and the others as they are. -/
def remaining (cut : Nat → Bool) : Nat → List (Item (Body α)) → List (Item (Body α))
  | _, [] => []
  | index, item :: items =>
    (if cut index then stateless item else [item]) ++ remaining cut (index + 1) items

-- ===== pins and records

theorem length_hexText (digest : Vector UInt8 32) : (hexText digest.toList).length = 64 := by
  simp [hexText, List.length_flatMap]

/-- The comparison of pins: the intended one, and one confusion. -/
theorem recordedPinning_eq_iff (candidate : Candidate) (value : ProviderStateProvenance) :
    recordedPinning value = candidatePinning candidate ↔
      candidate.Continues value ∨ candidate.Confuses value := by
  have haccount : (if value.account = "" then unrecordedPinAccount else value.account)
        = accountKey candidate.endpointAccountDigest ↔
      candidate.endpointAccountDigest ≠ Vector.replicate 32 0 ∧
          value.account = hexText candidate.endpointAccountDigest.toList ∨
        candidate.endpointAccountDigest = Vector.replicate 32 0 ∧
          value.account = unknownRouteAccount := by
    generalize candidate.endpointAccountDigest = digest
    have hlength := length_hexText digest
    -- a record without an account matches neither a digest nor the other text
    have hunrecorded : ∀ {text}, text = unrecordedPinAccount ∨ text = "" →
        text ≠ hexText digest.toList ∧ text ≠ unknownRouteAccount := by
      rintro _ (rfl | rfl)
      · exact ⟨fun h => absurd (h ▸ hlength) (by decide), by decide⟩
      · exact ⟨fun h => absurd (h ▸ hlength) (by decide), by decide⟩
    rw [accountKey]
    split <;> split <;> simp_all
  rw [recordedPinning, candidatePinning, Pinning.mk.injEq, haccount]
  tauto

/-- The text for an unknown account is neither empty nor a digest. -/
theorem not_attested_unknown : ¬Attested unknownRouteAccount := by
  rintro (h | ⟨digest, h⟩)
  · exact absurd h (by decide)
  · exact absurd (h ▸ length_hexText digest) (by decide)

/-- Publication records an account that the plan of the attempt names, or
none. -/
theorem responseProvenance_attested {plan : ServedRoute} (hplan : Attested plan.endpointAccount)
    {output : List (Item (Body α))} {offset : Nat} {value : ProviderStateProvenance}
    (hvalue : value ∈ responseProvenance output offset (planPinning plan)) :
    Attested value.account := by
  obtain ⟨⟨item, ordinal⟩, -, hmade⟩ := List.mem_filterMap.mp hvalue
  dsimp only at hmade
  split at hmade
  · cases hmade
    dsimp only [planPinning]
    split
    · exact .inl rfl
    · split
      · exact .inl rfl
      · exact hplan
  · cases hmade

/-- Ordinals that pass the check are distinct. -/
theorem validateFrom_none {previous : Int} {values : List ProviderStateProvenance}
    (h : validateFrom previous values = none) :
    values.Pairwise (·.ordinal < ·.ordinal) ∧ ∀ value ∈ values, previous < value.ordinal := by
  induction values generalizing previous with
  | nil => exact ⟨.nil, nofun⟩
  | cons value values ih =>
    rw [validateFrom] at h
    split at h
    · cases h
    next hnext =>
    split at h
    · cases h
    obtain ⟨hordered, hbelow⟩ := ih h
    refine ⟨.cons hbelow hordered, List.forall_mem_cons.mpr ⟨by omega, fun v hv => ?_⟩⟩
    have := hbelow v hv
    omega

theorem pinEach_some {items : List (Item (Body α))} {pins pins' : ProviderStatePins}
    {values : List ProviderStateProvenance} (h : pinEach items pins values = some pins') :
    pins' = values.foldl (fun (pins : ProviderStatePins) v =>
        Function.update pins v.ordinal (some (recordedPinning v))) pins ∧
      ∀ value ∈ values, (items[value.ordinal.toNat]?).any itemHasProviderState = true := by
  induction values generalizing pins with
  | nil => exact ⟨(Option.some.inj h).symm, nofun⟩
  | cons value values ih =>
    rw [pinEach] at h
    split at h
    next hstate => exact ⟨(ih h).1, List.forall_mem_cons.mpr ⟨hstate, (ih h).2⟩⟩
    · cases h

section Pins

variable {parent : List (Item (Body α))} {provenance : List ProviderStateProvenance}
  {pins : ProviderStatePins} (hpins : newProviderStatePins parent provenance = some pins)

include hpins

theorem valid_pins : (provenance.map (·.ordinal)).Nodup ∧
    (∀ value ∈ provenance, -1 < value.ordinal) ∧
    pinEach parent (fun _ => none) provenance = some pins := by
  rw [newProviderStatePins] at hpins
  split at hpins
  · cases hpins
  next hvalid =>
  obtain ⟨hordered, hbelow⟩ := validateFrom_none hvalid
  exact ⟨List.pairwise_map.mpr (hordered.imp fun h => ne_of_lt h), hbelow, hpins⟩

/-- Where a pin differs from that of the item at an index. -/
theorem pins_differ_iff (pin : Pinning) (index : Nat) :
    (!(pins index).all (· = pin)) = true ↔
      ∃ value ∈ provenance, value.ordinal = index ∧ recordedPinning value ≠ pin := by
  obtain ⟨hnodup, -, hpins⟩ := valid_pins hpins
  have hpin := foldl_update (g := fun (pins : ProviderStatePins) k => pins k)
    (w := fun v _ => some (recordedPinning v)) (fun _ _ _ => Function.update_apply ..) hnodup
    (fun _ => none) (index : Int)
  rw [(pinEach_some hpins).1, hpin]
  constructor
  · intro h
    cases hfind : provenance.find? (·.ordinal == (index : Int)) with
    | none => simp [hfind] at h
    | some value =>
      refine ⟨value, List.mem_of_find?_eq_some hfind, beq_iff_eq.mp (List.find?_some hfind :), ?_⟩
      simpa [hfind] using h
  · rintro ⟨value, hvalue, hindex, hne⟩
    rw [← hindex, find?_of_nodup hnodup hvalue]
    simpa using hne

/-- The item of a record. -/
theorem recorded_item (appended : List (Item (Body α))) {value : ProviderStateProvenance}
    (hvalue : value ∈ provenance) : ∃ (item : Item (Body α)) (index : Nat),
      value.ordinal = index ∧ (item, index) ∈ (parent ++ appended).zipIdx
        ∧ itemHasProviderState item = true := by
  obtain ⟨-, hpos, hpins⟩ := valid_pins hpins
  have hpos := hpos value hvalue
  obtain ⟨item, hitem, hstate⟩ := (Option.any_eq_true _ _).mp ((pinEach_some hpins).2 value hvalue)
  refine ⟨item, value.ordinal.toNat, by omega, List.mem_zipIdx_iff_getElem?.mpr ?_, hstate⟩
  rw [List.getElem?_append_left (List.getElem?_eq_some_iff.mp hitem).1, hitem]

end Pins

-- ===== stripping

/-- An item with provider state is left as it must be. -/
theorem withoutProviderState_toList {item : Item (Body α)} (h : itemHasProviderState item = true) :
    (withoutProviderState item).toList = stateless item := by
  cases item with
  | message actor body =>
    have hempty : body.parts.filter (!·.isState) = [] ↔ body.parts.all Part.isState = true := by
      simp
    simp only [withoutProviderState, stateless, hempty]
    split <;> rfl
  | providerState => rfl
  | _ => cases h

theorem stripFrom_eq {pins : ProviderStatePins} {pin : Pinning} {cut : Nat → Bool}
    (hcut : ∀ i : Nat, cut i = !(pins i).all (· = pin)) (items : List (Item (Body α))) (k : Nat)
    (hstate : ∀ x ∈ items.zipIdx k, cut x.2 = true → itemHasProviderState x.1 = true) :
    (stripFrom pins pin k items).1 = remaining cut k items := by
  induction items generalizing k with
  | nil => rfl
  | cons item items ih =>
    obtain ⟨hitem, hrest⟩ := List.forall_mem_cons.mp hstate
    rw [stripFrom, remaining, ← ih (k + 1) hrest]
    cases hall : (pins k).all (· = pin) with
    | true => simp [hcut, hall]
    | false =>
      have hat : cut k = true := by rw [hcut, hall]; rfl
      simp [hat, withoutProviderState_toList (hitem hat)]

-- ===== the scan

/-- The scan of what is left of an item ends as that of the item. -/
theorem run_left {encoders : Encoders α Fault} {item : Item (Body α)} {s s' : Scan} (i : Nat)
    (h : s.step (checkItemEncoding encoders) item = .ok s') (cut : Bool) :
    ∃ t, Scan.run (checkItemEncoding encoders) i s (if cut then stateless item else [item])
      = .ok t ∧ Alike s' t := by
  have hwhole : ∃ t, Scan.run (checkItemEncoding encoders) i s [item] = .ok t ∧ Alike s' t :=
    ⟨s', by rw [Scan.run, h]; rfl, .refl s'⟩
  cases cut with
  | false => exact hwhole
  | true =>
  cases item with
  | message actor body =>
    obtain ⟨-, hencodes, hturn, hrecord⟩ := (step_ok_iff ..).mp h
    cases hrecord
    rw [if_pos rfl, stateless]
    split
    · exact ⟨s, rfl, alike_fresh s⟩
    · -- fewer parts encode as well, and the scan reads no more than the actor
      have hstep : s.step (checkItemEncoding encoders)
          (.message actor { body with parts := body.parts.filter (!·.isState) }) = .ok s.fresh :=
        (step_ok_iff ..).mpr ⟨rfl, List.findSome?_eq_none_iff.mpr fun part hpart =>
          List.findSome?_eq_none_iff.mp hencodes part (List.mem_of_mem_filter hpart), hturn, rfl⟩
      exact ⟨_, by rw [Scan.run, hstep]; rfl, .refl _⟩
  | providerState content =>
    obtain ⟨-, -, -, hrecord⟩ := (step_ok_iff ..).mp h
    cases hrecord
    exact ⟨s, rfl, alike_fresh s⟩
  | _ => exact hwhole

/-- What remains of a transcript is scanned as the whole. -/
theorem run_remaining {encoders : Encoders α Fault} (cut : Nat → Bool)
    {items : List (Item (Body α))} {s s' t : Scan} (halike : Alike s t) {i : Nat}
    (hrun : Scan.run (checkItemEncoding encoders) i s items = .ok s') (j k : Nat) :
    ∃ t', Scan.run (checkItemEncoding encoders) j t (remaining cut k items) = .ok t' ∧
      Alike s' t' := by
  induction items generalizing s t i j k with
  | nil =>
    cases hrun
    exact ⟨t, rfl, halike⟩
  | cons item items ih =>
    rw [Scan.run] at hrun
    split at hrun
    · cases hrun
    next s₁ hstep =>
    obtain ⟨t₁, ht, hnext⟩ := halike.step _ hstep
    obtain ⟨t₂, hleft, hsame⟩ := run_left j ht (cut k)
    rw [remaining, run_append, hleft]
    exact ih (hnext.trans hsame) hrun _ _

-- ===== result

variable {encoders : Encoders α Fault} {parent appended : List (Item (Body α))}
  {provenance : List ProviderStateProvenance} {pins : ProviderStatePins} {pending : List String}

/-- The code cuts where it finds the pins different. -/
theorem candidateRequest_eq (hpins : newProviderStatePins parent provenance = some pins)
    (candidate : Candidate) : candidateRequest (parent ++ appended) pins candidate
      = remaining (fun i => !(pins i).all (· = candidatePinning candidate)) 0
        (parent ++ appended) := by
  refine stripFrom_eq (fun _ => rfl) _ 0 fun x hx hcut => ?_
  obtain ⟨value, hvalue, hordinal, -⟩ := (pins_differ_iff hpins _ _).mp hcut
  obtain ⟨item, index, hindex, hitem, hstate⟩ := recorded_item hpins appended hvalue
  obtain rfl : index = x.2 := by omega
  rw [List.mem_zipIdx_iff_getElem?] at hx hitem
  rwa [Option.some.inj (hx.symm.trans hitem)]

/-- Where no record confuses the candidate, the code cuts what it must. -/
theorem differ_eq_foreign (hpins : newProviderStatePins parent provenance = some pins)
    {candidate : Candidate} (hclear : ∀ value ∈ provenance, ¬candidate.Confuses value) :
    (fun i : Nat => !(pins i).all (· = candidatePinning candidate))
      = foreign provenance candidate := by
  funext i
  rw [Bool.eq_iff_iff, pins_differ_iff hpins]
  simp only [foreign, List.any_eq_true, decide_eq_true_eq]
  refine exists_congr fun v => and_congr_right fun hv => and_congr_right fun _ => ?_
  rw [Ne, recordedPinning_eq_iff, or_iff_left (hclear v hv)]

/-- **Provider state stays on its lineage.** Where every record names a
digest or no account, the input compiled for a candidate is the transcript
without the state of the items recorded under another pin, and is accepted
with the same pending calls. What publication then records of the response
is such provenance again. -/
theorem candidateRequest_isolates
    (hpins : newProviderStatePins parent provenance = some pins)
    (hvalid : validateItems (checkItemEncoding encoders) (parent ++ appended) = .ok pending)
    (hattested : ∀ value ∈ provenance, Attested value.account) (candidate : Candidate) :
    candidateRequest (parent ++ appended) pins candidate
        = remaining (foreign provenance candidate) 0 (parent ++ appended) ∧
      validateItems (checkItemEncoding encoders)
        (candidateRequest (parent ++ appended) pins candidate) = .ok pending ∧
      ∀ (plan : ServedRoute) (output : List (Item (Body α))), Attested plan.endpointAccount →
        ∀ value ∈ responseProvenance output (parent ++ appended).length (planPinning plan),
          Attested value.account := by
  have hclear : ∀ value ∈ provenance, ¬candidate.Confuses value := by
    intro value hvalue hconfuses
    exact not_attested_unknown (hconfuses.2.2 ▸ hattested value hvalue)
  have hinput : candidateRequest (parent ++ appended) pins candidate
      = remaining (foreign provenance candidate) 0 (parent ++ appended) := by
    rw [candidateRequest_eq hpins, differ_eq_foreign hpins hclear]
  obtain ⟨s, hrun, rfl⟩ := map_ok hvalid
  obtain ⟨t, ht, halike⟩ := run_remaining (foreign provenance candidate) (.refl _) hrun 0 0
  refine ⟨hinput, ?_, fun plan output hplan value => responseProvenance_attested hplan⟩
  rw [hinput, validateItems, resume, ht, halike.result]
  rfl

/-- A message of a person and the state of a model's answer. -/
def sampleTranscript : List (Item (Body Unit)) :=
  [.message .human ⟨[.other ()], ()⟩, .providerState ⟨[], ()⟩]

def sampleRecord (account : String) : ProviderStateProvenance :=
  ⟨1, "provider", "endpoint", "family", "model", account⟩

def sampleCandidate (digest : UInt8) : Candidate :=
  ⟨"provider", "endpoint", "family", "model", Vector.replicate 32 digest⟩

def lenientEncoders : Encoders Unit Unit := ⟨fun _ => none, fun _ => none⟩

/-- The account of a digest whose bytes are all one. -/
def sampleAccount : String := hexText (Vector.replicate 32 1).toList

/-- The state is left out for a candidate of another account. -/
theorem candidateRequest_isolates_sample :
    ∃ pins, newProviderStatePins sampleTranscript [sampleRecord sampleAccount] = some pins ∧
      candidateRequest sampleTranscript pins (sampleCandidate 1) = sampleTranscript ∧
      candidateRequest sampleTranscript pins (sampleCandidate 2)
        = remaining (foreign [sampleRecord sampleAccount] (sampleCandidate 2)) 0 sampleTranscript ∧
      candidateRequest sampleTranscript pins (sampleCandidate 2)
        = [.message .human ⟨[.other ()], ()⟩] := by
  refine ⟨_, rfl, by decide +kernel, ?_, by decide +kernel⟩
  have hattested : ∀ value ∈ [sampleRecord sampleAccount], Attested value.account := by
    intro value hvalue
    rw [List.mem_singleton.mp hvalue]
    exact .inr ⟨_, rfl⟩
  exact (@candidateRequest_isolates _ _ lenientEncoders sampleTranscript [] _ _ [] rfl
    (by decide) hattested (sampleCandidate 2)).1

/-- A candidate that proves no account is sent the state of a record with
the text for that case. -/
theorem candidateRequest_replays_unknown :
    ∃ pins, newProviderStatePins sampleTranscript [sampleRecord unknownRouteAccount] = some pins ∧
      validateItems (checkItemEncoding lenientEncoders) sampleTranscript = .ok [] ∧
      foreign [sampleRecord unknownRouteAccount] (sampleCandidate 0) 1 = true ∧
      candidateRequest sampleTranscript pins (sampleCandidate 0) = sampleTranscript :=
  ⟨_, rfl, by decide, by decide, by decide⟩

end LlmTemporalWorker.Runtime.Continuation
