/-
Tool-call ids of a lineage (internal/runtime/cloud_provider_execution.go).

A provider may number its calls anew in every response. Before a response
is saved, `uniqueToolCallIDs` replaces the ids the transcript has already
used, and the results of those calls with them.

# Method

`Renaming` is the invariant of the loop that chooses replacements: they
stay apart from each other and from every id in use. What the loop leaves
is a function on ids that is injective on the output's calls and leads out
of the transcript's, and under such a function the scan of the output and
that of its image go in step (`run_rename`).
-/
import LlmTemporalWorker.State.Transcript

namespace LlmTemporalWorker.Runtime.ToolCalls

open State.Transcript

variable {Content Fault : Type}

-- ===== the source

/-- What `MarshalJSON` refuses: the faults of a call may name its id. -/
structure Encoders (Content Fault : Type) where
  emptyId : Fault
  call : Content → Option (String → Fault)
  result : Content → Option Fault
  item : Item Content → Option Fault

def checkItemEncoding (encoders : Encoders Content Fault) : Item Content → Option Fault
  | .toolCall id content =>
    if id = "" then some encoders.emptyId else (encoders.call content).map (· id)
  | .toolResult id content => if id = "" then some encoders.emptyId else encoders.result content
  | item => encoders.item item

/-- The first half, in hex, of the SHA-256 sum of "tool-call-id-v1", the
operation, the salt and the id; some salt avoids any finite set. -/
structure Digests where
  hex : String → Nat → String → String
  fresh : ∀ operation id (used : List String), ∃ salt, "call_" ++ hex operation salt id ∉ used

variable (digests : Digests) (operation : String)

/-- The loop over the salts. -/
def replacement (used : List String) (id : String) : String :=
  "call_" ++ digests.hex operation (Nat.find (digests.fresh operation id used)) id

/-- The loop over the reused ids; the map `renamed` is a function. -/
def renameEach (renamed : String → Option String) (used : List String) :
    List String → String → Option String
  | [] => renamed
  | id :: ids =>
    if (renamed id).isSome then renameEach renamed used ids
    else
      let candidate := replacement digests operation used id
      renameEach (Function.update renamed id (some candidate)) (candidate :: used) ids

def newId (renamed : String → Option String) (id : String) : String :=
  (renamed id).getD id

def renameItem (newId : String → String) : Item Content → Item Content
  | .toolCall id content => .toolCall (newId id) content
  | .toolResult id content => .toolResult (newId id) content
  | item => item

def uniqueToolCallIds (transcript output : List (Item Content)) : List (Item Content) :=
  let lineage := calls transcript
  let reused := (calls output).filter fun id => id ∈ lineage ∧ id ≠ ""
  if reused = [] then output
  else
    let renamed := renameEach digests operation (fun _ => none) (lineage ++ calls output) reused
    output.map (renameItem (newId renamed))

-- ===== choosing ids

theorem replacement_fresh (used : List String) (id : String) :
    replacement digests operation used id ∉ "" :: used := by
  rw [List.mem_cons, not_or]
  refine ⟨fun h => ?_, Nat.find_spec (digests.fresh operation id used)⟩
  have := congrArg String.length h
  simp [replacement, String.length_append] at this

/-- The replacements chosen so far: they avoid what was in use before. -/
structure Renaming (base used : List String) (renamed : String → Option String) : Prop where
  taken : ∀ id ∈ base, id ∈ "" :: used
  value : ∀ {id v}, renamed id = some v → v ∉ base ∧ v ∈ used
  inj : ∀ {id id' v}, renamed id = some v → renamed id' = some v → id = id'

variable {base used : List String} {renamed : String → Option String}

theorem Renaming.update (h : Renaming base used renamed) (id : String) {v : String}
    (hv : v ∉ "" :: used) :
    Renaming base (v :: used) (Function.update renamed id (some v)) where
  taken := by
    intro x hx
    have := h.taken x hx
    simp only [List.mem_cons] at this ⊢
    tauto
  value := by
    intro x w hx
    rw [Function.update_apply] at hx
    split at hx
    · cases hx
      exact ⟨fun hbase => hv (h.taken _ hbase), List.mem_cons_self⟩
    · exact ⟨(h.value hx).1, List.mem_cons_of_mem _ (h.value hx).2⟩
  inj := by
    intro x y w hx hy
    have hnew : ∀ {z}, renamed z ≠ some v := fun hz => hv (List.mem_cons_of_mem _ (h.value hz).2)
    rw [Function.update_apply] at hx hy
    split at hx <;> split at hy
    next hx' hy' => rw [hx', hy']
    · exact absurd (hy.trans hx.symm) hnew
    · exact absurd (hx.trans hy.symm) hnew
    · exact h.inj hx hy

/-- The loop keeps the replacements apart and gives every id one. -/
theorem renameEach_spec (h : Renaming base used renamed) (ids : List String) :
    (∃ used', Renaming base used' (renameEach digests operation renamed used ids)) ∧
    ∀ id, (renameEach digests operation renamed used ids id).isSome ↔
      (renamed id).isSome ∨ id ∈ ids := by
  induction ids generalizing renamed used with
  | nil => exact ⟨⟨used, h⟩, fun id => by simp [renameEach]⟩
  | cons id ids ih =>
    rw [renameEach]
    split
    next hdone =>
      refine ⟨(ih h).1, fun x => ?_⟩
      rw [(ih h).2 x, List.mem_cons]
      by_cases hx : x = id
      · simp [hx, hdone]
      · simp [hx]
    next =>
      have h' := h.update id (replacement_fresh digests operation used id)
      refine ⟨(ih h').1, fun x => ?_⟩
      rw [(ih h').2 x, List.mem_cons, Function.update_apply]
      by_cases hx : x = id
      · simp [hx]
      · simp [hx]

-- ===== the new ids

/-- A function on ids that makes an output's calls new to a transcript. -/
structure Separates (lineage ids : List String) (newId : String → String) : Prop where
  kept : ∀ id, id ∉ lineage ∨ id ∉ ids → newId id = id
  apart : ∀ id ∈ ids, newId id ∉ "" :: lineage
  inj : ∀ id ∈ ids, ∀ id' ∈ ids, newId id = newId id' → id = id'

theorem Renaming.separates {lineage ids : List String}
    (h : Renaming ("" :: (lineage ++ ids)) used renamed)
    (hsome : ∀ id, (renamed id).isSome ↔ id ∈ ids ∧ id ∈ lineage) (hnamed : "" ∉ ids) :
    Separates lineage ids (newId renamed) := by
  have hout : ∀ {x y v}, x ∈ ids → renamed y = some v → x ≠ v := by
    rintro x y v hx hv rfl
    exact (h.value hv).1 (by simp [hx])
  refine ⟨fun id hid => ?_, fun id hid => ?_, fun id hid id' hid' he => ?_⟩
  · have hnone : ¬(renamed id).isSome := by
      rw [hsome]
      tauto
    rw [newId, Option.not_isSome_iff_eq_none.mp hnone, Option.getD_none]
  · rw [newId]
    cases hv : renamed id with
    | some v =>
      intro hold
      exact (h.value hv).1 (by simp only [Option.getD_some, List.mem_cons] at hold ⊢; simp; tauto)
    | none =>
      intro hold
      rcases List.mem_cons.mp hold with rfl | hold
      · exact hnamed hid
      · have := (hsome id).mpr ⟨hid, hold⟩
        rw [hv] at this
        cases this
  · simp only [newId] at he
    cases hv : renamed id <;> cases hv' : renamed id' <;> rw [hv, hv'] at he
    · exact he
    · exact absurd he (hout hid hv')
    · exact absurd he.symm (hout hid' hv)
    · exact h.inj hv (hv'.trans (congrArg some he.symm))

/-- The output is renamed by such a function. -/
theorem uniqueToolCallIds_eq (transcript : List (Item Content)) {output : List (Item Content)}
    (hnamed : "" ∉ calls output) : ∃ f, Separates (calls transcript) (calls output) f ∧
      uniqueToolCallIds digests operation transcript output = output.map (renameItem f) := by
  have hreused : ∀ id, id ∈ (calls output).filter (fun id => id ∈ calls transcript ∧ id ≠ "") ↔
      id ∈ calls output ∧ id ∈ calls transcript := by
    intro id
    simp only [List.mem_filter, decide_eq_true_eq]
    refine ⟨fun h => ⟨h.1, h.2.1⟩, fun h => ⟨h.1, h.2, ?_⟩⟩
    rintro rfl
    exact hnamed h.1
  unfold uniqueToolCallIds
  dsimp only
  generalize (calls output).filter _ = reused at hreused ⊢
  have hstart : Renaming ("" :: (calls transcript ++ calls output))
      (calls transcript ++ calls output) fun _ => none :=
    ⟨fun _ h => h, fun h => (by cases h), fun h => (by cases h)⟩
  obtain ⟨⟨used, h⟩, hsome⟩ := renameEach_spec digests operation hstart reused
  refine ⟨_, h.separates (fun id => ?_) hnamed, ?_⟩
  · rw [hsome, hreused]
    simp
  · split
    next hnone =>
      -- without reused ids nothing is renamed
      rw [hnone, List.map_congr_left (g := fun item => item), List.map_id']
      rintro (_ | _) _ <;> rfl
    · rfl

-- ===== the scan

variable {lineage ids : List String} {f : String → String} {s s' t : Scan}

/-- The scan's variables after a transcript, with the ids of the output
renamed. -/
def renameScan (lineage : List String) (f : String → String) (s : Scan) : Scan :=
  ⟨s.pending.map f, lineage ++ s.seenCalls.map f, s.resultsStarted⟩

theorem pending_fresh (s : Scan) : s.fresh.pending = s.pending := by
  rw [Scan.fresh]
  split <;> rfl

theorem fresh_rename (s : Scan) :
    (renameScan lineage f s).fresh = renameScan lineage f s.fresh := by
  by_cases h : s.pending = [] <;> simp [Scan.fresh, renameScan, h]

/-- The scan has seen no id but the output's. -/
def Within (ids : List String) (s : Scan) : Prop :=
  s.pending ⊆ ids ∧ s.seenCalls ⊆ ids

theorem record_rename {item : Item Content} (hf : Separates lineage ids f) (hs : Within ids s)
    (hitem : ∀ id, item.callId? = some id → id ∈ ids)
    (hok : (s.record item : Except (Refusal Fault) Scan) = .ok s') : Within ids s' ∧
      ((renameScan lineage f s).record (renameItem f item) : Except (Refusal Fault) Scan)
        = .ok (renameScan lineage f s') := by
  cases item with
  | toolCall id content =>
    have hid := hitem id rfl
    obtain ⟨hne, hnew⟩ := not_or.mp (List.mem_cons.not.mp (hf.apart id hid))
    simp only [Scan.record] at hok
    split at hok
    · cases hok
    split at hok
    · cases hok
    next hseen =>
      cases hok
      have hseen' : f id ∉ lineage ++ s.seenCalls.map f := by
        rw [List.mem_append, List.mem_map, not_or]
        refine ⟨hnew, ?_⟩
        rintro ⟨id', hid', he⟩
        exact hseen (hf.inj _ (hs.2 hid') _ hid he ▸ hid')
      refine ⟨⟨?_, ?_⟩, ?_⟩
      · exact List.append_subset.mpr ⟨hs.1, by simpa using hid⟩
      · exact List.append_subset.mpr ⟨hs.2, by simpa using hid⟩
      · refine (if_neg hne).trans ((if_neg hseen').trans ?_)
        simp [renameScan]
  | toolResult id content =>
    simp only [Scan.record] at hok
    split at hok
    next hid =>
      cases hok
      refine ⟨⟨fun x hx => hs.1 (List.mem_of_mem_filter hx), hs.2⟩, ?_⟩
      refine (if_pos (List.mem_map_of_mem hid)).trans ?_
      have hfilter : (s.pending.map f).filter (· ≠ f id)
          = (s.pending.filter (· ≠ id)).map f := by
        rw [List.filter_map]
        congr 1
        refine List.filter_congr fun x hx => ?_
        have := hf.inj x (hs.1 hx) id (hs.1 hid)
        simp only [Function.comp, ne_eq, decide_eq_decide]
        exact not_congr ⟨this, congrArg f⟩
      simp only [renameScan, hfilter]
    · cases hok
  | _ =>
    cases hok
    exact ⟨hs, rfl⟩

/-- A step reads no more of a state than `fresh` leaves of it. -/
theorem step_rename (encoders : Encoders Content Fault) {item : Item Content}
    (hf : Separates lineage ids f) (hs : Within ids s) (ht : t.fresh = renameScan lineage f s.fresh)
    (hitem : ∀ id, item.callId? = some id → id ∈ ids)
    (hok : s.step (checkItemEncoding encoders) item = .ok s') : Within ids s' ∧
      t.step (checkItemEncoding encoders) (renameItem f item) = .ok (renameScan lineage f s') := by
  obtain ⟨hpresent, hencodes, hturn, hrecord⟩ := (step_ok_iff ..).mp hok
  have hfresh : Within ids s.fresh := by
    rw [Scan.fresh]
    split <;> exact hs
  obtain ⟨hs', hrename⟩ := record_rename hf hfresh hitem hrecord
  refine ⟨hs', (step_ok_iff ..).mpr ?_⟩
  rw [ht]
  refine ⟨?_, ?_, fun hopen => ?_, hrename⟩
  · cases item <;> exact hpresent
  · have hne : ∀ id ∈ ids, f id ≠ "" := fun id hid he =>
      hf.apart id hid (he ▸ List.mem_cons_self)
    cases item with
    | toolCall id content =>
      have hid := hne id (hitem id rfl)
      simp only [checkItemEncoding, renameItem, hid, if_false] at hencodes ⊢
      split at hencodes
      · cases hencodes
      · rw [Option.map_eq_none_iff] at hencodes ⊢
        exact hencodes
    | toolResult id content =>
      -- a result that is recorded answers a pending call
      have hid := hne id (hfresh.1 (((record_ok_iff ..).mp ⟨_, hrecord⟩).2.2 id rfl))
      simp only [checkItemEncoding, renameItem, hid, if_false] at hencodes ⊢
      split at hencodes
      · cases hencodes
      · exact hencodes
    | _ => exact hencodes
  · have hpending := congrArg Scan.pending ht
    rw [pending_fresh] at hpending
    have := hturn fun hnone => hopen (by
      rw [hpending, renameScan, pending_fresh, hnone, List.map_nil])
    cases item <;> exact this

/-- What the scan accepts it accepts renamed, after a transcript. -/
theorem run_rename (encoders : Encoders Content Fault) (hf : Separates lineage ids f)
    {items : List (Item Content)} (hs : Within ids s) (ht : t.fresh = renameScan lineage f s.fresh)
    (hids : calls items ⊆ ids) {i j : Nat}
    (hok : Scan.run (checkItemEncoding encoders) i s items = .ok s') :
    ∃ t', Scan.run (checkItemEncoding encoders) j t (items.map (renameItem f)) = .ok t' := by
  induction items generalizing s t i j with
  | nil => exact ⟨t, rfl⟩
  | cons item items ih =>
    rw [calls, List.filterMap_cons] at hids
    rw [Scan.run] at hok
    rw [List.map_cons, Scan.run]
    cases hstep : s.step (checkItemEncoding encoders) item with
    | error refusal =>
      rw [hstep] at hok
      cases hok
    | ok next =>
      rw [hstep] at hok
      obtain ⟨hnext, hrename⟩ := step_rename encoders hf hs ht (fun id hid => by
        rw [hid] at hids
        exact hids List.mem_cons_self) hstep
      rw [hrename]
      refine ih hnext (fresh_rename next) (fun id hid => hids ?_) hok
      cases item.callId? with
      | none => exact hid
      | some _ => exact List.mem_cons_of_mem _ hid

-- ===== result

theorem calls_nodup (check : Item Content → Option Fault) {items : List (Item Content)}
    (h : Grammar check items) : (calls items).Nodup := by
  induction items using List.reverseRecOn with
  | nil => exact List.nodup_nil
  | append_singleton items item ih =>
    obtain ⟨hitems, hitem⟩ := (grammar_concat check items item).mp h
    rw [calls_concat]
    cases hcall : item.callId? with
    | none => simpa using ih hitems
    | some id =>
      rw [Option.toList_some, ← List.concat_eq_append]
      exact (ih hitems).concat (hitem.unique id hcall)

theorem calls_rename (f : String → String) (items : List (Item Content)) :
    calls (items.map (renameItem f)) = (calls items).map f := by
  rw [calls, calls, List.filterMap_map, List.map_filterMap]
  refine List.filterMap_congr fun item _ => ?_
  cases item <;> rfl

/-- **Tool-call ids stay unique across a lineage.** After an accepted
transcript without pending calls, the output is renamed by one function on
ids, for calls and results alike, that keeps every id the transcript or the
output's calls do not have; all call ids are distinct, and an output that
is accepted on its own is accepted there. -/
theorem uniqueToolCallIds_unique (encoders : Encoders Content Fault)
    (transcript output : List (Item Content))
    (haccepted : validateItems (checkItemEncoding encoders) transcript = .ok [])
    (hnamed : "" ∉ calls output) (hdistinct : (calls output).Nodup) :
    let renamed := uniqueToolCallIds digests operation transcript output
    (calls (transcript ++ renamed)).Nodup ∧
    (∃ newId : String → String,
      (∀ id, id ∉ calls transcript ∨ id ∉ calls output → newId id = id) ∧
      renamed = output.map (renameItem newId)) ∧
    ((∃ pending, validateItems (checkItemEncoding encoders) output = .ok pending) →
      ∃ pending, validateItems (checkItemEncoding encoders) (transcript ++ renamed)
        = .ok pending) := by
  obtain ⟨f, hf, heq⟩ := uniqueToolCallIds_eq digests operation transcript hnamed
  obtain ⟨s, hrun, hresult⟩ := Lib.map_ok haccepted
  obtain ⟨hgrammar, htracks⟩ := run_iff (checkItemEncoding encoders) transcript
  rw [heq]
  refine ⟨?_, ⟨f, hf.kept, rfl⟩, ?_⟩
  · have happend : calls (transcript ++ output.map (renameItem f))
        = calls transcript ++ (calls output).map f := by
      rw [← calls_rename]
      exact List.filterMap_append
    rw [happend, List.nodup_append]
    refine ⟨calls_nodup _ (hgrammar.mp ⟨s, hrun⟩), hdistinct.map_on hf.inj, ?_⟩
    rintro old hold new hnew rfl
    obtain ⟨id, hid, rfl⟩ := List.mem_map.mp hnew
    exact hf.apart id hid (List.mem_cons_of_mem _ hold)
  · rintro ⟨pending, hpending⟩
    obtain ⟨s', hrun', -⟩ := Lib.map_ok hpending
    have hclosed : s.pending = [] := by
      have hperm := List.perm_insertionSort (· ≤ ·) s.pending
      rw [show s.pending.insertionSort (· ≤ ·) = [] from hresult] at hperm
      exact hperm.symm.eq_nil
    -- a resolved transcript is left behind but for its ids
    have hfresh : s.fresh = renameScan (calls transcript) f Scan.start.fresh := by
      rw [Scan.fresh, if_pos hclosed, ← (htracks s hrun).seenCalls, hclosed]
      simp [renameScan, Scan.fresh, Scan.start]
    obtain ⟨t, ht⟩ := run_rename encoders hf ⟨List.nil_subset _, List.nil_subset _⟩ hfresh
      (List.Subset.refl _) hrun'
    refine ⟨t.result, ?_⟩
    rw [validateItems, resume, run_append, hrun]
    exact congrArg (Except.map Scan.result) ht

/-- Digests as long as their salts. -/
def longDigests : Digests where
  hex _ salt _ := String.ofList (List.replicate salt '0')
  fresh := by
    intro _ _ used
    by_contra! h
    have hinj : Function.Injective fun salt : Nat =>
        "call_" ++ String.ofList (List.replicate salt '0') := by
      intro a b hab
      have := congrArg String.length hab
      simpa using this
    refine Set.infinite_range_of_injective hinj (used.finite_toSet.subset ?_)
    rintro _ ⟨salt, rfl⟩
    exact h salt

/-- A call "a" and its result, answered by another call "a". -/
theorem reused_call_is_renamed :
    let encoders : Encoders Unit Unit := ⟨(), fun _ => none, fun _ => none, fun _ => none⟩
    let transcript : List (Item Unit) := [.toolCall "a" (), .toolResult "a" ()]
    let output : List (Item Unit) := [.toolCall "a" (), .toolCall "b" (), .toolResult "a" ()]
    ∃ pending, validateItems (checkItemEncoding encoders)
      (transcript ++ uniqueToolCallIds longDigests "op" transcript output) = .ok pending := by
  intro encoders transcript output
  have h := uniqueToolCallIds_unique longDigests "op" encoders transcript output
    (by decide) (by decide) (by decide)
  exact h.2.2 ⟨["b"], by decide⟩

end LlmTemporalWorker.Runtime.ToolCalls
