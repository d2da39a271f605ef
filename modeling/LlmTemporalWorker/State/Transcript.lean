/-
Transcripts (state/materialize.go): the tool-turn grammar of an item list.

`validateItems` is one scan with three variables: the calls without a
result, every call id seen, and whether results of the pending group have
begun. The grammar says the same of every cut of the list, with no state:
what a cut leaves unresolved is computed from the items before it, and
results have begun when some earlier result has been followed by nothing
but unresolved cuts.

# The induction

The list grows at its end. Both sides are read one item at a time there:
`step_tracks` for the scan, `grammar_concat` for the grammar; `Tracks` says
that the scan's variables are the readings of the list so far.
-/
import LlmTemporalWorker.Lib.Lists

namespace LlmTemporalWorker.State.Transcript

open Lib

inductive Actor where
  | human
  | model
deriving DecidableEq, Repr

/-- Go `llm.Item` after `itemValue`, with what the scan reads of it; an
absent item is Go's nil, and `other` any further implementation. -/
inductive Item (Content : Type) where
  | absent
  | message (actor : Actor) (content : Content)
  | toolCall (id : String) (content : Content)
  | toolResult (callId : String) (content : Content)
  | providerState (content : Content)
  | reference (content : Content)
  | other (content : Content)
deriving DecidableEq, Repr

variable {Content Fault : Type}

def Item.isAbsent : Item Content → Bool
  | .absent => true
  | _ => false

/-- The error texts, all of the form "transcript item %d …". -/
inductive Refusal (Fault : Type) where
  /-- "is nil" -/
  | absent
  | encoding (fault : Fault)
  /-- "starts a new turn before pending tool results" -/
  | newTurn
  /-- "starts a new tool-call turn before pending tool results" -/
  | newToolCallTurn
  /-- "has an empty tool call ID" -/
  | emptyId
  /-- "reuses tool call ID %q" -/
  | reusedId (id : String)
  /-- "has an unmatched tool result %q" -/
  | unmatched (id : String)
deriving DecidableEq, Repr

/-- The variables of `validateItems`; the maps are lists of their keys. -/
structure Scan where
  (pending seenCalls : List String)
  resultsStarted : Bool
deriving DecidableEq, Repr

def Scan.start : Scan := ⟨[], [], false⟩

/-- The first switch: what may follow while calls are pending. -/
def interrupts (resultsStarted : Bool) : Item Content → Option (Refusal Fault)
  | .toolResult _ _ => none
  | .message actor _ =>
    if actor ≠ .model ∨ resultsStarted then some .newTurn else none
  | .toolCall _ _ => if resultsStarted then some .newToolCallTurn else none
  | .providerState _ | .reference _ =>
    if resultsStarted then some .newTurn else none
  | .absent | .other _ => some .newTurn

/-- The second switch. -/
def Scan.record (s : Scan) : Item Content → Except (Refusal Fault) Scan
  | .toolCall id _ =>
    if id = "" then .error .emptyId
    else if id ∈ s.seenCalls then .error (.reusedId id)
    else .ok { s with
      seenCalls := s.seenCalls ++ [id], pending := s.pending ++ [id] }
  | .toolResult id _ =>
    if id ∈ s.pending then
      .ok { s with
        resultsStarted := true, pending := s.pending.filter (· ≠ id) }
    else .error (.unmatched id)
  | _ => .ok s

variable (checkItemEncoding : Item Content → Option Fault)

/-- The loop body of `validateItems`. -/
def Scan.step (s : Scan) (item : Item Content) : Except (Refusal Fault) Scan :=
  if item.isAbsent then .error .absent
  else
    match checkItemEncoding item with
    | some fault => .error (.encoding fault)
    | none =>
      if s.pending = [] then
        Scan.record { s with resultsStarted := false } item
      else
        match interrupts s.resultsStarted item with
        | some refusal => .error refusal
        | none => s.record item

/-- The loop, with the index its errors name. -/
def Scan.run : Nat → Scan → List (Item Content) → Except (Nat × Refusal Fault) Scan
  | _, s, [] => .ok s
  | index, s, item :: items =>
    match s.step checkItemEncoding item with
    | .error refusal => .error (index, refusal)
    | .ok s' => Scan.run (index + 1) s' items

/-- What is returned: the pending calls in order. -/
def Scan.result (s : Scan) : List String := s.pending.insertionSort (· ≤ ·)

/-- The rest of `validateItems` from a state of its scan. -/
def resume (index : Nat) (s : Scan) (items : List (Item Content)) :
    Except (Nat × Refusal Fault) (List String) :=
  (Scan.run checkItemEncoding index s items).map Scan.result

def validateItems (items : List (Item Content)) : Except (Nat × Refusal Fault) (List String) :=
  resume checkItemEncoding 0 .start items

-- ===== the grammar

def Item.callId? : Item Content → Option String
  | .toolCall id _ => some id
  | _ => none

def Item.resultId? : Item Content → Option String
  | .toolResult id _ => some id
  | _ => none

/-- The ids of a transcript's calls, in order. -/
def calls (items : List (Item Content)) : List String :=
  items.filterMap Item.callId?

/-- The calls a transcript leaves without a result. -/
def unresolved (items : List (Item Content)) : List String :=
  (calls items).filter (· ∉ items.filterMap Item.resultId?)

/-- Results of the pending group have begun: after some result, calls
were pending all the way to the end. -/
def Begun (items : List (Item Content)) : Prop :=
  ∃ early result late, items = early ++ result :: late ∧ (∃ id, result.resultId? = some id) ∧
    ∀ cut, cut <+: late → unresolved (early ++ result :: cut) ≠ []

/-- What belongs to the model's own turn. -/
def Item.ofTurn : Item Content → Prop
  | .message actor _ => actor = .model
  | .toolCall _ _ | .toolResult _ _ | .providerState _ | .reference _ =>
    True
  | .absent | .other _ => False

/-- What an item must be to follow a transcript. -/
structure Follows (before : List (Item Content)) (item : Item Content) :
    Prop where
  present : item.isAbsent = false
  encodes : checkItemEncoding item = none
  named : item.callId? ≠ some ""
  unique : ∀ id, item.callId? = some id → id ∉ calls before
  resolves : ∀ id, item.resultId? = some id → id ∈ unresolved before
  sameTurn : unresolved before ≠ [] → item.ofTurn
  onlyResults : Begun before → ∃ id, item.resultId? = some id

/-- The tool-turn grammar. -/
def Grammar (items : List (Item Content)) : Prop :=
  ∀ before item after, items = before ++ item :: after → Follows checkItemEncoding before item

-- ===== growing lists

theorem grammar_concat (items : List (Item Content)) (item : Item Content) :
    Grammar checkItemEncoding (items ++ [item]) ↔ Grammar checkItemEncoding items ∧
        Follows checkItemEncoding items item := by
  constructor
  · intro h
    refine ⟨?_, h items item [] rfl⟩
    intro before x after hsplit
    exact h before x (after ++ [item]) (by simp [hsplit])
  · rintro ⟨hitems, hitem⟩ before x after hsplit
    rcases List.eq_nil_or_concat after with rfl | ⟨after, y, rfl⟩
    · obtain ⟨rfl, hx⟩ := List.append_inj' hsplit rfl
      rw [← (List.cons.inj hx).1]
      exact hitem
    · have hsplit' : items ++ [item] = (before ++ x :: after) ++ [y] := by
        simpa using hsplit
      exact hitems before x after (List.append_inj' hsplit' rfl).1

theorem calls_concat (items : List (Item Content)) (item : Item Content) :
    calls (items ++ [item]) = calls items ++ item.callId?.toList := by
  cases item <;> simp [calls, Item.callId?]

variable {items : List (Item Content)} {item : Item Content} {s s' t : Scan}

theorem unresolved_other (hcall : item.callId? = none) (hresult : item.resultId? = none) :
    unresolved (items ++ [item]) = unresolved items := by
  simp [unresolved, calls, hcall, hresult]

theorem unresolved_call {id : String} {content : Content}
    (h : id ∉ items.filterMap Item.resultId?) :
    unresolved (items ++ [.toolCall id content]) = unresolved items ++ [id] := by
  simp only [unresolved, calls, List.filterMap_append, List.filter_append]
  simp_all [Item.callId?, Item.resultId?]

theorem unresolved_result (items : List (Item Content)) (id : String) (content : Content) :
    unresolved (items ++ [.toolResult id content]) = (unresolved items).filter (· ≠ id) := by
  simp only [unresolved, calls, List.filterMap_append, List.filter_filter]
  simp [Item.callId?, Item.resultId?, and_comm]

theorem begun_concat (items : List (Item Content)) (item : Item Content) :
    Begun (items ++ [item]) ↔ unresolved (items ++ [item]) ≠ [] ∧
      ((∃ id, item.resultId? = some id) ∨ Begun items) := by
  constructor
  · rintro ⟨early, result, late, hsplit, hresult, hopen⟩
    refine ⟨hsplit ▸ hopen late List.prefix_rfl, ?_⟩
    rcases List.eq_nil_or_concat late with rfl | ⟨late, last, rfl⟩
    · obtain ⟨-, hlast⟩ := List.append_inj' hsplit rfl
      exact .inl ((List.cons.inj hlast).1 ▸ hresult)
    · have hsplit' : items ++ [item] = (early ++ result :: late) ++ [last] := by
        simpa using hsplit
      exact .inr ⟨early, result, late, (List.append_inj' hsplit' rfl).1,
        hresult, fun cut hcut => hopen cut (hcut.trans (by simp))⟩
  · rintro ⟨hlast, hitem | ⟨early, result, late, rfl, hresult, hopen⟩⟩
    · refine ⟨items, item, [], rfl, hitem, ?_⟩
      intro cut hcut
      rwa [List.prefix_nil.mp hcut]
    · refine ⟨early, result, late ++ [item], by simp, hresult, ?_⟩
      intro cut hcut
      rcases List.prefix_concat_iff.mp hcut with rfl | hcut
      · simpa using hlast
      · exact hopen cut hcut

-- ===== the scan

/-- The scan's variables are readings of the transcript so far. -/
structure Tracks (s : Scan) (items : List (Item Content)) : Prop where
  pending : s.pending = unresolved items
  seenCalls : s.seenCalls = calls items
  started : unresolved items ≠ [] → (s.resultsStarted = true ↔ Begun items)
  resolved : ∀ id ∈ items.filterMap Item.resultId?, id ∈ calls items

theorem tracks_start : Tracks .start ([] : List (Item Content)) :=
  ⟨rfl, rfl, fun h => absurd rfl h, by simp⟩

/-- The state an item is recorded in: a fully resolved exchange ends the
turn. -/
def Scan.fresh (s : Scan) : Scan :=
  if s.pending = [] then { s with resultsStarted := false } else s

theorem Begun.unresolved (h : Begun items) : unresolved items ≠ [] := by
  obtain ⟨early, result, late, rfl, -, hopen⟩ := h
  exact hopen late List.prefix_rfl

theorem Tracks.fresh (h : Tracks s items) :
    Tracks s.fresh items ∧ (s.fresh.resultsStarted = true ↔ Begun items) := by
  by_cases hnone : s.pending = []
  · have hclosed : unresolved items = [] := h.pending ▸ hnone
    rw [Scan.fresh, if_pos hnone]
    exact ⟨⟨h.pending, h.seenCalls, fun hopen => absurd hclosed hopen,
      h.resolved⟩, by simp, fun hb => absurd hclosed hb.unresolved⟩
  · rw [Scan.fresh, if_neg hnone]
    exact ⟨h, h.started (h.pending ▸ hnone)⟩

theorem interrupts_none_iff (started : Bool) (item : Item Content) :
    (interrupts started item : Option (Refusal Fault)) = none ↔
      item.ofTurn ∧ (started = true → ∃ id, item.resultId? = some id) := by
  cases item <;> cases started <;>
    simp [interrupts, Item.ofTurn, Item.resultId?]

theorem record_ok_iff (s : Scan) (item : Item Content) :
    (∃ s', (s.record item : Except (Refusal Fault) Scan) = .ok s') ↔ item.callId? ≠ some "" ∧
      (∀ id, item.callId? = some id → id ∉ s.seenCalls) ∧
      ∀ id, item.resultId? = some id → id ∈ s.pending := by
  cases item with
  | toolCall id content =>
    by_cases hid : id = "" <;> by_cases hseen : id ∈ s.seenCalls <;>
      simp [Scan.record, Item.callId?, Item.resultId?, hid, hseen]
  | toolResult id content =>
    by_cases hid : id ∈ s.pending <;>
      simp [Scan.record, Item.callId?, Item.resultId?, hid]
  | _ => simp [Scan.record, Item.callId?, Item.resultId?]

theorem step_ok_iff (s s' : Scan) (item : Item Content) : s.step checkItemEncoding item = .ok s' ↔
      item.isAbsent = false ∧ checkItemEncoding item = none ∧
      (s.pending ≠ [] → (interrupts s.fresh.resultsStarted item : Option (Refusal Fault)) = none) ∧
      (s.fresh.record item : Except (Refusal Fault) Scan) = .ok s' := by
  unfold Scan.step Scan.fresh
  cases item.isAbsent with
  | true => simp
  | false =>
    cases checkItemEncoding item with
    | some fault => simp
    | none =>
      by_cases hnone : s.pending = []
      · simp [hnone]
      simp only [Bool.false_eq_true, hnone, if_false, ne_eq,
        not_false_eq_true, true_and, forall_const]
      cases (interrupts s.resultsStarted item : Option (Refusal Fault)) <;>
        simp

/-- A step is taken just when the grammar lets the item follow. -/
theorem step_iff_follows (h : Tracks s items) (item : Item Content) :
    (∃ s', s.step checkItemEncoding item = .ok s') ↔ Follows checkItemEncoding items item := by
  obtain ⟨hfresh, hbegun⟩ := h.fresh
  have hrecord : (∃ s', (s.fresh.record item :
      Except (Refusal Fault) Scan) = .ok s') ↔ _ := record_ok_iff s.fresh item
  rw [hfresh.seenCalls, hfresh.pending] at hrecord
  simp only [step_ok_iff, interrupts_none_iff, hbegun, h.pending, exists_and_left, hrecord]
  constructor
  · rintro ⟨hpresent, hencodes, hturn, hnamed, hunique, hresolves⟩
    exact ⟨hpresent, hencodes, hnamed, hunique, hresolves, fun hopen => (hturn hopen).1,
      fun hb => (hturn hb.unresolved).2 hb⟩
  · intro hf
    exact ⟨hf.present, hf.encodes, fun hopen => ⟨hf.sameTurn hopen, hf.onlyResults⟩,
      hf.named, hf.unique, hf.resolves⟩

/-- Recording an item keeps the variables in step with the list. -/
theorem record_tracks (h : Tracks s items) (hbegun : s.resultsStarted = true ↔ Begun items)
    (hok : (s.record item : Except (Refusal Fault) Scan) = .ok s') :
    Tracks s' (items ++ [item]) := by
  -- an item that is no call and no result changes no reading
  have hother : item.callId? = none → item.resultId? = none → s' = s →
      Tracks s' (items ++ [item]) := by
    rintro hcall hresult rfl
    have hsame : unresolved (items ++ [item]) = unresolved items := unresolved_other hcall hresult
    refine ⟨hsame ▸ h.pending, ?_, ?_, ?_⟩
    · simp [calls_concat, hcall, h.seenCalls]
    · intro hopen
      rw [begun_concat, hbegun]
      simp [hopen, hresult]
    · intro id hid
      simp only [calls_concat, hcall]
      simpa using h.resolved id (by simpa [hresult] using hid)
  cases item with
  | toolCall id content =>
    simp only [Scan.record] at hok
    split at hok
    · cases hok
    split at hok
    · cases hok
    next hnew =>
      rw [h.seenCalls] at hnew
      have hfresh := fun hid => hnew (h.resolved id hid)
      cases hok
      refine ⟨?_, ?_, ?_, ?_⟩
      · rw [unresolved_call hfresh, h.pending]
      · simp [calls_concat, Item.callId?, h.seenCalls]
      · intro hopen
        rw [begun_concat]
        simpa [hopen, Item.resultId?] using hbegun
      · intro id' hid
        simp only [calls_concat]
        exact List.mem_append_left _ (h.resolved id' (by
          simpa [Item.resultId?] using hid))
  | toolResult id content =>
    simp only [Scan.record] at hok
    split at hok
    next hpending =>
      cases hok
      refine ⟨?_, ?_, ?_, ?_⟩
      · rw [unresolved_result, h.pending]
      · simp [calls_concat, Item.callId?, h.seenCalls]
      · intro hopen
        rw [begun_concat]
        simp [hopen, Item.resultId?]
      · intro id' hid
        rw [calls_concat]
        refine List.mem_append_left _ ?_
        rw [List.filterMap_append] at hid
        rcases List.mem_append.mp hid with hid | hid
        · exact h.resolved id' hid
        · rw [h.pending] at hpending
          have : id' = id := by simpa [Item.resultId?] using hid
          exact this ▸ (List.mem_filter.mp hpending).1
    · cases hok
  | _ => exact hother rfl rfl (Except.ok.inj hok).symm

theorem step_tracks (h : Tracks s items) (hok : s.step checkItemEncoding item = .ok s') :
    Tracks s' (items ++ [item]) :=
  record_tracks h.fresh.1 h.fresh.2 ((step_ok_iff ..).mp hok).2.2.2

theorem run_append (xs ys : List (Item Content)) (index : Nat) (s : Scan) :
    Scan.run checkItemEncoding index s (xs ++ ys)
      = (Scan.run checkItemEncoding index s xs).bind fun s' =>
          Scan.run checkItemEncoding (index + xs.length) s' ys := by
  induction xs generalizing index s with
  | nil => rfl
  | cons item xs ih =>
    simp only [List.cons_append, Scan.run, List.length_cons]
    cases s.step checkItemEncoding item with
    | error refusal => rfl
    | ok s' =>
      show Scan.run _ _ _ _ = _
      rw [ih, Nat.add_right_comm, Nat.add_assoc]

/-- The scan of a list and the grammar, item by item. -/
theorem run_iff (items : List (Item Content)) :
    ((∃ s, Scan.run checkItemEncoding 0 .start items = .ok s) ↔ Grammar checkItemEncoding items) ∧
    ∀ s, Scan.run checkItemEncoding 0 .start items = .ok s → Tracks s items := by
  induction items using List.reverseRecOn with
  | nil =>
    refine ⟨⟨fun _ before item after h => ?_, fun _ => ⟨_, rfl⟩⟩, ?_⟩
    · exact absurd h (by simp)
    · intro s hs
      cases hs
      exact tracks_start
  | append_singleton items item ih =>
    obtain ⟨hiff, htracks⟩ := ih
    rw [grammar_concat, ← hiff, run_append]
    cases hrun : Scan.run checkItemEncoding 0 .start items with
    | error refusal => simp [Except.bind]
    | ok s =>
      have ht := htracks s hrun
      rw [← step_iff_follows checkItemEncoding ht item]
      simp only [Except.bind, Scan.run]
      cases hstep : s.step checkItemEncoding item with
      | error refusal => simp
      | ok s' =>
        refine ⟨by simp, ?_⟩
        intro s'' hs
        cases hs
        exact step_tracks checkItemEncoding ht hstep

-- ===== going on

/-- Two states the rest of a scan cannot tell apart. -/
structure Alike (s t : Scan) : Prop where
  pending : s.pending.Perm t.pending
  seenCalls : s.seenCalls = t.seenCalls
  started : s.pending ≠ [] → s.resultsStarted = t.resultsStarted

theorem Alike.fresh (h : Alike s t) : Alike s.fresh t.fresh ∧
      s.fresh.resultsStarted = t.fresh.resultsStarted := by
  by_cases hnone : s.pending = []
  · have hnone' : t.pending = [] := (hnone ▸ h.pending).nil_eq.symm
    rw [Scan.fresh, Scan.fresh, if_pos hnone, if_pos hnone']
    exact ⟨⟨h.pending, h.seenCalls, fun _ => rfl⟩, rfl⟩
  · have hsome' : t.pending ≠ [] := fun he =>
      hnone (he ▸ h.pending).eq_nil
    rw [Scan.fresh, Scan.fresh, if_neg hnone, if_neg hsome']
    exact ⟨h, h.started hnone⟩

theorem Alike.record (h : Alike s t) (hstarted : s.resultsStarted = t.resultsStarted)
    (hok : (s.record item : Except (Refusal Fault) Scan) = .ok s') :
    ∃ t', (t.record item : Except (Refusal Fault) Scan) = .ok t' ∧ Alike s' t' := by
  cases item with
  | toolCall id content =>
    simp only [Scan.record] at hok
    split at hok
    · cases hok
    next hid =>
      split at hok
      · cases hok
      next hnew =>
        cases hok
        rw [h.seenCalls] at hnew
        refine ⟨_, (if_neg hid).trans (if_neg hnew), ?_⟩
        exact ⟨h.pending.append_right _, congrArg (· ++ [id]) h.seenCalls, fun _ => hstarted⟩
  | toolResult id content =>
    simp only [Scan.record] at hok
    split at hok
    next hid =>
      cases hok
      rw [h.pending.mem_iff] at hid
      refine ⟨_, if_pos hid, ?_⟩
      exact ⟨h.pending.filter _, h.seenCalls, fun _ => rfl⟩
    · cases hok
  | _ =>
    cases hok
    exact ⟨t, rfl, h⟩

theorem Alike.step (h : Alike s t) (hok : s.step checkItemEncoding item = .ok s') :
    ∃ t', t.step checkItemEncoding item = .ok t' ∧ Alike s' t' := by
  obtain ⟨hpresent, hencodes, hturn, hrecord⟩ := (step_ok_iff ..).mp hok
  obtain ⟨hfresh, hstarted⟩ := h.fresh
  obtain ⟨t', ht, halike⟩ := hfresh.record hstarted hrecord
  refine ⟨t', (step_ok_iff ..).mpr ⟨hpresent, hencodes, ?_, ht⟩, halike⟩
  intro hopen
  rw [← hstarted]
  exact hturn fun he => hopen (he ▸ h.pending).nil_eq.symm

theorem Alike.symm (h : Alike s t) : Alike t s := ⟨h.pending.symm, h.seenCalls.symm, fun hopen =>
    (h.started fun he => hopen (he ▸ h.pending).nil_eq.symm).symm⟩

theorem Alike.trans {u : Scan} (h : Alike s t) (h' : Alike t u) : Alike s u :=
  ⟨h.pending.trans h'.pending, h.seenCalls.trans h'.seenCalls, fun hopen =>
    (h.started hopen).trans (h'.started fun he => hopen (he ▸ h.pending).eq_nil)⟩

theorem Alike.refl (s : Scan) : Alike s s := ⟨.refl _, rfl, fun _ => rfl⟩

/-- The end of a turn is seen by no further step. -/
theorem alike_fresh (s : Scan) : Alike s.fresh s := by
  by_cases hnone : s.pending = []
  · rw [Scan.fresh, if_pos hnone]
    exact ⟨.refl _, rfl, fun hopen => absurd hnone hopen⟩
  · rw [Scan.fresh, if_neg hnone]
    exact .refl s

theorem Alike.result (h : Alike s t) : s.result = t.result :=
  List.Perm.eq_of_pairwise' (List.pairwise_insertionSort _ _) (List.pairwise_insertionSort _ _)
    (((List.perm_insertionSort _ _).trans h.pending).trans (List.perm_insertionSort _ _).symm)

/-- From such states the scan accepts the same lists with the same pending
calls, whatever index it counts from. -/
theorem Alike.resume (h : Alike s t) (i j : Nat) (items : List (Item Content)) :
    (resume checkItemEncoding i s items).toOption
      = (resume checkItemEncoding j t items).toOption := by
  induction items generalizing s t i j with
  | nil => exact congrArg some h.result
  | cons item items ih =>
    simp only [Transcript.resume, Scan.run]
    cases hs : s.step checkItemEncoding item with
    | ok s' =>
      obtain ⟨t', ht, halike⟩ := h.step checkItemEncoding hs
      rw [ht]
      exact ih halike (i + 1) (j + 1)
    | error refusal =>
      cases ht : t.step checkItemEncoding item with
      | error refusal' => rfl
      | ok t' =>
        obtain ⟨s', hs', -⟩ := h.symm.step checkItemEncoding ht
        rw [hs] at hs'
        cases hs'

-- ===== result

/-- **Transcripts follow the tool-turn grammar.** The scan accepts exactly
the transcripts of the grammar and returns their unresolved calls in order;
what it makes of a longer transcript is decided by the pending calls, the
call ids and whether results have begun. -/
theorem validateItems_grammar (items : List (Item Content)) :
    ((∃ pending, validateItems checkItemEncoding items = .ok pending) ↔
      Grammar checkItemEncoding items) ∧
    (∀ pending, validateItems checkItemEncoding items = .ok pending →
      pending.Pairwise (· ≤ ·) ∧ pending.Perm (unresolved items) ∧
      ∀ begun : Bool, (begun = true ↔ Begun items) → ∀ more,
        (validateItems checkItemEncoding (items ++ more)).toOption
          = (resume checkItemEncoding 0 ⟨pending, calls items, begun⟩ more).toOption) ∧
    ∀ fault, validateItems checkItemEncoding items = .error fault →
      ∀ more, validateItems checkItemEncoding (items ++ more) = .error fault := by
  obtain ⟨hiff, htracks⟩ := run_iff checkItemEncoding items
  simp only [validateItems, resume, run_append] at *
  cases hrun : Scan.run checkItemEncoding 0 .start items with
  | error refusal =>
    rw [hrun] at hiff
    refine ⟨⟨fun ⟨_, h⟩ => (by cases h), fun h => ?_⟩,
      fun _ h => (by cases h), fun fault h more => h⟩
    obtain ⟨s, hs⟩ := hiff.mpr h
    cases hs
  | ok s =>
    have ht := htracks s hrun
    have hsorted : s.result.Perm s.pending := List.perm_insertionSort _ _
    refine ⟨⟨fun _ => hiff.mp ⟨s, hrun⟩, fun _ => ⟨_, rfl⟩⟩, ?_, fun _ h => (by cases h)⟩
    rintro _ ⟨⟩
    refine ⟨List.pairwise_insertionSort _ _, ht.pending ▸ hsorted, ?_⟩
    intro begun hbegun more
    refine Alike.resume checkItemEncoding ⟨hsorted.symm, ht.seenCalls, ?_⟩ _ _ _
    intro hopen
    exact Bool.eq_iff_iff.mpr ((ht.started (ht.pending ▸ hopen)).trans hbegun.symm)

/-- A message of the user between a call and its result is refused, though
every call id is unique and no result has come. -/
theorem user_message_interrupts :
    let items : List (Item Unit) := [.toolCall "a" (), .message .human ()]
    (calls items).Nodup ∧ items.filterMap Item.resultId? = [] ∧
      validateItems (fun _ => (none : Option Unit)) items = .error (1, .newTurn) := by
  decide

end LlmTemporalWorker.State.Transcript
