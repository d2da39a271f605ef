/-
The stream assembler (llm/provider/event.go): provider events for several
outputs, in any interleaving, become one response.

`Assembler.add` is the source's switch over events. It returns the
assembler also when it refuses, so that "a refused event changes nothing"
is a statement and not a convention: one arm refuses after it has written.

# Shape of the argument

One output goes through three slots, unseen, filling and done, and a step
of a slot reads the event alone (`Slot.step`). What the assembler holds at
an index is the fold of that step over the events of the index
(`run_spec`), whatever came between them. What a slot has kept is compared
with what its events carried by `Tracks`, one case per slot.

The deltas of the source are one event here, since each looks up its output
in the same way. `FinishedItem` and the map only it reads are left out, and
so are the fields of a response that pass through.
-/
import LlmTemporalWorker.Lib.KeyedTotal
import LlmTemporalWorker.Llm.CanonicalJson

namespace LlmTemporalWorker.Stream

open Lib Lib.Json Llm

-- ===== events

/-- Go `llm.ProviderState`. -/
structure ProviderState where
  provider : String
  endpointFamily : String
  mediaType : String
  contents : Bytes
deriving DecidableEq, Repr

inductive Part where
  | text (text : Bytes)
  | providerState (state : ProviderState)
deriving DecidableEq, Repr

/-- Go `llm.Item`: those the assembler makes, and any an adapter supplies. -/
inductive Item where
  | message (content : List Part)
  | toolCall (id name : String) (arguments : Bytes)
  | other (encoded : Bytes)
deriving DecidableEq, Repr

/-- Go `llm.Usage`. -/
structure Usage where
  inputTokens : Int := 0
  outputTokens : Int := 0
  reasoningTokens : Int := 0
  cacheReadTokens : Int := 0
  cacheWriteTokens : Int := 0
  providerRaw : FMap String Bytes := ∅
deriving DecidableEq

def usageEmpty (usage : Usage) : Bool :=
  usage.inputTokens == 0 && usage.outputTokens == 0
    && usage.reasoningTokens == 0 && usage.cacheReadTokens == 0
    && usage.cacheWriteTokens == 0 && usage.providerRaw.entries.isEmpty

def mergeUsage (current update : Usage) : Usage where
  inputTokens := newer current.inputTokens update.inputTokens
  outputTokens := newer current.outputTokens update.outputTokens
  reasoningTokens := newer current.reasoningTokens update.reasoningTokens
  cacheReadTokens := newer current.cacheReadTokens update.cacheReadTokens
  cacheWriteTokens := newer current.cacheWriteTokens update.cacheWriteTokens
  providerRaw := update.providerRaw.entries.foldl
    (fun raw entry => raw.insert entry.1 entry.2) current.providerRaw
where newer (current update : Int) : Int :=
  if update ≠ 0 then update else current

/-- Go `llm.Response`. -/
structure Response where
  apiVersion : String := ""
  operationKey : String := ""
  status : String := ""
  output : Option (List (Option Item)) := none
  usage : Usage := {}
deriving DecidableEq

inductive Delta where
  | text (text : Bytes)
  | toolArguments (callId name : String) (fragment : Bytes)
  | reasoning (contents : Bytes)
  | providerState (state : ProviderState)
deriving DecidableEq, Repr

inductive Event where
  | outputStarted (index : Int)
  | delta (index : Int) (delta : Delta)
  | outputFinished (index : Int) (item : Option Item)
  | usageUpdated (usage : Usage)
  | streamCompleted (response : Response)
  | streamErrored (err : Option String)
deriving DecidableEq

-- ===== one output

/-- Why `add` refuses. -/
inductive AddError where
  /-- "stream already has a terminal event" -/
  | terminated
  /-- "output start index %d is out of order" -/
  | startOutOfOrder (index : Int)
  /-- "output index %d is invalid" -/
  | indexInvalid (index : Int)
  /-- "output index %d was not started or already finished" -/
  | notActive (index : Int)
  /-- "text delta at index %d is not valid UTF-8" -/
  | textNotUtf8 (index : Int)
  /-- "tool argument delta at index %d is not valid UTF-8" -/
  | argumentsNotUtf8 (index : Int)
  /-- "tool call ID changed at index %d" -/
  | callIdChanged (index : Int)
  /-- "tool name changed at index %d" -/
  | nameChanged (index : Int)
  /-- "provider state at index %d is incomplete" -/
  | stateIncomplete (index : Int)
  /-- "output index %d finished twice" -/
  | finishedTwice (index : Int)
  /-- "output index %d has no response slot" -/
  | noSlot (index : Int)
  /-- "tool argument stream is incomplete JSON" -/
  | jsonIncomplete
  /-- "tool argument stream is invalid JSON" -/
  | jsonInvalid
  /-- "tool argument stream is missing call ID or name" -/
  | identityMissing
  /-- "stream completed with unfinished output" -/
  | unfinished
  /-- "stream response operation key is empty" -/
  | operationKeyEmpty
  /-- "stream response status %q is invalid" -/
  | statusInvalid (status : String)
deriving DecidableEq, Repr

structure OutputState where
  text : Bytes := []
  parts : List Part := []
  arguments : Bytes := []
  callId : String := ""
  name : String := ""
  finished : Bool := false
deriving DecidableEq, Repr

namespace OutputState

def flushText (state : OutputState) : OutputState :=
  if state.text = [] then state
  else { state with
    parts := state.parts ++ [.text state.text]
    text := [] }

/-- One delta of the output at `index`. -/
def receive (state : OutputState) (index : Int) : Delta → Except AddError OutputState
  | .text text =>
    if validUtf8 text then .ok { state with text := state.text ++ text }
    else .error (.textNotUtf8 index)
  | .toolArguments callId name fragment =>
    if !validUtf8 fragment then .error (.argumentsNotUtf8 index)
    else if state.callId ≠ "" ∧ callId ≠ "" ∧ state.callId ≠ callId then
      .error (.callIdChanged index)
    else if state.name ≠ "" ∧ name ≠ "" ∧ state.name ≠ name then
      .error (.nameChanged index)
    else .ok { state with
      callId := if callId ≠ "" then callId else state.callId
      name := if name ≠ "" then name else state.name
      arguments := state.arguments ++ fragment }
  | .reasoning contents =>
    .ok { state with text := state.text ++ contents }
  | .providerState s =>
    if s.provider = "" ∨ s.endpointFamily = "" ∨ s.mediaType = "" then
      .error (.stateIncomplete index)
    else
      let flushed := state.flushText
      .ok { flushed with parts := flushed.parts ++ [.providerState s] }

/-- Go `json.Valid`, which scans at most 10000 levels. -/
def jsonValid (data : Bytes) : Bool :=
  match Decoder.tree ⟨some 10000, false⟩ (2 * data.length + 1) 0
      (newDecoder data) with
  | .ok (_, rest) => (noTrailing rest).isOk
  | .error _ => false

/-- The item of an output, and the state after it was made. -/
def item (state : OutputState) : Except AddError (Item × OutputState) :=
  if state.arguments ≠ [] then
    if !jsonValid state.arguments then .error .jsonIncomplete
    else if !(canonicalToolArguments state.arguments).isOk then
      .error .jsonInvalid
    else if state.callId = "" ∨ state.name = "" then
      .error .identityMissing
    else .ok (.toolCall state.callId state.name state.arguments, state)
  else
    let flushed := state.flushText
    .ok (.message flushed.parts, flushed)

/-- The item of an output unless the adapter supplies one. -/
def finish (state : OutputState) : Option Item → Except AddError (Item × OutputState)
  | some supplied => .ok (supplied, state)
  | none => state.item

end OutputState

-- ===== the assembler

structure Assembler where
  operationKey : String
  nextIndex : Nat := 0
  active : FMap Int OutputState := ∅
  outputs : List (Option Item) := []
  usage : Usage := {}
  terminal : Bool := false
  result : Response := {}
  terminalErr : Option String := none
deriving DecidableEq

variable {a a' : Assembler} {event : Event} {es : List Event}

namespace Assembler

/-- Go `state`. -/
def state (a : Assembler) (index : Int) : Except AddError OutputState :=
  if index < 0 then .error (.indexInvalid index)
  else
    match a.active.lookup index with
    | none => .error (.notActive index)
    | some state => .ok state

/-- The statuses that `ResponseStatus.Valid` accepts. -/
def statuses : List String :=
  ["paused", "completed", "tool_calls", "refused", "length", "content_filtered"]

/-- A completing response with its gaps filled. -/
def fill (a : Assembler) (r : Response) : Response where
  apiVersion := if r.apiVersion = "" then "llm.temporal/v1" else r.apiVersion
  operationKey :=
    if r.operationKey = "" then a.operationKey else r.operationKey
  status := if r.status = "" then "completed" else r.status
  -- a copy of no outputs is nil
  output := r.output <|> (if a.outputs = [] then none else some a.outputs)
  usage := if usageEmpty r.usage then a.usage else r.usage

/-- The response that a completed stream answers with. -/
def complete (a : Assembler) (r : Response) : Except AddError Response :=
  let response := a.fill r
  if a.active.entries ≠ [] then .error .unfinished
  else if response.operationKey = "" then .error .operationKeyEmpty
  else if response.status ∉ statuses then
    .error (.statusInvalid response.status)
  else .ok response

/-- Go `Add`. The state of an output is shared with the map, so what an arm
writes to it before it refuses stays. -/
def add (a : Assembler) (event : Event) : Assembler × Option AddError :=
  if a.terminal then (a, some .terminated)
  else
    match event with
    | .outputStarted index =>
      if index < 0 ∨ index ≠ a.nextIndex then
        (a, some (.startOutOfOrder index))
      else
        ({ a with
          active := a.active.insert index {}
          outputs := a.outputs ++ [none]
          nextIndex := a.nextIndex + 1 }, none)
    | .delta index delta =>
      match (a.state index).bind (·.receive index delta) with
      | .error fault => (a, some fault)
      | .ok state => ({ a with active := a.active.insert index state }, none)
    | .outputFinished index supplied =>
      match a.state index with
      | .error fault => (a, some fault)
      | .ok state =>
        if state.finished then (a, some (.finishedTwice index))
        else
          match state.finish supplied with
          | .error fault => (a, some fault)
          | .ok (item, state) =>
            let state := { state with finished := true }
            if a.outputs.length ≤ index.toNat then
              ({ a with active := a.active.insert index state }, some (.noSlot index))
            else
              ({ a with
                outputs := a.outputs.set index.toNat (some item)
                active := a.active.erase index }, none)
    | .usageUpdated usage =>
      ({ a with usage := mergeUsage a.usage usage }, none)
    | .streamCompleted response =>
      match a.complete response with
      | .error fault => (a, some fault)
      | .ok response => ({ a with result := response, terminal := true }, none)
    | .streamErrored err =>
      ({ a with
        terminal := true
        terminalErr := some (err.getD "provider stream failed") }, none)

/-- The assembler after calls of `Add`, whatever they answered. -/
def feed (a : Assembler) (events : List Event) : Assembler :=
  events.foldl (fun a event => (a.add event).1) a

/-- The assembler after events that were all accepted. -/
def run (a : Assembler) : List Event → Option Assembler
  | [] => some a
  | event :: rest =>
    match a.add event with
    | (next, none) => next.run rest
    | (_, some _) => none

/-- The response to events that were accepted up to the completing one. -/
def assemble (key : String) (events : List Event) (r : Response) : Option Response :=
  (run { operationKey := key } (events ++ [.streamCompleted r])).map result

-- ===== steps

/-- What `add` does with an event it accepts. -/
inductive Accepts (a : Assembler) : Event → Assembler → Prop
  | started : Accepts a (.outputStarted a.nextIndex) { a with
      active := a.active.insert a.nextIndex {}
      outputs := a.outputs ++ [none]
      nextIndex := a.nextIndex + 1 }
  | delta {index : Nat} {delta : Delta} {s s' : OutputState}
      (hactive : a.active.lookup (index : Int) = some s)
      (hreceive : s.receive index delta = .ok s') :
      Accepts a (.delta index delta)
        { a with active := a.active.insert (index : Int) s' }
  | finished {index : Nat} {supplied : Option Item} {item : Item}
      {s s' : OutputState} (hactive : a.active.lookup (index : Int) = some s)
      (hfinish : s.finish supplied = .ok (item, s'))
      (hslot : index < a.outputs.length) :
      Accepts a (.outputFinished index supplied) { a with
        outputs := a.outputs.set index (some item)
        active := a.active.erase (index : Int) }
  | usage {usage : Usage} : Accepts a (.usageUpdated usage)
        { a with usage := mergeUsage a.usage usage }
  | completed {r response : Response} (h : a.complete r = .ok response) :
      Accepts a (.streamCompleted r)
        { a with result := response, terminal := true }
  | errored {err : Option String} : Accepts a (.streamErrored err) { a with
        terminal := true
        terminalErr := some (err.getD "provider stream failed") }

theorem state_eq_ok {index : Int} {s : OutputState} (h : a.state index = .ok s) :
    ∃ n : Nat, index = n ∧ a.active.lookup (n : Int) = some s := by
  unfold state at h
  split at h
  · cases h
  next hnonneg =>
    obtain ⟨n, rfl⟩ := Int.eq_ofNat_of_zero_le (not_lt.mp hnonneg)
    split at h
    · cases h
    next s hs =>
      cases h
      exact ⟨n, rfl, hs⟩

theorem accepts_of_add (h : a.add event = (a', none)) : Accepts a event a' := by
  unfold add at h
  split at h
  · cases h
  cases event with
  | outputStarted index =>
    dsimp only at h
    split at h
    · cases h
    next hindex =>
      obtain rfl : index = a.nextIndex := by omega
      cases h
      exact .started
  | delta index delta =>
    dsimp only at h
    split at h
    · cases h
    next s' hs' =>
      cases h
      obtain ⟨s, hs, hreceive⟩ := bind_ok hs'
      obtain ⟨n, rfl, hactive⟩ := state_eq_ok hs
      exact .delta hactive hreceive
  | outputFinished index supplied =>
    dsimp only at h
    split at h
    · cases h
    next s hs =>
      obtain ⟨n, rfl, hactive⟩ := state_eq_ok hs
      split at h
      · cases h
      split at h
      · cases h
      next item s' hfinish =>
        split at h
        · cases h
        next hslot =>
          cases h
          exact .finished hactive hfinish (not_le.mp hslot)
  | usageUpdated usage =>
    cases h
    exact .usage
  | streamCompleted r =>
    dsimp only at h
    split at h
    · cases h
    next response hresponse =>
      cases h
      exact .completed hresponse
  | streamErrored err =>
    cases h
    exact .errored

/-- The slots of started outputs: open ones are in the map, finished ones
hold an item. -/
structure Orderly (a : Assembler) : Prop where
  size : a.outputs.length = a.nextIndex
  opened : ∀ i s, a.active.lookup i = some s → i < a.nextIndex
  closed : ∀ i : Nat, i < a.nextIndex → a.active.lookup (i : Int) = none →
    ∃ item, a.outputs[i]? = some (some item)

theorem Orderly.step (h : Orderly a) (hstep : Accepts a event a') : Orderly a' := by
  cases hstep with
  | started =>
    refine ⟨by simp [h.size], fun i s hs => ?_, fun i hi hnone => ?_⟩
    · dsimp only at hs ⊢
      rw [lookup_insert_eq] at hs
      split at hs
      · omega
      · have := h.opened i s hs
        omega
    · dsimp only at hi hnone ⊢
      rw [lookup_insert_eq] at hnone
      split at hnone
      · cases hnone
      next hne =>
        have hi : i < a.outputs.length := by
          rw [h.size]
          omega
        rw [List.getElem?_append_left hi]
        exact h.closed i (h.size ▸ hi) hnone
  | @delta index _ s s' hactive hreceive =>
    refine ⟨h.size, fun i t ht => ?_, fun i hi hnone => ?_⟩
    · rw [lookup_insert_eq] at ht
      split at ht
      next heq =>
        rw [heq]
        exact h.opened _ s hactive
      · exact h.opened i t ht
    · rw [lookup_insert_eq] at hnone
      split at hnone
      · cases hnone
      · exact h.closed i hi hnone
  | @finished index _ item s s' hactive hfinish hslot =>
    refine ⟨by simp [h.size], fun i t ht => ?_, fun i hi hnone => ?_⟩
    · rw [lookup_erase_eq] at ht
      split at ht
      · cases ht
      · exact h.opened i t ht
    · by_cases heq : i = index
      · exact ⟨item, by rw [heq, List.getElem?_set_self hslot]⟩
      · rw [lookup_erase_eq, if_neg (by omega)] at hnone
        rw [List.getElem?_set_ne (Ne.symm heq)]
        exact h.closed i hi hnone
  | usage | completed | errored => exact ⟨h.size, h.opened, h.closed⟩

/-- An event that is refused leaves the assembler as it was: the one arm
that writes first needs an output without a slot. -/
theorem add_refused (h : Orderly a) {fault : AddError}
    (hfault : (a.add event).2 = some fault) : (a.add event).1 = a := by
  unfold add at hfault ⊢
  split
  · rfl
  next hlive =>
  rw [if_neg hlive] at hfault
  cases event with
  | outputStarted index =>
    dsimp only at hfault ⊢
    split
    · rfl
    next hindex => rw [if_neg hindex] at hfault; cases hfault
  | delta | streamCompleted =>
    dsimp only at hfault ⊢
    split
    · rfl
    next hok => rw [hok] at hfault; cases hfault
  | outputFinished index supplied =>
    dsimp only at hfault ⊢
    split
    · rfl
    next s hs =>
    obtain ⟨n, rfl, hactive⟩ := state_eq_ok hs
    have hslot : ¬a.outputs.length ≤ (n : Int).toNat := by
      have := h.opened _ s hactive
      rw [h.size]
      omega
    rw [hs] at hfault
    dsimp only at hfault ⊢
    split
    · rfl
    next hopen =>
    rw [if_neg hopen] at hfault
    split
    · rfl
    next item s' hfinish =>
    rw [hfinish] at hfault
    dsimp only at hfault
    rw [if_neg hslot] at hfault
    cases hfault
  | usageUpdated | streamErrored => cases hfault

-- ===== slots

/-- What is known of an output. -/
inductive Slot where
  | unseen
  | filling (state : OutputState)
  | done (item : Item)

/-- An output's next slot. -/
def Slot.step : Slot → Event → Slot
  | _, .outputStarted _ => .filling {}
  | .filling s, .delta index delta =>
    match s.receive index delta with
    | .ok s' => .filling s'
    | .error _ => .filling s
  | .filling s, .outputFinished _ supplied =>
    match s.finish supplied with
    | .ok (item, _) => .done item
    | .error _ => .filling s
  | slot, _ => slot

/-- The slot at an index. -/
def slot (a : Assembler) (i : Nat) : Slot :=
  match a.active.lookup (i : Int), a.outputs[i]? with
  | some s, _ => .filling s
  | none, some (some item) => .done item
  | none, _ => .unseen

theorem slot_of_active {i : Nat} {s : OutputState}
    (h : a.active.lookup (i : Int) = some s) : a.slot i = .filling s := by
  rw [slot, h]

theorem Orderly.slot_next (h : Orderly a) : a.slot a.nextIndex = .unseen := by
  have hnone : a.active.lookup (a.nextIndex : Int) = none := by
    by_contra hsome
    obtain ⟨s, hs⟩ := Option.ne_none_iff_exists'.mp hsome
    exact absurd (h.opened _ s hs) (lt_irrefl _)
  rw [slot, hnone, List.getElem?_eq_none h.size.le]

end Assembler

/-- The event is about the output at `i`. -/
def Event.on (i : Nat) : Event → Bool
  | .outputStarted j | .delta j _ | .outputFinished j _ => j == (i : Int)
  | _ => false

namespace Assembler

/-- A step changes the slot its event is about, and reads no other. -/
theorem slot_step (h : Orderly a) (hstep : Accepts a event a') (i : Nat) : a'.slot i
      = if event.on i then (a.slot i).step event else a.slot i := by
  cases hstep with
  | started =>
    by_cases heq : i = a.nextIndex
    · subst heq
      simp [Event.on, slot, Slot.step]
    · have hne : ¬(a.nextIndex : Int) = i := by omega
      have hne' : ¬(i : Int) = a.nextIndex := by omega
      have houtputs : (a.outputs ++ [none])[i]? = a.outputs[i]? := by
        obtain hlt | hgt := Nat.lt_or_gt_of_ne heq
        · exact List.getElem?_append_left (h.size ▸ hlt)
        · rw [List.getElem?_eq_none (by simp [h.size]; omega),
            List.getElem?_eq_none (by rw [h.size]; omega)]
      simp [Event.on, slot, hne, hne', houtputs]
  | @delta index _ s s' hactive hreceive =>
    by_cases heq : i = index
    · subst heq
      rw [slot_of_active hactive]
      simp [Event.on, slot, Slot.step, hreceive]
    · have hne : ¬(index : Int) = i := by omega
      have hne' : ¬(i : Int) = index := by omega
      simp [Event.on, slot, hne, hne']
  | @finished index _ item s s' hactive hfinish hslot =>
    by_cases heq : i = index
    · subst heq
      rw [slot_of_active hactive]
      simp [Event.on, slot, Slot.step, hfinish, hslot]
    · have hne : ¬(index : Int) = i := by omega
      have hne' : ¬(i : Int) = index := by omega
      simp [Event.on, slot, hne, hne', List.getElem?_set_ne (Ne.symm heq)]
  | usage | completed | errored => rfl

end Assembler

-- ===== what an output carries

/-- Text, byte by byte, with the provider states that stand in it. How
text is cut into parts does not matter; a state is kept whole. -/
abbrev Content := List (UInt8 ⊕ ProviderState)

def Part.content : Part → Content
  | .text t => t.map .inl
  | .providerState s => [.inr s]

def Item.content : Item → Content
  | .message parts => parts.flatMap Part.content
  | _ => []

def Item.arguments : Item → Bytes
  | .toolCall _ _ arguments => arguments
  | _ => []

namespace Event

def usage? : Event → Option Usage
  | .usageUpdated usage => some usage
  | _ => none

/-- Text and provider state of an event. -/
def content : Event → Content
  | .delta _ (.text text) => text.map .inl
  | .delta _ (.reasoning contents) => contents.map .inl
  | .delta _ (.providerState state) => [.inr state]
  | _ => []

/-- Tool arguments of an event. -/
def fragment : Event → Bytes
  | .delta _ (.toolArguments _ _ fragment) => fragment
  | _ => []

def isToolArguments : Event → Bool
  | .delta _ (.toolArguments ..) => true
  | _ => false

end Event

/-- The item keeps what the events of its output carried. -/
def Kept (es : List Event) (item : Item) : Prop :=
  item.content = es.flatMap Event.content ∧ item.arguments = es.flatMap Event.fragment
    ∧ (es.any Event.isToolArguments = true →
      ∃ id name, item = .toolCall id name (es.flatMap Event.fragment))

/-- An output carries text and provider states or arguments, not both, and
arguments that are not empty if it has any. -/
def OneKind (es : List Event) : Prop :=
  (es.flatMap Event.content = [] ∨ es.flatMap Event.fragment = [])
    ∧ (es.any Event.isToolArguments = true → es.flatMap Event.fragment ≠ [])

instance (es : List Event) : Decidable (OneKind es) :=
  inferInstanceAs (Decidable (_ ∧ _))

/-- How an item follows from the events of its output. -/
def Made (es : List Event) (item : Item) : Prop :=
  (es.flatMap Event.fragment = [] → ∃ parts, item = .message parts
      ∧ parts.flatMap Part.content = es.flatMap Event.content)
  ∧ (es.flatMap Event.fragment ≠ [] →
    ∃ id name, item = .toolCall id name (es.flatMap Event.fragment))

theorem Made.kept_iff {item : Item} (h : Made es item) : Kept es item ↔ OneKind es := by
  by_cases hempty : es.flatMap Event.fragment = []
  · obtain ⟨parts, rfl, hparts⟩ := h.1 hempty
    simp [Kept, OneKind, Item.content, Item.arguments, hempty, hparts]
  · obtain ⟨id, name, rfl⟩ := h.2 hempty
    constructor
    · rintro ⟨hcontent, -, -⟩
      exact ⟨.inl hcontent.symm, fun _ => hempty⟩
    · rintro ⟨hcontent, -⟩
      exact ⟨(hcontent.resolve_right hempty).symm, rfl, fun _ => ⟨_, _, rfl⟩⟩

namespace OutputState

variable {s s' : OutputState} {index : Int} {delta : Delta}

def content (s : OutputState) : Content :=
  s.parts.flatMap Part.content ++ s.text.map .inl

theorem flushText_spec (s : OutputState) : s.flushText.text = []
    ∧ s.flushText.parts.flatMap Part.content = s.content
    ∧ s.flushText.arguments = s.arguments := by
  unfold flushText content
  split
  next h => exact ⟨h, by rw [h, List.map_nil, List.append_nil], rfl⟩
  · exact ⟨rfl, by simp [Part.content], rfl⟩

theorem receive_spec (h : s.receive index delta = .ok s') :
    s'.content = s.content ++ (Event.delta index delta).content
      ∧ s'.arguments = s.arguments ++ (Event.delta index delta).fragment := by
  cases delta with
  | text text =>
    simp only [receive] at h
    split at h
    · cases h
      simp [content, Event.content, Event.fragment]
    · cases h
  | toolArguments callId name fragment =>
    simp only [receive] at h
    split at h
    · cases h
    split at h
    · cases h
    split at h
    · cases h
    cases h
    simp [content, Event.content, Event.fragment]
  | reasoning contents =>
    cases h
    simp [content, Event.content, Event.fragment]
  | providerState state =>
    simp only [receive] at h
    split at h
    · cases h
    cases h
    obtain ⟨htext, hparts, harguments⟩ := s.flushText_spec
    simp [content, Event.content, Event.fragment, htext, hparts, harguments, Part.content]

theorem item_spec {item : Item} (h : s.item = .ok (item, s')) :
    (s.arguments = [] → ∃ parts, item = .message parts ∧ parts.flatMap Part.content = s.content)
    ∧ (s.arguments ≠ [] → ∃ id name, item = .toolCall id name s.arguments) := by
  unfold OutputState.item at h
  split at h
  next hargs =>
    split at h
    · cases h
    split at h
    · cases h
    split at h
    · cases h
    cases h
    exact ⟨fun hempty => absurd hempty hargs, fun _ => ⟨_, _, rfl⟩⟩
  next hargs =>
    cases h
    exact ⟨fun _ => ⟨_, rfl, s.flushText_spec.2.1⟩, fun hne => absurd hne hargs⟩

end OutputState

namespace Assembler

/-- What a slot has kept of the events of its output. -/
def Tracks (es : List Event) : Slot → Prop
  | .unseen => es = []
  | .filling s => s.content = es.flatMap Event.content ∧ s.arguments = es.flatMap Event.fragment
  | .done item => Made es item

theorem tracks_step (h : Orderly a) (hstep : Accepts a event a') (i : Nat)
    (hleft : ∀ j item, event ≠ .outputFinished j (some item))
    (htracks : Tracks es (a.slot i)) (hon : event.on i = true) :
    Tracks (es ++ [event]) ((a.slot i).step event) := by
  cases hstep with
  | started =>
    obtain rfl : a.nextIndex = i := by simpa [Event.on] using hon
    rw [h.slot_next] at htracks
    obtain rfl : es = [] := htracks
    exact ⟨rfl, rfl⟩
  | @delta index _ s s' hactive hreceive =>
    obtain rfl : index = i := by simpa [Event.on] using hon
    rw [slot_of_active hactive] at htracks ⊢
    obtain ⟨hcontent, harguments⟩ := OutputState.receive_spec hreceive
    simp only [Slot.step, hreceive, Tracks, List.flatMap_append,
      List.flatMap_singleton, ← htracks.1, ← htracks.2]
    exact ⟨hcontent, harguments⟩
  | @finished index supplied item s s' hactive hfinish hslot =>
    obtain rfl : index = i := by simpa [Event.on] using hon
    rw [slot_of_active hactive] at htracks ⊢
    cases supplied with
    | some supplied => exact absurd rfl (hleft _ supplied)
    | none =>
      have hmade := OutputState.item_spec hfinish
      rw [htracks.1, htracks.2] at hmade
      simp only [Slot.step, hfinish, Tracks, Made, List.flatMap_append,
        List.flatMap_singleton, Event.content, Event.fragment,
        List.append_nil]
      exact hmade
  | usage | completed | errored => cases hon

/-- The assembler after accepted events, output by output. -/
theorem run_spec (h : Orderly a) (hrun : a.run es = some a') :
    Orderly a' ∧ a'.operationKey = a.operationKey
      ∧ a'.usage = (es.filterMap Event.usage?).foldl mergeUsage a.usage
      ∧ ∀ i, a'.slot i = (es.filter (Event.on i)).foldl Slot.step (a.slot i)
        ∧ ∀ seen, (∀ j item, Event.outputFinished j (some item) ∉ es) → Tracks seen (a.slot i) →
          Tracks (seen ++ es.filter (Event.on i)) (a'.slot i) := by
  induction es generalizing a with
  | nil =>
    cases hrun
    exact ⟨h, rfl, rfl, fun i => ⟨rfl, fun seen _ ht => by simpa using ht⟩⟩
  | cons event rest ih =>
    unfold run at hrun
    split at hrun
    next next hadd =>
      have hstep := accepts_of_add hadd
      obtain ⟨horderly, hkey, husage, hslots⟩ := ih (h.step hstep) hrun
      refine ⟨horderly, ?_, ?_, fun i => ?_⟩
      · rw [hkey]
        cases hstep <;> rfl
      · rw [husage]
        cases hstep <;> rfl
      · obtain ⟨hslot, htracks⟩ := hslots i
        rw [slot_step h hstep i] at hslot htracks
        rw [List.filter_cons]
        cases hon : event.on i with
        | false =>
          rw [hon] at hslot htracks
          refine ⟨hslot, fun seen hleft ht => htracks seen ?_ ht⟩
          exact fun j item hmem => hleft j item (List.mem_cons_of_mem _ hmem)
        | true =>
          rw [hon] at hslot htracks
          refine ⟨hslot, fun seen hleft ht => ?_⟩
          have hnext := tracks_step h hstep i
            (fun j item heq => hleft j item (heq ▸ List.mem_cons_self)) ht hon
          rw [if_pos rfl, List.append_cons]
          exact htracks _ (fun j item hmem =>
            hleft j item (List.mem_cons_of_mem _ hmem)) hnext
    · cases hrun

theorem orderly_new (key : String) : Orderly { operationKey := key } :=
  ⟨rfl, fun _ _ h => (nomatch h), fun _ h => absurd h (Nat.not_lt_zero _)⟩

theorem Orderly.feed (h : Orderly a) (es : List Event) : Orderly (a.feed es) := by
  induction es generalizing a with
  | nil => exact h
  | cons event rest ih =>
    refine ih (a := (a.add event).1) ?_
    cases hadd : (a.add event).2 with
    | none => exact h.step (accepts_of_add (Prod.ext rfl hadd))
    | some fault =>
      rw [add_refused h hadd]
      exact h

theorem run_append (a : Assembler) (es es' : List Event) :
    a.run (es ++ es') = (a.run es).bind (·.run es') := by
  induction es generalizing a with
  | nil => rfl
  | cons event rest ih =>
    simp only [List.cons_append, run]
    split
    · exact ih _
    · rfl

theorem complete_ok {r response : Response} (h : a.complete r = .ok response) :
    a.active.entries = [] ∧ response = a.fill r := by
  unfold complete at h
  dsimp only at h
  split at h
  · cases h
  next hempty =>
  split at h
  · cases h
  split at h
  · cases h
  cases h
  exact ⟨not_not.mp hempty, rfl⟩

/-- A completed stream has no open output. -/
theorem assemble_spec {key : String} {r response : Response}
    (h : assemble key es r = some response) :
    ∃ a : Assembler, run { operationKey := key } es = some a
      ∧ a.active.entries = [] ∧ response = a.fill r := by
  simp only [assemble, run_append, Option.map_eq_some_iff, Option.bind_eq_some_iff] at h
  obtain ⟨a', ⟨a, ha, hrun⟩, rfl⟩ := h
  refine ⟨a, ha, ?_⟩
  unfold run at hrun
  split at hrun
  next next hadd =>
    cases hrun
    cases accepts_of_add hadd with
    | completed hcomplete => exact complete_ok hcomplete
  · cases hrun

/-- Without open outputs the response's slots are the finished ones. -/
theorem Orderly.outputs_eq (h : Orderly a) (hempty : a.active.entries = []) (i : Nat) :
    a.outputs[i]? = match a.slot i with
      | .done item => some (some item)
      | _ => none := by
  have hnone : a.active.lookup (i : Int) = none := by
    rw [show a.active = ∅ from AList.ext hempty, AList.lookup_empty]
  by_cases hi : i < a.nextIndex
  · obtain ⟨item, hitem⟩ := h.closed i hi hnone
    rw [slot, hnone, hitem]
  · rw [slot, hnone, List.getElem?_eq_none (by rw [h.size]; omega)]

/-- The output of the response when the adapter leaves it open. -/
theorem output_fill {r : Response} (hopen : r.output = none) :
    (a.fill r).output.getD [] = a.outputs := by
  by_cases hnil : a.outputs = []
  · simp [fill, hopen, hnil]
  · simp [fill, hopen, hnil]

/-- The item of an output as its events alone determine it. -/
def assembled (es : List Event) : Slot :=
  es.foldl Slot.step .unseen

/-- A refused event changes nothing. A completed response is the same for
every interleaving of its outputs, each item following from the events of
its output; and the item keeps all that those carried exactly when they
carried text and provider states or nonempty arguments but not both. -/
theorem assembly_keeps_iff (key : String) : (∀ es event fault,
      ((feed { operationKey := key } es).add event).2 = some fault →
      ((feed { operationKey := key } es).add event).1 = feed { operationKey := key } es)
    ∧ (∀ es es' r response response', r.output = none → assemble key es r = some response →
      assemble key es' r = some response' →
      (∀ i, es.filter (Event.on i) = es'.filter (Event.on i)) →
      es.filterMap Event.usage? = es'.filterMap Event.usage? →
      response = response')
    ∧ ∀ es r response, r.output = none → (∀ j item, Event.outputFinished j (some item) ∉ es) →
      assemble key es r = some response →
      ∀ i, es.filter (Event.on i) ≠ [] → ∃ item, (response.output.getD [])[i]? = some (some item)
          ∧ assembled (es.filter (Event.on i)) = .done item
          ∧ (Kept (es.filter (Event.on i)) item ↔ OneKind (es.filter (Event.on i))) := by
  refine ⟨?_, ?_, ?_⟩
  · intro es event fault hfault
    exact add_refused ((orderly_new key).feed es) hfault
  · intro es es' r response response' hopen h h' hsame husage
    obtain ⟨a, hrun, hempty, rfl⟩ := assemble_spec h
    obtain ⟨a', hrun', hempty', rfl⟩ := assemble_spec h'
    obtain ⟨hord, hkey, huse, hslot⟩ := run_spec (orderly_new key) hrun
    obtain ⟨hord', hkey', huse', hslot'⟩ := run_spec (orderly_new key) hrun'
    have houtputs : a.outputs = a'.outputs := by
      refine List.ext_getElem? fun i => ?_
      rw [hord.outputs_eq hempty, hord'.outputs_eq hempty', (hslot i).1, (hslot' i).1, hsame i]
    simp only [fill, houtputs, hkey, hkey', huse, huse', husage]
  · intro es r response hopen hleft h i hsome
    obtain ⟨a, hrun, hempty, rfl⟩ := assemble_spec h
    obtain ⟨hord, -, -, hslots⟩ := run_spec (orderly_new key) hrun
    obtain ⟨hslot, htracks⟩ := hslots i
    have htracks := htracks [] hleft rfl
    rw [output_fill hopen, hord.outputs_eq hempty]
    cases hitem : a.slot i with
    | unseen =>
      rw [hitem] at htracks
      exact absurd htracks hsome
    | filling s =>
      unfold slot at hitem
      rw [show a.active = ∅ from AList.ext hempty, AList.lookup_empty] at hitem
      split at hitem <;> simp_all
    | done item =>
      rw [hitem] at htracks
      exact ⟨item, rfl, hslot.symm.trans hitem, htracks.kept_iff⟩

/-- A text and a tool call, interleaved. -/
def twoOutputs : List Event :=
  [.outputStarted 0, .outputStarted 1,
    .delta 1 (.toolArguments "call" "lookup" [0x7b]), .delta 0 (.text [0x61]),
    .delta 1 (.toolArguments "" "" [0x7d]), .outputFinished 1 none,
    .outputFinished 0 none]

theorem twoOutputs_kept : ∃ response, assemble "operation" twoOutputs {} = some response
      ∧ ∃ item, (response.output.getD [])[1]? = some (some item)
        ∧ Kept (twoOutputs.filter (Event.on 1)) item := by
  have hsome : (assemble "operation" twoOutputs {}).isSome = true := by
    decide +kernel
  obtain ⟨response, h⟩ := Option.isSome_iff_exists.mp hsome
  have hleft : ∀ j item, Event.outputFinished j (some item) ∉ twoOutputs := by
    simp [twoOutputs]
  obtain ⟨item, hitem, -, hkept⟩ := (assembly_keeps_iff "operation").2.2
    twoOutputs {} response rfl hleft h 1 (by decide)
  exact ⟨response, h, item, hitem, hkept.mpr (by decide)⟩

/-- Text before a tool call in one output is dropped, and a tool call
without arguments becomes a message. -/
theorem text_before_call_dropped : (assemble "operation" [.outputStarted 0, .delta 0 (.text [0x61]),
        .delta 0 (.toolArguments "call" "lookup" [0x7b, 0x7d]),
        .outputFinished 0 none] {}).map Response.output
      = some (some [some (.toolCall "call" "lookup" [0x7b, 0x7d])])
    ∧ (assemble "operation" [.outputStarted 0, .delta 0 (.toolArguments "call" "lookup" []),
        .outputFinished 0 none] {}).map Response.output
      = some (some [some (.message [])]) := by
  refine ⟨?_, ?_⟩ <;> decide +kernel

end Assembler

end LlmTemporalWorker.Stream
