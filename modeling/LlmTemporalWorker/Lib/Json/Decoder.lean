/-
The token stream of `encoding/json`.

A `json.Decoder` hands out a text token by token: brackets, and scalars
that it reads whole. Commas and colons are not tokens; the decoder keeps
a state that says which of them, or what kind of token, may come next,
and a stack of the states outside the open brackets.

`tree` is the loop a program writes over such a stream to read one
value: it descends at an opening bracket, and may refuse repeated keys
and limit how deep it descends. It reads exactly the grammar
(`tree_reads`, `tree_of_reads`): what it accepts is a value of the
grammar that keeps its rules, and it accepts every such value when it is
given enough steps, for which twice the length of the text is enough.
Handing out tokens, the decoder itself does not limit nesting.
-/
import LlmTemporalWorker.Lib.Json.Grammar

namespace LlmTemporalWorker.Lib.Json

-- ===== the decoder

/-- What may come next. -/
inductive TokenState where
  | topValue
  | arrayStart
  | arrayValue
  | arrayComma
  | objectStart
  | objectKey
  | objectColon
  | objectValue
  | objectComma
deriving DecidableEq, Repr

/-- `tokenValueAllowed`. -/
def TokenState.valueAllowed : TokenState → Bool
  | .topValue => true
  | .arrayStart => true
  | .arrayValue => true
  | .objectValue => true
  | _ => false

/-- `tokenValueEnd`. -/
def TokenState.valueEnd : TokenState → TokenState
  | .arrayStart => .arrayComma
  | .arrayValue => .arrayComma
  | .objectValue => .objectComma
  | state => state

inductive Token where
  | beginArray
  | endArray
  | beginObject
  | endObject
  | scalar (v : Json)

/-- The end of the text, or a text that is not JSON. -/
inductive DecodeError where
  | eof
  | malformed
deriving DecidableEq, Repr

structure Decoder where
  rest : Bytes
  state : TokenState
  stack : List TokenState

def newDecoder (data : Bytes) : Decoder := ⟨data, .topValue, []⟩

/-- Reads a value that is not a container. -/
def lexScalar : Bytes → Option (Json × Bytes)
  | 0x22 :: s => (lexString s).map fun r => (.string r.1, r.2)
  | 0x6e :: 0x75 :: 0x6c :: 0x6c :: rest => some (.null, rest)
  | 0x74 :: 0x72 :: 0x75 :: 0x65 :: rest => some (.bool true, rest)
  | 0x66 :: 0x61 :: 0x6c :: 0x73 :: 0x65 :: rest => some (.bool false, rest)
  | s => (readNumber s).map fun r => (.number r.1, r.2)

namespace Decoder

/-- A closing bracket: back to the state outside it. -/
def close (d : Decoder) (token : Token) (rest : Bytes) : Except DecodeError (Token × Decoder) :=
  match d.stack with
  | outer :: stack => .ok (token, ⟨rest, outer.valueEnd, stack⟩)
  | [] => .error .malformed

/-- The next token, after any comma or colon. -/
def tokenAt (d : Decoder) : Except DecodeError (Token × Decoder) :=
  match skipSpace d.rest with
  | [] => .error .eof
  | b :: s =>
    if b = 0x5b then
      if d.state.valueAllowed then
        .ok (.beginArray, ⟨s, .arrayStart, d.state :: d.stack⟩)
      else .error .malformed
    else if b = 0x5d then
      if d.state = .arrayStart ∨ d.state = .arrayComma then
        d.close .endArray s
      else .error .malformed
    else if b = 0x7b then
      if d.state.valueAllowed then
        .ok (.beginObject, ⟨s, .objectStart, d.state :: d.stack⟩)
      else .error .malformed
    else if b = 0x7d then
      if d.state = .objectStart ∨ d.state = .objectComma then
        d.close .endObject s
      else .error .malformed
    else if b = 0x3a ∨ b = 0x2c then .error .malformed
    else if b = 0x22 ∧ (d.state = .objectStart ∨ d.state = .objectKey) then
      match lexString s with
      | some (key, rest) =>
        .ok (.scalar (.string key), ⟨rest, .objectColon, d.stack⟩)
      | none => .error .malformed
    else if d.state.valueAllowed then
      match lexScalar (b :: s) with
      | some (v, rest) => .ok (.scalar v, ⟨rest, d.state.valueEnd, d.stack⟩)
      | none => .error .malformed
    else .error .malformed

/-- `Decoder.Token`. A comma or colon is passed where one is due; the
state it leads to admits no second one. -/
def token (d : Decoder) : Except DecodeError (Token × Decoder) :=
  match skipSpace d.rest with
  | [] => d.tokenAt
  | b :: s =>
    if b = 0x3a ∧ d.state = .objectColon then
      tokenAt ⟨s, .objectValue, d.stack⟩
    else if b = 0x2c ∧ d.state = .arrayComma then
      tokenAt ⟨s, .arrayValue, d.stack⟩
    else if b = 0x2c ∧ d.state = .objectComma then
      tokenAt ⟨s, .objectKey, d.stack⟩
    else d.tokenAt

def more (d : Decoder) : Bool :=
  match skipSpace d.rest with
  | [] => false
  | b :: _ => b != 0x5d && b != 0x7d

-- ===== reading a value

/-- Where a token was asked for. -/
inductive Place where
  | value
  | key
  | objectEnd
  | arrayEnd
deriving DecidableEq, Repr

inductive TreeError where
  | token (place : Place) (e : DecodeError)
  | keyNotString
  | duplicate (key : String)
  | tooDeep
  | notObjectEnd
  | notArrayEnd
  | unexpectedDelimiter
  | unfinished
deriving DecidableEq, Repr

/-- What a reader refuses beyond malformed text: nesting beyond a limit,
and repeated keys. -/
structure Rules where
  limit : Option Nat
  unique : Bool

mutual

/-- Reads one value token by token, in at most `fuel` steps. -/
def tree (rules : Rules) : Nat → Nat → Decoder → Except TreeError (Json × Decoder)
  | 0, _, _ => .error .unfinished
  | fuel + 1, depth, d =>
    match d.token with
    | .error e => .error (.token .value e)
    | .ok (.scalar v, d') => .ok (v, d')
    | .ok (token, d') =>
      if rules.limit.any (· ≤ depth) then .error .tooDeep
      else
        match token with
        | .beginObject =>
          (members rules fuel depth [] d').map fun r =>
            (.object r.1, r.2)
        | .beginArray =>
          (elements rules fuel depth d').map fun r => (.array r.1, r.2)
        | _ => .error .unexpectedDelimiter

/-- The elements of an array and its closing bracket. -/
def elements (rules : Rules) : Nat → Nat → Decoder → Except TreeError (List Json × Decoder)
  | 0, _, _ => .error .unfinished
  | fuel + 1, depth, d =>
    if d.more then
      match tree rules fuel (depth + 1) d with
      | .error e => .error e
      | .ok (v, d') =>
        (elements rules fuel depth d').map fun r => (v :: r.1, r.2)
    else
      match d.token with
      | .error e => .error (.token .arrayEnd e)
      | .ok (.endArray, d') => .ok ([], d')
      | .ok _ => .error .notArrayEnd

/-- The members of an object after those with the keys `seen`, and its
closing bracket. -/
def members (rules : Rules) : Nat → Nat → List String → Decoder →
      Except TreeError (List (String × Json) × Decoder)
  | 0, _, _, _ => .error .unfinished
  | fuel + 1, depth, seen, d =>
    if d.more then
      match d.token with
      | .error e => .error (.token .key e)
      | .ok (.scalar (.string key), d') =>
        if rules.unique = true ∧ key ∈ seen then .error (.duplicate key)
        else
          match tree rules fuel (depth + 1) d' with
          | .error e => .error e
          | .ok (v, d'') =>
            (members rules fuel depth (key :: seen) d'').map fun r =>
              ((key, v) :: r.1, r.2)
      | .ok _ => .error .keyNotString
    else
      match d.token with
      | .error e => .error (.token .objectEnd e)
      | .ok (.endObject, d') => .ok ([], d')
      | .ok _ => .error .notObjectEnd

end

end Decoder

-- ===== scalars

theorem lexScalar_ok {s rest : Bytes} {v : Json} (h : lexScalar s = some (v, rest)) :
    Reads s (.value v) rest ∧ v.depth = 0 ∧ v.distinct = true := by
  rw [lexScalar.eq_def] at h
  split at h
  · obtain ⟨r, hr, heq⟩ := Option.map_eq_some_iff.mp h
    cases heq
    exact ⟨.string hr, rfl, rfl⟩
  · cases h
    exact ⟨.nullWord _, rfl, rfl⟩
  · cases h
    exact ⟨.trueWord _, rfl, rfl⟩
  · cases h
    exact ⟨.falseWord _, rfl, rfl⟩
  · obtain ⟨r, hr, heq⟩ := Option.map_eq_some_iff.mp h
    cases heq
    exact ⟨.number hr, rfl, rfl⟩

/-- A number starts with a digit or a minus sign and with nothing else. -/
theorem readNumber_head_ne {s rest : Bytes} {literal : Number}
    (h : readNumber s = some (literal, rest)) :
    ∃ b t, s = b :: t ∧ ∀ x, x ≠ 0x2d → isDigit x = false → b ≠ x := by
  obtain ⟨b, t, rfl, hb⟩ := readNumber_head h
  refine ⟨b, t, rfl, ?_⟩
  rintro x hx hdigit rfl
  rcases hb with hb | hb
  · exact hx hb
  · rw [hdigit] at hb
    cases hb

theorem lexScalar_number {s rest : Bytes} {literal : Number}
    (h : readNumber s = some (literal, rest)) :
    lexScalar s = some (.number literal, rest) := by
  obtain ⟨b, t, rfl, hne⟩ := readNumber_head_ne h
  rw [lexScalar.eq_def]
  split
  iterate 4
    · next heq => exact absurd (List.cons.inj heq).1 (hne _ (by decide) (by decide))
  · rw [h]
    rfl

/-- A scalar starts with no bracket, colon or comma. -/
theorem lexScalar_head {s rest : Bytes} {v : Json} (h : lexScalar s = some (v, rest)) :
    ∃ b t, s = b :: t ∧ b ≠ 0x5b ∧ b ≠ 0x5d ∧ b ≠ 0x7b ∧ b ≠ 0x7d ∧ b ≠ 0x3a ∧ b ≠ 0x2c := by
  rw [lexScalar.eq_def] at h
  split at h
  iterate 4
    · exact ⟨_, _, rfl, by decide⟩
  · obtain ⟨r, hr, -⟩ := Option.map_eq_some_iff.mp h
    obtain ⟨b, t, rfl, hne⟩ := readNumber_head_ne hr
    refine ⟨b, t, rfl, ?_, ?_, ?_, ?_, ?_, ?_⟩ <;> exact hne _ (by decide) (by decide)

-- ===== one token

namespace Decoder

/-- The decoder past the comma or colon that is due. -/
def settle (d : Decoder) : Decoder :=
  match skipSpace d.rest with
  | [] => d
  | b :: s =>
    if b = 0x3a ∧ d.state = .objectColon then ⟨s, .objectValue, d.stack⟩
    else if b = 0x2c ∧ d.state = .arrayComma then ⟨s, .arrayValue, d.stack⟩
    else if b = 0x2c ∧ d.state = .objectComma then ⟨s, .objectKey, d.stack⟩
    else d

theorem token_eq_tokenAt (d : Decoder) : d.token = d.settle.tokenAt := by
  rw [token, settle]
  split
  · rfl
  split
  · rfl
  split
  · rfl
  split <;> rfl

/-- Every way a comma or colon can be passed. -/
inductive Settles (d : Decoder) : Decoder → Prop where
  | stays : Settles d d
  | colon {s : Bytes} (hstate : d.state = .objectColon) (h : skipSpace d.rest = 0x3a :: s) :
      Settles d ⟨s, .objectValue, d.stack⟩
  | element {s : Bytes} (hstate : d.state = .arrayComma) (h : skipSpace d.rest = 0x2c :: s) :
      Settles d ⟨s, .arrayValue, d.stack⟩
  | member {s : Bytes} (hstate : d.state = .objectComma) (h : skipSpace d.rest = 0x2c :: s) :
      Settles d ⟨s, .objectKey, d.stack⟩

theorem settles (d : Decoder) : Settles d d.settle := by
  rw [settle]
  split
  · exact .stays
  next b s hs =>
  split
  · next hcolon => exact .colon hcolon.2 (hcolon.1 ▸ hs)
  split
  · next hcomma => exact .element hcomma.2 (hcomma.1 ▸ hs)
  split
  · next hcomma => exact .member hcomma.2 (hcomma.1 ▸ hs)
  · exact .stays

/-- Every way a token can be read. -/
inductive TokenAt : Decoder → Token → Decoder → Prop where
  | beginArray {d : Decoder} {s : Bytes} (h : skipSpace d.rest = 0x5b :: s)
      (hallowed : d.state.valueAllowed = true) :
      TokenAt d .beginArray ⟨s, .arrayStart, d.state :: d.stack⟩
  | beginObject {d : Decoder} {s : Bytes} (h : skipSpace d.rest = 0x7b :: s)
      (hallowed : d.state.valueAllowed = true) :
      TokenAt d .beginObject ⟨s, .objectStart, d.state :: d.stack⟩
  | endArray {d : Decoder} {s : Bytes} {outer : TokenState}
      {stack : List TokenState} (h : skipSpace d.rest = 0x5d :: s)
      (hstate : d.state = .arrayStart ∨ d.state = .arrayComma)
      (hstack : d.stack = outer :: stack) :
      TokenAt d .endArray ⟨s, outer.valueEnd, stack⟩
  | endObject {d : Decoder} {s : Bytes} {outer : TokenState}
      {stack : List TokenState} (h : skipSpace d.rest = 0x7d :: s)
      (hstate : d.state = .objectStart ∨ d.state = .objectComma)
      (hstack : d.stack = outer :: stack) :
      TokenAt d .endObject ⟨s, outer.valueEnd, stack⟩
  | key {d : Decoder} {s rest : Bytes} {key : String} (h : skipSpace d.rest = 0x22 :: s)
      (hstate : d.state = .objectStart ∨ d.state = .objectKey)
      (hkey : lexString s = some (key, rest)) :
      TokenAt d (.scalar (.string key)) ⟨rest, .objectColon, d.stack⟩
  | scalar {d : Decoder} {rest : Bytes} {v : Json} (hallowed : d.state.valueAllowed = true)
      (hv : lexScalar (skipSpace d.rest) = some (v, rest)) :
      TokenAt d (.scalar v) ⟨rest, d.state.valueEnd, d.stack⟩

variable {d d' : Decoder} {s rest : Bytes} {outer : TokenState} {stack : List TokenState}
  {key : String} {rules : Rules} {depth fuel : Nat} {v : Json} {vs : List Json}
  {ms : List (String × Json)} {seen : List String}

theorem close_ok {token token' : Token} (h : d.close token rest = .ok (token', d')) :
    token' = token ∧ ∃ outer stack, d.stack = outer :: stack
      ∧ d' = ⟨rest, outer.valueEnd, stack⟩ := by
  rw [close] at h
  split at h
  · next outer stack hstack =>
      cases h
      exact ⟨rfl, outer, stack, hstack, rfl⟩
  · cases h

theorem tokenAt_cases {token : Token} (h : d.tokenAt = .ok (token, d')) :
    TokenAt d token d' := by
  rw [tokenAt] at h
  split at h
  · cases h
  next b s hs =>
  by_cases hb : b = 0x5b
  · subst hb
    rw [if_pos rfl] at h
    split at h
    · next hallowed =>
        cases h
        exact .beginArray hs hallowed
    · cases h
  rw [if_neg hb] at h
  by_cases hb : b = 0x5d
  · subst hb
    rw [if_pos rfl] at h
    split at h
    · next hstate =>
        obtain ⟨rfl, outer, stack, hstack, rfl⟩ := close_ok h
        exact .endArray hs hstate hstack
    · cases h
  rw [if_neg hb] at h
  by_cases hb : b = 0x7b
  · subst hb
    rw [if_pos rfl] at h
    split at h
    · next hallowed =>
        cases h
        exact .beginObject hs hallowed
    · cases h
  rw [if_neg hb] at h
  by_cases hb : b = 0x7d
  · subst hb
    rw [if_pos rfl] at h
    split at h
    · next hstate =>
        obtain ⟨rfl, outer, stack, hstack, rfl⟩ := close_ok h
        exact .endObject hs hstate hstack
    · cases h
  rw [if_neg hb] at h
  split at h
  · cases h
  split at h
  · next hkey =>
      obtain ⟨rfl, hstate⟩ := hkey
      split at h
      · next key rest hlex =>
          cases h
          exact .key hs hstate hlex
      · cases h
  split at h
  · next hallowed =>
      split at h
      · next v rest hlex =>
          cases h
          exact .scalar hallowed (hs ▸ hlex)
      · cases h
  · cases h

theorem tokenAt_of {token : Token} (h : TokenAt d token d') : d.tokenAt = .ok (token, d') := by
  cases h with
  | beginArray h hallowed | beginObject h hallowed => simp [tokenAt, h, hallowed]
  | endArray h hstate hstack | endObject h hstate hstack => simp [tokenAt, h, hstate, close, hstack]
  | key h hstate hkey => simp [tokenAt, h, hstate, hkey]
  | scalar hallowed hv =>
    obtain ⟨b, t, hs, hb⟩ := lexScalar_head hv
    have hkey : ¬(d.state = .objectStart ∨ d.state = .objectKey) := by
      rintro (hstate | hstate) <;> rw [hstate] at hallowed <;> cases hallowed
    rw [hs] at hv
    simp [tokenAt, hs, hb, hkey, hallowed, hv]

-- ===== the settled decoder

theorem stack_settle (d : Decoder) : d.settle.stack = d.stack := by
  have hsettles := d.settles
  generalize d.settle = e at hsettles ⊢
  cases hsettles <;> rfl

/-- Before any byte but a comma or colon, and in the states that wait for neither, there is
nothing to pass. -/
theorem settle_of_head {b : UInt8} (h : skipSpace d.rest = b :: s) (hcolon : b ≠ 0x3a)
    (hcomma : b ≠ 0x2c) : d.settle = d := by
  simp [settle, h, hcolon, hcomma]

theorem settle_of_start (h : d.state = .topValue ∨ d.state = .arrayStart ∨ d.state = .objectStart) :
    d.settle = d := by
  rw [settle]
  split
  · rfl
  · rcases h with h | h | h <;> simp [h]

/-- A comma or colon leads to no state that a closing bracket may follow. -/
theorem settle_of_end (h : (d.settle.state = .arrayStart ∨ d.settle.state = .arrayComma)
      ∨ d.settle.state = .objectStart ∨ d.settle.state = .objectComma) : d.settle = d := by
  have hsettles := d.settles
  generalize d.settle = e at hsettles h ⊢
  cases hsettles with
  | stays => rfl
  | colon | element | member => simp at h

/-- A decoder between elements or members that has moved on has passed a comma. -/
theorem comma_of_settle (hstate : d.state = .arrayComma ∨ d.state = .objectComma)
    (h : d.settle.state ≠ d.state) : skipSpace d.rest = 0x2c :: d.settle.rest := by
  have hsettles := d.settles
  generalize d.settle = e at hsettles h ⊢
  cases hsettles with
  | stays => exact absurd rfl h
  | colon hcolon =>
    rw [hcolon] at hstate
    simp at hstate
  | element _ hcomma | member _ hcomma => exact hcomma

/-- A decoder that reads a value after a key has passed the colon. -/
theorem colon_of_settle (hstate : d.state = .objectColon)
    (h : d.settle.state.valueAllowed = true) :
    skipSpace d.rest = 0x3a :: d.settle.rest ∧ d.settle.state = .objectValue := by
  have hsettles := d.settles
  generalize d.settle = e at hsettles h ⊢
  cases hsettles with
  | stays =>
    rw [hstate] at h
    cases h
  | colon _ hcolon => exact ⟨hcolon, rfl⟩
  | element hs =>
    rw [hstate] at hs
    cases hs
  | member => cases h

/-- A decoder that waits for a value reads no key. -/
theorem not_key (hstate : d.state.valueAllowed = true ∨ d.state = .arrayComma
      ∨ d.state = .objectColon) :
    ¬(d.settle.state = .objectStart ∨ d.settle.state = .objectKey) := by
  have hsettles := d.settles
  generalize d.settle = e at hsettles
  cases hsettles with
  | stays => rintro (h | h) <;> simp [h, TokenState.valueAllowed] at hstate
  | colon | element => simp
  | member hmember => simp [hmember, TokenState.valueAllowed] at hstate

/-- There is more where the settled decoder is before neither closing bracket. -/
theorem more_of_settle {b : UInt8} (h : skipSpace d.settle.rest = b :: s) (hb : b ≠ 0x5d)
    (hb' : b ≠ 0x7d) : d.more = true := by
  have hsettles := d.settles
  generalize d.settle = e at hsettles h
  cases hsettles with
  | stays => simp [more, h, hb, hb']
  | colon _ hcolon => simp [more, hcolon]
  | element _ hcomma | member _ hcomma => simp [more, hcomma]

-- ===== what is read

/-- A value fits below `depth` containers. -/
def Within (rules : Rules) (depth : Nat) (v : Json) : Prop :=
  ∀ n ∈ rules.limit, depth + v.depth ≤ n

/-- A value repeats no key where that is refused. -/
def Unique (rules : Rules) (v : Json) : Prop :=
  rules.unique = true → v.distinct = true

/-- Members repeat no key, also none of those seen, where that is
refused. -/
def UniqueKeys (rules : Rules) (seen : List String) (ms : List (String × Json)) : Prop :=
  rules.unique = true → (ms.map Prod.fst).Nodup ∧ ∀ m ∈ ms, m.1 ∉ seen

/-- A container fits when there is room for it and its children fit below. -/
theorem within_container {v : Json} {inner : Nat} {ι : Type} {p : ι → Prop} {child : ι → Json}
    (hv : v.depth = 1 + inner) (hinner : ∀ n, inner ≤ n ↔ ∀ i, p i → (child i).depth ≤ n) :
    Within rules depth v ↔ rules.limit.any (· ≤ depth) = false
      ∧ ∀ i, p i → Within rules (depth + 1) (child i) := by
  unfold Within
  cases rules.limit with
  | none => simp
  | some n =>
    simp only [Option.mem_some_iff, forall_eq', Option.any_some, decide_eq_false_iff_not]
    constructor
    · intro h
      refine ⟨by omega, fun i hi => ?_⟩
      have := (hinner inner).mp le_rfl i hi
      omega
    · rintro ⟨hroom, h⟩
      have : inner ≤ n - (depth + 1) := (hinner _).mpr fun i hi => by
        have := h i hi
        omega
      omega

theorem within_array : Within rules depth (.array vs) ↔ rules.limit.any (· ≤ depth) = false
    ∧ ∀ v ∈ vs, Within rules (depth + 1) v :=
  within_container rfl fun _ => depthOfItems_le

theorem within_object : Within rules depth (.object ms) ↔ rules.limit.any (· ≤ depth) = false
    ∧ ∀ m ∈ ms, Within rules (depth + 1) m.2 :=
  within_container rfl fun _ => depthOfMembers_le

/-- What reading a value accepts. -/
def TreeReads (rules : Rules) (depth : Nat) (d : Decoder) (v : Json) (d' : Decoder) : Prop :=
  d.settle.state.valueAllowed = true ∧ Reads (skipSpace d.settle.rest) (.value v) d'.rest
    ∧ d' = ⟨d'.rest, d.settle.state.valueEnd, d.stack⟩
    ∧ Unique rules v ∧ Within rules depth v

/-- What reading elements accepts: none, or some from where they start. -/
def ElementsRead (rules : Rules) (depth : Nat) (d : Decoder)
    (vs : List Json) (d' : Decoder) : Prop :=
  (∃ outer stack, d.stack = outer :: stack ∧ d' = ⟨d'.rest, outer.valueEnd, stack⟩)
    ∧ ((vs = [] ∧ skipSpace d.rest = 0x5d :: d'.rest)
      ∨ d.settle.state.valueAllowed = true ∧ Reads d.settle.rest (.elements vs) d'.rest)
    ∧ ∀ v ∈ vs, Unique rules v ∧ Within rules (depth + 1) v

/-- What reading members accepts after members with the keys `seen`. -/
def MembersRead (rules : Rules) (depth : Nat) (seen : List String)
    (d : Decoder) (ms : List (String × Json)) (d' : Decoder) : Prop :=
  (∃ outer stack, d.stack = outer :: stack ∧ d' = ⟨d'.rest, outer.valueEnd, stack⟩)
    ∧ ((ms = [] ∧ skipSpace d.rest = 0x7d :: d'.rest)
      ∨ (d.settle.state = .objectStart ∨ d.settle.state = .objectKey)
        ∧ Reads d.settle.rest (.members ms) d'.rest)
    ∧ UniqueKeys rules seen ms
    ∧ ∀ m ∈ ms, Unique rules m.2 ∧ Within rules (depth + 1) m.2

/-- What is read with a given number of steps follows the grammar. -/
structure Sound (rules : Rules) (fuel : Nat) : Prop where
  tree : ∀ {depth d v d'}, (d.state.valueAllowed = true ∨ d.state = .arrayComma
      ∨ d.state = .objectColon) →
    (∀ n ∈ rules.limit, depth ≤ n) → tree rules fuel depth d = .ok (v, d') →
    TreeReads rules depth d v d'
  elements : ∀ {depth d vs d'}, (d.state = .arrayStart ∨ d.state = .arrayComma) →
    rules.limit.any (· ≤ depth) = false →
    elements rules fuel depth d = .ok (vs, d') →
    ElementsRead rules depth d vs d'
  members : ∀ {depth seen d ms d'}, (d.state = .objectStart ∨ d.state = .objectComma) →
    rules.limit.any (· ≤ depth) = false →
    members rules fuel depth seen d = .ok (ms, d') →
    MembersRead rules depth seen d ms d'

theorem succ_le_of_any (h : rules.limit.any (· ≤ depth) = false) :
    ∀ n ∈ rules.limit, depth + 1 ≤ n := by
  intro n hn
  rw [Option.mem_def.mp hn, Option.any_some, decide_eq_false_iff_not] at h
  omega

theorem tree_sound (ih : Sound rules fuel)
    (hstate : d.state.valueAllowed = true ∨ d.state = .arrayComma
      ∨ d.state = .objectColon) (hdepth : ∀ n ∈ rules.limit, depth ≤ n)
    (h : tree rules (fuel + 1) depth d = .ok (v, d')) :
    TreeReads rules depth d v d' := by
  rw [Decoder.tree] at h
  cases htoken : d.token with
  | error e =>
    rw [htoken] at h
    cases h
  | ok r =>
    obtain ⟨token, d₁⟩ := r
    rw [htoken] at h
    rw [token_eq_tokenAt] at htoken
    cases tokenAt_cases htoken with
    | key _ hkey => exact absurd hkey (not_key hstate)
    | scalar hallowed hv =>
      cases h
      obtain ⟨hread, hflat, hdistinct⟩ := lexScalar_ok hv
      refine ⟨hallowed, hread, by rw [stack_settle], fun _ => hdistinct, fun n hn => ?_⟩
      rw [hflat]
      exact hdepth n hn
    | endArray | endObject => dsimp only at h; split at h <;> cases h
    | beginArray hs hallowed =>
      dsimp only at h
      split at h
      · cases h
      next hdeep =>
      have hdeep : rules.limit.any (· ≤ depth) = false := by
        simpa using hdeep
      obtain ⟨⟨vs, last⟩, hvs, heq⟩ := map_ok h
      cases heq
      obtain ⟨⟨outer, stack, hstack, hlast⟩, hread, hall⟩ := ih.elements (.inl rfl) hdeep hvs
      cases hstack
      refine ⟨hallowed, ?_, by rw [← stack_settle]; exact hlast,
        fun hu => distinct_array.mpr fun v hv => (hall v hv).1 hu,
        within_array.mpr ⟨hdeep, fun v hv => (hall v hv).2⟩⟩
      rw [hs]
      rcases hread with ⟨rfl, hend⟩ | ⟨-, hread⟩
      · exact .emptyArray hend
      · rw [settle_of_start (.inr (.inl rfl))] at hread
        exact .array hread
    | beginObject hs hallowed =>
      dsimp only at h
      split at h
      · cases h
      next hdeep =>
      have hdeep : rules.limit.any (· ≤ depth) = false := by
        simpa using hdeep
      obtain ⟨⟨ms, last⟩, hms, heq⟩ := map_ok h
      cases heq
      obtain ⟨⟨outer, stack, hstack, hlast⟩, hread, hkeys, hall⟩ := ih.members (.inl rfl) hdeep hms
      cases hstack
      refine ⟨hallowed, ?_, by rw [← stack_settle]; exact hlast, fun hu => distinct_object.mpr
          ⟨(hkeys hu).1, fun m hm => (hall m hm).1 hu⟩,
        within_object.mpr ⟨hdeep, fun m hm => (hall m hm).2⟩⟩
      rw [hs]
      rcases hread with ⟨rfl, hend⟩ | ⟨-, hread⟩
      · exact .emptyObject hend
      · rw [settle_of_start (.inr (.inr rfl))] at hread
        exact .object hread

theorem elements_sound (ih : Sound rules fuel)
    (hstate : d.state = .arrayStart ∨ d.state = .arrayComma)
    (hdeep : rules.limit.any (· ≤ depth) = false)
    (h : elements rules (fuel + 1) depth d = .ok (vs, d')) :
    ElementsRead rules depth d vs d' := by
  rw [Decoder.elements] at h
  cases hmore : d.more with
  | false =>
    rw [hmore] at h
    cases htoken : d.token with
    | error e =>
      rw [htoken] at h
      cases h
    | ok r =>
      obtain ⟨token, d₁⟩ := r
      rw [htoken] at h
      cases token <;> cases h
      rw [token_eq_tokenAt] at htoken
      cases tokenAt_cases htoken with
      | endArray hend hs hstack =>
        rw [settle_of_end (.inl hs)] at hend hstack
        exact ⟨⟨_, _, hstack, rfl⟩, .inl ⟨rfl, hend⟩, nofun⟩
  | true =>
    rw [hmore, if_pos rfl] at h
    split at h
    · cases h
    next v d₁ htree =>
    obtain ⟨⟨rest, last⟩, hrest, heq⟩ := map_ok h
    cases heq
    have hwait : d.state.valueAllowed = true ∨ d.state = .arrayComma ∨ d.state = .objectColon := by
      rcases hstate with hs | hs
      · exact .inl (by rw [hs]; rfl)
      · exact .inr (.inl hs)
    obtain ⟨hallowed, hread, hd₁, hdistinct, hwithin⟩ := ih.tree hwait (succ_le_of_any hdeep) htree
    -- whichever way the value was come to, a comma comes next
    have hnext : d₁.state = .arrayComma := by
      rw [hd₁]
      have hsettles := d.settles
      generalize d.settle = e at hsettles hallowed
      cases hsettles with
      | stays =>
        rcases hstate with hs | hs <;> rw [hs] at hallowed ⊢
        · rfl
        · cases hallowed
      | colon hs => rcases hstate with h | h <;> rw [h] at hs <;> cases hs
      | element => rfl
      | member => cases hallowed
    obtain ⟨⟨outer, stack, hstack, hlast⟩, hreads, hall⟩ := ih.elements (.inr hnext) hdeep hrest
    rw [hd₁] at hstack
    refine ⟨⟨outer, stack, hstack, hlast⟩, .inr ⟨hallowed, ?_⟩, List.forall_mem_cons.mpr
      ⟨⟨hdistinct, hwithin⟩, hall⟩⟩
    rcases hreads with ⟨rfl, hend⟩ | ⟨hallowed', hreads⟩
    · exact .lastElement hread hend
    · refine .nextElement hread (comma_of_settle (.inl hnext) ?_) hreads
      intro heq
      rw [heq, hnext] at hallowed'
      cases hallowed'

theorem members_sound (ih : Sound rules fuel)
    (hstate : d.state = .objectStart ∨ d.state = .objectComma)
    (hdeep : rules.limit.any (· ≤ depth) = false)
    (h : members rules (fuel + 1) depth seen d = .ok (ms, d')) :
    MembersRead rules depth seen d ms d' := by
  rw [Decoder.members] at h
  cases hmore : d.more with
  | false =>
    rw [hmore] at h
    cases htoken : d.token with
    | error e =>
      rw [htoken] at h
      cases h
    | ok r =>
      obtain ⟨token, d₁⟩ := r
      rw [htoken] at h
      cases token <;> cases h
      rw [token_eq_tokenAt] at htoken
      cases tokenAt_cases htoken with
      | endObject hend hs hstack =>
        rw [settle_of_end (.inr hs)] at hend hstack
        exact ⟨⟨_, _, hstack, rfl⟩, .inl ⟨rfl, hend⟩,
          fun _ => ⟨List.nodup_nil, nofun⟩, nofun⟩
  | true =>
    rw [hmore, if_pos rfl] at h
    split at h
    · cases h
    · next key d₁ htoken =>
        split at h
        · cases h
        next hseen =>
        split at h
        · cases h
        next v d₂ htree =>
        obtain ⟨⟨rest, last⟩, hrest, heq⟩ := map_ok h
        cases heq
        rw [token_eq_tokenAt] at htoken
        cases tokenAt_cases htoken with
        | scalar hallowed =>
          have hsettles := d.settles
          generalize d.settle = e at hsettles hallowed
          cases hsettles <;> rcases hstate with hs | hs <;> simp_all [TokenState.valueAllowed]
        | key hquote hat hkey =>
          obtain ⟨hallowed, hread, hd₂, hdistinct, hwithin⟩ :=
            ih.tree (.inr (.inr rfl)) (succ_le_of_any hdeep) htree
          obtain ⟨hcolon, hvalue⟩ := colon_of_settle rfl hallowed
          have hnext : d₂.state = .objectComma := by
            rw [hd₂, hvalue]
            rfl
          obtain ⟨⟨outer, stack, hstack, hlast⟩, hreads, hkeys, hall⟩ :=
            ih.members (.inr hnext) hdeep hrest
          rw [hd₂] at hstack
          refine ⟨⟨outer, stack, by rw [← stack_settle]; exact hstack, hlast⟩, .inr ⟨hat, ?_⟩,
            fun hu => ?_, List.forall_mem_cons.mpr ⟨⟨hdistinct, hwithin⟩, hall⟩⟩
          · rcases hreads with ⟨rfl, hend⟩ | ⟨hat', hreads⟩
            · exact .lastMember hquote hkey hcolon hread hend
            · refine .nextMember hquote hkey hcolon hread (comma_of_settle (.inr hnext) ?_) hreads
              intro heq
              rw [heq, hnext] at hat'
              simp at hat'
          · obtain ⟨hnodup, hfresh⟩ := hkeys hu
            rw [List.map_cons, List.nodup_cons]
            refine ⟨⟨fun hmem => ?_, hnodup⟩, List.forall_mem_cons.mpr
              ⟨fun hc => hseen ⟨hu, hc⟩,
                fun m hm hc => hfresh m hm (List.mem_cons_of_mem _ hc)⟩⟩
            obtain ⟨m, hm, hkey⟩ := List.mem_map.mp hmem
            exact hfresh m hm (hkey ▸ List.mem_cons_self)
    · cases h

theorem sound (rules : Rules) (fuel : Nat) : Sound rules fuel := by
  induction fuel with
  | zero =>
    exact ⟨fun _ _ h => (by cases h), fun _ _ h => (by cases h), fun _ _ h => (by cases h)⟩
  | succ fuel ih => exact ⟨tree_sound ih, elements_sound ih, members_sound ih⟩

/-- A value read from the start of a text follows the grammar and keeps the
rules. -/
theorem tree_reads {data : Bytes} {v : Json} {d : Decoder}
    (h : tree rules fuel 0 (newDecoder data) = .ok (v, d)) :
    Reads (skipSpace data) (.value v) d.rest ∧ d.state = .topValue
      ∧ d.stack = [] ∧ Unique rules v ∧ ∀ n ∈ rules.limit, v.depth ≤ n := by
  obtain ⟨-, hread, hd, hdistinct, hwithin⟩ :=
    (sound rules fuel).tree (.inl rfl) (fun _ _ => Nat.zero_le _) h
  rw [settle_of_start (.inl rfl)] at hread hd
  refine ⟨hread, by rw [hd]; rfl, by rw [hd]; rfl, hdistinct, fun n hn => ?_⟩
  have := hwithin n hn
  omega

-- ===== everything is read

/-- A part of the grammar is read from where it starts, with enough
steps. -/
def PartRead (rules : Rules) (s : Bytes) (part : Part) (rest : Bytes) :
    Prop :=
  match part with
  | .value v => ∀ {d fuel depth}, skipSpace d.settle.rest = s →
      d.settle.state.valueAllowed = true → 2 * s.length < fuel →
      Unique rules v → Within rules depth v →
      tree rules fuel depth d = .ok (v, ⟨rest, d.settle.state.valueEnd, d.stack⟩)
  | .elements vs => ∀ {d outer stack fuel depth}, d.settle.rest = s →
      d.settle.state = .arrayStart ∨ d.settle.state = .arrayValue →
      d.stack = outer :: stack → 2 * s.length + 1 < fuel →
      (∀ v ∈ vs, Unique rules v ∧ Within rules (depth + 1) v) →
      elements rules fuel depth d = .ok (vs, ⟨rest, outer.valueEnd, stack⟩)
  | .members ms => ∀ {d outer stack fuel depth seen}, d.settle.rest = s →
      d.settle.state = .objectStart ∨ d.settle.state = .objectKey →
      d.stack = outer :: stack → 2 * s.length + 1 < fuel →
      UniqueKeys rules seen ms →
      (∀ m ∈ ms, Unique rules m.2 ∧ Within rules (depth + 1) m.2) →
      members rules fuel depth seen d = .ok (ms, ⟨rest, outer.valueEnd, stack⟩)

theorem fuel_succ {n : Nat} (h : n < fuel) : ∃ k, fuel = k + 1 := ⟨fuel - 1, by omega⟩

theorem tree_scalar (hv : lexScalar s = some (v, rest)) : PartRead rules s (.value v) rest := by
  intro d fuel depth hs hallowed hfuel _ _
  obtain ⟨k, rfl⟩ := fuel_succ hfuel
  rw [Decoder.tree, token_eq_tokenAt, tokenAt_of (.scalar hallowed (hs ▸ hv)), stack_settle]

theorem tree_array
    (h : ∀ {outer stack fuel depth}, 2 * s.length + 1 < fuel →
      (∀ v ∈ vs, Unique rules v ∧ Within rules (depth + 1) v) →
      elements rules fuel depth ⟨s, .arrayStart, outer :: stack⟩
        = .ok (vs, ⟨rest, outer.valueEnd, stack⟩)) :
    PartRead rules (0x5b :: s) (.value (.array vs)) rest := by
  intro d fuel depth hs hallowed hfuel hdistinct hwithin
  obtain ⟨k, rfl⟩ := fuel_succ hfuel
  obtain ⟨hdeep, hitems⟩ := within_array.mp hwithin
  rw [List.length_cons] at hfuel
  rw [Decoder.tree, token_eq_tokenAt, tokenAt_of (.beginArray hs hallowed), stack_settle]
  dsimp only
  rw [hdeep, if_neg (by decide), h (by omega)
    (fun v hv => ⟨fun hu => distinct_array.mp (hdistinct hu) v hv, hitems v hv⟩)]
  rfl

theorem tree_object
    (h : ∀ {outer stack fuel depth}, 2 * s.length + 1 < fuel → UniqueKeys rules [] ms →
      (∀ m ∈ ms, Unique rules m.2 ∧ Within rules (depth + 1) m.2) →
      members rules fuel depth [] ⟨s, .objectStart, outer :: stack⟩
        = .ok (ms, ⟨rest, outer.valueEnd, stack⟩)) :
    PartRead rules (0x7b :: s) (.value (.object ms)) rest := by
  intro d fuel depth hs hallowed hfuel hdistinct hwithin
  obtain ⟨k, rfl⟩ := fuel_succ hfuel
  obtain ⟨hdeep, hitems⟩ := within_object.mp hwithin
  rw [List.length_cons] at hfuel
  rw [Decoder.tree, token_eq_tokenAt, tokenAt_of (.beginObject hs hallowed), stack_settle]
  dsimp only
  rw [hdeep, if_neg (by decide), h (by omega)
    (fun hu => ⟨(distinct_object.mp (hdistinct hu)).1, fun _ _ => List.not_mem_nil⟩)
    (fun m hm => ⟨fun hu => (distinct_object.mp (hdistinct hu)).2 m hm, hitems m hm⟩)]
  rfl

/-- No further element: the closing bracket. -/
theorem elements_end (hstate : d.state = .arrayStart ∨ d.state = .arrayComma)
    (hend : skipSpace d.rest = 0x5d :: rest) (hstack : d.stack = outer :: stack)
    (hfuel : 0 < fuel) :
    elements rules fuel depth d = .ok ([], ⟨rest, outer.valueEnd, stack⟩) := by
  obtain ⟨k, rfl⟩ := fuel_succ hfuel
  have hmore : d.more = false := by
    rw [Decoder.more, hend]
    rfl
  rw [Decoder.elements, hmore, if_neg (by decide), token_eq_tokenAt,
    settle_of_head hend (by decide) (by decide), tokenAt_of (.endArray hend hstate hstack)]

theorem members_end (hstate : d.state = .objectStart ∨ d.state = .objectComma)
    (hend : skipSpace d.rest = 0x7d :: rest) (hstack : d.stack = outer :: stack)
    (hfuel : 0 < fuel) :
    members rules fuel depth seen d = .ok ([], ⟨rest, outer.valueEnd, stack⟩) := by
  obtain ⟨k, rfl⟩ := fuel_succ hfuel
  have hmore : d.more = false := by
    rw [Decoder.more, hend]
    rfl
  rw [Decoder.members, hmore, if_neg (by decide), token_eq_tokenAt,
    settle_of_head hend (by decide) (by decide), tokenAt_of (.endObject hend hstate hstack)]

/-- One element, and what is read after it. -/
theorem elements_step {s' : Bytes} {last : Decoder} (hs : d.settle.rest = s)
    (hstate : d.settle.state = .arrayStart ∨ d.settle.state = .arrayValue)
    (hread : Reads (skipSpace s) (.value v) s')
    (hv : PartRead rules (skipSpace s) (.value v) s') (hfuel : 2 * s.length + 1 < fuel + 1)
    (hok : Unique rules v ∧ Within rules (depth + 1) v)
    (hrest : elements rules fuel depth ⟨s', .arrayComma, d.stack⟩ = .ok (vs, last)) :
    elements rules (fuel + 1) depth d = .ok (v :: vs, last) := by
  subst hs
  have hspace := length_skipSpace d.settle.rest
  obtain ⟨hallowed, hnext⟩ : d.settle.state.valueAllowed = true
      ∧ d.settle.state.valueEnd = .arrayComma := by
    rcases hstate with h | h <;> rw [h] <;> exact ⟨rfl, rfl⟩
  obtain ⟨b, t, ht, hb⟩ := hread.head
  have hmore : d.more = true := by
    refine more_of_settle ht ?_ ?_ <;> rintro rfl <;> exact absurd hb (by decide)
  rw [Decoder.elements, hmore, if_pos rfl, hv rfl hallowed (by omega) hok.1 hok.2, hnext]
  dsimp only
  rw [hrest]
  rfl

theorem members_step {k s' t s'' : Bytes} {last : Decoder} (hs : d.settle.rest = s)
    (hstate : d.settle.state = .objectStart ∨ d.settle.state = .objectKey)
    (hquote : skipSpace s = 0x22 :: k) (hkey : lexString k = some (key, s'))
    (hcolon : skipSpace s' = 0x3a :: t) (hv : PartRead rules (skipSpace t) (.value v) s'')
    (hfuel : 2 * s.length + 1 < fuel + 1)
    (hok : Unique rules v ∧ Within rules (depth + 1) v)
    (hseen : rules.unique = true → key ∉ seen)
    (hrest : members rules fuel depth (key :: seen) ⟨s'', .objectComma, d.stack⟩ = .ok (ms, last)) :
    members rules (fuel + 1) depth seen d = .ok ((key, v) :: ms, last) := by
  subst hs
  have := length_of_skipSpace hquote
  have := lexString_length hkey
  have := length_of_skipSpace hcolon
  have := length_skipSpace t
  have hsettle : settle ⟨s', .objectColon, d.stack⟩ = ⟨t, .objectValue, d.stack⟩ := by
    simp [settle, hcolon]
  have hvalue := @hv ⟨s', .objectColon, d.stack⟩ fuel (depth + 1) (by rw [hsettle])
    (by rw [hsettle]; rfl) (by omega) hok.1 hok.2
  rw [hsettle] at hvalue
  rw [Decoder.members, more_of_settle hquote (by decide) (by decide), if_pos rfl,
    token_eq_tokenAt, tokenAt_of (.key hquote hstate hkey), stack_settle]
  dsimp only
  rw [if_neg fun hc => hseen hc.1 hc.2, hvalue]
  dsimp only [TokenState.valueEnd]
  rw [hrest]
  rfl

theorem reads_partRead {part : Part} (h : Reads s part rest) : PartRead rules s part rest := by
  induction h with
  | nullWord | trueWord | falseWord => exact tree_scalar rfl
  | number h => exact tree_scalar (lexScalar_number h)
  | string h =>
    refine tree_scalar ?_
    show (lexString _).map _ = _
    rw [h]
    rfl
  | emptyArray h =>
    refine tree_array fun hfuel _ => ?_
    exact elements_end (.inl rfl) h rfl (by omega)
  | @array s _ _ _ ih =>
    refine tree_array fun {outer stack _ _} hfuel hok => ?_
    have hsettle := settle_of_start (d := ⟨s, .arrayStart, outer :: stack⟩) (.inr (.inl rfl))
    exact ih (by rw [hsettle]) (.inl (by rw [hsettle])) rfl hfuel hok
  | emptyObject h =>
    refine tree_object fun hfuel _ _ => ?_
    exact members_end (.inl rfl) h rfl (by omega)
  | @object s _ _ _ ih =>
    refine tree_object fun {outer stack _ _} hfuel hkeys hok => ?_
    have hsettle := settle_of_start (d := ⟨s, .objectStart, outer :: stack⟩) (.inr (.inr rfl))
    exact ih (by rw [hsettle]) (.inl (by rw [hsettle])) rfl hfuel hkeys hok
  | @lastElement s s' rest v hv hend ih =>
    intro d outer stack fuel depth hs hstate hstack hfuel hok
    obtain ⟨k, rfl⟩ := fuel_succ hfuel
    refine elements_step hs hstate hv ih hfuel (hok v List.mem_cons_self) ?_
    exact elements_end (.inr rfl) hend hstack (by omega)
  | @nextElement s s' t rest v vs hv hcomma hvs ih ih' =>
    intro d outer stack fuel depth hs hstate hstack hfuel hok
    obtain ⟨k, rfl⟩ := fuel_succ hfuel
    have := hv.length
    have := length_skipSpace s
    have := length_of_skipSpace hcomma
    have hsettle : settle ⟨s', .arrayComma, d.stack⟩ = ⟨t, .arrayValue, d.stack⟩ := by
      simp [settle, hcomma]
    refine elements_step hs hstate hv ih hfuel (hok v List.mem_cons_self) ?_
    exact ih' (by rw [hsettle]) (.inr (by rw [hsettle])) hstack (by omega)
      fun w hw => hok w (List.mem_cons_of_mem _ hw)
  | @lastMember s k s' t s'' rest key v hquote hkey hcolon hv hend ih =>
    intro d outer stack fuel depth seen hs hstate hstack hfuel hkeys hok
    obtain ⟨n, rfl⟩ := fuel_succ hfuel
    refine members_step hs hstate hquote hkey hcolon ih hfuel (hok _ List.mem_cons_self)
      (fun hu => (hkeys hu).2 _ List.mem_cons_self) ?_
    exact members_end (.inr rfl) hend hstack (by omega)
  | @nextMember s k s' t s'' u rest key v ms hquote hkey hcolon hv hcomma hms ih ih' =>
    intro d outer stack fuel depth seen hs hstate hstack hfuel hkeys hok
    obtain ⟨n, rfl⟩ := fuel_succ hfuel
    have := length_of_skipSpace hquote
    have := lexString_length hkey
    have := length_of_skipSpace hcolon
    have := length_skipSpace t
    have := hv.length
    have := length_of_skipSpace hcomma
    have hsettle : settle ⟨s'', .objectComma, d.stack⟩ = ⟨u, .objectKey, d.stack⟩ := by
      simp [settle, hcomma]
    refine members_step hs hstate hquote hkey hcolon ih hfuel (hok _ List.mem_cons_self)
      (fun hu => (hkeys hu).2 _ List.mem_cons_self) ?_
    refine ih' (by rw [hsettle]) (.inr (by rw [hsettle])) hstack (by omega) (fun hu => ?_)
      fun m hm => hok m (List.mem_cons_of_mem _ hm)
    obtain ⟨hnodup, hfresh⟩ := hkeys hu
    rw [List.map_cons, List.nodup_cons] at hnodup
    refine ⟨hnodup.2, fun m hm hseen => ?_⟩
    rcases List.mem_cons.mp hseen with heq | hseen
    · exact hnodup.1 (List.mem_map.mpr ⟨m, hm, heq⟩)
    · exact hfresh m (List.mem_cons_of_mem _ hm) hseen

/-- Every value of the grammar that keeps the rules is read from the start of a text. -/
theorem tree_of_reads {data rest : Bytes} {v : Json} (h : Reads (skipSpace data) (.value v) rest)
    (hfuel : 2 * data.length < fuel) (hdistinct : Unique rules v)
    (hlimit : ∀ n ∈ rules.limit, v.depth ≤ n) :
    tree rules fuel 0 (newDecoder data) = .ok (v, newDecoder rest) := by
  have hlength := length_skipSpace data
  have hwithin : Within rules 0 v := by
    intro n hn
    rw [Nat.zero_add]
    exact hlimit n hn
  have hsettle : (newDecoder data).settle = newDecoder data := settle_of_start (.inl rfl)
  have hread : PartRead rules (skipSpace data) (.value v) rest := reads_partRead h
  rw [hread (by rw [hsettle]; rfl) (by rw [hsettle]; rfl) (by omega) hdistinct hwithin, hsettle]
  rfl

end Decoder

end LlmTemporalWorker.Lib.Json
