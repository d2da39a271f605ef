/-
The grammar of JSON text.

`Reads s part rest` says that the bytes `s` begin with the text of a
part and go on with `rest`. A part is a value, the elements of an array
after the opening bracket or a comma, or the members of an object in the
same position; elements and members end with their closing bracket. A
document is one value with space around it.
-/
import LlmTemporalWorker.Lib.Json.Value

namespace LlmTemporalWorker.Lib.Json

/-- What a stretch of JSON text says. -/
inductive Part where
  | value (v : Json)
  | elements (vs : List Json)
  | members (ms : List (String × Json))

inductive Reads : Bytes → Part → Bytes → Prop where
  | nullWord (rest : Bytes) : Reads (0x6e :: 0x75 :: 0x6c :: 0x6c :: rest) (.value .null) rest
  | trueWord (rest : Bytes) :
      Reads (0x74 :: 0x72 :: 0x75 :: 0x65 :: rest) (.value (.bool true)) rest
  | falseWord (rest : Bytes) : Reads (0x66 :: 0x61 :: 0x6c :: 0x73 :: 0x65 :: rest)
        (.value (.bool false)) rest
  | number {s rest : Bytes} {literal : Number} (h : readNumber s = some (literal, rest)) :
      Reads s (.value (.number literal)) rest
  | string {s rest : Bytes} {text : String} (h : lexString s = some (text, rest)) :
      Reads (0x22 :: s) (.value (.string text)) rest
  | emptyArray {s rest : Bytes} (h : skipSpace s = 0x5d :: rest) :
      Reads (0x5b :: s) (.value (.array [])) rest
  | array {s rest : Bytes} {vs : List Json} (h : Reads s (.elements vs) rest) :
      Reads (0x5b :: s) (.value (.array vs)) rest
  | emptyObject {s rest : Bytes} (h : skipSpace s = 0x7d :: rest) :
      Reads (0x7b :: s) (.value (.object [])) rest
  | object {s rest : Bytes} {ms : List (String × Json)} (h : Reads s (.members ms) rest) :
      Reads (0x7b :: s) (.value (.object ms)) rest
  | lastElement {s s' rest : Bytes} {v : Json} (hv : Reads (skipSpace s) (.value v) s')
      (hend : skipSpace s' = 0x5d :: rest) :
      Reads s (.elements [v]) rest
  | nextElement {s s' t rest : Bytes} {v : Json} {vs : List Json}
      (hv : Reads (skipSpace s) (.value v) s')
      (hcomma : skipSpace s' = 0x2c :: t)
      (hvs : Reads t (.elements vs) rest) :
      Reads s (.elements (v :: vs)) rest
  | lastMember {s k s' t s'' rest : Bytes} {key : String} {v : Json}
      (hquote : skipSpace s = 0x22 :: k)
      (hkey : lexString k = some (key, s'))
      (hcolon : skipSpace s' = 0x3a :: t)
      (hv : Reads (skipSpace t) (.value v) s'')
      (hend : skipSpace s'' = 0x7d :: rest) :
      Reads s (.members [(key, v)]) rest
  | nextMember {s k s' t s'' u rest : Bytes} {key : String} {v : Json}
      {ms : List (String × Json)}
      (hquote : skipSpace s = 0x22 :: k)
      (hkey : lexString k = some (key, s'))
      (hcolon : skipSpace s' = 0x3a :: t)
      (hv : Reads (skipSpace t) (.value v) s'')
      (hcomma : skipSpace s'' = 0x2c :: u)
      (hms : Reads u (.members ms) rest) :
      Reads s (.members ((key, v) :: ms)) rest

/-- A whole text that is one value. -/
def Document (data : Bytes) (v : Json) : Prop :=
  ∃ rest, Reads (skipSpace data) (.value v) rest ∧ skipSpace rest = []

-- ===== first bytes

/-- A byte that a value starts with. -/
def startsValue (b : UInt8) : Bool :=
  b == 0x6e || b == 0x74 || b == 0x66 || b == 0x22 || b == 0x5b || b == 0x7b
    || b == 0x2d || isDigit b

variable {s rest : Bytes}

theorem readNumber_head {literal : Number} (h : readNumber s = some (literal, rest)) :
    ∃ b t, s = b :: t ∧ (b = 0x2d ∨ isDigit b = true) := by
  rw [readNumber_eq_some] at h
  cases s with
  | nil => cases h
  | cons b t =>
    refine ⟨b, t, rfl, ?_⟩
    by_contra hb
    simp only [not_or, Bool.not_eq_true] at hb
    have hzero : b ≠ 0x30 := by
      rintro rfl
      cases hb.2
    rw [lexNumber, show NumberState.start.next b = none by
      simp [NumberState.next, hb.1, hb.2, hzero]] at h
    cases h

theorem Reads.head {v : Json} (h : Reads s (.value v) rest) :
    ∃ b t, s = b :: t ∧ startsValue b = true := by
  cases h with
  | nullWord => exact ⟨_, _, rfl, rfl⟩
  | trueWord => exact ⟨_, _, rfl, rfl⟩
  | falseWord => exact ⟨_, _, rfl, rfl⟩
  | string => exact ⟨_, _, rfl, rfl⟩
  | emptyArray => exact ⟨_, _, rfl, rfl⟩
  | array => exact ⟨_, _, rfl, rfl⟩
  | emptyObject => exact ⟨_, _, rfl, rfl⟩
  | object => exact ⟨_, _, rfl, rfl⟩
  | number h =>
    obtain ⟨b, t, rfl, hb⟩ := readNumber_head h
    refine ⟨b, t, rfl, ?_⟩
    rcases hb with rfl | hb
    · rfl
    · simp [startsValue, hb]

-- ===== text lengths

theorem scanBody_length {body : Bytes} (h : scanBody s = some (body, rest)) :
    rest.length < s.length := by
  induction s using scanBody.induct generalizing body with
  | case1 => cases h
  | case2 rest' =>
    cases h
    exact Nat.lt_succ_self _
  | case3 a b c d s hhex ih =>
    rw [scanBody, if_pos hhex] at h
    obtain ⟨r, hr, heq⟩ := Option.map_eq_some_iff.mp h
    cases heq
    have hlt := ih hr
    simp only [List.length_cons]
    omega
  | case4 a b c d s hhex =>
    rw [scanBody, if_neg hhex] at h
    cases h
  | case5 e s hno hsimple ih =>
    rw [scanBody_simple hsimple] at h
    obtain ⟨r, hr, heq⟩ := Option.map_eq_some_iff.mp h
    cases heq
    have hlt := ih hr
    simp only [List.length_cons]
    omega
  | case6 e s hno hsimple =>
    rw [scanBody, if_neg hsimple] at h
    · cases h
    · exact hno
  | case7 b s hquote hunicode hback hplain ih =>
    rw [scanBody_plain hplain] at h
    obtain ⟨r, hr, heq⟩ := Option.map_eq_some_iff.mp h
    cases heq
    have hlt := ih hr
    simp only [List.length_cons]
    omega
  | case8 b s hquote hunicode hback hplain =>
    rw [scanBody, if_neg hplain] at h
    · cases h
    · exact hquote
    · exact hunicode
    · exact hback

theorem lexString_ok {text : String} (h : lexString s = some (text, rest)) :
    ∃ body, scanBody s = some (body, rest) ∧ unescape (runes body) = some text.toList := by
  obtain ⟨r, hr, h⟩ := Option.bind_eq_some_iff.mp h
  obtain ⟨chars, hchars, h⟩ := Option.bind_eq_some_iff.mp h
  cases h
  exact ⟨r.1, hr, by rw [String.toList_ofList]; exact hchars⟩

theorem lexString_length {text : String}
    (h : lexString s = some (text, rest)) : rest.length < s.length := by
  obtain ⟨body, hbody, _⟩ := lexString_ok h
  exact scanBody_length hbody

theorem readNumber_length {literal : Number} (h : readNumber s = some (literal, rest)) :
    rest.length < s.length := by
  have hne := isNumber_ne_nil literal.valid
  rw [(lexNumber_ok (readNumber_eq_some.mp h)).1, List.length_append]
  exact Nat.lt_add_of_pos_left (List.length_pos_of_ne_nil hne)

theorem length_of_skipSpace {t : Bytes} {b : UInt8}
    (h : skipSpace s = b :: t) : t.length < s.length := by
  have hle := length_skipSpace s
  rw [h, List.length_cons] at hle
  exact hle

/-- A part takes some of the text. -/
theorem Reads.length {part : Part} (h : Reads s part rest) : rest.length < s.length := by
  induction h with
  | nullWord | trueWord | falseWord => simp only [List.length_cons]; omega
  | number h => exact readNumber_length h
  | string h => exact Nat.lt_succ_of_lt (lexString_length h)
  | emptyArray h | emptyObject h => exact Nat.lt_succ_of_lt (length_of_skipSpace h)
  | array _ ih | object _ ih => exact Nat.lt_succ_of_lt ih
  | @lastElement s s' rest v hv hend ih =>
    have := length_of_skipSpace hend
    have := length_skipSpace s
    omega
  | @nextElement s s' t rest v vs hv hcomma hvs ih ih' =>
    have := length_of_skipSpace hcomma
    have := length_skipSpace s
    omega
  | @lastMember s k s' t s'' rest key v hquote hkey hcolon hv hend ih =>
    have := length_of_skipSpace hquote
    have := lexString_length hkey
    have := length_of_skipSpace hcolon
    have := length_skipSpace t
    have := length_of_skipSpace hend
    omega
  | @nextMember s k s' t s'' u rest key v ms hquote hkey hcolon hv hcomma hms ih ih' =>
      have := length_of_skipSpace hquote
      have := lexString_length hkey
      have := length_of_skipSpace hcolon
      have := length_skipSpace t
      have := length_of_skipSpace hcomma
      omega

end LlmTemporalWorker.Lib.Json
