/-
The lexical level of JSON text, as `encoding/json` reads and writes it.

Numbers are read by the automaton of the scanner and keep their text.
String literals are read in two passes: the scanner finds the closing
quote and checks the escapes, then the bytes between the quotes are read
as characters and the escapes are replaced. An unreadable byte and half
a surrogate pair read as the replacement character.

Strings are written with the escapes that `json.Marshal` uses, and a
written string reads back as the text it was written from.
-/
import LlmTemporalWorker.Lib.Utf8

namespace LlmTemporalWorker.Lib.Json

-- ===== space

def isSpace (b : UInt8) : Bool :=
  b == 0x20 || b == 0x09 || b == 0x0a || b == 0x0d

def skipSpace : Bytes → Bytes
  | [] => []
  | b :: s => if isSpace b then skipSpace s else b :: s

variable {b : UInt8} {state : NumberState} {s literal rest : Bytes}
  {c : Char}

theorem skipSpace_of_not (h : isSpace b = false) (s : Bytes) : skipSpace (b :: s) = b :: s := by
  rw [skipSpace, h]
  rfl

theorem length_skipSpace (s : Bytes) : (skipSpace s).length ≤ s.length := by
  induction s with
  | nil => exact Nat.le_refl _
  | cons b s ih =>
    rw [skipSpace]
    split
    · exact Nat.le_succ_of_le ih
    · exact Nat.le_refl _

-- ===== numbers

inductive NumberState where
  | start
  | neg
  | zero
  | int
  | dot
  | frac
  | exp
  | expSign
  | expDigits
deriving DecidableEq, Repr

def isDigit (b : UInt8) : Bool := 0x30 ≤ b.toNat && b.toNat ≤ 0x39

namespace NumberState

/-- The state after one more byte; none where the number cannot go on. -/
def next : NumberState → UInt8 → Option NumberState
  | .start, b =>
    if b == 0x2d then some .neg
    else if b == 0x30 then some .zero
    else if isDigit b then some .int
    else none
  | .neg, b =>
    if b == 0x30 then some .zero
    else if isDigit b then some .int
    else none
  | .zero, b =>
    if b == 0x2e then some .dot
    else if b == 0x65 || b == 0x45 then some .exp
    else none
  | .int, b =>
    if isDigit b then some .int
    else if b == 0x2e then some .dot
    else if b == 0x65 || b == 0x45 then some .exp
    else none
  | .dot, b => if isDigit b then some .frac else none
  | .frac, b =>
    if isDigit b then some .frac
    else if b == 0x65 || b == 0x45 then some .exp
    else none
  | .exp, b =>
    if b == 0x2b || b == 0x2d then some .expSign
    else if isDigit b then some .expDigits
    else none
  | .expSign, b => if isDigit b then some .expDigits else none
  | .expDigits, b => if isDigit b then some .expDigits else none

/-- The number may end here. -/
def final : NumberState → Bool
  | .zero => true
  | .int => true
  | .frac => true
  | .expDigits => true
  | _ => false

end NumberState

/-- Reads a number as far as it goes: its text and what follows it. -/
def lexNumber (state : NumberState) : Bytes → Option (Bytes × Bytes)
  | [] => if state.final then some ([], []) else none
  | b :: s =>
    match state.next b with
    | some state' => (lexNumber state' s).map fun r => (b :: r.1, r.2)
    | none => if state.final then some ([], b :: s) else none

/-- The text of a number, and nothing else. -/
def isNumber (literal : Bytes) : Bool :=
  lexNumber .start literal == some (literal, [])

/-- A byte that no number contains. -/
def endsNumber (b : UInt8) : Bool :=
  !(isDigit b || b == 0x2d || b == 0x2b || b == 0x2e || b == 0x65
    || b == 0x45)

theorem next_of_endsNumber (h : endsNumber b = true) (state : NumberState) :
    state.next b = none := by
  simp only [endsNumber, Bool.not_eq_true', Bool.or_eq_false_iff] at h
  obtain ⟨⟨⟨⟨⟨hdigit, hminus⟩, hplus⟩, hdot⟩, he⟩, hE⟩ := h
  have hzero : (b == 0x30) = false := by
    rw [beq_eq_false_iff_ne]
    rintro rfl
    cases hdigit
  cases state <;> simp [NumberState.next, hdigit, hminus, hplus, hdot, he,
    hE, hzero]

/-- What is read as a number is the text of a number, with what follows. -/
theorem lexNumber_ok (h : lexNumber state s = some (literal, rest)) :
    s = literal ++ rest ∧ lexNumber state literal = some (literal, []) := by
  induction s generalizing state literal with
  | nil =>
    rw [lexNumber] at h
    split at h
    · next hfinal =>
        cases h
        exact ⟨rfl, if_pos hfinal⟩
    · cases h
  | cons b s ih =>
    rw [lexNumber] at h
    split at h
    · next state' hnext =>
        obtain ⟨r, hr, heq⟩ := Option.map_eq_some_iff.mp h
        cases heq
        obtain ⟨hsplit, hread⟩ := ih hr
        refine ⟨by rw [List.cons_append, ← hsplit], ?_⟩
        rw [lexNumber, hnext]
        show (lexNumber state' r.1).map _ = _
        rw [hread]
        rfl
    · split at h
      · next hfinal =>
          cases h
          exact ⟨rfl, if_pos hfinal⟩
      · cases h

/-- A number read to the end of its text is read the same way before
anything that cannot go on with it. -/
theorem lexNumber_append (h : lexNumber state literal = some (literal, []))
    (hrest : ∀ b s, rest = b :: s → endsNumber b = true) :
    lexNumber state (literal ++ rest) = some (literal, rest) := by
  induction literal generalizing state with
  | nil =>
    rw [lexNumber] at h
    cases rest with
    | nil => rw [List.append_nil, lexNumber, h]
    | cons b s =>
      rw [List.nil_append, lexNumber, next_of_endsNumber (hrest b s rfl)]
      split at h
      · next hfinal =>
          show (if state.final = true then _ else _) = _
          rw [if_pos hfinal]
      · cases h
  | cons b literal ih =>
    rw [lexNumber] at h
    rw [List.cons_append, lexNumber]
    split at h
    · next state' hnext =>
        obtain ⟨r, hr, heq⟩ := Option.map_eq_some_iff.mp h
        have hr' : r = (literal, []) := by
          obtain ⟨hl, hr⟩ := Prod.mk.inj heq
          exact Prod.ext (List.cons.inj hl).2 hr
        rw [ih (hr' ▸ hr)]
        rfl
    · split at h <;> cases h

theorem ascii_of_next {state' : NumberState} (h : state.next b = some state') :
    b.toNat ≤ 0x7f := by
  have hin : endsNumber b = false := by
    by_contra hends
    rw [next_of_endsNumber (by simpa using hends)] at h
    cases h
  revert hin
  clear h
  revert b
  decide +kernel

theorem ascii_of_lexNumber (h : lexNumber state s = some (literal, rest)) :
    ∀ b ∈ literal, b.toNat ≤ 0x7f := by
  induction s generalizing state literal with
  | nil =>
    rw [lexNumber] at h
    split at h <;> cases h
    exact fun b hb => nomatch hb
  | cons c s ih =>
    rw [lexNumber] at h
    split at h
    · next hnext =>
        obtain ⟨r, hr, heq⟩ := Option.map_eq_some_iff.mp h
        cases heq
        exact List.forall_mem_cons.mpr ⟨ascii_of_next hnext, ih hr⟩
    · split at h <;> cases h
      exact fun b hb => nomatch hb

theorem isNumber_of_lexNumber (h : lexNumber .start s = some (literal, rest)) :
    isNumber literal = true :=
  beq_iff_eq.mpr (lexNumber_ok h).2

theorem lexNumber_of_isNumber (h : isNumber literal = true)
    (hrest : ∀ b s, rest = b :: s → endsNumber b = true) :
    lexNumber .start (literal ++ rest) = some (literal, rest) :=
  lexNumber_append (beq_iff_eq.mp h) hrest

theorem isNumber_ne_nil (h : isNumber literal = true) : literal ≠ [] := by
  rintro rfl
  cases h

/-- A number is its text. -/
@[ext] structure Number where
  text : Bytes
  valid : isNumber text = true
deriving DecidableEq, Repr

/-- Reads a number as far as it goes. -/
def readNumber (s : Bytes) : Option (Number × Bytes) :=
  match h : lexNumber .start s with
  | some (literal, rest) => some (⟨literal, isNumber_of_lexNumber h⟩, rest)
  | none => none

theorem readNumber_eq_some {n : Number} : readNumber s = some (n, rest) ↔
      lexNumber .start s = some (n.text, rest) := by
  rw [readNumber]
  split
  · next literal rest' hlex =>
      constructor
      · intro h
        cases h
        exact hlex
      · intro h
        obtain ⟨rfl, rfl⟩ := Prod.mk.inj (Option.some.inj (hlex.symm.trans h))
        rfl
  · next hlex =>
      rw [hlex]
      exact ⟨fun h => (nomatch h), nofun⟩

theorem readNumber_append (n : Number) (hrest : ∀ b s, rest = b :: s → endsNumber b = true) :
    readNumber (n.text ++ rest) = some (n, rest) :=
  readNumber_eq_some.mpr (lexNumber_of_isNumber n.valid hrest)

-- ===== strings

def isHex (b : UInt8) : Bool :=
  isDigit b || (0x61 ≤ b.toNat && b.toNat ≤ 0x66)
    || (0x41 ≤ b.toNat && b.toNat ≤ 0x46)

/-- The letters of the two-character escapes. -/
def isSimpleEscape (b : UInt8) : Bool :=
  b == 0x22 || b == 0x5c || b == 0x2f || b == 0x62 || b == 0x66 || b == 0x6e
    || b == 0x72 || b == 0x74

/-- A byte that stands for itself in a string literal. -/
def isPlain (b : UInt8) : Bool :=
  0x20 ≤ b.toNat && b != 0x22 && b != 0x5c

/-- Reads a string literal after its opening quote: the bytes up to the
closing quote, and what follows it. -/
def scanBody : Bytes → Option (Bytes × Bytes)
  | [] => none
  | 0x22 :: rest => some ([], rest)
  | 0x5c :: 0x75 :: a :: b :: c :: d :: s =>
    if isHex a && isHex b && isHex c && isHex d then
      (scanBody s).map fun r => (0x5c :: 0x75 :: a :: b :: c :: d :: r.1, r.2)
    else none
  | 0x5c :: e :: s =>
    if isSimpleEscape e then
      (scanBody s).map fun r => (0x5c :: e :: r.1, r.2)
    else none
  | b :: s =>
    if isPlain b then (scanBody s).map fun r => (b :: r.1, r.2) else none

def hexValue (c : Char) : Option Nat :=
  if '0' ≤ c ∧ c ≤ '9' then some (c.toNat - 0x30)
  else if 'a' ≤ c ∧ c ≤ 'f' then some (c.toNat - 0x61 + 10)
  else if 'A' ≤ c ∧ c ≤ 'F' then some (c.toNat - 0x41 + 10)
  else none

/-- The code unit of four hexadecimal digits. -/
def codeUnit (a b c d : Char) : Option Nat := do
  let a ← hexValue a
  let b ← hexValue b
  let c ← hexValue c
  let d ← hexValue d
  return a * 4096 + b * 256 + c * 16 + d

def isSurrogate (u : Nat) : Bool := 0xd800 ≤ u && u ≤ 0xdfff

/-- The character of a surrogate pair. -/
def surrogatePair (u v : Nat) : Option Char :=
  if 0xd800 ≤ u ∧ u ≤ 0xdbff ∧ 0xdc00 ≤ v ∧ v ≤ 0xdfff then
    some (Char.ofNat ((u - 0xd800) * 1024 + (v - 0xdc00) + 0x10000))
  else none

def simpleEscape : Char → Option Char
  | '"' => some '"'
  | '\\' => some '\\'
  | '/' => some '/'
  | 'b' => some '\x08'
  | 'f' => some '\x0c'
  | 'n' => some '\n'
  | 'r' => some '\r'
  | 't' => some '\t'
  | _ => none

/-- What one step of a string literal stands for: a character, or a code
unit that may be half a character. -/
inductive Piece where
  | char (c : Char)
  | unit (u : Nat)
deriving DecidableEq, Repr

/-- Splits the text between the quotes of a string literal. -/
def pieces : List Char → Option (List Piece)
  | [] => some []
  | '\\' :: 'u' :: a :: b :: c :: d :: s =>
    match codeUnit a b c d with
    | some u => (pieces s).map (.unit u :: ·)
    | none => none
  | '\\' :: e :: s =>
    match simpleEscape e with
    | some c => (pieces s).map (.char c :: ·)
    | none => none
  | c :: s => if c = '\\' then none else (pieces s).map (.char c :: ·)

/-- Puts surrogate pairs together; `half` is a surrogate that waits for
its other half. -/
def joinPieces : Option Nat → List Piece → List Char
  | none, [] => []
  | some _, [] => [replacement]
  | none, .char c :: s => c :: joinPieces none s
  | some _, .char c :: s => replacement :: c :: joinPieces none s
  | half, .unit v :: s =>
    match half.bind (surrogatePair · v) with
    | some pair => pair :: joinPieces none s
    | none =>
      half.toList.map (fun _ => replacement) ++
        if isSurrogate v then joinPieces (some v) s
        else Char.ofNat v :: joinPieces none s

/-- The text between the quotes of a string literal, without escapes. -/
def unescape (body : List Char) : Option (List Char) :=
  (pieces body).map (joinPieces none)

/-- Reads a string literal after its opening quote. -/
def lexString (s : Bytes) : Option (String × Bytes) := do
  let (body, rest) ← scanBody s
  let text ← unescape (runes body)
  return (String.ofList text, rest)

-- ===== writing a string

def hexDigit (n : Nat) : Char :=
  if n < 10 then Char.ofNat (0x30 + n) else Char.ofNat (0x61 + (n - 10))

/-- How a character is written in a string literal. -/
def escape (c : Char) : List Char :=
  if c = '"' ∨ c = '\\' then ['\\', c]
  else if c = '\x08' then ['\\', 'b']
  else if c = '\x0c' then ['\\', 'f']
  else if c = '\n' then ['\\', 'n']
  else if c = '\r' then ['\\', 'r']
  else if c = '\t' then ['\\', 't']
  else if c.toNat < 0x20 ∨ c = '<' ∨ c = '>' ∨ c = '&' then
    ['\\', 'u', '0', '0', hexDigit (c.toNat / 16), hexDigit (c.toNat % 16)]
  else if c.toNat = 0x2028 ∨ c.toNat = 0x2029 then
    ['\\', 'u', '2', '0', '2', hexDigit (c.toNat % 16)]
  else [c]

/-- `json.Marshal` of a string. -/
def quote (text : String) : Bytes :=
  0x22 :: utf8 (text.toList.flatMap escape) ++ [0x22]

-- ===== reading what is written

theorem scanBody_plain (h : isPlain b = true) (s : Bytes) :
    scanBody (b :: s) = (scanBody s).map fun r => (b :: r.1, r.2) := by
  have hb : b ≠ 0x22 ∧ b ≠ 0x5c := by
    simp only [isPlain, Bool.and_eq_true, bne_iff_ne] at h
    exact ⟨h.1.2, h.2⟩
  rw [scanBody, if_pos h]
  · exact hb.1
  · exact fun _ _ _ _ _ heq => absurd heq hb.2
  · exact fun _ _ heq => absurd heq hb.2

theorem scanBody_plains {p : Bytes} (h : ∀ b ∈ p, isPlain b = true) (s : Bytes) :
    scanBody (p ++ s) = (scanBody s).map fun r => (p ++ r.1, r.2) := by
  induction p with
  | nil => simp
  | cons b p ih =>
    rw [List.cons_append, scanBody_plain (h b List.mem_cons_self),
      ih fun b' hb' => h b' (List.mem_cons_of_mem _ hb'), Option.map_map]
    rfl

theorem scanBody_simple {e : UInt8} (h : isSimpleEscape e = true) (s : Bytes) :
    scanBody (0x5c :: e :: s) = (scanBody s).map fun r => (0x5c :: e :: r.1, r.2) := by
  have he : e ≠ 0x75 := by
    rintro rfl
    cases h
  rw [scanBody, if_pos h]
  exact fun _ _ _ _ _ heq => absurd heq he

theorem scanBody_unicode {a c d : UInt8} (ha : isHex a = true)
    (hb : isHex b = true) (hc : isHex c = true) (hd : isHex d = true)
    (s : Bytes) :
    scanBody (0x5c :: 0x75 :: a :: b :: c :: d :: s) = (scanBody s).map fun r =>
          (0x5c :: 0x75 :: a :: b :: c :: d :: r.1, r.2) := by
  show (if isHex a && isHex b && isHex c && isHex d then _ else _) = _
  rw [ha, hb, hc, hd]
  rfl

/-- The byte of a character of seven bits. -/
def asciiByte (c : Char) : UInt8 := UInt8.ofNat c.toNat

theorem utf8_ascii {l : List Char} (h : ∀ c ∈ l, c.toNat ≤ 0x7f) : utf8 l = l.map asciiByte := by
  induction l with
  | nil => rfl
  | cons c l ih =>
    rw [utf8_cons, encodeChar_ascii (h c List.mem_cons_self),
      ih fun c' hc' => h c' (List.mem_cons_of_mem _ hc')]
    rfl

/-- A hexadecimal digit as it is written and as it is read. -/
structure HexDigit (c : Char) (n : Nat) : Prop where
  ascii : c.toNat ≤ 0x7f
  hex : isHex (asciiByte c) = true
  value : hexValue c = some n

theorem hexDigit_spec {n : Nat} (h : n < 16) : HexDigit (hexDigit n) n := by
  have hall : ∀ n : Fin 16, (hexDigit n).toNat ≤ 0x7f ∧ isHex (asciiByte (hexDigit n)) = true
      ∧ hexValue (hexDigit n) = some n.val := by decide
  obtain ⟨h₁, h₂, h₃⟩ := hall ⟨n, h⟩
  exact ⟨h₁, h₂, h₃⟩

theorem codeUnit_eq {a b d : Char} {i j k l : Nat} (ha : HexDigit a i)
    (hb : HexDigit b j) (hc : HexDigit c k) (hd : HexDigit d l) :
    codeUnit a b c d = some (i * 4096 + j * 256 + k * 16 + l) := by
  simp only [codeUnit, ha.value, hb.value, hc.value, hd.value]
  rfl

/-- The three ways a character is written. -/
inductive Escaped : Char → List Char → Prop where
  | simple {c e : Char} (hascii : e.toNat ≤ 0x7f)
      (hescape : isSimpleEscape (asciiByte e) = true) (hu : e ≠ 'u')
      (hvalue : simpleEscape e = some c) : Escaped c ['\\', e]
  | unit {x a b c d : Char} {i j k l : Nat} (ha : HexDigit a i)
      (hb : HexDigit b j) (hc : HexDigit c k) (hd : HexDigit d l)
      (hvalue : i * 4096 + j * 256 + k * 16 + l = x.toNat)
      (hsurrogate : isSurrogate x.toNat = false) :
      Escaped x ['\\', 'u', a, b, c, d]
  | plain {c : Char} (hleast : 0x20 ≤ c.toNat) (hquote : c ≠ '"') (hback : c ≠ '\\') : Escaped c [c]

theorem isSurrogate_toNat (c : Char) : isSurrogate c.toNat = false := by
  have hc : c.toNat < 0xd800 ∨ 0xdfff < c.toNat := by
    rcases c.valid with h | h
    · exact .inl h
    · exact .inr h.1
  simp only [isSurrogate, Bool.and_eq_false_iff, decide_eq_false_iff_not]
  omega

/-- A character below 256 written with its code. -/
theorem escaped_unit (h : c.toNat < 0x100) :
    Escaped c ['\\', 'u', '0', '0', hexDigit (c.toNat / 16), hexDigit (c.toNat % 16)] := by
  have h0 : HexDigit '0' 0 := hexDigit_spec (n := 0) (by decide)
  exact .unit h0 h0 (hexDigit_spec (by omega)) (hexDigit_spec (by omega))
    (by omega) (isSurrogate_toNat c)

theorem escape_spec (c : Char) : Escaped c (escape c) := by
  rw [escape]
  split
  · next h =>
      rcases h with rfl | rfl <;>
        exact .simple (by decide) (by decide) (by decide) rfl
  next hquote =>
  iterate 5
    split
    · next h => exact h ▸ .simple (by decide) (by decide) (by decide) rfl
  split
  · next h =>
      refine escaped_unit ?_
      rcases h with h | rfl | rfl | rfl
      · omega
      all_goals decide
  next hlow =>
  split
  · next h =>
      have h2 : HexDigit '2' 2 := hexDigit_spec (n := 2) (by decide)
      have h0 : HexDigit '0' 0 := hexDigit_spec (n := 0) (by decide)
      exact .unit h2 h0 h2 (hexDigit_spec (by omega)) (by omega)
        (isSurrogate_toNat c)
  · refine .plain ?_ ?_ ?_
    · exact Nat.le_of_not_lt fun h => hlow (.inl h)
    · exact fun h => hquote (.inl h)
    · exact fun h => hquote (.inr h)

theorem isPlain_of_high (h : 0x80 ≤ b.toNat) : isPlain b = true := by
  have h1 : b ≠ 0x22 := by
    rintro rfl
    exact absurd h (by decide)
  have h2 : b ≠ 0x5c := by
    rintro rfl
    exact absurd h (by decide)
  simp only [isPlain, Bool.and_eq_true, decide_eq_true_eq, bne_iff_ne]
  exact ⟨⟨by omega, h1⟩, h2⟩

/-- A character of more than one byte has only high bytes. -/
theorem high_of_mem_encodeChar (h : 0x7f < c.toNat)
    (hb : b ∈ String.utf8EncodeChar c) : 0x80 ≤ b.toNat := by
  have hc : c.val.toNat = c.toNat := rfl
  unfold String.utf8EncodeChar at hb
  rw [if_neg (by omega)] at hb
  split_ifs at hb <;> simp only [List.mem_cons, List.not_mem_nil, or_false]
    at hb
  · rcases hb with rfl | rfl <;> rw [toNat_ofNat_of_lt (by omega)] <;> omega
  · rcases hb with rfl | rfl | rfl <;>
      rw [toNat_ofNat_of_lt (by omega)] <;> omega
  · rcases hb with rfl | rfl | rfl | rfl <;>
      rw [toNat_ofNat_of_lt (by omega)] <;> omega

theorem isPlain_of_mem_encodeChar (hleast : 0x20 ≤ c.toNat)
    (hquote : c ≠ '"') (hback : c ≠ '\\') (hb : b ∈ String.utf8EncodeChar c) :
    isPlain b = true := by
  by_cases h : c.toNat ≤ 0x7f
  · rw [encodeChar_ascii h, List.mem_singleton] at hb
    subst hb
    have hval := toNat_ofNat_of_lt (show c.toNat < 256 by omega)
    have hne : ∀ x : Char, x.toNat ≤ 0x7f → c ≠ x → UInt8.ofNat c.toNat ≠ UInt8.ofNat x.toNat := by
      intro x hx hcx heq
      have heq := congrArg UInt8.toNat heq
      rw [hval, toNat_ofNat_of_lt (by omega)] at heq
      exact hcx (Char.toNat_inj.mp heq)
    simp only [isPlain, Bool.and_eq_true, decide_eq_true_eq, bne_iff_ne, hval]
    exact ⟨⟨hleast, hne '"' (by decide) hquote⟩, hne '\\' (by decide) hback⟩
  · exact isPlain_of_high (high_of_mem_encodeChar (by omega) hb)

/-- The scanner passes a written character. -/
theorem scanBody_escaped {e : List Char} (h : Escaped c e) (s : Bytes) : scanBody (utf8 e ++ s)
      = (scanBody s).map fun r => (utf8 e ++ r.1, r.2) := by
  cases h with
  | @simple e hascii hescape =>
    have hbytes : utf8 ['\\', e] = [0x5c, asciiByte e] := by
      refine utf8_ascii (List.forall_mem_cons.mpr ⟨by decide, ?_⟩)
      exact List.forall_mem_singleton.mpr hascii
    rw [hbytes]
    exact scanBody_simple hescape s
  | @unit a b c d _ _ _ _ ha hb hc hd =>
    have hbytes : utf8 ['\\', 'u', a, b, c, d] = [0x5c, 0x75, asciiByte a, asciiByte b, asciiByte c,
            asciiByte d] := by
      refine utf8_ascii ?_
      simp only [List.forall_mem_cons]
      exact ⟨by decide, by decide, ha.ascii, hb.ascii, hc.ascii, hd.ascii, nofun⟩
    rw [hbytes]
    exact scanBody_unicode ha.hex hb.hex hc.hex hd.hex s
  | plain hleast hquote hback =>
    rw [utf8_cons, utf8_nil, List.append_nil]
    exact scanBody_plains (fun _ => isPlain_of_mem_encodeChar hleast hquote hback) s

theorem pieces_unit {a b d : Char} {u : Nat} (h : codeUnit a b c d = some u) (s : List Char) :
    pieces ('\\' :: 'u' :: a :: b :: c :: d :: s) = (pieces s).map (.unit u :: ·) := by
  show (match codeUnit a b c d with
    | some u => (pieces s).map (Piece.unit u :: ·)
    | none => none) = _
  rw [h]

theorem pieces_simple {e : Char} (hu : e ≠ 'u') (h : simpleEscape e = some c) (s : List Char) :
    pieces ('\\' :: e :: s) = (pieces s).map (.char c :: ·) := by
  rw [pieces, h]
  exact fun _ _ _ _ _ heq => absurd heq hu

theorem pieces_plain (h : c ≠ '\\') (s : List Char) :
    pieces (c :: s) = (pieces s).map (.char c :: ·) := by
  rw [pieces, if_neg h]
  · exact fun _ _ _ _ _ heq => absurd heq h
  · exact fun _ _ heq => absurd heq h

theorem joinPieces_unit {u : Nat} (h : isSurrogate u = false) (s : List Piece) :
    joinPieces none (.unit u :: s) = Char.ofNat u :: joinPieces none s := by
  show [] ++ (if isSurrogate u then _ else _) = _
  rw [h]
  rfl

/-- A written character reads back as the character. -/
theorem unescape_escaped {e : List Char} (h : Escaped c e) (s : List Char) :
    unescape (e ++ s) = (unescape s).map (c :: ·) := by
  cases h with
  | simple _ _ hu hvalue =>
    show (pieces ('\\' :: _ :: s)).map _ = _
    rw [pieces_simple hu hvalue, Option.map_map, unescape, Option.map_map]
    rfl
  | unit ha hb hc hd hvalue hsurrogate =>
    show (pieces ('\\' :: 'u' :: _ :: _ :: _ :: _ :: s)).map _ = _
    rw [pieces_unit (codeUnit_eq ha hb hc hd), hvalue, Option.map_map, unescape, Option.map_map]
    refine congrArg (fun f => Option.map f (pieces s)) (funext fun l => ?_)
    show joinPieces none (.unit c.toNat :: l) = _
    rw [joinPieces_unit hsurrogate, Char.ofNat_toNat]
    rfl
  | plain _ _ hback =>
    show (pieces (c :: s)).map _ = _
    rw [pieces_plain hback, Option.map_map, unescape, Option.map_map]
    rfl

theorem scanBody_written (text : List Char) (rest : Bytes) :
    scanBody (utf8 (text.flatMap escape) ++ 0x22 :: rest)
      = some (utf8 (text.flatMap escape), rest) := by
  induction text with
  | nil => rfl
  | cons c text ih =>
    rw [List.flatMap_cons, utf8, List.flatMap_append, List.append_assoc]
    show scanBody (utf8 (escape c) ++ (utf8 (text.flatMap escape) ++ 0x22 :: rest)) = _
    rw [scanBody_escaped (escape_spec c), ih]
    rfl

theorem unescape_written (text : List Char) : unescape (text.flatMap escape) = some text := by
  induction text with
  | nil => rfl
  | cons c text ih =>
    rw [List.flatMap_cons, unescape_escaped (escape_spec c), ih]
    rfl

/-- A written string reads back as its text. -/
theorem lexString_written (text : String) (rest : Bytes) :
    lexString (utf8 (text.toList.flatMap escape) ++ 0x22 :: rest) = some (text, rest) := by
  rw [lexString, scanBody_written]
  show (unescape (runes _)).bind _ = _
  rw [runes_utf8, unescape_written]
  show some (String.ofList text.toList, rest) = _
  rw [String.ofList_toList]

end LlmTemporalWorker.Lib.Json
