/-
What `ParseUSD` accepts (pricing/decimal.go).

A numeral is described by its parts and has a value, a rational number.
The reader accepts a text exactly when it is a numeral within the
reader's bounds whose value is a whole number of 10⁻¹⁸ dollars in
range, and returns that value (`parseUsd_ok_iff`). The printed form of
an amount is the one numeral with eighteen fraction digits, no exponent
and no needless zero in front.

# Shape of the argument

Each piece of the reader has its own equivalence with the part of the
numeral it reads: the exponent, the mantissa, the two together, and the
shift to the fixed scale. The last is where the value comes in: the
digits are a numerator over a power of ten, and the reader's shift is
that power moved by eighteen.
-/
import LlmTemporalWorker.Pricing.Parse

namespace LlmTemporalWorker.Pricing

open Lib

-- ===== numerals

/-- An exponent as it is written. -/
structure Exponent where
  marker : Char
  sign : Option Char
  digits : List Char

def Exponent.text (exponent : Exponent) : List Char :=
  exponent.marker :: (exponent.sign.toList ++ exponent.digits)

def Exponent.value (exponent : Exponent) : Int :=
  if exponent.sign = some '-' then -(digitsVal exponent.digits : Int)
  else (digitsVal exponent.digits : Int)

/-- A numeral: whole digits, a fraction and an exponent. -/
structure Numeral where
  whole : List Char
  fraction : Option (List Char)
  exponent : Option Exponent

/-- A fraction with its point. -/
def pointed : Option (List Char) → List Char
  | none => []
  | some fraction => '.' :: fraction

def Numeral.text (numeral : Numeral) : List Char :=
  numeral.whole ++ pointed numeral.fraction ++ (numeral.exponent.map Exponent.text).getD []

/-- The digits without the point. -/
def Numeral.coefficient (numeral : Numeral) : Nat :=
  digitsVal (numeral.whole ++ numeral.fraction.getD [])

/-- The digits after the point. -/
def Numeral.places (numeral : Numeral) : Nat :=
  (numeral.fraction.getD []).length

def Numeral.power (numeral : Numeral) : Int :=
  (numeral.exponent.map Exponent.value).getD 0

/-- The number that a numeral is. -/
def Numeral.value (numeral : Numeral) : ℚ :=
  numeral.coefficient * 10 ^ (numeral.power - numeral.places)

/-- A string of at least one digit. -/
def IsDigits (ds : List Char) : Prop := ds ≠ [] ∧ AllDigits ds

/-- The exponent part of the grammar. -/
structure Exponent.Grammatical (exponent : Exponent) : Prop where
  marker : isMarker exponent.marker = true
  sign : ∀ s ∈ exponent.sign, s = '+' ∨ s = '-'
  digits : IsDigits exponent.digits

/-- The grammar: `digits [. digits] [(e|E) [+|-] digits]`. -/
structure Numeral.Grammatical (numeral : Numeral) : Prop where
  whole : IsDigits numeral.whole
  fraction : ∀ f ∈ numeral.fraction, IsDigits f
  exponent : ∀ e ∈ numeral.exponent, e.Grammatical

/-- The reader's bounds: on the digits, on the exponent as a machine
integer, and on how far the digits are shifted down. -/
structure Numeral.Bounded (numeral : Numeral) : Prop where
  whole : numeral.whole.length ≤ 1024
  places : numeral.places ≤ 1024
  power : -2 ^ 63 ≤ numeral.power ∧ numeral.power < 2 ^ 63
  shift : numeral.coefficient = 0 ∨ (numeral.places : Int) - 18 - 1024 ≤ numeral.power

-- ===== exponents

variable {ds : List Char} {c : Nat}

theorem all_isDigit_eq_false_iff : ds.all Char.isDigit = false ↔ ¬AllDigits ds := by
  unfold AllDigits
  rw [← List.all_eq_true, Bool.not_eq_true]

theorem takeSign_eq (text : List Char) : text = (takeSign text).1.toList ++ (takeSign text).2
      ∧ ∀ s ∈ (takeSign text).1, s = '+' ∨ s = '-' := by
  unfold takeSign
  split
  · exact ⟨rfl, fun s hs => by cases hs; exact Or.inl rfl⟩
  · exact ⟨rfl, fun s hs => by cases hs; exact Or.inr rfl⟩
  · exact ⟨rfl, fun s hs => by cases hs⟩

/-- A sign in front of digits is what is taken off. -/
theorem takeSign_append {sign : Option Char} {digits : List Char}
    (hsign : ∀ s ∈ sign, s = '+' ∨ s = '-') (hdigits : IsDigits digits) :
    takeSign (sign.toList ++ digits) = (sign, digits) := by
  cases sign with
  | some s =>
    rcases hsign s rfl with rfl | rfl <;> rfl
  | none =>
    obtain ⟨hne, hall⟩ := hdigits
    cases digits with
    | nil => exact absurd rfl hne
    | cons c rest =>
      have hc := hall c List.mem_cons_self
      have hplus : c ≠ '+' := ne_of_isDigit hc (by decide)
      have hminus : c ≠ '-' := ne_of_isDigit hc (by decide)
      show takeSign (c :: rest) = (none, c :: rest)
      unfold takeSign
      split
      · rename_i heq
        cases heq
        exact absurd rfl hplus
      · rename_i heq
        cases heq
        exact absurd rfl hminus
      · rfl

/-- A machine integer. -/
def FitsInt64 (value : Int) : Prop := -2 ^ 63 ≤ value ∧ value < 2 ^ 63

instance (value : Int) : Decidable (FitsInt64 value) :=
  inferInstanceAs (Decidable (_ ∧ _))

/-- What `ParseInt` reads behind a marker. -/
theorem parseInt64_eq_some_iff (marker : Char) {text : List Char}
    {value : Int} :
    parseInt64 text = some value ↔ IsDigits (takeSign text).2 ∧ value = Exponent.value
          ⟨marker, (takeSign text).1, (takeSign text).2⟩
        ∧ FitsInt64 value := by
  generalize hread : Exponent.value ⟨marker, (takeSign text).1, (takeSign text).2⟩ = read
  have hparse : parseInt64 text = if (takeSign text).2 = []
          ∨ (takeSign text).2.all Char.isDigit = false then none
        else if FitsInt64 read then some read else none := by
    rw [← hread]
    rfl
  have hdigits : IsDigits (takeSign text).2 ↔ ¬((takeSign text).2 = []
        ∨ (takeSign text).2.all Char.isDigit = false) := by
    rw [all_isDigit_eq_false_iff, not_or, not_not]
    rfl
  rw [hparse, hdigits]
  by_cases hbad : (takeSign text).2 = [] ∨ (takeSign text).2.all Char.isDigit = false
  · rw [if_pos hbad]
    exact ⟨fun h => (by cases h), fun h => absurd hbad h.1⟩
  · rw [if_neg hbad]
    by_cases hfits : FitsInt64 read
    · rw [if_pos hfits]
      constructor
      · intro h
        cases h
        exact ⟨hbad, rfl, hfits⟩
      · rintro ⟨-, rfl, -⟩
        rfl
    · rw [if_neg hfits]
      constructor
      · intro h
        cases h
      · rintro ⟨-, rfl, h⟩
        exact absurd h hfits

theorem readExponent_ok_iff {marked : List Char} {value : Int}
    (hmarked : ∀ c ∈ marked.head?, isMarker c = true) :
    readExponent marked = .ok value ↔ ∃ exponent : Option Exponent,
        marked = (exponent.map Exponent.text).getD [] ∧ (∀ e ∈ exponent, e.Grammatical)
          ∧ value = (exponent.map Exponent.value).getD 0
          ∧ FitsInt64 value := by
  cases marked with
  | nil =>
    constructor
    · intro h
      cases h
      exact ⟨none, rfl, fun e he => (by cases he), rfl, by decide⟩
    · rintro ⟨exponent, htext, -, rfl, -⟩
      cases exponent with
      | none => rfl
      | some e => cases htext
  | cons marker text =>
    have hread : readExponent (marker :: text) = .ok value ↔ parseInt64 text = some value := by
      rw [readExponent]
      cases parseInt64 text with
      | none => exact ⟨fun h => (by cases h), fun h => (by cases h)⟩
      | some exponent => simp only [Except.ok.injEq, Option.some.injEq]
    rw [hread, parseInt64_eq_some_iff marker]
    constructor
    · rintro ⟨hdigits, hvalue, hfits⟩
      refine ⟨some ⟨marker, (takeSign text).1, (takeSign text).2⟩, ?_, ?_, hvalue, hfits⟩
      · exact congrArg (marker :: ·) (takeSign_eq text).1
      · intro e he
        cases he
        exact ⟨hmarked marker rfl, (takeSign_eq text).2, hdigits⟩
    · rintro ⟨exponent, htext, hgrammar, hvalue, hfits⟩
      cases exponent with
      | none => cases htext
      | some e =>
        have he := hgrammar e rfl
        obtain ⟨rfl, rfl⟩ := List.cons.inj htext
        rw [takeSign_append he.sign he.digits]
        exact ⟨he.digits, hvalue, hfits⟩

-- ===== mantissas

theorem byteLength_of_allDigits (h : AllDigits ds) : byteLength ds = ds.length := by
  unfold byteLength
  induction ds with
  | nil => rfl
  | cons c rest ih =>
    rw [List.map_cons, List.sum_cons, ih h.tail, List.length_cons,
      utf8Size_of_isDigit (h c List.mem_cons_self), Nat.add_comm]

theorem AllDigits.ne_point (h : AllDigits ds) : ∀ c ∈ ds, (c != '.') = true := by
  intro c hc
  exact bne_iff_ne.mpr (ne_of_isDigit (h c hc) (by decide))

theorem count_point_of_allDigits (h : AllDigits ds) : ds.count '.' = 0 := by
  rw [List.count_eq_zero]
  intro hmem
  exact ne_of_isDigit (h _ hmem) (by decide : '.'.isDigit = false) rfl

/-- What the mantissa's tests ask of its two pieces. -/
structure MantissaOk (whole : List Char) (fraction : Option (List Char)) :
    Prop where
  digits : IsDigits whole
  fractionDigits : ∀ f ∈ fraction, IsDigits f
  bounded : whole.length ≤ 1024
  fractionBounded : (fraction.getD []).length ≤ 1024

theorem readMantissa_of_ok {whole : List Char}
    {fraction : Option (List Char)} (h : MantissaOk whole fraction) :
    readMantissa (whole ++ pointed fraction) = .ok (whole, fraction.getD []) := by
  obtain ⟨⟨hne, hall⟩, hfraction, hwhole, hplaces⟩ := h
  have hall' : AllDigits (fraction.getD []) := by
    cases fraction with
    | none => exact fun c hc => by cases hc
    | some f => exact (hfraction f rfl).2
  have htake : (whole ++ pointed fraction).takeWhile (· != '.') = whole := by
    rw [List.takeWhile_append_of_pos (AllDigits.ne_point hall)]
    cases fraction <;> simp [pointed]
  have hdrop : (whole ++ pointed fraction).dropWhile (· != '.') = pointed fraction := by
    rw [List.dropWhile_append_of_pos (AllDigits.ne_point hall)]
    cases fraction <;> simp [pointed]
  have hcount : (whole ++ pointed fraction).count '.' ≤ 1 := by
    rw [List.count_append, count_point_of_allDigits hall]
    cases fraction with
    | none => simp [pointed]
    | some f =>
      rw [pointed, List.count_cons_self, count_point_of_allDigits (hfraction f rfl).2]
  have hpoint : whole ++ pointed fraction ≠ ['.'] := by
    intro heq
    cases whole with
    | nil => exact hne rfl
    | cons c rest =>
      have hc : c = '.' := (List.cons.inj heq).1
      exact ne_of_isDigit (hall c List.mem_cons_self) (by decide : '.'.isDigit = false) hc
  have hempty : ¬(whole = [] ∨ (pointed fraction ≠ [] ∧ (pointed fraction).drop 1 = [])) := by
    rintro (hnil | ⟨hsome, hnil⟩)
    · exact hne hnil
    · cases fraction with
      | none => exact hsome rfl
      | some f => exact (hfraction f rfl).1 hnil
  have hrest : (pointed fraction).drop 1 = fraction.getD [] := by
    cases fraction <;> rfl
  have hdigits : ¬(whole ++ fraction.getD []).all Char.isDigit = false := by
    rw [all_isDigit_eq_false_iff, not_not]
    exact hall.append hall'
  unfold readMantissa
  simp only [htake, hdrop]
  rw [if_neg (not_or.mpr ⟨by omega, hpoint⟩), if_neg hempty, hrest,
    byteLength_of_allDigits hall, byteLength_of_allDigits hall',
    if_neg (by omega), if_neg hdigits]
  rfl

theorem readMantissa_ok {mantissa whole digits : List Char}
    (h : readMantissa mantissa = .ok (whole, digits)) :
    ∃ fraction, mantissa = whole ++ pointed fraction
      ∧ digits = fraction.getD [] ∧ MantissaOk whole fraction := by
  obtain ⟨-, h⟩ := refusal_ok h
  obtain ⟨hempty, h⟩ := refusal_ok h
  obtain ⟨hlong, h⟩ := refusal_ok h
  obtain ⟨hall, h⟩ := refusal_ok h
  cases h
  rw [all_isDigit_eq_false_iff, not_not] at hall
  have hwhole : AllDigits (mantissa.takeWhile (· != '.')) :=
    fun c hc => hall c (List.mem_append_left _ hc)
  have hdigits : AllDigits ((mantissa.dropWhile (· != '.')).drop 1) :=
    fun c hc => hall c (List.mem_append_right _ hc)
  rw [byteLength_of_allDigits hwhole, byteLength_of_allDigits hdigits]
    at hlong
  have hsplit : mantissa.takeWhile (· != '.') ++ mantissa.dropWhile (· != '.') = mantissa :=
    List.takeWhile_append_dropWhile
  have hhead := List.head?_dropWhile_not (· != '.') mantissa
  generalize mantissa.takeWhile (· != '.') = whole at *
  generalize mantissa.dropWhile (· != '.') = tail at *
  rw [not_or] at hempty
  cases tail with
  | nil =>
    exact ⟨none, hsplit.symm, rfl, ⟨hempty.1, hwhole⟩, fun f hf => (by cases hf), by omega, by simp⟩
  | cons c rest =>
    have hc : c = '.' := by simpa using hhead
    subst hc
    have hplaces : rest.length ≤ 1024 := by
      rw [List.drop_one, List.tail_cons] at hlong
      omega
    refine ⟨some rest, hsplit.symm, rfl, ⟨hempty.1, hwhole⟩, ?_,
      by omega, hplaces⟩
    intro f hf
    cases hf
    exact ⟨fun hnil => hempty.2 ⟨by simp, hnil⟩, hdigits⟩

-- ===== pieces

theorem isMarker_of_isDigit {c : Char} (h : c.isDigit = true) : isMarker c = false := by
  unfold isMarker
  rw [Bool.or_eq_false_iff, beq_eq_false_iff_ne, beq_eq_false_iff_ne]
  exact ⟨ne_of_isDigit h (by decide), ne_of_isDigit h (by decide)⟩

/-- The mantissa of a numeral has no marker. -/
theorem Numeral.Grammatical.unmarked {numeral : Numeral} (h : numeral.Grammatical) :
    ∀ c ∈ numeral.whole ++ pointed numeral.fraction, (!isMarker c) = true := by
  intro c hc
  rw [Bool.not_eq_true']
  rcases List.mem_append.mp hc with hc | hc
  · exact isMarker_of_isDigit (h.whole.2 c hc)
  · cases hf : numeral.fraction with
    | none =>
      rw [hf] at hc
      cases hc
    | some f =>
      rw [hf] at hc
      rcases List.mem_cons.mp hc with rfl | hc
      · decide
      · exact isMarker_of_isDigit ((h.fraction f hf).2 c hc)

theorem Numeral.Grammatical.exponent_head {numeral : Numeral} (h : numeral.Grammatical) :
    ∀ c ∈ ((numeral.exponent.map Exponent.text).getD []).head?, isMarker c = true := by
  intro c hc
  cases he : numeral.exponent with
  | none =>
    rw [he] at hc
    cases hc
  | some e =>
    rw [he] at hc
    cases hc
    exact (h.exponent e he).marker

theorem takeWhile_append_head {α : Type} {p : α → Bool} {l m : List α}
    (hl : ∀ a ∈ l, p a = true) (hm : ∀ a ∈ m.head?, p a = false) :
    (l ++ m).takeWhile p = l ∧ (l ++ m).dropWhile p = m := by
  rw [List.takeWhile_append_of_pos hl, List.dropWhile_append_of_pos hl]
  cases m with
  | nil => simp
  | cons a rest =>
    have ha := hm a rfl
    simp [ha]

/-- A numeral begins and ends with a digit. -/
theorem Numeral.Grammatical.ends {numeral : Numeral} (h : numeral.Grammatical) :
    (∃ c, numeral.text.head? = some c ∧ c.isDigit = true)
      ∧ ∃ c, numeral.text.getLast? = some c ∧ c.isDigit = true := by
  constructor
  · obtain ⟨hne, hall⟩ := h.whole
    cases hw : numeral.whole with
    | nil => exact absurd hw hne
    | cons c rest =>
      refine ⟨c, ?_, hall c (hw ▸ List.mem_cons_self)⟩
      unfold Numeral.text
      rw [hw]
      rfl
  · have hlast : ∀ ds, IsDigits ds → ∀ before : List Char, ∃ c,
        (before ++ ds).getLast? = some c ∧ c.isDigit = true := by
      rintro ds ⟨hne, hall⟩ before
      refine ⟨ds.getLast hne, ?_, hall _ (List.getLast_mem hne)⟩
      rw [List.getLast?_append_of_ne_nil _ hne, List.getLast?_eq_some_getLast hne]
    unfold Numeral.text
    cases he : numeral.exponent with
    | some e =>
      have := hlast e.digits (h.exponent e he).digits (numeral.whole ++ pointed numeral.fraction
          ++ e.marker :: e.sign.toList)
      simpa [Exponent.text] using this
    | none =>
      cases hf : numeral.fraction with
      | none => simpa [pointed] using hlast numeral.whole h.whole []
      | some f =>
        have := hlast f (h.fraction f hf) (numeral.whole ++ ['.'])
        simpa [pointed] using this

/-- The pieces of a numeral. -/
def Numeral.pieces (numeral : Numeral) : Pieces :=
  ⟨numeral.whole, numeral.fraction.getD [], numeral.power⟩

/-- The bounds that are tested before the digits are shifted. -/
structure Numeral.Readable (numeral : Numeral) : Prop where
  grammatical : numeral.Grammatical
  whole : numeral.whole.length ≤ 1024
  places : numeral.places ≤ 1024
  power : FitsInt64 numeral.power

theorem readPieces_of_readable {numeral : Numeral} (h : numeral.Readable) :
    readPieces numeral.text = .ok numeral.pieces := by
  have hgrammar := h.grammatical
  obtain ⟨⟨first, hfirst, hdigit⟩, last, hlast, hdigit'⟩ := hgrammar.ends
  have hne : numeral.text ≠ [] := by
    intro hnil
    rw [hnil] at hfirst
    cases hfirst
  have hplain : ¬(numeral.text = [] ∨ padded numeral.text = true
      ∨ numeral.text.head? = some '+' ∨ numeral.text.head? = some '-') := by
    unfold padded
    rw [hfirst, hlast]
    simp only [Option.any_some, isSpace_of_isDigit hdigit,
      isSpace_of_isDigit hdigit', Option.some.injEq]
    rintro (hnil | hspace | rfl | rfl)
    · exact hne hnil
    · cases hspace
    · cases hdigit
    · cases hdigit
  obtain ⟨htake, hdrop⟩ := takeWhile_append_head (p := fun c => !isMarker c) hgrammar.unmarked
    (m := (numeral.exponent.map Exponent.text).getD []) (by
      intro c hc
      rw [hgrammar.exponent_head c hc]
      rfl)
  have hexponent := (readExponent_ok_iff hgrammar.exponent_head).mpr
    ⟨numeral.exponent, rfl, hgrammar.exponent, rfl, h.power⟩
  have hmantissa : readMantissa (numeral.whole ++ pointed numeral.fraction)
      = .ok (numeral.whole, numeral.fraction.getD []) :=
    readMantissa_of_ok ⟨hgrammar.whole, hgrammar.fraction, h.whole, h.places⟩
  unfold readPieces
  rw [if_neg hplain]
  unfold Numeral.text
  rw [htake, hdrop, hexponent]
  simp only [bind, Except.bind, hmantissa]
  rfl

theorem readable_of_readPieces {value : List Char} {pieces : Pieces}
    (h : readPieces value = .ok pieces) :
    ∃ numeral : Numeral, numeral.text = value ∧ numeral.Readable ∧ pieces = numeral.pieces := by
  obtain ⟨-, h⟩ := refusal_ok h
  obtain ⟨exponent, hexponent, h⟩ := bind_ok h
  obtain ⟨⟨whole, digits⟩, hmantissa, h⟩ := bind_ok h
  cases h
  have hhead : ∀ c ∈ (value.dropWhile (!isMarker ·)).head?, isMarker c = true := by
    intro c hc
    have := List.head?_dropWhile_not (!isMarker ·) value
    rw [Option.mem_def.mp hc] at this
    simpa using this
  obtain ⟨written, htext, hgrammar, hvalue, hfits⟩ := (readExponent_ok_iff hhead).mp hexponent
  obtain ⟨fraction, hsplit, hdigits, hok⟩ := readMantissa_ok hmantissa
  rw [hvalue] at hfits
  refine ⟨⟨whole, fraction, written⟩, ?_, ⟨⟨hok.digits, hok.fractionDigits, hgrammar⟩, hok.bounded,
      hok.fractionBounded, hfits⟩, ?_⟩
  · rw [Numeral.text, ← hsplit, ← htext, List.takeWhile_append_dropWhile]
  · rw [hdigits, hvalue]
    rfl

-- ===== scale

/-- The number of dollars an amount is. -/
def Usd.value (usd : Usd) : ℚ := usd.units / 10 ^ 18

variable {usd : Usd}

theorem boundedUsd_ok_iff {units : Nat} :
    boundedUsd units = .ok usd ↔ units = usd.units := by
  unfold boundedUsd
  constructor
  · intro h
    split at h
    · cases h
      rfl
    · cases h
  · rintro rfl
    rw [dif_pos usd.bounded]

/-- The shift to the fixed scale. -/
def Numeral.shift (numeral : Numeral) : Int :=
  numeral.power - ((numeral.places : Int) - 18)

/-- The value in units of the fixed scale. -/
theorem Numeral.value_eq_iff {numeral : Numeral} : numeral.value = usd.value
      ↔ (numeral.coefficient : ℚ) * 10 ^ numeral.shift = usd.units := by
  have hten : (10 : ℚ) ≠ 0 := by norm_num
  have hscale : numeral.value = numeral.coefficient * 10 ^ numeral.shift / 10 ^ 18 := by
    have hpower : numeral.power - (numeral.places : Int) = numeral.shift - 18 := by
      unfold Numeral.shift
      omega
    rw [Numeral.value, hpower, zpow_sub₀ hten, mul_div_assoc]
    rfl
  rw [hscale, Usd.value, div_left_inj' (by positivity)]

/-- A shift up multiplies. -/
theorem shift_up_eq_iff {units : Nat} {shift : Int} (h : 0 ≤ shift) :
    (c : ℚ) * 10 ^ shift = units ↔ c * 10 ^ shift.toNat = units := by
  obtain ⟨k, rfl⟩ := Int.eq_ofNat_of_zero_le h
  exact_mod_cast Iff.rfl

/-- A shift down divides, and has to leave nothing. -/
theorem shift_down_eq_iff {units : Nat} {shift : Int} (h : shift < 0) : (c : ℚ) * 10 ^ shift = units
      ↔ c % 10 ^ (-shift).toNat = 0 ∧ c / 10 ^ (-shift).toNat = units := by
  obtain ⟨k, hk⟩ := Int.eq_ofNat_of_zero_le (show 0 ≤ -shift by omega)
  have hshift : shift = -(k : Int) := by omega
  have hpos : 0 < 10 ^ k := Nat.pow_pos (by decide)
  rw [hk, Int.toNat_natCast, hshift, zpow_neg, zpow_natCast,
    ← div_eq_mul_inv, div_eq_iff (by positivity)]
  have hcast : (c : ℚ) = units * 10 ^ k ↔ c = units * 10 ^ k := by
    exact_mod_cast Iff.rfl
  rw [hcast]
  constructor
  · rintro rfl
    exact ⟨Nat.mul_mod_left _ _, Nat.mul_div_cancel _ hpos⟩
  · rintro ⟨hmod, rfl⟩
    exact (Nat.div_mul_cancel (Nat.dvd_of_mod_eq_zero hmod)).symm

/-- More digits than any amount has. -/
theorem shift_too_large {shift : Int} (hc : 0 < c)
    (h : 1024 < shift) : (c : ℚ) * 10 ^ shift ≠ usd.units := by
  intro heq
  rw [shift_up_eq_iff (by omega)] at heq
  have hpow : 10 ^ 38 ≤ 10 ^ shift.toNat := Nat.pow_le_pow_right (by decide) (by omega)
  have hle := Nat.le_mul_of_pos_left (10 ^ shift.toNat) hc
  have hbounded := usd.bounded
  omega

theorem fixedUsd_ok_iff {numeral : Numeral} (hreadable : numeral.Readable) :
    fixedUsd numeral.pieces = .ok usd ↔ (numeral.coefficient = 0
          ∨ (numeral.places : Int) - 18 - 1024 ≤ numeral.power)
        ∧ numeral.value = usd.value := by
  have hall : AllDigits (numeral.whole ++ numeral.fraction.getD []) := by
    refine hreadable.grammatical.whole.2.append ?_
    cases hf : numeral.fraction with
    | none => exact fun c hc => by cases hc
    | some f => exact (hreadable.grammatical.fraction f hf).2
  rw [Numeral.value_eq_iff]
  unfold fixedUsd Numeral.pieces
  dsimp only
  rw [digitsVal_dropZeros]
  change _ ↔ (digitsVal (numeral.whole ++ numeral.fraction.getD []) = 0 ∨ _)
    ∧ ((digitsVal (numeral.whole ++ numeral.fraction.getD []) : ℚ)) * _ = _
  by_cases hzero : dropZeros (numeral.whole ++ numeral.fraction.getD []) = []
  · -- no digit is left: the amount is zero whatever the exponent
    rw [if_pos hzero, (dropZeros_eq_nil_iff hall).mp hzero]
    constructor
    · intro h
      cases h
      exact ⟨Or.inl rfl, by simp [Usd.zero]⟩
    · rintro ⟨-, heq⟩
      have hunits : usd.units = 0 := by
        rw [Nat.cast_zero, zero_mul] at heq
        exact_mod_cast heq.symm
      exact congrArg Except.ok (Usd.ext_units hunits.symm)
  · have hc : 0 < digitsVal (numeral.whole ++ numeral.fraction.getD []) :=
      Nat.pos_of_ne_zero fun h => hzero ((dropZeros_eq_nil_iff hall).mpr h)
    generalize digitsVal (numeral.whole ++ numeral.fraction.getD []) = c at *
    have hshift : numeral.shift = numeral.power - ((numeral.places : Int) - 18) := rfl
    rw [if_neg hzero]
    change (if (numeral.places : Int) - 18 + 1024 < numeral.power then _
      else if numeral.power < (numeral.places : Int) - 18 - 1024 then _
      else if 0 ≤ numeral.shift then boundedUsd (c * 10 ^ numeral.shift.toNat)
      else if c % 10 ^ (-numeral.shift).toNat ≠ 0 then _
      else boundedUsd (c / 10 ^ (-numeral.shift).toNat)) = _ ↔ _
    split
    · have hlarge : (c : ℚ) * 10 ^ numeral.shift ≠ usd.units := shift_too_large hc (by omega)
      exact ⟨fun h => (by cases h), fun h => absurd h.2 hlarge⟩
    · split
      · exact ⟨fun h => (by cases h), fun h => absurd h.1 (by omega)⟩
      · split
        · rename_i hup
          rw [boundedUsd_ok_iff, shift_up_eq_iff hup]
          exact ⟨fun h => ⟨Or.inr (by omega), h⟩, fun h => h.2⟩
        · rw [shift_down_eq_iff (by omega)]
          split
          · rename_i hrem
            exact ⟨fun h => (by cases h), fun h => absurd h.2.1 hrem⟩
          rename_i hrem
          rw [boundedUsd_ok_iff]
          exact ⟨fun h => ⟨Or.inr (by omega), not_not.mp hrem, h⟩,
            fun h => h.2.2⟩

/-- `ParseUSD` accepts the numerals within its bounds whose value is an
amount, and returns that amount. -/
theorem parseUsd_ok_iff {text : String} : parseUsd text = .ok usd
      ↔ ∃ numeral : Numeral, numeral.text = text.toList ∧ numeral.Grammatical ∧ numeral.Bounded
        ∧ numeral.value = usd.value := by
  unfold parseUsd
  constructor
  · intro h
    obtain ⟨pieces, hpieces, h⟩ := bind_ok h
    obtain ⟨numeral, htext, hreadable, rfl⟩ := readable_of_readPieces hpieces
    obtain ⟨hshift, hvalue⟩ := (fixedUsd_ok_iff hreadable).mp h
    exact ⟨numeral, htext, hreadable.grammatical,
      ⟨hreadable.whole, hreadable.places, hreadable.power, hshift⟩, hvalue⟩
  · rintro ⟨numeral, htext, hgrammar, hbounded, hvalue⟩
    have hreadable : numeral.Readable := ⟨hgrammar, hbounded.whole, hbounded.places, hbounded.power⟩
    rw [← htext, readPieces_of_readable hreadable]
    exact (fixedUsd_ok_iff hreadable).mpr ⟨hbounded.shift, hvalue⟩

-- ===== printing

/-- The digits that `String` prints, the point apart. -/
def printedDigits (units : Nat) : List Char :=
  let digits := Nat.toDigits 10 units
  if digits.length ≤ 18 then
    List.replicate (18 - digits.length + 1) '0' ++ digits
  else digits

theorem allDigits_printed (units : Nat) : AllDigits (printedDigits units) := by
  unfold printedDigits
  dsimp only
  split
  · refine AllDigits.append ?_ (allDigits_toDigits units)
    intro c hc
    rw [List.eq_of_mem_replicate hc]
    decide
  · exact allDigits_toDigits units

@[simp] theorem digitsVal_printed (units : Nat) : digitsVal (printedDigits units) = units := by
  unfold printedDigits
  dsimp only
  split
  · have hzeros : ∀ n, digitsVal (List.replicate n '0') = 0 := by
      intro n
      unfold digitsVal
      rw [Nat.ofDigitChars_replicate_zero, Nat.mul_zero]
    rw [digitsVal_append, hzeros, Nat.zero_mul, Nat.zero_add, digitsVal_toDigits]
  · exact digitsVal_toDigits units

theorem length_printed (units : Nat) : (printedDigits units).length
      = max 19 (Nat.toDigits 10 units).length := by
  unfold printedDigits
  dsimp only
  split
  · rw [List.length_append, List.length_replicate]
    omega
  · omega

/-- `String`, by its digits. -/
theorem toList_text (usd : Usd) : usd.text.toList = (printedDigits usd.units).take
          ((printedDigits usd.units).length - 18)
        ++ '.' :: (printedDigits usd.units).drop ((printedDigits usd.units).length - 18) := by
  unfold Usd.text
  rw [toList_toString]
  simp only [String.toList_append, String.toList_ofList, List.append_assoc]
  rfl

/-- The printed form: eighteen fraction digits, no exponent, and no zero
in front but a single one. -/
structure Numeral.Fixed (numeral : Numeral) : Prop where
  grammatical : numeral.Grammatical
  exponent : numeral.exponent = none
  fraction : ∃ f, numeral.fraction = some f ∧ f.length = 18
  leading : numeral.whole.head? = some '0' → numeral.whole = ['0']

theorem Numeral.Fixed.value {numeral : Numeral} (h : numeral.Fixed) :
    numeral.value = numeral.coefficient / 10 ^ 18 := by
  obtain ⟨f, hf, hlen⟩ := h.fraction
  have hpower : numeral.power = 0 := by
    rw [Numeral.power, h.exponent]
    rfl
  have hplaces : numeral.places = 18 := by
    rw [Numeral.places, hf]
    exact hlen
  rw [Numeral.value, hpower, hplaces, div_eq_mul_inv]
  congr 1

/-- A printed form has as many digits as its value. -/
theorem Numeral.Fixed.bounds {numeral : Numeral} (h : numeral.Fixed) :
    numeral.coefficient < 10 ^ (numeral.whole.length + 18)
      ∧ (1 < numeral.whole.length → 10 ^ (numeral.whole.length + 17) ≤ numeral.coefficient) := by
  obtain ⟨f, hf, hflen⟩ := h.fraction
  obtain ⟨-, hwhole⟩ := h.grammatical.whole
  have hall := hwhole.append (h.grammatical.fraction f hf).2
  rw [Numeral.coefficient, hf, Option.getD_some]
  constructor
  · have := digitsVal_lt hall
    rwa [List.length_append, hflen] at this
  · intro hlong
    cases hw : numeral.whole with
    | nil => simp [hw] at hlong
    | cons c rest =>
      have hzero : c ≠ '0' := by
        rintro rfl
        rw [h.leading (by rw [hw]; rfl)] at hlong
        exact absurd hlong (by decide)
      have hpow : 10 ^ (rest ++ f).length ≤ digitsVal (c :: (rest ++ f)) :=
        pow_le_digitsVal (hwhole c (hw ▸ List.mem_cons_self)) hzero
      rw [List.length_append, hflen] at hpow
      exact hpow

theorem Numeral.Fixed.whole_le {m n : Numeral} (hm : m.Fixed) (hn : n.Fixed)
    (heq : m.coefficient = n.coefficient) : m.whole.length ≤ n.whole.length := by
  by_contra! hlt
  have hne := List.length_pos_iff.mpr hn.grammatical.whole.1
  have hlow := hm.bounds.2 (by omega)
  have hpow : 10 ^ (n.whole.length + 18) ≤ 10 ^ (m.whole.length + 17) :=
    Nat.pow_le_pow_right (by decide) (by omega)
  have hhigh := hn.bounds.1
  omega

/-- A printed form is determined by its value. -/
theorem Numeral.Fixed.text_eq {m n : Numeral} (hm : m.Fixed) (hn : n.Fixed)
    (heq : m.coefficient = n.coefficient) : m.text = n.text := by
  have hlen := (hm.whole_le hn heq).antisymm (hn.whole_le hm heq.symm)
  obtain ⟨f, hf, hflen⟩ := hm.fraction
  obtain ⟨f', hf', hflen'⟩ := hn.fraction
  rw [Numeral.coefficient, Numeral.coefficient, hf, hf'] at heq
  have hdigits := digits_ext (hm.grammatical.whole.2.append (hm.grammatical.fraction f hf).2)
    (hn.grammatical.whole.2.append (hn.grammatical.fraction f' hf').2)
    (by rw [List.length_append, List.length_append, hlen, hflen, hflen']) heq
  obtain ⟨hwhole, hfraction⟩ := List.append_inj hdigits hlen
  rw [Numeral.text, Numeral.text, hm.exponent, hn.exponent, hf, hf', hwhole, hfraction]

/-- The numeral that is printed. -/
def Usd.numeral (usd : Usd) : Numeral :=
  ⟨(printedDigits usd.units).take ((printedDigits usd.units).length - 18),
    some ((printedDigits usd.units).drop ((printedDigits usd.units).length - 18)), none⟩

theorem Usd.coefficient_numeral (usd : Usd) : usd.numeral.coefficient = usd.units := by
  rw [Numeral.coefficient, Usd.numeral, Option.getD_some, List.take_append_drop, digitsVal_printed]

theorem Usd.fixed_numeral (usd : Usd) : usd.numeral.Fixed := by
  have hall := allDigits_printed usd.units
  have hlen := length_printed usd.units
  have htake : (usd.numeral.whole).length = (printedDigits usd.units).length - 18 := by
    rw [Usd.numeral, List.length_take]
    omega
  refine ⟨⟨⟨?_, ?_⟩, ?_, fun e he => (by cases he)⟩, rfl, ⟨_, rfl, ?_⟩, ?_⟩
  · intro hnil
    rw [hnil] at htake
    simp at htake
    omega
  · exact fun c hc => hall c (List.mem_of_mem_take hc)
  · intro f hf
    cases hf
    refine ⟨?_, fun c hc => hall c (List.mem_of_mem_drop hc)⟩
    intro hnil
    have := congrArg List.length hnil
    rw [List.length_drop, List.length_nil] at this
    omega
  · rw [List.length_drop]
    omega
  · intro hzero
    have hhead : (printedDigits usd.units).head? = some '0' := by
      rw [← hzero, Usd.numeral, List.head?_take, if_neg (by omega)]
    by_cases hshort : (Nat.toDigits 10 usd.units).length ≤ 18
    · have hone : usd.numeral.whole.length = 1 := by omega
      obtain ⟨c, hc⟩ := List.length_eq_one_iff.mp hone
      rw [hc] at hzero ⊢
      cases hzero
      rfl
    · -- a number of more digits begins with none that is zero
      have hprinted : printedDigits usd.units = Nat.toDigits 10 usd.units := by
        unfold printedDigits
        rw [if_neg hshort]
      have hunits : 0 < usd.units := by
        refine Nat.pos_of_ne_zero fun h => hshort ?_
        rw [h]
        decide
      rw [hprinted] at hhead
      exact absurd hhead (head_toDigits_ne_zero hunits)

theorem Usd.text_numeral (usd : Usd) : usd.numeral.text = usd.text.toList := by
  rw [toList_text]
  simp [Numeral.text, Usd.numeral, pointed]

theorem Usd.value_numeral (usd : Usd) : usd.numeral.value = usd.value := by
  rw [usd.fixed_numeral.value, usd.coefficient_numeral]
  rfl

theorem Usd.bounded_numeral (usd : Usd) : usd.numeral.Bounded := by
  have hlen := length_printed usd.units
  have hdigits : (Nat.toDigits 10 usd.units).length ≤ 38 := by
    rw [Nat.length_toDigits_le_iff (by decide : 1 < 10) (by decide)]
    have := usd.bounded
    omega
  have hplaces : usd.numeral.places = 18 := by
    rw [Numeral.places, Usd.numeral, Option.getD_some, List.length_drop]
    omega
  have hpower : usd.numeral.power = 0 := rfl
  refine ⟨?_, by omega, by omega, Or.inr (by omega)⟩
  rw [Usd.numeral, List.length_take]
  omega

/-- `ParseUSD` is exact and `String` prints the one fixed form: what is
printed is read back as the amount it was, and no other text of eighteen
fraction digits without an exponent or a needless zero has its value. -/
theorem parseUsd_exact : (∀ (text : String) (usd : Usd), parseUsd text = .ok usd
        ↔ ∃ numeral : Numeral, numeral.text = text.toList ∧ numeral.Grammatical ∧ numeral.Bounded
          ∧ numeral.value = usd.value)
      ∧ ∀ usd : Usd, parseUsd usd.text = .ok usd ∧ (∃ numeral : Numeral, numeral.Fixed
          ∧ numeral.text = usd.text.toList)
        ∧ ∀ numeral : Numeral, numeral.Fixed →
          numeral.value = usd.value → numeral.text = usd.text.toList := by
  refine ⟨fun text usd => parseUsd_ok_iff, fun usd => ⟨?_, ?_, ?_⟩⟩
  · exact parseUsd_ok_iff.mpr ⟨usd.numeral, usd.text_numeral,
      usd.fixed_numeral.grammatical, usd.bounded_numeral,
      usd.value_numeral⟩
  · exact ⟨usd.numeral, usd.fixed_numeral, usd.text_numeral⟩
  · intro numeral hfixed hvalue
    rw [hfixed.value, Usd.value, div_left_inj' (by positivity)] at hvalue
    rw [← usd.text_numeral]
    refine hfixed.text_eq usd.fixed_numeral ?_
    rw [usd.coefficient_numeral]
    exact_mod_cast hvalue

/-- A dollar and a half, from three texts. -/
theorem parseUsd_exact_half : parseUsd "1.5" = .ok ⟨1500000000000000000, by decide⟩
      ∧ parseUsd "15E-1" = .ok ⟨1500000000000000000, by decide⟩
      ∧ parseUsd (Usd.text ⟨1500000000000000000, by decide⟩)
        = .ok ⟨1500000000000000000, by decide⟩ :=
  ⟨by decide +kernel, by decide +kernel, (parseUsd_exact.2 _).1⟩

/-- Zero, written with so many digits. -/
def zeros (n : Nat) : Numeral := ⟨List.replicate n '0', none, none⟩

theorem zeros_grammatical {n : Nat} (hn : 0 < n) : (zeros n).Grammatical := by
  refine ⟨⟨?_, ?_⟩, fun f hf => (by cases hf), fun e he => (by cases he)⟩
  · intro hnil
    have := congrArg List.length hnil
    rw [zeros, List.length_replicate, List.length_nil] at this
    omega
  · intro c hc
    rw [List.eq_of_mem_replicate hc]
    decide

theorem zeros_value (n : Nat) : (zeros n).value = Usd.zero.value := by
  have hzero : digitsVal (List.replicate n '0' ++ []) = 0 := by
    rw [List.append_nil]
    unfold digitsVal
    rw [Nat.ofDigitChars_replicate_zero, Nat.mul_zero]
  have hcoefficient : (zeros n).coefficient = 0 := hzero
  rw [Numeral.value, hcoefficient, Nat.cast_zero, zero_mul, Usd.value,
    Usd.zero, Nat.cast_zero, zero_div]

theorem zeros_refused : parseUsd (String.ofList (zeros 1025).text) = .error .exceeds := by
  unfold parseUsd
  rw [String.toList_ofList]
  decide +kernel

/-- Zero is printed with eighteen zeros although `0` is read as the same
amount, and a zero of 1025 digits is not read at all. -/
theorem printed_zero_not_shortest : parseUsd Usd.zero.text = .ok Usd.zero
      ∧ parseUsd "0" = .ok Usd.zero
      ∧ "0".length < Usd.zero.text.length
      ∧ (zeros 1025).Grammatical ∧ (zeros 1025).value = Usd.zero.value
      ∧ parseUsd (String.ofList (zeros 1025).text) = .error .exceeds :=
  ⟨by decide +kernel, by decide +kernel, by decide +kernel,
    zeros_grammatical (by decide), zeros_value _, zeros_refused⟩

end LlmTemporalWorker.Pricing
