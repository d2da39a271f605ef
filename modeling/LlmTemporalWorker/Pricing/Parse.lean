/-
Reading exact amounts (pricing/decimal.go, `ParseUSD`).

An amount is written as a numeral: whole digits, an optional fraction
and an optional exponent. The reader cuts the text at its first `e` or
`E` and at its point, checks the pieces, and shifts the digits to the
fixed scale.

Texts are sequences of characters here. A byte sequence that is not
UTF-8 has a character that is no digit for the source's loop and no
digit for `ParseInt`, so it is refused like any other.
-/
import LlmTemporalWorker.Pricing.Decimal
import LlmTemporalWorker.Lib.Digits

namespace LlmTemporalWorker.Pricing

open Lib

-- ===== errors

/-- Why a text is no amount. -/
inductive ParseError where
  | notNonNegative
  | invalidExponent
  | invalid
  | exceeds
  | nonDigit
  | tooPrecise
deriving DecidableEq, Repr

-- ===== pieces

/-- `strings.TrimSpace(value) != value`. -/
def padded (value : List Char) : Bool :=
  value.head?.any isSpace || value.getLast?.any isSpace

/-- `len`, in bytes. -/
def byteLength (text : List Char) : Nat := (text.map Char.utf8Size).sum

/-- The sign that `strconv.ParseInt` takes off, and the rest. -/
def takeSign : List Char → Option Char × List Char
  | '+' :: digits => (some '+', digits)
  | '-' :: digits => (some '-', digits)
  | digits => (none, digits)

/-- `strconv.ParseInt(text, 10, 64)`. -/
def parseInt64 (text : List Char) : Option Int :=
  let (sign, digits) := takeSign text
  if digits = [] ∨ digits.all Char.isDigit = false then none
  else
    let value : Int :=
      if sign = some '-' then -(digitsVal digits : Int)
      else (digitsVal digits : Int)
    if -2 ^ 63 ≤ value ∧ value < 2 ^ 63 then some value else none

/-- The character that begins an exponent. -/
def isMarker (c : Char) : Bool := c == 'e' || c == 'E'

/-- The checked pieces of a numeral. -/
structure Pieces where
  (whole fraction : List Char)
  exponent : Int
deriving DecidableEq, Repr

/-- The exponent after the marker, if there is one. -/
def readExponent : List Char → Except ParseError Int
  | [] => .ok 0
  | _ :: text =>
    match parseInt64 text with
    | none => .error .invalidExponent
    | some exponent => .ok exponent

/-- The whole and the fraction digits. -/
def readMantissa (mantissa : List Char) : Except ParseError (List Char × List Char) := do
  if 1 < mantissa.count '.' ∨ mantissa = ['.'] then throw .invalid
  let whole := mantissa.takeWhile (· != '.')
  let pointed := mantissa.dropWhile (· != '.')
  let fraction := pointed.drop 1
  if whole = [] ∨ (pointed ≠ [] ∧ fraction = []) then throw .invalid
  if 1024 < byteLength whole ∨ 1024 < byteLength fraction then
    throw .exceeds
  if (whole ++ fraction).all Char.isDigit = false then throw .nonDigit
  return (whole, fraction)

/-- `ParseUSD` up to its digits. -/
def readPieces (value : List Char) : Except ParseError Pieces := do
  if value = [] ∨ padded value = true ∨ value.head? = some '+'
      ∨ value.head? = some '-' then
    throw .notNonNegative
  let exponent ← readExponent (value.dropWhile (!isMarker ·))
  let (whole, fraction) ← readMantissa (value.takeWhile (!isMarker ·))
  return ⟨whole, fraction, exponent⟩

/-- The last test of `ParseUSD`. -/
def boundedUsd (units : Nat) : Except ParseError Usd :=
  if h : units ≤ 10 ^ 38 - 1 then .ok ⟨units, h⟩ else .error .exceeds

/-- `ParseUSD` from its digits on. -/
def fixedUsd (pieces : Pieces) : Except ParseError Usd :=
  let digits := dropZeros (pieces.whole ++ pieces.fraction)
  if digits = [] then .ok Usd.zero
  else
    let coefficient := digitsVal digits
    let offset : Int := pieces.fraction.length - 18
    if offset + 1024 < pieces.exponent then .error .exceeds
    else if pieces.exponent < offset - 1024 then .error .tooPrecise
    else
      let fixedShift := pieces.exponent - offset
      if 0 ≤ fixedShift then
        boundedUsd (coefficient * 10 ^ fixedShift.toNat)
      else
        let divisor := 10 ^ (-fixedShift).toNat
        if coefficient % divisor ≠ 0 then .error .tooPrecise
        else boundedUsd (coefficient / divisor)

def parseUsd (value : String) : Except ParseError Usd :=
  readPieces value.toList >>= fixedUsd

end LlmTemporalWorker.Pricing
