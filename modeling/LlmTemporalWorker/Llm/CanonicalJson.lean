/-
Canonical JSON (llm/canonicaljson.go).

Digests and stored records are computed over one text per JSON value: a
value is parsed token by token, with repeated keys, trailing data and
nesting beyond a limit refused, and written again without space and with
the keys of every object sorted. Numbers keep their text.

The decoder is the library's model of `encoding/json`; the texts of its
own errors are left out. A parsed number is valid by its type, so the
writer's check of it is not repeated here, and the buffer size hint is
left out.
-/
import LlmTemporalWorker.Lib.Json.Compact

namespace LlmTemporalWorker.Llm

open Lib
open Lib.Json (Decoder Token DecodeError newDecoder quote joinComma)

def defaultCanonicalMaxBytes : Int := 8 * 2 ^ 20
def defaultCanonicalMaxDepth : Int := 128
def maxToolArgumentsDepth : Int := 96

/-- An error of the canonicalizer; `limit` marks those that wrap
`ErrCanonicalJSONLimit`. -/
structure CanonicalError where
  limit : Bool
  message : String
deriving DecidableEq, Repr

def canonicalFailure (message : String) : CanonicalError := ⟨false, message⟩

def canonicalLimitError (message : String) : CanonicalError := ⟨true, message⟩

/-- The message for each way the token loop of `parseCanonicalValue`
stops. -/
def canonicalTreeError (maxDepth : Int) : Decoder.TreeError → CanonicalError
  | .token .value .eof =>
    canonicalFailure "canonical JSON ended before a value"
  | .token .value .malformed => canonicalFailure "canonical JSON token"
  | .token .key _ => canonicalFailure "canonical JSON object key"
  | .token .objectEnd _ => canonicalFailure "canonical JSON object end"
  | .token .arrayEnd _ => canonicalFailure "canonical JSON array end"
  | .keyNotString =>
    canonicalFailure "canonical JSON object key is not a string"
  | .duplicate key =>
    canonicalFailure ("canonical JSON duplicate object key " ++ key.quote)
  | .tooDeep =>
    canonicalLimitError ("canonical JSON exceeds depth " ++ toString maxDepth)
  | .notObjectEnd => canonicalFailure "canonical JSON object ended"
  | .notArrayEnd => canonicalFailure "canonical JSON array ended"
  | .unexpectedDelimiter =>
    canonicalFailure "canonical JSON unexpected delimiter"
  | .unfinished => canonicalFailure "canonical JSON token"

def parseCanonicalValue (decoder : Decoder) (fuel : Nat) (maxDepth : Int) :
    Except CanonicalError (Json × Decoder) :=
  (decoder.tree ⟨some maxDepth.toNat, true⟩ fuel 0).mapError (canonicalTreeError maxDepth)

-- ===== the writer

/-- The bytes that `json.Marshal` would not leave as they are. -/
def needsMarshal (c : UInt8) : Bool :=
  c.toNat < 0x20 || 0x7f < c.toNat || c == 0x22 || c == 0x5c || c == 0x3c
    || c == 0x3e || c == 0x26

def writeCanonicalString (value : String) : Bytes :=
  if (utf8 value.toList).any needsMarshal then quote value
  else 0x22 :: utf8 value.toList ++ [0x22]

mutual

/-- `writeCanonicalValue`: an object is written in the order of its
sorted keys. -/
def writeCanonicalValue : Json → Bytes
  | .null => [0x6e, 0x75, 0x6c, 0x6c]
  | .bool true => [0x74, 0x72, 0x75, 0x65]
  | .bool false => [0x66, 0x61, 0x6c, 0x73, 0x65]
  | .number literal => literal.text
  | .string text => writeCanonicalString text
  | .array items => 0x5b :: joinComma (writeCanonicalItems items) ++ [0x5d]
  | .object members =>
    0x7b :: joinComma ((sortByKey (writeCanonicalMembers members)).map
      fun m => writeCanonicalString m.1 ++ 0x3a :: m.2) ++ [0x7d]

def writeCanonicalItems : List Json → List Bytes
  | [] => []
  | v :: vs => writeCanonicalValue v :: writeCanonicalItems vs

def writeCanonicalMembers : List (String × Json) → List (String × Bytes)
  | [] => []
  | (k, v) :: ms => (k, writeCanonicalValue v) :: writeCanonicalMembers ms

end

-- ===== the entry points

/-- The value is followed by the end of the text. -/
def noTrailing (decoder : Decoder) : Except CanonicalError Unit :=
  match decoder.token with
  | .error .eof => .ok ()
  | .error .malformed =>
    .error (canonicalFailure "canonical JSON trailing input")
  | .ok _ => .error (canonicalFailure "canonical JSON has trailing value")

def canonicalJsonWithLimits (data : Bytes) (maxBytes maxDepth : Int) :
    Except CanonicalError Bytes := do
  if maxBytes ≤ 0 then
    throw (canonicalFailure "canonical JSON byte limit must be positive")
  if maxDepth ≤ 0 then
    throw (canonicalFailure "canonical JSON depth limit must be positive")
  if data.length = 0 then
    throw (canonicalFailure "canonical JSON is empty")
  if (data.length : Int) > maxBytes then
    throw (canonicalLimitError ("canonical JSON exceeds " ++ toString maxBytes ++ " bytes"))
  let parsed ←
    parseCanonicalValue (newDecoder data) (2 * data.length + 1) maxDepth
  noTrailing parsed.2
  let output := writeCanonicalValue parsed.1
  if (output.length : Int) > maxBytes then
    throw (canonicalLimitError ("canonical JSON output exceeds " ++ toString maxBytes ++ " bytes"))
  return output

def canonicalToolArguments (data : Bytes) : Except CanonicalError Bytes :=
  canonicalJsonWithLimits data defaultCanonicalMaxBytes maxToolArgumentsDepth

end LlmTemporalWorker.Llm
