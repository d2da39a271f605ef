/-
Operation records as JSON (storage/redis/codec.go), on both sides of
the Redis Function.

The Go store marshals an operation, the Function decodes it into a Lua
table, changes it and encodes it again, and the Go store unmarshals what
it gets back. Three forms of one record meet there, so the record is
written once, over the representation of a number:

- in JSON text a number is a literal (`NumberLiteral`);
- in a Lua table it is a double, and every double a record holds that
  passes the Function's checks is an integer, so `Int`;
- in Go it is an `int64`, also `Int`.

Strings cross the boundary unchanged, and so do monetary scalars, which
are decimal strings; the model holds the numbers they denote. A decimal
string that is no number, and a number that is no integer, are refused
by the Function exactly as a negative number is, and stand here as one.
A missing string of a Lua table stands here as the empty one: Go decodes
both to the empty string.
-/
import LlmTemporalWorker.Admission.Types

namespace LlmTemporalWorker.Admission

open Lib Budget

-- ===== numbers

/-- A number as JSON text. -/
inductive NumberLiteral where
  /-- digits only -/
  | plain (value : Int)
  /-- with an exponent, as in `1.728e+14` -/
  | exponent (value : Int)
deriving DecidableEq, Repr

/-- The double nearest to an integer. -/
def luaDouble (value : Int) : Int :=
  if value.natAbs ≤ 2 ^ 53 then value
  else value.sign * roundSig 2 53 value.natAbs

/-- `cjson.decode` of a number. -/
def luaNumber : NumberLiteral → Int
  | .plain value | .exponent value => luaDouble value

/-- `cjson.encode` of a number prints `%.14g`: fourteen significant
digits, in exponent style from the fifteenth digit on. -/
def cjsonLiteral (value : Int) : NumberLiteral :=
  if value.natAbs < 10 ^ 14 then .plain value
  else .exponent (cjsonInt value)

/-- `json.Unmarshal` into an `int64` takes only digits. -/
def goInt64 : NumberLiteral → Except String Int
  | .plain value =>
    if -2 ^ 63 ≤ value ∧ value < 2 ^ 63 then .ok value
    else .error "json: cannot unmarshal number into int64"
  | .exponent _ => .error "json: cannot unmarshal number into int64"

-- ===== arrays

/-- A JSON value where an array is expected. -/
inductive JsonVector (α : Type) where
  | array (items : List α)
  /-- `{}` -/
  | object
  /-- no table at all -/
  | other
deriving DecidableEq, Repr

/-- The Lua table a JSON value decodes to. -/
def JsonVector.table {α : Type} : JsonVector α → Option (List α)
  | .array items => some items
  | .object => some []
  | .other => none

/-- `cjson.encode` of a table: an empty table is an empty object. -/
def cjsonVector {α : Type} : Option (List α) → JsonVector α
  | some [] => .object
  | some items => .array items
  | none => .other

-- ===== records

structure ReservationWire (N : Type) where
  (policy window : String)
  (bucket amount limit bucketNs durationNs : N)
deriving DecidableEq, Repr

def ReservationWire.map {N M : Type} (f : N → M) (r : ReservationWire N) : ReservationWire M :=
  ⟨r.policy, r.window, f r.bucket, f r.amount, f r.limit, f r.bucketNs, f r.durationNs⟩

structure AttemptWire (N : Type) where
  (routeId endpointId provider resolvedModel providerRequestId : String)
  serviceClass : String
  dispatch : DispatchCertainty
  attemptNumber : N
deriving DecidableEq, Repr

def AttemptWire.map {N M : Type} (f : N → M) (a : AttemptWire N) : AttemptWire M :=
  ⟨a.routeId, a.endpointId, a.provider, a.resolvedModel,
    a.providerRequestId, a.serviceClass, a.dispatch, f a.attemptNumber⟩

structure BlobRefWire (N : Type) where
  digest : String
  size : N
  media : String
deriving DecidableEq, Repr

def BlobRefWire.map {N M : Type} (f : N → M) (b : BlobRefWire N) : BlobRefWire M :=
  ⟨b.digest, f b.size, b.media⟩

/-- A `seconds:micros` timestamp; `epoch` is `redisUnixEpochTime`. -/
inductive RedisTime where
  | epoch
  | stamp (seconds micros : Int)
deriving DecidableEq, Repr

/-- `operationWire`, with schema `admission/v1`, over a number `N` and a
reservation vector `R`. An attempt that is no table is `none`. -/
structure OperationWire (N R : Type) where
  (id scopeKey digest : String)
  state : OperationState
  (reserved incurred final : Int)
  reservations : R
  (config price : String)
  attempt : Option (AttemptWire N)
  result : Option (BlobRefWire N)
  (token lease : String)
  (created updated : RedisTime)
  expires : String
deriving DecidableEq, Repr

/-- A record as the Function holds it. -/
abbrev LuaRecord := OperationWire Int (Option (List (ReservationWire Int)))

/-- A record as JSON text. -/
abbrev RecordText :=
  OperationWire NumberLiteral (JsonVector (ReservationWire NumberLiteral))

/-- `cjson.decode` of a record. -/
def RecordText.decode (t : RecordText) : LuaRecord :=
  { t with
    reservations := t.reservations.table.map (List.map (ReservationWire.map luaNumber))
    attempt := t.attempt.map (AttemptWire.map luaNumber)
    result := t.result.map (BlobRefWire.map luaNumber) }

/-- `cjson.encode` of a record. -/
def LuaRecord.encode (r : LuaRecord) : RecordText :=
  { r with
    reservations := cjsonVector (r.reservations.map (List.map (ReservationWire.map cjsonLiteral)))
    attempt := r.attempt.map (AttemptWire.map cjsonLiteral)
    result := r.result.map (BlobRefWire.map cjsonLiteral) }

/-- `denialWire`; the Function always sends a retry of zero. -/
structure DenialWire (N : Type) where
  (policy window : String)
  (limit active requested : N)
deriving DecidableEq, Repr

def DenialWire.map {N M : Type} (f : N → M) (d : DenialWire N) : DenialWire M :=
  ⟨d.policy, d.window, f d.limit, f d.active, f d.requested⟩

-- ===== small lemmas

theorem luaDouble_of_le {v : Int} (h : v.natAbs ≤ 2 ^ 53) : luaDouble v = v := if_pos h

@[simp] theorem table_array {α : Type} (xs : List α) : (JsonVector.array xs).table = some xs := rfl

theorem table_cjsonVector {α : Type} (xs : Option (List α)) : (cjsonVector xs).table = xs := by
  match xs with
  | none | some [] | some (_ :: _) => rfl

/-- What a record's reservations read as after being stored. -/
theorem LuaRecord.decode_encode_reservations (r : LuaRecord) :
    r.encode.decode.reservations = r.reservations.map
      (List.map (ReservationWire.map (luaNumber ∘ cjsonLiteral))) := by
  show (cjsonVector _).table.map _ = _
  rw [table_cjsonVector, Option.map_map]
  congr 1
  funext rs
  simp only [Function.comp_apply, List.map_map]
  rfl

end LlmTemporalWorker.Admission
