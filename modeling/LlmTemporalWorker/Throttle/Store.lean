/-
The throttle store (storage/redis/throttle.go): `Acquire`, `Lookup` and
`Release`.

A caller gets a `ThrottleReservation` from `Acquire` or `Lookup` and
hands it back to `Release`, which derives the counters' keys from it.
The Function compares the digest of the limits with the one it keeps,
and the amounts, but not the keys.

What the store takes from its surroundings is the parameter `Host`.
-/
import LlmTemporalWorker.Throttle.Function
import LlmTemporalWorker.Lib.Terminated

namespace LlmTemporalWorker.Throttle

open Lib Budget Admission Pricing

/-- What a `ThrottleStore` is built with. -/
structure Host where
  maxRecordBytes : Nat
  /-- length of the text that `json.Marshal` writes -/
  payloadBytes : ThrottleText → Nat
  /-- length of the text that `cjson.encode` writes -/
  recordBytes : ThrottleText → Nat
  /-- `time.Duration.String` -/
  durationText : Int → String
  durationText_plain : ∀ d, '\x00' ∉ (durationText d).toList

/-- `ThrottleLimit`; the window is in nanoseconds. -/
structure ThrottleLimit where
  kind : ThrottleKind
  scope : String
  (amount limit window : Int)
deriving DecidableEq, Repr

structure ThrottleReservationLimit where
  kind : ThrottleKind
  keyDigest : KeyDigest
  amount : Int
deriving DecidableEq, Repr

structure ThrottleReservation where
  id : String
  digest : LimitsDigest
  limits : List ThrottleReservationLimit
deriving DecidableEq, Repr

structure ThrottleAcquireResult where
  existing : Bool
  reservation : ThrottleReservation
deriving DecidableEq, Repr

-- ===== checks

variable (l : ThrottleLimit)

def validateThrottleLimit : Except String Unit :=
  if l.kind ≠ .requests ∧ l.kind ≠ .tokens ∧ l.kind ≠ .concurrency then
    .error "invalid Redis throttle kind"
  else if l.scope = "" ∨ l.amount ≤ 0 ∨ l.limit ≤ 0 ∨ l.limit < l.amount
      ∨ (nanoUsdSafeLimit : Int) < l.limit ∨ l.window ≤ 0 then
    .error "invalid Redis throttle limit"
  else .ok ()

/-- The fields of a limit that `throttleDigest` writes. -/
def digestFields (host : Host) (l : ThrottleLimit) : List (List Char) :=
  [l.kind.text.toList, l.scope.toList, (toString l.amount).toList,
    (toString l.limit).toList, (host.durationText l.window).toList]

def throttleDigest (host : Host) (limits : List ThrottleLimit) :
    LimitsDigest :=
  ⟨terminated '\x00' (limits.flatMap (digestFields host))⟩

/-- `keySpace.throttleDigest` of a limit. -/
def ThrottleLimit.keyDigest : KeyDigest :=
  ⟨l.kind, l.scope⟩

/-- `keySpace.throttleKey` of a limit. -/
def ThrottleLimit.key : CounterKey :=
  ⟨l.kind, l.keyDigest⟩

/-- A limit as `Acquire` writes it. -/
def ThrottleLimit.wire : ThrottleWireLimit NumberLiteral :=
  ⟨l.kind, l.keyDigest, .plain l.amount, .plain l.limit⟩

/-- A limit's window in whole seconds, rounded up; the sum is an
`int64`. -/
def ThrottleLimit.seconds : Int :=
  ((l.window + 10 ^ 9 - 1).bmod (2 ^ 64)).tdiv (10 ^ 9)

/-- The loop of `Acquire` over the limits: checks them and takes the
longest window. -/
def acquireLoop (seen : List KeyDigest) (ttl : Int) : List ThrottleLimit → Except String Int
  | [] => .ok ttl
  | l :: rest => do
      validateThrottleLimit l
      if l.keyDigest ∈ seen then
        throw "duplicate Redis throttle limit"
      acquireLoop (l.keyDigest :: seen) (if ttl < l.seconds then l.seconds else ttl) rest

-- ===== acquire

def decodeThrottleReservation (text : ThrottleText) : Except String ThrottleReservation := do
  let limits ← text.limits.mapM fun l => do
    let amount ← goInt64 l.amount
    let _ ← goInt64 l.limit
    pure (⟨l.kind, l.keyDigest, amount⟩ : ThrottleReservationLimit)
  if text.id = "" ∨ limits = [] then
    throw "shared Redis state unavailable"
  if limits.any fun l => l.kind.text = "" ∨ l.amount ≤ 0
      ∨ (nanoUsdSafeLimit : Int) < l.amount then
    throw "shared Redis state unavailable"
  pure ⟨text.id, text.digest, limits⟩

/-- The first half of `Acquire`: what the Function answers. -/
def submitAcquire (host : Host) (id : String) (limits : List ThrottleLimit) (K : Keyspace) :
    Except String (Keyspace × Reply) := do
  if id = "" ∨ limits = [] ∨ 64 < limits.length then
    throw "invalid Redis throttle reservation"
  let ttl ← acquireLoop [] 1 limits
  let payload : ThrottleText :=
    ⟨id, throttleDigest host limits, limits.map ThrottleLimit.wire, none⟩
  if host.maxRecordBytes < host.payloadBytes payload then
    throw "encode Redis throttle reservation"
  pure (actionAcquire ⟨id, limits.map ThrottleLimit.key, some payload, ttl⟩ K)

/-- The reservation in an answer. -/
def decodeAnswer (existing : Bool) : Option ThrottleText → Except String ThrottleAcquireResult
  | none => .error "shared Redis state unavailable"
  | some text => match decodeThrottleReservation text with
    | .error _ => .error "shared Redis state unavailable"
    | .ok reservation => .ok ⟨existing, reservation⟩

/-- The second half of `Acquire`: what the store makes of the answer. -/
def answerAcquire (reply : Reply) : Except String ThrottleAcquireResult :=
  match reply.status with
  | .created => decodeAnswer false reply.record
  | .existing => decodeAnswer true reply.record
  | .denied => .error "Redis throttle limit denied"
  | .conflict => .error "Redis throttle reservation conflict"
  | .notFound => .error "Redis throttle reservation not found"
  | .stateUnavailable => .error "shared Redis state unavailable"
  | .invalidRequest => .error "invalid Redis admission request"
  | .released => .error "Redis admission function failed"

-- ===== lookup and release

def lookup (host : Host) (id : String) (K : Keyspace) : Except String ThrottleReservation :=
  match K.stored id with
  | none => .error "Redis throttle reservation not found"
  | some stored => match stored.text with
    | none => .error "shared Redis state unavailable"
    | some text =>
      if host.maxRecordBytes < host.recordBytes text then
        .error "shared Redis state unavailable"
      else decodeThrottleReservation text

/-- The first half of `Release`: what the Function answers. -/
def submitRelease (r : ThrottleReservation) (K : Keyspace) : Except String (Keyspace × Reply) := do
  if r.id = "" ∨ r.limits = [] then
    throw "invalid Redis throttle reservation"
  if r.limits.any fun l => l.amount ≤ 0
      ∨ (nanoUsdSafeLimit : Int) < l.amount then
    throw "invalid Redis throttle reservation limit"
  pure (actionRelease ⟨r.id, r.digest, r.limits.map fun l => (⟨l.kind, l.keyDigest⟩, l.amount)⟩ K)

end LlmTemporalWorker.Throttle
