/-
The Redis-backed admission store (storage/redis/admission.go, with the
codec of storage/redis/codec.go): `Begin`.

`Begin` checks the request, marshals a new operation, has the Function
admit it, and decodes the record that comes back. Everything that goes
wrong after the Function has answered is reported as an error although
the budgets are charged.

What the store takes from its surroundings is the parameter `Host`: the
layout of `time.Time` in JSON, the length of a JSON text, and the keys
that `keySpace` derives. Times are nanoseconds since the Unix epoch.
-/
import LlmTemporalWorker.Admission.Envelope
import LlmTemporalWorker.Admission.Function
import LlmTemporalWorker.Lib.Lists

namespace LlmTemporalWorker.Admission

open Lib Budget Pricing

-- ===== host

/-- What an `AdmissionStore` is built with. -/
structure Host where
  /-- `time.Time.MarshalJSON`; refuses a year it cannot write -/
  formatTime : Int → Except String String
  /-- `time.Time.UnmarshalJSON` -/
  parseTime : String → Except String Int
  parse_format : ∀ {t s}, formatTime t = .ok s → parseTime s = .ok t
  /-- length of the text that `json.Marshal` writes -/
  payloadBytes : RecordText → Nat
  /-- length of the text that `cjson.encode` writes -/
  recordBytes : RecordText → Nat
  recordBytes_pos : ∀ text, 0 < recordBytes text
  maxRecordBytes : Nat
  (scopeKey operationIndexKey : String → String)
  operationKey : String → String → String

-- ===== validation

/-- `validateRedisInteger`, `validateMicro`. -/
def validateRedisInteger (value : Int) : Except String Unit :=
  if value < 0 ∨ (nanoUsdSafeLimit : Int) < value then
    .error "integer exceeds Redis safe range"
  else .ok ()

/-- One turn of `validateReservations`. -/
def validateReservation (r : WindowReservation) : Except String Unit := do
  if r.policyId = "" ∨ r.windowId = "" ∨ r.limit ≤ 0 ∨ r.bucketNanos ≤ 0
      ∨ r.durationNanos ≤ 0 ∨ r.amount < 0 ∨ !microValid r.amount
      ∨ !microValid r.limit then
    throw "invalid admission reservation"
  validateRedisInteger r.amount
  validateRedisInteger r.limit
  validateRedisInteger r.bucket
  if (nanoUsdSafeLimit : Int) < r.bucketNanos
      ∨ (nanoUsdSafeLimit : Int) < r.durationNanos then
    throw "reservation duration exceeds Redis safe range"

def validateReservations (rs : List WindowReservation) : Except String Unit :=
  if maxReservations < rs.length then
    .error "admission reservation count exceeds Redis key limit"
  else rs.forM validateReservation

def validateBegin (request : BeginRequest) : Except String Unit := do
  if request.id = "" ∨ request.scopeKey = "" ∨ request.reservation < 0
      ∨ !microValid request.reservation then
    throw "invalid admission begin request"
  validateRedisInteger request.reservation
  validateReservations request.reservations
  validateExactUsdReservationEnvelope request.reservations
    request.reservation request.reservationUsd

-- ===== codec

def formatRedisTime (t : Int) : RedisTime :=
  if t = zeroTime then .stamp 0 0
  else
    let seconds := t / 10 ^ 9
    let micros := t % 10 ^ 9 / 1000
    if seconds = 0 ∧ micros = 0 then .epoch else .stamp seconds micros

def parseRedisTime : RedisTime → Except String Int
  | .epoch => .ok 0
  | .stamp seconds micros =>
    if seconds = 0 ∧ micros = 0 then .ok zeroTime
    else if micros < 0 ∨ 1000000 ≤ micros then
      .error "invalid redis timestamp"
    else .ok (seconds * 10 ^ 9 + micros * 1000)

/-- A reservation as `encodeOperation` writes it. -/
def encodeReservation (r : WindowReservation) : ReservationWire NumberLiteral :=
  ReservationWire.map .plain ⟨r.policyId, r.windowId, r.bucket, r.amount,
    r.limit, r.bucketNanos, r.durationNanos⟩

def encodeAttemptWire (a : AttemptFacts) : AttemptWire NumberLiteral :=
  AttemptWire.map .plain ⟨a.routeId, a.endpointId, a.provider,
    a.resolvedModel, a.providerRequestId, a.serviceClass, a.dispatch,
    a.attemptNumber⟩

variable (host : Host)

def encodeOperation (o : Operation) : Except String RecordText := do
  let lease ← host.formatTime o.leaseUntil
  let expires ← host.formatTime o.expiresAt
  .ok { id := o.id, scopeKey := o.scopeKey, digest := o.requestDigest.hex
        state := o.state, reserved := o.reservedMicroUsd
        incurred := o.incurredMicroUsd, final := o.finalMicroUsd
        reservations := .array (o.reservations.map encodeReservation)
        config := o.configVersion, price := o.priceVersion
        attempt := some (encodeAttemptWire o.attempt)
        result := o.resultRef.map fun ref =>
          ⟨ref.digest.hex, .plain ref.size, ref.media⟩
        token := o.dispatchToken, lease := lease
        created := formatRedisTime o.createdAt
        updated := formatRedisTime o.updatedAt, expires := expires }

def decodeDigest (hex : String) : Except String Digest :=
  if h : hex.utf8ByteSize = 64 ∧ hex.toList.all fun c =>
      ('0' ≤ c && c ≤ '9') || ('a' ≤ c && c ≤ 'f')
        || ('A' ≤ c && c ≤ 'F') then
    .ok ⟨hex, h.1, h.2⟩
  else .error "invalid digest"

def parseMicro (value : Int) : Except String Int :=
  if value < 0 ∨ (nanoUsdSafeLimit : Int) < value then
    .error "invalid microUSD"
  else .ok value

/-- A reservation as `json.Unmarshal` reads it. -/
def unmarshalReservation (w : ReservationWire NumberLiteral) :
    Except String (ReservationWire Int) := do
  let bucket ← goInt64 w.bucket
  let amount ← goInt64 w.amount
  let limit ← goInt64 w.limit
  let bucketNs ← goInt64 w.bucketNs
  let durationNs ← goInt64 w.durationNs
  .ok ⟨w.policy, w.window, bucket, amount, limit, bucketNs, durationNs⟩

/-- A reservation vector as `json.Unmarshal` reads it. -/
def unmarshalReservations : JsonVector (ReservationWire NumberLiteral) →
      Except String (List (ReservationWire Int))
  | .array items => items.mapM unmarshalReservation
  | .object => .error "json: cannot unmarshal object into array"
  | .other => .error "json: cannot unmarshal value into array"

/-- `decodeAttemptWire` of what `json.Unmarshal` reads. -/
def unmarshalAttempt : Option (AttemptWire NumberLiteral) → Except String AttemptFacts
  | none => .error "json: cannot unmarshal value into attempt"
  | some a => do
      let number ← goInt64 a.attemptNumber
      .ok ⟨a.routeId, a.endpointId, a.provider, a.resolvedModel,
        a.providerRequestId, a.serviceClass, a.dispatch, number⟩

/-- One turn of the reservation loop of `decodeOperation`. -/
def decodeReservation (index : Nat) (w : ReservationWire Int) : Except String WindowReservation :=
  if w.policy = "" ∨ w.window = "" ∨ w.amount < 0 ∨ w.limit < 0
      ∨ w.bucketNs ≤ 0 ∨ w.durationNs ≤ 0 then
    .error ("invalid operation reservation " ++ toString index)
  else .ok ⟨w.policy, w.window, w.bucket, w.amount, w.limit, .zero, .zero, w.bucketNs, w.durationNs⟩

/-- The reservation loop of `decodeOperation`. -/
def decodeReservations (index : Nat) : List (ReservationWire Int) →
    Except String (List WindowReservation)
  | [] => .ok []
  | w :: rest => do
      let r ← decodeReservation index w
      let rest ← decodeReservations (index + 1) rest
      .ok (r :: rest)

def decodeBlobRef (ref : BlobRefWire Int) : Except String BlobRef := do
  let digest ← decodeDigest ref.digest
  if ref.size < 0 ∨ ref.media = "" then throw "invalid result reference"
  .ok ⟨digest, ref.size, ref.media⟩

/-- An optional result as `json.Unmarshal` and `decodeBlobRef` read
it. -/
def decodeResult : Option (BlobRefWire NumberLiteral) → Except String (Option BlobRef)
  | none => .ok none
  | some ref => do
      let size ← goInt64 ref.size
      let ref ← decodeBlobRef ⟨ref.digest, size, ref.media⟩
      .ok (some ref)

def decodeOperation (text : RecordText) : Except String Operation := do
  if 2 * 2 ^ 20 < host.recordBytes text then
    throw "invalid operation record size"
  let reservations ← unmarshalReservations text.reservations
  let attempt ← unmarshalAttempt text.attempt
  let lease ← host.parseTime text.lease
  let expires ← host.parseTime text.expires
  if text.id = "" ∨ text.scopeKey = "" ∨ text.state.text = ""
      ∨ text.token = "" then
    throw "invalid operation record"
  let digest ← decodeDigest text.digest
  let reserved ← parseMicro text.reserved
  let incurred ← parseMicro text.incurred
  let final ← parseMicro text.final
  let created ← parseRedisTime text.created
  let updated ← parseRedisTime text.updated
  let reservations ← decodeReservations 0 reservations
  let result ← decodeResult text.result
  .ok { id := text.id, scopeKey := text.scopeKey, requestDigest := digest
        state := text.state, reservedMicroUsd := reserved
        incurredMicroUsd := incurred, finalMicroUsd := final
        reservations := reservations, configVersion := text.config
        priceVersion := text.price, attempt := attempt
        resultRef := result, dispatchToken := text.token
        leaseUntil := lease, createdAt := created, updatedAt := updated
        expiresAt := expires }

/-- `decodeRecord`, at the store's clock `now`. -/
def decodeRecord (now : Int) : Option RecordText → Except String Operation
  | none => .error "shared Redis state unavailable"
  | some text =>
    if host.maxRecordBytes < host.recordBytes text then
      .error "shared Redis state unavailable"
    else match decodeOperation host text with
    | .error _ => .error "shared Redis state unavailable"
    | .ok operation =>
      if operation.expiresAt ≠ zeroTime ∧ operation.expiresAt ≤ now
      then .error "operation not found"
      else .ok operation

def decodeDenial : Option (DenialWire NumberLiteral) → Except String Denial
  | none => .error "decode admission denial: unexpected end of JSON input"
  | some d => do
      let limit ← goInt64 d.limit
      let active ← goInt64 d.active
      let requested ← goInt64 d.requested
      if d.policy = "" ∨ d.window = "" ∨ limit < 0 ∨ active < 0
          ∨ requested < 0 then
        throw "invalid admission denial"
      .ok ⟨d.policy, d.window, limit, active, requested⟩

-- ===== begin

def ttlSeconds (now expires : Int) : Int :=
  if expires = zeroTime then 0
  else if (expires - now).tdiv (10 ^ 9) ≤ 0 then 1
  else (expires - now).tdiv (10 ^ 9)

/-- The operation that `Begin` submits. -/
def BeginRequest.operation (request : BeginRequest) : Operation where
  id := request.id
  scopeKey := request.scopeKey
  requestDigest := request.requestDigest
  state := .reserved
  reservedMicroUsd := request.reservation
  incurredMicroUsd := 0
  finalMicroUsd := 0
  reservations := request.reservations
  configVersion := request.configVersion
  priceVersion := request.priceVersion
  attempt := .empty
  resultRef := none
  dispatchToken := request.id
  leaseUntil := request.leaseUntil
  createdAt := zeroTime
  updatedAt := zeroTime
  expiresAt := request.expiresAt

/-- The first half of `Begin`: what the Function answers. -/
def submit (request : BeginRequest) (now : Int) (clock : Clock)
    (K : Keyspace) : Except String (Keyspace × Reply) := do
  validateBegin request
  let payload ← encodeOperation host request.operation
  if host.maxRecordBytes < host.payloadBytes payload then
    throw "record exceeds configured size"
  .ok (actionBegin
    { scopeIndex := host.scopeKey request.scopeKey
      operationIndex := host.operationIndexKey request.id
      recordKey := host.operationKey request.scopeKey request.id
      keyCount := 3 + request.reservations.length
      incoming := some payload
      ttl := ttlSeconds now request.expiresAt } clock K)

/-- `mapStatus`, for the statuses that are errors. -/
def mapStatus : Status → String
  | .notFound => "operation not found"
  | .invalidToken => "invalid dispatch token"
  | .invalidTransition => "invalid operation transition"
  | .conflict => "operation conflict"
  | .stateUnavailable => "shared Redis state unavailable"
  | .invalidRequest => "invalid Redis admission request"
  | _ => "Redis admission function failed"

/-- The second half of `Begin`: what the store makes of the answer, at
its clock `later`. -/
def answer (later : Int) (reply : Reply) : Except String BeginResult :=
  match reply.status with
  | .created => do
      let operation ← decodeRecord host later reply.record
      .ok (.admitted operation false)
  | .existing => do
      let operation ← decodeRecord host later reply.record
      .ok (.admitted operation true)
  | .denied => do
      let denial ← decodeDenial reply.denial
      .ok (.denied denial)
  | status => .error (mapStatus status)

/-- `Begin`. -/
def storeBegin (request : BeginRequest) (now later : Int) (clock : Clock) (K : Keyspace) :
    Keyspace × Except String BeginResult :=
  match submit host request now clock K with
  | .error e => (K, .error e)
  | .ok (K', reply) => (K', answer host later reply)

end LlmTemporalWorker.Admission
