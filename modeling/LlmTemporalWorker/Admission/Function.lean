/-
The admission actions of the Redis Function
(storage/redis/functions/admission.lua: `begin`, `mark_dispatching`,
`continue`, `complete`, `fail`).

A Redis Function runs alone, but nothing rolls it back: what it wrote
before it returned an error stays written. The model therefore passes
the keyspace through every check and every write in the source's order,
and an action returns the keyspace it leaves next to its reply.

# Keyspace

A scope index and an operation index both hold the key of a record. A
budget hash belongs to a policy's window and counts micro-dollars per
bucket. The store derives every key from the values it names
(`keySpace.digest`) and passes the budget keys of a call in the order of
its reservations, so a budget key is read off the reservation here; how
many keys a call passes is an argument, since the Function checks it.

The actions are written over the commands they send (`Commands`), so
that one text of them runs on two states. On a `Keyspace` the times to
live are left out and any key may vanish at any moment between calls
(`Step`), which covers every order of expiry; Admission/Retention.lean
has the state in which every key carries the moment it vanishes at.

# Loops

`active_for` visits the buckets of a window in order and fails at the
first it cannot count. Neither the failure nor the sum depends on the
order, so the model visits the fields of the hash that lie in the
window.
-/
import LlmTemporalWorker.Admission.Wire

namespace LlmTemporalWorker.Admission

open Lib Budget

-- ===== keyspace

/-- What the admission actions keep in Redis. -/
structure Keyspace where
  /-- scope and operation indexes: the key of a record -/
  index : FMap String String
  records : FMap String RecordText
  /-- a window's micro-dollars per bucket -/
  budget : WindowKey → FMap Nat Int

/-- The keyspace of a new store. -/
def Keyspace.empty : Keyspace := ⟨∅, ∅, fun _ => ∅⟩

variable (K : Keyspace) (rs : List (ReservationWire Int))

def Keyspace.hget (w : WindowKey) (bucket : Nat) : Option Int :=
  (K.budget w).lookup bucket

/-- `HINCRBY`: the keyspace and the new value. -/
def Keyspace.hincrby (w : WindowKey) (bucket : Nat) (delta : Int) : Keyspace × Int :=
  let next := (K.hget w bucket).getD 0 + delta
  ({ K with budget := Function.update K.budget w ((K.budget w).insert bucket next) }, next)

/-- `TIME`. -/
structure Clock where
  (seconds micros : Nat)
  bounded : micros < 1000000
deriving DecidableEq, Repr

theorem Clock.zero_micros : 0 < 1000000 := by decide

def Clock.nowMicros (c : Clock) : Nat := c.seconds * 1000000 + c.micros

def Clock.nowString (c : Clock) : RedisTime := .stamp c.seconds c.micros

-- ===== replies

/-- The first element of a reply. -/
inductive Status where
  | created
  | existing
  | ok
  | denied
  | notFound
  | invalidToken
  | invalidTransition
  | conflict
  | stateUnavailable
  | invalidRequest
  | invalidReservation
deriving DecidableEq, Repr

/-- The statuses that report a mutation, or a decision about one. -/
def Status.accepted : Status → Bool
  | .created | .existing | .ok | .denied => true
  | _ => false

/-- A reply: a status, a record and a denial. -/
structure Reply where
  status : Status
  record : Option RecordText
  denial : Option (DenialWire NumberLiteral)
deriving DecidableEq, Repr

/-- `{status, ''}`. -/
def Reply.bare (status : Status) : Reply := ⟨status, none, none⟩

/-- `{status, encoded}`. -/
def Reply.with (status : Status) (record : RecordText) : Reply :=
  ⟨status, some record, none⟩

-- ===== checks

def maxReservations : Nat := 253

def maxAttemptNumber : Nat := 1000000

/-- `valid_invocation`, as far as the number of keys goes. -/
def validInvocation (least keyCount : Nat) : Bool :=
  least ≤ keyCount && keyCount ≤ 512

/-- `bounded_string(value, maximum, false)`. -/
def atMost (value : String) (maximum : Nat) : Bool :=
  value.utf8ByteSize ≤ maximum

def validDispatch : DispatchCertainty → Bool
  | .other _ => false
  | _ => true

/-- `integer`: the same test as `durable_int`. -/
def integer (value : Int) : Option Nat := durableInt value

def validAttempt (a : AttemptWire Int) : Bool :=
  atMost a.routeId 256 && atMost a.endpointId 256
    && atMost a.provider 128 && atMost a.resolvedModel 256
    && atMost a.providerRequestId 512 && atMost a.serviceClass 64
    && validDispatch a.dispatch
    && (integer a.attemptNumber).any (· ≤ maxAttemptNumber)

/-- The record tests that `get_record` and `begin` share. -/
def identified (id scopeKey digest token : String) : Bool :=
  boundedString id 256 && boundedString scopeKey 1024
    && boundedString digest 64 && digest.utf8ByteSize == 64
    && boundedString token 512

/-- What `get_record` finds under a key. -/
inductive Found where
  | missing
  | invalid
  | record (record : LuaRecord) (encoded : RecordText)

def getRecord (key : String) : Found :=
  match K.records.lookup key with
  | none => .missing
  | some encoded =>
    let record := encoded.decode
    if identified record.id record.scopeKey record.digest record.token
        && boundedString record.state.text 32
        && record.attempt.any validAttempt then
      .record record encoded
    else .invalid

def operationStatus (key token : String) : Except Reply (LuaRecord × RecordText) :=
  match getRecord K key with
  | .missing => .error (.bare .notFound)
  | .invalid => .error (.bare .stateUnavailable)
  | .record record encoded =>
    if record.token ≠ token then .error (.bare .invalidToken)
    else .ok (record, encoded)

-- ===== reservations

/-- The numbers of a reservation that passed its checks. -/
structure Fields where
  (limit amount bucket bucketNs durationNs : Nat)
deriving DecidableEq, Repr

def reservationFields (r : ReservationWire Int) : Option Fields := do
  if !(boundedString r.policy 256 && boundedString r.window 256) then
    none
  let limit ← integer r.limit
  let amount ← integer r.amount
  let bucket ← integer r.bucket
  let bucketNs ← integer r.bucketNs
  let durationNs ← integer r.durationNs
  if limit = 0 ∨ bucketNs = 0 ∨ durationNs = 0 then none
  else some ⟨limit, amount, bucket, bucketNs, durationNs⟩

/-- A reservation's budget key. -/
def ReservationWire.key {N : Type} (r : ReservationWire N) : WindowKey :=
  ⟨r.policy, r.window⟩

/-- `identity` in `valid_reservation_envelope`. -/
def ReservationWire.identity {N : Type} (r : ReservationWire N) (bucket : Nat) : String :=
  r.policy ++ "\x00" ++ r.window ++ "\x00" ++ toString bucket

/-- The loop of `valid_reservation_envelope`. -/
def envelopeOk (expected : Nat) (seen : List String) : List (ReservationWire Int) → Bool
  | [] => true
  | r :: rest =>
    match reservationFields r with
    | none => false
    | some f =>
      if f.amount ≠ expected then false
      else if r.identity f.bucket ∈ seen then false
      else envelopeOk expected (r.identity f.bucket :: seen) rest

def validReservationEnvelope (rs : List (ReservationWire Int)) (expected : Int) : Bool :=
  match integer expected with
  | none => false
  | some value => envelopeOk value [] rs

/-- The sum of `active_for` over fields of a hash, or a field or a sum
that cannot be counted. -/
def activeSum : List (Σ _ : Nat, Int) → Nat → Option Nat
  | [], active => some active
  | ⟨_, value⟩ :: rest, active =>
    match integer value with
    | none => none
    | some parsed =>
      if maxSafe < active + parsed then none
      else activeSum rest (active + parsed)

def activeFor (r : ReservationWire Int) (now : Nat) : Except Status Nat :=
  match reservationFields r with
  | none => .error .invalidReservation
  | some f =>
    let bucketUs : Int := ((f.bucketNs + 999) / 1000 : Nat)
    let durationUs : Int := ((f.durationNs + 999) / 1000 : Nat)
    if bucketUs ≤ 0 ∨ durationUs ≤ 0 then .error .invalidReservation
    else
      let first := ((now : Int) - durationUs) / bucketUs
      let last := (now : Int) / bucketUs
      let active := (K.budget r.key).entries.filter fun e =>
        first ≤ (e.1 : Int) && (e.1 : Int) ≤ last
      match activeSum active 0 with
      | none => .error .stateUnavailable
      | some sum => .ok sum

def denial (r : ReservationWire Int) (active requested : Nat) : DenialWire NumberLiteral :=
  DenialWire.map cjsonLiteral ⟨r.policy, r.window, ((integer r.limit).getD 0 : Nat), active,
      requested⟩

/-- The loop of `check_reservations`. -/
def checkLoop (K : Keyspace) (requested now : Nat) : List (ReservationWire Int) → Except Reply Unit
  | [] => .ok ()
  | r :: rest =>
    match activeFor K r now with
    | .error status => .error (.bare status)
    | .ok active =>
      let limit := (integer r.limit).getD 0
      if limit < active ∨ limit - active < requested then
        .error ⟨.denied, none, some (denial r active requested)⟩
      else checkLoop K requested now rest

def checkReservations (requested : Int) (now : Nat) : Except Reply Unit :=
  match integer requested with
  | none => .error (.bare .invalidRequest)
  | some value => checkLoop K value now rs

/-- The value that `can_increment_reservations` and `can_reconcile`
read: a value that is no safe integer reads as zero. -/
def Keyspace.parsed (w : WindowKey) (bucket : Nat) : Nat :=
  ((K.hget w bucket).bind integer).getD 0

def canIncrementReservations : Bool :=
  rs.all fun r => match reservationFields r with
    | none => false
    | some f => K.parsed r.key f.bucket ≤ maxSafe - f.amount

def canReconcile (actual : Nat) : Bool :=
  rs.all fun r => match reservationFields r with
    | none => false
    | some f =>
      let parsed := K.parsed r.key f.bucket
      f.amount ≤ parsed && actual ≤ maxSafe - (parsed - f.amount)

-- ===== commands

/-- `set_record`: the keyspace and the text it stores. -/
def setRecord (key : String) (record : LuaRecord) : Keyspace × RecordText :=
  ({ K with records := K.records.insert key record.encode }, record.encode)

/-- The commands by which the actions change the keys, on any state that
holds a keyspace: what an action reads it reads from `keys`. -/
class Commands (σ : Type) where
  keys : σ → Keyspace
  /-- `HINCRBY` on a budget hash, with the value it answers -/
  hincrby : σ → WindowKey → Nat → Int → σ × Int
  /-- `expire_budget`, for a window of so many nanoseconds -/
  expireBudget : σ → WindowKey → Nat → σ
  setRecord : σ → String → LuaRecord → σ × RecordText
  /-- `SET` and `EXPIRE` of an index -/
  setIndex : σ → String → String → σ
  /-- `DEL` of an index -/
  deleteIndex : σ → String → σ

open Commands (keys)

/-- The commands on keys without times: an `EXPIRE` does nothing. -/
instance : Commands Keyspace where
  keys K := K
  hincrby := Keyspace.hincrby
  expireBudget K _ _ := K
  setRecord := setRecord
  setIndex K name value := { K with index := K.index.insert name value }
  deleteIndex K name := { K with index := K.index.erase name }

@[simp] theorem keys_keyspace (K : Keyspace) : keys K = K := rfl

section Actions

variable {σ : Type} [Commands σ]

/-- The loop of `increment_reservations` and of `reconcile`: it adds to
one bucket per reservation, stops at the first result that is no safe
integer, and moves the expiry of the hash after each addition. -/
def addEach (delta : Fields → Int) : List (ReservationWire Int) → σ → σ × Bool
  | [], S => (S, true)
  | r :: rest, S =>
    match reservationFields r with
    | none => (S, false)
    | some f =>
      let (S', next) := Commands.hincrby S r.key f.bucket (delta f)
      if (integer next).isNone then (S', false)
      else addEach delta rest (Commands.expireBudget S' r.key f.durationNs)

def incrementReservations (rs : List (ReservationWire Int)) (S : σ) : σ × Bool :=
  addEach (fun f => f.amount) rs S

def reconcile (rs : List (ReservationWire Int)) (actual : Int) (S : σ) : σ × Bool :=
  match integer actual with
  | none => (S, false)
  | some value =>
    if canReconcile (keys S) rs value then
      addEach (fun f => value - f.amount) rs S
    else (S, false)

-- ===== begin

/-- The keys and arguments of `begin`. -/
structure BeginCall where
  (scopeIndex operationIndex recordKey : String)
  keyCount : Nat
  /-- `ARGV[2]`; none when it is no `admission/v1` record -/
  incoming : Option RecordText
  ttl : Int
deriving Repr

/-- `begin`, from the reservations on. -/
def beginNew (c : BeginCall) (clock : Clock) (incoming : LuaRecord)
    (S : σ) : σ × Reply :=
  match incoming.reservations with
  | none => (S, .bare .invalidRequest)
  | some rs =>
    if maxReservations < rs.length ∨ c.keyCount ≠ 3 + rs.length then
      (S, .bare .invalidRequest)
    else match integer incoming.reserved with
    | none => (S, .bare .invalidRequest)
    | some requested =>
      if !validReservationEnvelope rs requested then
        (S, .bare .invalidRequest)
      else match checkReservations (keys S) rs requested clock.nowMicros with
      | .error reply => (S, reply)
      | .ok () =>
        if !canIncrementReservations (keys S) rs then
          (S, .bare .stateUnavailable)
        else
          let (S₁, added) := incrementReservations rs S
          if !added then (S₁, .bare .stateUnavailable)
          else
            let record := { incoming with
              created := clock.nowString
              updated := clock.nowString }
            let (S₂, encoded) := Commands.setRecord S₁ c.recordKey record
            let S₃ := Commands.setIndex S₂ c.scopeIndex c.recordKey
            (Commands.setIndex S₃ c.operationIndex c.recordKey, .with .created encoded)

/-- `begin`. -/
def actionBegin (c : BeginCall) (clock : Clock) (S : σ) : σ × Reply :=
  if !validInvocation 3 c.keyCount
      ∨ (integer c.ttl).all (· == 0) then
    (S, .bare .invalidRequest)
  else match c.incoming with
  | none => (S, .bare .invalidRequest)
  | some text =>
    let incoming := text.decode
    if !(identified incoming.id incoming.scopeKey incoming.digest
        incoming.token && atMost incoming.lease 64
        && atMost incoming.expires 64) then
      (S, .bare .invalidRequest)
    else match (keys S).index.lookup c.scopeIndex with
    | none => beginNew c clock incoming S
    | some existingKey =>
      match getRecord (keys S) existingKey with
      | .record existing encoded =>
        if existing.digest ≠ incoming.digest then
          (S, .bare .conflict)
        else (S, .with .existing encoded)
      | .invalid => (S, .bare .stateUnavailable)
      | .missing =>
        -- the index outlived its record
        beginNew c clock incoming (Commands.deleteIndex S c.scopeIndex)

-- ===== mark_dispatching

/-- The keys and arguments of `mark_dispatching`. -/
structure DispatchCall where
  (recordKey token : String)
  attempt : Option (AttemptWire NumberLiteral)
  lease : String
deriving Repr

/-- `mark_dispatching`. -/
def actionMarkDispatching (c : DispatchCall) (clock : Clock) (S : σ) : σ × Reply :=
  if !(boundedString c.token 512 && atMost c.lease 64) then
    (S, .bare .invalidRequest)
  else match operationStatus (keys S) c.recordKey c.token with
  | .error reply => (S, reply)
  | .ok (record, _) =>
    if record.state ≠ .reserved then
      if record.state.terminal then (S, .with .ok record.encode)
      else (S, .bare .invalidTransition)
    else match c.attempt.map (AttemptWire.map luaNumber) with
    | none => (S, .bare .invalidRequest)
    | some attempt =>
      if !validAttempt attempt then (S, .bare .invalidRequest)
      else
        let number := (integer attempt.attemptNumber).getD 0
        if maxAttemptNumber ≤ number then (S, .bare .invalidRequest)
        else
          let record := { record with
            state := .dispatching
            attempt := some { attempt with
              attemptNumber := (number + 1 : Nat) }
            lease := c.lease
            updated := clock.nowString }
          let (S', encoded) := Commands.setRecord S c.recordKey record
          (S', .with .ok encoded)

-- ===== continue

/-- `outcomeWire`, as far as the Function reads it. -/
structure OutcomeWire (N : Type) where
  certainty : DispatchCertainty
  incurred : Int
  attempt : Option (AttemptWire N)
deriving DecidableEq, Repr

/-- The keys and arguments of `continue`. -/
structure ContinueCall where
  recordKey : String
  keyCount : Nat
  token : String
  outcome : Option (OutcomeWire NumberLiteral)
  remaining : Int
  reservations : JsonVector (ReservationWire NumberLiteral)
  (lease expires : String)
deriving Repr

/-- `attempt = {}`. -/
def AttemptWire.blank : AttemptWire Int :=
  ⟨"", "", "", "", "", "", .unset, 0⟩

/-- The attempt that `continue` stores. -/
def continuedAttempt (attempt : Option (AttemptWire Int)) : AttemptWire Int :=
  let attempt := (attempt.filter validAttempt).getD .blank
  { attempt with
    dispatch := .notDispatched
    attemptNumber := ((integer attempt.attemptNumber).getD 0 : Nat) }

/-- `continue`, once the old reservation is released. -/
def continueNew (c : ContinueCall) (clock : Clock) (record : LuaRecord)
    (rs : List (ReservationWire Int)) (remaining incurred : Nat)
    (outcome : OutcomeWire NumberLiteral) (S : σ) :
    σ × Reply :=
  match checkReservations (keys S) rs remaining clock.nowMicros with
  | .error reply =>
    if reply.status = .denied then
      let record := { record with
        state := .definiteFailed
        incurred := incurred
        final := incurred
        reserved := 0
        updated := clock.nowString }
      let (S', encoded) := Commands.setRecord S c.recordKey record
      (S', ⟨.denied, some encoded, reply.denial⟩)
    else (S, reply)
  | .ok () =>
    if !canIncrementReservations (keys S) rs then
      (S, .bare .stateUnavailable)
    else
      let (S₁, added) := incrementReservations rs S
      if !added then (S₁, .bare .stateUnavailable)
      else
        let attempt := continuedAttempt
          (outcome.attempt.map (AttemptWire.map luaNumber))
        let record := { record with
          state := .reserved
          reservations := some rs
          reserved := remaining
          attempt := some attempt
          token := record.token ++ "-" ++ toString (attempt.attemptNumber + 1)
          lease := c.lease
          expires := c.expires
          updated := clock.nowString }
        let (S₂, encoded) := Commands.setRecord S₁ c.recordKey record
        (S₂, .with .ok encoded)

/-- `continue`. -/
def actionContinue (c : ContinueCall) (clock : Clock) (S : σ) : σ × Reply :=
  if !validInvocation 2 c.keyCount || !(boundedString c.token 512
      && atMost c.lease 64 && atMost c.expires 64) then
    (S, .bare .invalidRequest)
  else match operationStatus (keys S) c.recordKey c.token with
  | .error reply => (S, reply)
  | .ok (record, _) =>
    if record.state ≠ .dispatching then
      (S, .bare .invalidTransition)
    else match c.outcome, c.reservations.table.map
        (List.map (ReservationWire.map luaNumber)) with
    | some outcome, some rs =>
      if outcome.certainty ≠ .notDispatched
          ∧ outcome.certainty ≠ .rejected then
        (S, .bare .invalidRequest)
      else match integer c.remaining, integer outcome.incurred with
      | some remaining, some incurred =>
        match record.reservations with
        | none => (S, .bare .stateUnavailable)
        | some old =>
          if maxReservations < old.length
              ∨ maxReservations < rs.length
              ∨ c.keyCount ≠ 2 + old.length + rs.length
              ∨ !validReservationEnvelope old record.reserved
              ∨ !validReservationEnvelope rs remaining then
            (S, .bare .stateUnavailable)
          else
            let (S₁, released) := reconcile old incurred S
            if !released then (S₁, .bare .stateUnavailable)
            else continueNew c clock record rs remaining incurred outcome S₁
      | _, _ => (S, .bare .invalidRequest)
    | _, _ => (S, .bare .invalidRequest)

-- ===== complete and fail

/-- The keys and arguments of `complete`. -/
structure CompleteCall where
  recordKey : String
  keyCount : Nat
  token : String
  actual : Int
  /-- `ARGV[4]`; none when it does not decode -/
  result : Option (Option (BlobRefWire NumberLiteral))
  attempt : Option (AttemptWire NumberLiteral)
deriving Repr

/-- The keys and arguments of `fail`. -/
structure FailCall where
  recordKey : String
  keyCount : Nat
  token : String
  certainty : DispatchCertainty
  incurred : Int
  attempt : Option (AttemptWire NumberLiteral)
deriving Repr

/-- The reservations that a settlement releases, if the call passes one
key for each. -/
def settledReservations (record : LuaRecord) (keyCount : Nat) :
    Option (List (ReservationWire Int)) :=
  record.reservations.filter fun rs =>
    rs.length ≤ maxReservations && keyCount == 2 + rs.length

/-- `complete`. -/
def actionComplete (c : CompleteCall) (clock : Clock) (S : σ) : σ × Reply :=
  if !validInvocation 2 c.keyCount || !boundedString c.token 512 then
    (S, .bare .invalidRequest)
  else match operationStatus (keys S) c.recordKey c.token with
  | .error reply => (S, reply)
  | .ok (record, _) =>
    if record.state = .completed then (S, .with .ok record.encode)
    else if record.state ≠ .dispatching then
      (S, .bare .invalidTransition)
    else match integer c.actual,
        (c.attempt.map (AttemptWire.map luaNumber)).filter validAttempt,
        c.result, settledReservations record c.keyCount with
    | some actual, some attempt, some result, some rs =>
      let (S₁, settled) := reconcile rs actual S
      if !settled then (S₁, .bare .stateUnavailable)
      else
        let record := { record with
          state := .completed
          incurred := actual
          final := actual
          reserved := 0
          result := result.map (BlobRefWire.map luaNumber)
          attempt := some { attempt with dispatch := .accepted }
          updated := clock.nowString }
        let (S₂, encoded) := Commands.setRecord S₁ c.recordKey record
        (S₂, .with .ok encoded)
    | _, _, _, _ => (S, .bare .invalidRequest)

/-- The certainties that `fail` takes. -/
def failCertainty : DispatchCertainty → Bool
  | .notDispatched | .rejected | .accepted | .ambiguous => true
  | _ => false

/-- `fail`. -/
def actionFail (c : FailCall) (clock : Clock) (S : σ) : σ × Reply :=
  if !validInvocation 2 c.keyCount || !boundedString c.token 512 then
    (S, .bare .invalidRequest)
  else match operationStatus (keys S) c.recordKey c.token with
  | .error reply => (S, reply)
  | .ok (record, _) =>
    if record.state.terminal then (S, .with .ok record.encode)
    else if record.state ≠ .dispatching then
      (S, .bare .invalidTransition)
    else match integer c.incurred,
        (c.attempt.map (AttemptWire.map luaNumber)).filter validAttempt,
        settledReservations record c.keyCount with
    | some incurred, some attempt, some rs =>
      if !failCertainty c.certainty then (S, .bare .invalidRequest)
      else
        let failed := { record with
          incurred := incurred
          attempt := some { attempt with dispatch := c.certainty }
          updated := clock.nowString }
        if c.certainty = .accepted ∨ c.certainty = .ambiguous then
          -- the provider may have charged: the reservation stays
          let (S', encoded) := Commands.setRecord S c.recordKey { failed with
            state := .ambiguous
            final := record.reserved }
          (S', .with .ok encoded)
        else
          let (S₁, settled) := reconcile rs incurred S
          if !settled then (S₁, .bare .stateUnavailable)
          else
            let (S₂, encoded) := Commands.setRecord S₁ c.recordKey { failed with
              state := .definiteFailed
              final := incurred
              reserved := 0 }
            (S₂, .with .ok encoded)
    | _, _, _ => (S, .bare .invalidRequest)

end Actions

-- ===== runs

/-- A call of one action. -/
inductive Call where
  | begin (c : BeginCall)
  | markDispatching (c : DispatchCall)
  | continue (c : ContinueCall)
  | complete (c : CompleteCall)
  | fail (c : FailCall)
deriving Repr

/-- The dispatch on `ACTION`. -/
def Call.act {σ : Type} [Commands σ] : Call → Clock → σ → σ × Reply
  | .begin c => actionBegin c
  | .markDispatching c => actionMarkDispatching c
  | .continue c => actionContinue c
  | .complete c => actionComplete c
  | .fail c => actionFail c

/-- A call on keys without times. -/
def Call.run : Call → Clock → Keyspace → Keyspace × Reply := Call.act

/-- What happens to a keyspace: a call, or a key's expiry. -/
inductive Step where
  | call (c : Call) (clock : Clock)
  | indexExpires (key : String)
  | recordExpires (key : String)
  | budgetExpires (w : WindowKey)

/-- One step and its reply. -/
def Step.perform : Step → Keyspace → Keyspace × Option Reply
  | .call c clock, K => ((c.run clock K).1, some (c.run clock K).2)
  | .indexExpires key, K => ({ K with index := K.index.erase key }, none)
  | .recordExpires key, K =>
    ({ K with records := K.records.erase key }, none)
  | .budgetExpires w, K =>
    ({ K with budget := Function.update K.budget w ∅ }, none)

end LlmTemporalWorker.Admission
