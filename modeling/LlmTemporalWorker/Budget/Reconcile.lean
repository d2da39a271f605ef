/-
Settlement: `durable_reconcile` (storage/redis/functions/admission.lua).

A batch is staged against the record and the keyspace as they are, and
applied only when every event of it passed. The staging loop is
`stageAll`, one event of it `stageEvent`, and the rule of one event on
one reservation `stageTransition`; `applyItem` is one turn of the
applying loop.

The applying loop can raise: `decimal` of a window expiry that is out
of range is a Lua error, and Redis keeps the writes made before it. The
model keeps that error (`applyAll` answers no record), so that staging
covering it is something to prove.
-/
import LlmTemporalWorker.Budget.Reserve

namespace LlmTemporalWorker.Budget

open Lib

-- ===== events

/-- `JournalEventKind`. -/
inductive JournalKind where
  | reserve
  | finalizeExact
  | finalizeUnknown
  | retainAmbiguous
  | resolveUnknownExact
  | release
deriving DecidableEq, Repr

/-- `durableEvent`: one settlement event on the wire. -/
structure Event where
  (eventId windowId : String)
  (bucketStartNanos reservationRevision : Int)
  kind : JournalKind
  (reservedDecreaseNano accountedIncreaseNano accountedDecreaseNano : Nat)
  fingerprint : String
deriving DecidableEq, Repr

/-- The arguments of `durable_reconcile`. -/
structure ReconcileArgs where
  (generationId incarnationId operationId : String)
  events : List Event
  authority : Option String
deriving DecidableEq, Repr

variable (a : ReconcileArgs)

/-- The record's key, `KEYS[1]`. -/
def ReconcileArgs.key : OperationKey :=
  ⟨a.generationId, a.operationId⟩

/-- The string fields are present and bounded. -/
def Event.bounded (e : Event) : Bool :=
  boundedString e.eventId 128 && boundedString e.windowId 128 && e.fingerprint.utf8ByteSize == 64

/-- `identity`: window and bucket start. -/
def Event.identity (e : Event) : String :=
  e.windowId ++ "\x00" ++ toString e.bucketStartNanos

/-- The event names this reservation. -/
def Event.names (e : Event) (x : HeldReservation) : Bool :=
  x.windowId = e.windowId && x.bucketStartNanos = e.bucketStartNanos

-- ===== one event's transition

/-- What kind of event may meet which status, and with what deltas. -/
def kindVerdict (e : Event) (x : HeldReservation) : Option Reply :=
  match e.kind with
  | .retainAmbiguous =>
    if x.status ≠ .reserved ∨ e.reservedDecreaseNano ≠ 0
        ∨ e.accountedIncreaseNano ≠ 0 ∨ e.accountedDecreaseNano ≠ 0 then
      some .conflict
    else none
  | .resolveUnknownExact =>
    if x.status ≠ .ambiguous then some .conflict else none
  | .finalizeExact | .finalizeUnknown | .release =>
    if x.status ≠ .reserved then some .conflict else none
  | .reserve => some .invalidRequest

/-- The rule of one event on one reservation: the reserved and the
accounted amount after it. -/
def stageTransition (claimed : Bool) (x : HeldReservation) (e : Event) : Except Reply (Nat × Nat) :=
  match durableInt e.reservationRevision,
    durableInt e.reservedDecreaseNano, durableInt e.accountedIncreaseNano,
    durableInt e.accountedDecreaseNano, durableInt x.reservedNano,
    durableInt x.accountedNano with
  | some revision, some reservedDecrease, some accountedIncrease,
    some accountedDecrease, some oldReserved, some oldAccounted =>
      -- a stored revision out of range is read as none at all
      if revision ≤ (durableInt x.reservationRevision).getD 0
          ∨ oldReserved < reservedDecrease
          ∨ oldAccounted < accountedDecrease then .error .conflict
      else if x.status = .finalized then .error .finalized
      else if e.kind ≠ .release ∧ !claimed then .error .notClaimed
      else if e.kind = .release ∧ claimed then .error .conflict
      else
        match kindVerdict e x with
        | some reply => .error reply
        | none =>
          if e.kind ≠ .retainAmbiguous
              ∧ (reservedDecrease ≠ oldReserved ∨ accountedDecrease ≠ oldAccounted) then
            .error .conflict
          else
            let newReserved := oldReserved - reservedDecrease
            let sum := luaAdd oldAccounted accountedIncrease
            if sum < accountedDecrease
                ∨ maxSafe - newReserved < sum - accountedDecrease then
              .error .conflict
            else .ok (newReserved, sum - accountedDecrease)
  | _, _, _, _, _, _ => .error .conflict

-- ===== staging

/-- A staged event: the reservation it settles and its new amounts. -/
structure Staged where
  event : Event
  index : Nat
  reservation : HeldReservation
  (newReserved newAccounted : Nat)
deriving DecidableEq, Repr

def Staged.newTotal (s : Staged) : Nat := s.newReserved + s.newAccounted

/-- The locals of the staging loop. -/
structure Batch where
  staged : List Staged
  eventIds : FMap String String
  covered : List String

/-- The keyspace checks of one event: the charge it replaces is still
there and its replacement stays in the safe range. -/
def stageBalance (K : Keyspace) (record : Record) (x : HeldReservation)
    (newTotal : Nat) : Option Reply :=
  if 0 < x.total ∧ (!record.claimed ∨ x.reservedNano = 0)
      ∧ (K.zscore x.key (durableExpiryMember record.fingerprint x.bucket x.total)).isNone then
    -- expiry cleanup may already have removed this operation
    some .notFound
  else if (durableInt x.windowExpiresMillis).isNone then
    some (.stateUnavailable .range)
  else
    match durableInt (K.sum x.key x.bucket) with
    | none => some .notFound
    | some current =>
      if current < x.total then some .notFound
      else if maxSafe - newTotal < current - x.total then
        some (.stateUnavailable .range)
      else none

/-- The reservations an event names, with their indices. -/
def Record.named (record : Record) (e : Event) : List (HeldReservation × Nat) :=
  record.reservations.zipIdx.filter fun p => e.names p.1

/-- An event the record has not seen: find its reservation and stage
its transition. -/
def stageNew (K : Keyspace) (record : Record) (b : Batch) (e : Event) : Except Reply Staged :=
  match record.named e with
  | [] => .error .conflict
  | [(x, index)] =>
    if index ∈ b.staged.map Staged.index then .error .conflict
    else
      match stageTransition record.claimed x e with
      | .error reply => .error reply
      | .ok (newReserved, newAccounted) =>
        match stageBalance K record x (newReserved + newAccounted)
          with
        | some reply => .error reply
        | none => .ok ⟨e, index, x, newReserved, newAccounted⟩
  | _ => .error .notFound

/-- One turn of the staging loop. -/
def stageEvent (K : Keyspace) (record : Record) (b : Batch) (e : Event) : Except Reply Batch :=
  if !e.bounded then .error .invalidRequest
  else if e.identity ∈ b.covered then .error .conflict
  else
    match b.eventIds.lookup e.eventId with
    | some fingerprint =>
      if fingerprint ≠ e.fingerprint then .error .conflict
      else .ok { b with covered := e.identity :: b.covered }
    | none =>
      match record.events.lookup e.eventId with
      | some prior =>
        if prior ≠ e.fingerprint then .error .conflict
        else
          .ok
            { b with
              eventIds := b.eventIds.insert e.eventId e.fingerprint
              covered := e.identity :: b.covered }
      | none =>
        match stageNew K record b e with
        | .error reply => .error reply
        | .ok item =>
          .ok
            { staged := b.staged ++ [item]
              eventIds := b.eventIds.insert e.eventId e.fingerprint
              covered := e.identity :: b.covered }

/-- The staging loop. -/
def stageAll (K : Keyspace) (record : Record) : List Event → Batch → Except Reply Batch
  | [], b => .ok b
  | e :: rest, b =>
    match stageEvent K record b e with
    | .error reply => .error reply
    | .ok b' => stageAll K record rest b'

-- ===== applying

/-- The status an applied event leaves. -/
def JournalKind.settles : JournalKind → ReservationStatus
  | .retainAmbiguous | .finalizeUnknown => .ambiguous
  | _ => .finalized

/-- The reservation an applied event leaves. -/
def Staged.settled (s : Staged) : HeldReservation :=
  { s.reservation with
    reservedNano := s.newReserved
    accountedNano := s.newAccounted
    reservationRevision := s.event.reservationRevision.toNat
    status := s.event.kind.settles }

/-- The old charge leaves the hash and the expiry set. -/
def dropCharge (K : Keyspace) (fingerprint : String) (x : HeldReservation) : Keyspace :=
  if 0 < x.total then
    (K.hincrbyDropZero x.key x.bucket (-(x.total : Int))).zrem x.key
      (durableExpiryMember fingerprint x.bucket x.total)
  else K

/-- The new charge enters them. An ambiguous charge is retained without
an expiry member. Answers false when the score cannot be printed. -/
def addCharge (K : Keyspace) (fingerprint : String) (s : Staged) : Keyspace × Bool :=
  let x := s.reservation
  if s.newTotal = 0 then (K, true)
  else
    let K' := K.hincrby x.key x.bucket s.newTotal
    if s.event.kind = .retainAmbiguous then (K', true)
    else
      match durableInt x.windowExpiresMillis with
      | none => (K', false)
      | some score =>
        (K'.zadd x.key score (durableExpiryMember fingerprint x.bucket s.newTotal), true)

/-- The record an applied event leaves. -/
def settleRecord (record : Record) (s : Staged) : Record :=
  { record with
    reservations := record.reservations.set s.index s.settled
    events := record.events.insert s.event.eventId s.event.fingerprint }

/-- One turn of the applying loop. -/
def applyItem (K : Keyspace) (record : Record) (s : Staged) : Keyspace × Option Record :=
  match addCharge (dropCharge K record.fingerprint s.reservation)
    record.fingerprint s with
  | (K', true) => (K', some (settleRecord record s))
  | (K', false) => (K', none)

/-- The applying loop. -/
def applyAll : List Staged → Keyspace → Record → Keyspace × Option Record
  | [], K, record => (K, some record)
  | s :: rest, K, record =>
    match applyItem K record s with
    | (K', some record') => applyAll rest K' record'
    | (K', none) => (K', none)

-- ===== reconcile

/-- The checks on the arguments of `durable_reconcile`. -/
def ReconcileArgs.valid : Bool :=
  boundedString a.generationId 128 && boundedString a.incarnationId 128
    && boundedString a.operationId 128
    && !a.events.isEmpty && a.events.length ≤ maxDurableEvents

/-- The checks of a batch against the record it settles. -/
def reconcileRefusal (record : Record) : Option Reply :=
  if record.generationId ≠ a.generationId then some .generationMismatch
  else if record.incarnationId ≠ a.incarnationId then
    some .incarnationMismatch
  else if record.operationId ≠ a.operationId then some .notFound
  else if !record.sized then some (.stateUnavailable .record)
  else if record.reservations.length < a.events.length then
    some .invalidRequest
  else none

/-- Applying a staged batch. -/
def commitBatch (record : Record) (b : Batch) (K : Keyspace) : Keyspace × Reply :=
  match applyAll b.staged K record with
  | (K', some record') =>
    (K'.setRecord a.key (durableEncode record'), .ok (durableEncode record'))
  | (K', none) => (K', .scriptError)

def durableReconcile (K : Keyspace) : Keyspace × Reply :=
  if !K.admits a.authority then (K, .authorityUnavailable)
  else if !a.valid then (K, .invalidRequest)
  else
    match K.records.lookup a.key with
    | none => (K, .notFound)
    | some record =>
      match reconcileRefusal a record with
      | some reply => (K, reply)
      | none =>
        match stageAll K record a.events ⟨[], ∅, []⟩ with
        | .error reply => (K, reply)
        | .ok b => commitBatch a record b K

end LlmTemporalWorker.Budget
