/-
Admission: `durable_cleanup`, `durable_reserve` and `durable_claim`
(storage/redis/functions/admission.lua).

# Failure is not rollback

Redis does not undo a script's writes when it returns early. The
admission loop removes expired members window by window before it
knows whether the request fits, so a refused reserve can still have
changed the keyspace: the loop's steps return the keyspace they leave
beside their verdict.

# Replies

A reply keeps what the Function answers, status and record. The one
status the Function uses for several failures, `state_unavailable`,
carries which of them it was (`Cause`), so that a statement can speak
about one of them.
-/
import LlmTemporalWorker.Budget.Basic

namespace LlmTemporalWorker.Budget

open Lib

-- ===== replies

/-- What made the Function answer `state_unavailable`. -/
inductive Cause where
  /-- `durable_cleanup` met a member it could not take back. -/
  | cleanup
  /-- Redis TIME, a stored total or a stored time out of range. -/
  | range
  /-- A stored record of an impossible size. -/
  | record
deriving DecidableEq, Repr

/-- The figures of a denial. -/
structure Denial where
  (policyId windowId : String)
  (limitNano activeNano requestedNano : Nat)
deriving DecidableEq, Repr

/-- The record a denial is answered with. -/
structure DeniedRecord where
  (operationId generationId incarnationId fingerprint occurredAt : String)
  reservations : List Reservation
  denial : Denial
deriving DecidableEq, Repr

/-- The Function's answers. `created` is split by the status of the
record it returns. -/
inductive Reply where
  | invalidRequest
  | authorityUnavailable
  | stateUnavailable (cause : Cause)
  | generationMismatch
  | incarnationMismatch
  | conflict
  | notFound
  | notClaimed
  | alreadyClaimed
  | finalized
  | expired
  | existing (record : Record)
  | accepted (record : Record)
  | denied (record : DeniedRecord)
  | claimed
  | ok (record : Record)
  | preparing
  | ready
  | recovering
  | busy
  | held (progress : String)
  | released
  | restored
  | unchanged
  | raised (count : Nat)
  /-- A command or a string conversion raised an error. -/
  | scriptError
deriving DecidableEq

/-- The optional authority envelope of a call: the marker it expects
to be published as ready. -/
def Keyspace.admits (K : Keyspace) : Option String → Bool
  | none => true
  | some marker => K.authority = some (.ready marker)

-- ===== time

/-- The reply of Redis TIME. -/
structure RedisTime where
  (seconds micros : Nat)
deriving DecidableEq, Repr

/-- The reading in milliseconds. -/
def RedisTime.millis (t : RedisTime) : Nat :=
  t.seconds * 1000 + t.micros / 1000

-- ===== cleanup

/-- The loop of `durable_cleanup` over the members read. It stops at
the first member it cannot parse or cannot take back. -/
def cleanupMembers (w : WindowKey) : List Member → Keyspace → Keyspace × Bool
  | [], K => (K, true)
  | m :: rest, K =>
    match durableInt m.amount, durableInt (K.sum w m.bucket) with
    | some value, some current =>
      if m.parses && value ≤ current then
        cleanupMembers w rest ((K.hincrbyDropZero w m.bucket (-(value : Int))).zrem w m)
      else (K, false)
    | _, _ => (K, false)

def durableCleanup (w : WindowKey) (now : Nat) (K : Keyspace) : Keyspace × Bool :=
  cleanupMembers w (due now (K.expiry w)) K

-- ===== reserve

/-- The arguments of `durable_reserve`. -/
structure ReserveArgs where
  (generationId incarnationId operationId fingerprint : String)
  ttl : Int
  occurredAt : String
  reservations : List Reservation
  authority : Option String
deriving DecidableEq, Repr

/-- The record's key, `KEYS[1]`. -/
def ReserveArgs.key (a : ReserveArgs) : OperationKey :=
  ⟨a.generationId, a.operationId⟩

/-- The running total of one window of the request. -/
structure WindowState where
  (active limit : Nat)
deriving DecidableEq, Repr

/-- The locals of the admission loop: `seen`, `windows`, `start_by`,
and the reservations passed so far with their `window_expiry`. -/
structure Staging where
  seen : List String
  windows : FMap WindowKey WindowState
  startBy : Nat
  held : List HeldReservation

/-- `identity`: policy, window and bucket. -/
def Reservation.identity (r : Reservation) : String :=
  r.policyId ++ "\x00" ++ r.windowId ++ "\x00" ++ toString r.bucket

/-- The string fields are present and bounded. -/
def Reservation.bounded (r : Reservation) : Bool :=
  boundedString r.policyId 128 && boundedString r.windowId 128 && boundedString r.eventId 128

/-- The checks of one reservation that read no key. Answers its lease
expiry and its window expiry under the reading `now`. -/
def checkReservation (now : Nat) (r : Reservation) : Except Reply (Nat × Nat) :=
  if !r.bounded then .error .invalidRequest
  else
    match durableInt r.windowExpiresMillis, durableInt r.bucket,
      durableInt r.amountNano, durableInt r.limitNano,
      durableInt r.expiresMillis with
    | some windowExpires, some _, some amount, some limit, some expires =>
      if windowExpires = 0 ∨ amount = 0 ∨ limit = 0 then
        .error .invalidRequest
      else if expires ≤ now then .error .expired
      else
        match durableMillis r.bucketNanos,
          durableMillis r.durationNanos with
        | some bucketMillis, some durationMillis =>
          if durationMillis < bucketMillis then .error .invalidRequest
          else
            -- spend counts through the window from acceptance, never
            -- from the quote
            .ok (expires, max windowExpires
              ((now / bucketMillis + 1) * bucketMillis + durationMillis))
        | _, _ => .error .invalidRequest
    | _, _, _, _, _ => .error .invalidRequest

/-- The `HGETALL` loop: the sum of the `sum:` fields, or nil when one
is out of range or the total leaves the safe range. -/
def activeTotal : List Int → Nat → Option Nat
  | [], active => some active
  | v :: rest, active =>
    match durableInt v with
    | some n =>
      if maxSafe - active < n then none
      else activeTotal rest (active + n)
    | none => none

/-- The running total of a reservation's window. The first time a
window is met it is cleaned up and summed. -/
def openWindow (now : Nat) (st : Staging) (r : Reservation)
    (K : Keyspace) : Keyspace × Except Reply WindowState :=
  match st.windows.lookup r.key with
  | some window => (K, .ok window)
  | none =>
    match durableCleanup r.key now K with
    | (K', false) => (K', .error (.stateUnavailable .cleanup))
    | (K', true) =>
      match activeTotal ((K'.hash r.key).sums.entries.map Sigma.snd) 0
        with
      | none => (K', .error (.stateUnavailable .range))
      | some active => (K', .ok ⟨active, r.limitNano⟩)

/-- A reservation as an accepted record holds it. -/
def Reservation.hold (r : Reservation) (windowExpiry : Nat) :
    HeldReservation :=
  { r with
    windowExpiresMillis := windowExpiry
    reservedNano := r.amountNano
    accountedNano := 0
    reservationRevision := 1
    status := .reserved }

/-- The denial of a reservation that does not fit. -/
def denialOf (args : ReserveArgs) (r : Reservation) (window : WindowState) : Reply :=
  .denied
    { operationId := args.operationId
      generationId := args.generationId
      incarnationId := args.incarnationId
      fingerprint := args.fingerprint
      occurredAt := args.occurredAt
      reservations := args.reservations
      denial := ⟨r.policyId, r.windowId, r.limitNano, window.active, r.amountNano⟩ }

/-- One turn of the admission loop. -/
def admitReservation (now : Nat) (args : ReserveArgs) (r : Reservation)
    (K : Keyspace) (st : Staging) : Keyspace × Except Reply Staging :=
  match checkReservation now r with
  | .error e => (K, .error e)
  | .ok (expires, windowExpiry) =>
    if r.identity ∈ st.seen then (K, .error .invalidRequest)
    else
      match openWindow now st r K with
      | (K', .error e) => (K', .error e)
      | (K', .ok window) =>
        if window.limit ≠ r.limitNano then (K', .error .conflict)
        else if r.limitNano < window.active
            ∨ r.limitNano - window.active < r.amountNano then
          (K', .error (denialOf args r window))
        else
          (K', .ok
            { seen := r.identity :: st.seen
              windows := st.windows.insert r.key ⟨window.active + r.amountNano, window.limit⟩
              startBy := min st.startBy expires
              held := st.held ++ [r.hold windowExpiry] })

/-- The admission loop. -/
def admitAll (now : Nat) (args : ReserveArgs) :
    List Reservation → Keyspace → Staging → Keyspace × Except Reply Staging
  | [], K, st => (K, .ok st)
  | r :: rest, K, st =>
    match admitReservation now args r K st with
    | (K', .error e) => (K', .error e)
    | (K', .ok st') => admitAll now args rest K' st'

/-- The writes for one accepted reservation. -/
def charge (fingerprint : String) (startBy : Nat) (K : Keyspace) (x : HeldReservation) : Keyspace :=
  ((K.hsetLimit x.key x.bucket x.limitNano).hincrby x.key x.bucket x.amountNano).zadd x.key startBy
      (durableExpiryMember fingerprint x.bucket x.amountNano)

/-- The accepted record. -/
def acceptedRecord (args : ReserveArgs) (st : Staging) : Record :=
  { operationId := args.operationId
    generationId := args.generationId
    incarnationId := args.incarnationId
    fingerprint := args.fingerprint
    occurredAt := args.occurredAt
    startByMillis := st.startBy
    claimed := false
    reservations := st.held
    events := ∅ }

/-- The checks on the arguments of `durable_reserve`. Of the fingerprint
only its length is checked: any sixty-four bytes pass. -/
def ReserveArgs.valid (a : ReserveArgs) : Bool :=
  boundedString a.generationId 128 && boundedString a.incarnationId 128
    && boundedString a.operationId 128
    && a.fingerprint.utf8ByteSize == 64
    && (durableInt a.ttl).any (0 < ·)
    && boundedString a.occurredAt 64
    && !a.reservations.isEmpty
    && a.reservations.length ≤ maxDurableReservations

/-- A reserve that finds its record: it answers and writes nothing. -/
def replayReserve (a : ReserveArgs) (existing : Record) : Reply :=
  if existing.generationId ≠ a.generationId then .generationMismatch
  else if existing.incarnationId ≠ a.incarnationId then
    .incarnationMismatch
  else if existing.operationId ≠ a.operationId
      ∨ existing.fingerprint ≠ a.fingerprint then .conflict
  else .existing existing

/-- A reserve that finds no record. -/
def createReserve (t : RedisTime) (a : ReserveArgs) (K : Keyspace) : Keyspace × Reply :=
  if maxSafe < t.seconds ∨ maxSafe < t.micros then
    (K, .stateUnavailable .range)
  else
    match admitAll t.millis a a.reservations K
      ⟨[], ∅, t.millis + 15 * 60 * 1000, []⟩ with
    | (K', .error e) => (K', e)
    | (K', .ok st) =>
      let record := durableEncode (acceptedRecord a st)
      ((st.held.foldl (charge a.fingerprint st.startBy)
        K').setRecord a.key record, .accepted record)

def durableReserve (t : RedisTime) (a : ReserveArgs) (K : Keyspace) : Keyspace × Reply :=
  if !K.admits a.authority then (K, .authorityUnavailable)
  else if !a.valid then (K, .invalidRequest)
  else
    match K.records.lookup a.key with
    | some existing => (K, replayReserve a existing)
    | none => createReserve t a K

-- ===== claim

/-- The arguments of `durable_claim`. -/
structure ClaimArgs where
  (generationId incarnationId operationId : String)
  authority : Option String
deriving DecidableEq, Repr

/-- The record's key, `KEYS[1]`. -/
def ClaimArgs.key (a : ClaimArgs) : OperationKey :=
  ⟨a.generationId, a.operationId⟩

/-- The member a claim looks for: the reservation as it was made. -/
def claimMember (record : Record) (x : HeldReservation) : Member :=
  durableExpiryMember record.fingerprint x.bucket x.amountNano

/-- A reservation still carries its unclaimed lease. -/
def leaseHeld (K : Keyspace) (record : Record) (x : HeldReservation) :
    Bool :=
  x.status = .reserved && (K.zscore x.key (claimMember record x)).isSome

/-- The record's size is one the Function can have written. -/
def Record.sized (record : Record) : Bool :=
  !record.reservations.isEmpty && record.reservations.length ≤ maxDurableReservations

/-- Every lease of the record is taken out of the expiry sets; the
sums keep the charge. -/
def unlease (record : Record) (K : Keyspace) : Keyspace :=
  record.reservations.foldl (fun K x => K.zrem x.key (claimMember record x)) K

/-- The verdict of `durable_claim` on a record, with no write. -/
def claimVerdict (t : RedisTime) (a : ClaimArgs) (K : Keyspace) (record : Record) : Reply :=
  if !record.sized then .stateUnavailable .record
  else if record.generationId ≠ a.generationId then .generationMismatch
  else if record.incarnationId ≠ a.incarnationId then
    .incarnationMismatch
  else if record.operationId ≠ a.operationId then .notFound
  else if record.claimed then .alreadyClaimed
  else
    match durableInt record.startByMillis with
    | none => .expired
    | some startBy =>
      if startBy ≤ t.millis then .expired
      else if !record.reservations.all (leaseHeld K record) then
        .finalized
      else .claimed

def durableClaim (t : RedisTime) (a : ClaimArgs) (K : Keyspace) : Keyspace × Reply :=
  if !K.admits a.authority then (K, .authorityUnavailable)
  else
    match K.records.lookup a.key with
    | none => (K, .notFound)
    | some record =>
      if claimVerdict t a K record = .claimed then
        ((unlease record K).setRecord a.key
          (durableEncode { record with claimed := true }), .claimed)
      else (K, claimVerdict t a K record)

end LlmTemporalWorker.Budget
