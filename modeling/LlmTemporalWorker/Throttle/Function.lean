/-
The throttle Function (storage/redis/functions/throttle.lua).

Request, token and concurrency limits are counters with a time to live.
An acquire adds its amounts to all of its counters or to none, and keeps
a reservation that remembers when each counter's window ends. A release
takes the amounts back from the counters whose window is still the one
the reservation was charged in.

# Keys and time

A reservation is named by its id and a counter by its kind and the
digest of its kind and scope (`throttleKey`); `keySpace.digest` writes
its values length prefixed, so a digest is as good as what it digests.

Redis drops a key when its time to live ends. The model keeps the end of
every key and lets a read see a key only before its end. `TIME` and
`PTTL` both count the milliseconds of one clock.
-/
import LlmTemporalWorker.Admission.Wire

namespace LlmTemporalWorker.Throttle

open Budget Admission

-- ===== keys

/-- `ThrottleKind`; `other` is a string that is no constant. -/
inductive ThrottleKind where
  | requests
  | tokens
  | concurrency
  | other (text : String)
deriving DecidableEq, Repr

/-- The string a kind is. -/
def ThrottleKind.text : ThrottleKind → String
  | .requests => "requests"
  | .tokens => "tokens"
  | .concurrency => "concurrency"
  | .other text => text

/-- `keySpace.throttleDigest(kind, scope)`. -/
structure KeyDigest where
  kind : ThrottleKind
  scope : String
deriving DecidableEq, Repr

/-- `keySpace.throttleKeyDigest(kind, digest)`: names a counter. -/
structure CounterKey where
  kind : ThrottleKind
  digest : KeyDigest
deriving DecidableEq, Repr

/-- `throttleDigest(limits)`, by the text it digests. -/
structure LimitsDigest where
  text : List Char
deriving DecidableEq, Repr

-- ===== records

structure ThrottleWireLimit (N : Type) where
  kind : ThrottleKind
  keyDigest : KeyDigest
  (amount limit : N)
deriving DecidableEq, Repr

def ThrottleWireLimit.map {N M : Type} (f : N → M)
    (l : ThrottleWireLimit N) : ThrottleWireLimit M :=
  ⟨l.kind, l.keyDigest, f l.amount, f l.limit⟩

/-- `throttleWire`, with schema `throttle/v1` and the window ends that
the Function adds. -/
structure ThrottleWire (N : Type) where
  id : String
  digest : LimitsDigest
  limits : List (ThrottleWireLimit N)
  windowEnds : Option (List N)
deriving DecidableEq, Repr

def ThrottleWire.map {N M : Type} (f : N → M) (w : ThrottleWire N) : ThrottleWire M :=
  ⟨w.id, w.digest, w.limits.map (ThrottleWireLimit.map f), w.windowEnds.map (List.map f)⟩

/-- A record as JSON text. -/
abbrev ThrottleText := ThrottleWire NumberLiteral

-- ===== keyspace

/-- A counter and, once it has one, the end of its window. -/
structure Counter where
  value : Int
  expires : Option Nat
deriving DecidableEq, Repr

/-- A reservation's text, none when it is no `throttle/v1` record. -/
structure Stored where
  text : Option ThrottleText
  expires : Nat
deriving DecidableEq, Repr

/-- What the throttle keeps in Redis, and Redis's clock in
milliseconds. -/
structure Keyspace where
  now : Nat
  counters : CounterKey → Option Counter
  reservations : String → Option Stored

/-- The keyspace of a new store. -/
def Keyspace.empty (now : Nat) : Keyspace :=
  ⟨now, fun _ => none, fun _ => none⟩

variable (K : Keyspace) (key : CounterKey)

/-- A counter that has not expired. -/
def Keyspace.counter : Option Counter :=
  (K.counters key).filter fun c => c.expires.all (K.now < ·)

/-- A reservation that has not expired. -/
def Keyspace.stored (id : String) : Option Stored :=
  (K.reservations id).filter fun s => K.now < s.expires

/-- `PTTL`: -2 without a key, -1 without an end. -/
def Keyspace.pttl : Int :=
  match K.counter key with
  | none => -2
  | some c => match c.expires with
    | none => -1
    | some ends => (ends : Int) - K.now

def Keyspace.setCounter (c : Counter) :
    Keyspace :=
  { K with counters := Function.update K.counters key (some c) }

def Keyspace.setReservation (id : String) (stored : Option Stored) :
    Keyspace :=
  { K with reservations := Function.update K.reservations id stored }

/-- `INCRBY`, and `DECRBY` of the opposite: the keyspace and the new
value. -/
def Keyspace.incrby (delta : Int) : Keyspace × Int :=
  match K.counter key with
  | none => (K.setCounter key ⟨delta, none⟩, delta)
  | some c =>
    (K.setCounter key { c with value := c.value + delta }, c.value + delta)

def Keyspace.pexpire (millis : Nat) :
    Keyspace :=
  match K.counter key with
  | none => K
  | some c => K.setCounter key { c with expires := some (K.now + millis) }

-- ===== replies

/-- The first element of a reply. -/
inductive Status where
  | created
  | existing
  | released
  | denied
  | conflict
  | notFound
  | stateUnavailable
  | invalidRequest
deriving DecidableEq, Repr

/-- A reply: a status and a record. -/
structure Reply where
  status : Status
  record : Option ThrottleText
deriving DecidableEq, Repr

/-- `{status, ''}`. -/
def Reply.bare (status : Status) : Reply := ⟨status, none⟩

def integer (value : Int) : Option Nat := durableInt value

/-- What `reservation` finds. -/
inductive Found where
  | missing
  | invalid
  | record (record : ThrottleWire Int) (encoded : ThrottleText)

def reservation (id : String) : Found :=
  match K.stored id with
  | none => .missing
  | some stored => match stored.text with
    | none => .invalid
    | some text => .record (text.map luaNumber) text

-- ===== acquire

/-- The keys and arguments of `acquire`. -/
structure AcquireCall where
  id : String
  keys : List CounterKey
  /-- `ARGV[2]`; none when it is no `throttle/v1` record with limits -/
  incoming : Option ThrottleText
  ttl : Int
deriving Repr

/-- One turn of the first loop of `acquire`: what it refuses. -/
def refusal (limit : ThrottleWireLimit Int) : Option Status :=
  match integer limit.amount with
  | none => some .invalidRequest
  | some amount =>
    if amount = 0 then some .invalidRequest
    else
      -- a value that is no safe integer counts as zero
      let parsed := ((K.counter key).bind (integer ·.value)).getD 0
      if maxSafe - amount < parsed then some .stateUnavailable
      else if (integer limit.limit).any (· < parsed + amount) then
        some .denied
      else none

/-- The first loop of `acquire`. -/
def checkLimits (K : Keyspace) : List (CounterKey × ThrottleWireLimit Int) → Option Status
  | [] => none
  | (key, limit) :: rest =>
    match refusal K key limit with
    | some status => some status
    | none => checkLimits K rest

/-- `window_end`: the keyspace and the window's end. -/
def windowEnd (ttl : Nat) : Keyspace × Int :=
  if K.pttl key < 0 then
    (K.pexpire key (ttl * 1000), (K.now : Int) + (ttl * 1000 : Nat))
  else (K, (K.now : Int) + K.pttl key)

/-- The second loop of `acquire`: the keyspace, the window ends so far
and whether it ran to its end. -/
def chargeLimits (ttl : Nat) : List (CounterKey × ThrottleWireLimit Int) → Keyspace →
      Keyspace × List Int × Bool
  | [], K => (K, [], true)
  | (key, limit) :: rest, K =>
    let amount := (integer limit.amount).getD 0
    let (K₁, next) := K.incrby key amount
    if (integer next).isNone then (K₁, [], false)
    else
      let (K₂, ends) := windowEnd K₁ key ttl
      let (K₃, rest, done) := chargeLimits ttl rest K₂
      (K₃, ends :: rest, done)

/-- `acquire`. -/
def actionAcquire (c : AcquireCall) (K : Keyspace) : Keyspace × Reply :=
  match c.incoming with
  | none => (K, .bare .invalidRequest)
  | some text =>
    let incoming := text.map luaNumber
    match reservation K c.id with
    | .record existing encoded =>
      if existing.digest ≠ incoming.digest then (K, .bare .conflict)
      else (K, ⟨.existing, some encoded⟩)
    | .invalid => (K, .bare .stateUnavailable)
    | .missing =>
      if incoming.limits.length ≠ c.keys.length then
        (K, .bare .invalidRequest)
      else match integer c.ttl with
      | none => (K, .bare .invalidRequest)
      | some ttl =>
        if ttl = 0 then (K, .bare .invalidRequest)
        else match checkLimits K (c.keys.zip incoming.limits) with
        | some status => (K, .bare status)
        | none =>
          let (K₁, ends, done) := chargeLimits ttl (c.keys.zip incoming.limits) K
          if !done then (K₁, .bare .stateUnavailable)
          else
            let encoded := ThrottleWire.map cjsonLiteral
              { incoming with windowEnds := some ends }
            let stored := ⟨some encoded, K₁.now + ttl * 1000⟩
            (K₁.setReservation c.id (some stored), ⟨.created, some encoded⟩)

-- ===== release

/-- The keys and arguments of `release`: a counter and an amount for
each limit. -/
structure ReleaseCall where
  id : String
  digest : LimitsDigest
  lines : List (CounterKey × Int)
deriving Repr

/-- Whether a counter's window is the one that ended at `recorded`, up
to two milliseconds. -/
def sameWindow (recorded : Int) :
    Bool :=
  decide (0 < K.pttl key) && decide (((K.now : Int) + K.pttl key - recorded).natAbs ≤ 2)

/-- `charged[index]`. -/
def chargedHere (ends : Option (List Int)) (index : Nat) (key : CounterKey) :
    Bool :=
  match ends with
  | none => true
  | some ends => match ends[index]? with
    | none => false
    | some recorded => sameWindow K key recorded

/-- The first loop of `release`: which counters to lower. -/
def checkRelease (K : Keyspace) (ends : Option (List Int)) :
    Nat → List (ThrottleWireLimit Int × CounterKey × Int) → Except Status (List Bool)
  | _, [] => .ok []
  | index, (limit, key, argument) :: rest =>
    match integer argument, integer limit.amount with
    | some amount, some expected =>
      if amount ≠ expected then .error .conflict
      else if chargedHere K ends index key then
        let current := integer (((K.counter key).map
          Counter.value).getD 0)
        if current.all (· < amount) then .error .stateUnavailable
        else match checkRelease K ends (index + 1) rest with
          | .error status => .error status
          | .ok charged => .ok (true :: charged)
      else match checkRelease K ends (index + 1) rest with
        | .error status => .error status
        | .ok charged => .ok (false :: charged)
    | _, _ => .error .conflict

/-- The second loop of `release`. -/
def lowerCounters : List (Bool × CounterKey × Int) → Keyspace → Keyspace
  | [], K => K
  | (charged, key, argument) :: rest, K =>
    if charged then
      lowerCounters rest (K.incrby key (-((integer argument).getD 0 : Nat))).1
    else lowerCounters rest K

/-- `release`. -/
def actionRelease (c : ReleaseCall) (K : Keyspace) : Keyspace × Reply :=
  match reservation K c.id with
  | .missing => (K, .bare .notFound)
  | .invalid => (K, .bare .stateUnavailable)
  | .record existing _ =>
    if existing.digest ≠ c.digest
        ∨ existing.limits.length ≠ c.lines.length then
      (K, .bare .conflict)
    else match checkRelease K existing.windowEnds 0
        (existing.limits.zip c.lines) with
    | .error status => (K, .bare status)
    | .ok charged =>
      let K₁ := lowerCounters (charged.zip c.lines) K
      (K₁.setReservation c.id none, .bare .released)

end LlmTemporalWorker.Throttle
