/-
The keys of the admission actions with the moments they vanish at
(storage/redis/functions/admission.lua: `expire_budget`, `set_record`).

The actions are those of Admission/Function.lean. Here they run on a
state in which every key also has the moment it vanishes at, and in
which the commands read and move that moment.

# Redis

The moments are milliseconds of the server's clock, which stands still
while a Function runs. A key past its moment is gone. `TTL` answers in
seconds, rounded to the nearest one; `SET` drops the expiry of the key it
writes; `HINCRBY` keeps the expiry of a hash, and a hash it creates has
none; `EXPIRE` does nothing to a missing key and deletes a key that gets
no time.

# The call in progress

A state also keeps three things of the call that runs on it: the clock,
the TTL argument, and the budget hashes that it has written. The first
two are set when the call starts; no action reads the third.
-/
import LlmTemporalWorker.Admission.Double
import LlmTemporalWorker.Lib.Run

namespace LlmTemporalWorker.Admission.Retention

open Lib Budget

-- ===== keyspace

/-- A keyspace and the moments its keys vanish at. The moment of a
missing key means nothing. -/
structure Timed where
  keys : Keyspace
  (indexEnds recordEnds : String → Option Nat)
  budgetEnds : WindowKey → Option Nat
  /-- the clock of the call in progress, in milliseconds -/
  now : Nat
  /-- the TTL argument of the call in progress -/
  ttl : Int
  /-- the budget hashes written by the call in progress -/
  written : List WindowKey

/-- The keyspace of a new store. -/
def Timed.empty : Timed :=
  ⟨.empty, fun _ => none, fun _ => none, fun _ => none, 0, 0, []⟩

/-- The clock that expiries are compared with. -/
def nowMillis (clock : Clock) : Nat := clock.nowMicros / 1000

/-- A key that ends at this moment is still there. -/
def live (now : Nat) (ends : Option Nat) : Bool := ends.all (now ≤ ·)

/-- What is left when a call starts. -/
def Timed.sweep (now : Nat) (ttl : Int) (T : Timed) : Timed :=
  { T with
    keys :=
      { index := T.keys.index.filterMap fun key value =>
          if live now (T.indexEnds key) then some value else none
        records := T.keys.records.filterMap fun key value =>
          if live now (T.recordEnds key) then some value else none
        budget := fun w =>
          if live now (T.budgetEnds w) then T.keys.budget w else ∅ }
    now := now
    ttl := ttl
    written := [] }

variable (T : Timed) (key : String)

/-- `EXISTS` of a record. -/
def Timed.hasRecord : Bool :=
  (T.keys.records.lookup key).isSome

/-- `EXISTS` of a budget hash: a hash without fields does not exist. -/
def Timed.hasBudget (w : WindowKey) : Bool :=
  !(T.keys.budget w).entries.isEmpty

/-- The moment a record vanishes at, if it is there and will. -/
def Timed.recordExpiry : Option Nat :=
  if T.hasRecord key then T.recordEnds key else none

/-- The moment a budget hash vanishes at, if it is there and will. -/
def Timed.budgetExpiry (w : WindowKey) : Option Nat :=
  if T.hasBudget w then T.budgetEnds w else none

/-- `TTL`. -/
def ttlReply (found : Bool) (expiry : Option Nat) (now : Nat) : Int :=
  if !found then -2
  else match expiry with
  | none => -1
  | some ends => ((ends - now + 500) / 1000 : Nat)

-- ===== commands

/-- `HINCRBY`: the keyspace and the new value. -/
def Timed.hincrby (w : WindowKey) (bucket : Nat) (delta : Int) : Timed × Int :=
  let (keys, next) := T.keys.hincrby w bucket delta
  ({ T with
      keys := keys
      budgetEnds := Function.update T.budgetEnds w (T.budgetExpiry w)
      written := T.written ++ [w] }, next)

/-- `EXPIRE` of a budget hash, for a positive time. -/
def Timed.expireHash (w : WindowKey) (seconds : Nat) : Timed :=
  if T.hasBudget w then
    { T with budgetEnds := Function.update T.budgetEnds w (some (T.now + seconds * 1000)) }
  else T

/-- `SET` of a record. -/
def Timed.storeRecord (text : RecordText) : Timed :=
  { T with
    keys := { T.keys with records := T.keys.records.insert key text }
    recordEnds := Function.update T.recordEnds key none }

/-- `EXPIRE` of a record. -/
def Timed.expireRecord (seconds : Nat) : Timed :=
  if !T.hasRecord key then T
  else if seconds = 0 then
    { T with keys :=
        { T.keys with records := T.keys.records.erase key } }
  else
    { T with recordEnds := Function.update T.recordEnds key (some (T.now + seconds * 1000)) }

/-- `SET` and `EXPIRE` of an index, for the TTL, which `begin` has found
positive. -/
def Timed.setIndex (value : String) : Timed :=
  { T with
    keys := { T.keys with index := T.keys.index.insert key value }
    indexEnds := Function.update T.indexEnds key (some (T.now + T.ttl.toNat * 1000)) }

/-- `DEL` of an index. -/
def Timed.deleteIndex : Timed :=
  { T with keys := { T.keys with index := T.keys.index.erase key } }

-- ===== the helpers

/-- `window_seconds` of `expire_budget`. -/
def windowSeconds (durationNs : Nat) : Int :=
  luaCeilDiv durationNs 1000000000

/-- `expire_budget`. -/
def Timed.expireBudget (w : WindowKey) (durationNs : Nat) : Timed :=
  match integer T.ttl with
  | none => T
  | some value =>
    if value = 0 then T
    else
      let desired := luaDouble (value + windowSeconds durationNs)
      let current := ttlReply (T.hasBudget w) (T.budgetEnds w) T.now
      -- a reply of -1 is taken for a hash that is persistent by policy
      if current = -2 ∨ 0 ≤ current ∧ current < desired then
        T.expireHash w desired.toNat
      else T

/-- `restore_ttl` of `set_record`. -/
def restoreTtl (current ttl : Int) : Option Nat :=
  let kept := if 0 ≤ current then some current.toNat else none
  match integer ttl with
  | none => kept
  | some value =>
    if 0 < value ∧ (current = -2 ∨ 0 ≤ current ∧ current < value) then
      some value
    else kept

/-- `set_record`: the keyspace and the text it stores. -/
def Timed.setRecord (record : LuaRecord) : Timed × RecordText :=
  let current := ttlReply (T.hasRecord key) (T.recordEnds key) T.now
  let T' := T.storeRecord key record.encode
  match restoreTtl current T.ttl with
  | none => (T', record.encode)
  | some seconds => (T'.expireRecord key seconds, record.encode)

instance : Commands Timed where
  keys := Timed.keys
  hincrby := Timed.hincrby
  expireBudget := Timed.expireBudget
  setRecord := Timed.setRecord
  setIndex := Timed.setIndex
  deleteIndex := Timed.deleteIndex

-- ===== runs

/-- A call that was sent: the time it runs at, and the TTL argument of an
action other than `begin`, whose own arguments have it. -/
structure Sent where
  call : Call
  ttlArg : Int
  clock : Clock

/-- The TTL argument. -/
def Sent.ttl (s : Sent) : Int :=
  match s.call with
  | .begin c => c.ttl
  | _ => s.ttlArg

/-- What a call finds: the keys that have not vanished. -/
def Sent.finds (s : Sent) (T : Timed) : Timed :=
  T.sweep (nowMillis s.clock) s.ttl

/-- A call, on what is left of the keyspace. -/
def Sent.run (s : Sent) (T : Timed) : Timed × Reply :=
  s.call.act s.clock (s.finds T)

/-- The keyspace after a run of calls that starts without a key. -/
def after (sent : List Sent) : Timed :=
  runAll Sent.run .empty sent

end LlmTemporalWorker.Admission.Retention
