/-
What workers do to the ledger, and what it is worth in exact dollars.

A turn is one request to one materializer. The books pair the keyspace
with a ghost: for every record and reservation, the exact accounted
amount of the last settlement that was applied to it. The ledger itself
keeps only nano-dollars; the ghost is what its roundings are measured
against.
-/
import LlmTemporalWorker.Budget.Materializer
import LlmTemporalWorker.Budget.Run

namespace LlmTemporalWorker.Budget

open Lib Pricing

-- ===== turns

/-- A request to a materializer, or to the initializer that publishes
the authority the materializers' calls carry. -/
inductive Request where
  | accept (clock : AcceptClock) (request : ReserveRequest)
  | claim (request : ClaimRequest)
  | reconcile (request : ReconcileRequest)
  | publish (args : AuthorityArgs)
deriving DecidableEq

/-- A request, the materializer it goes to, and the Redis TIME at which
its call, if it makes one, is executed. -/
structure Turn where
  worker : Materializer
  time : RedisTime
  request : Request
deriving DecidableEq

variable (H : Host)

/-- The call a turn makes. -/
def Turn.call (t : Turn) : Except String Call :=
  match t.request with
  | .accept clock request =>
    (acceptCall H t.worker clock request).map .reserve
  | .claim request => (claimCall t.worker request).map .claim
  | .reconcile request => (reconcileCall H t.worker request).map .reconcile
  | .publish args => .ok (.authority args)

/-- The call with its time, if the request passes the worker's own
checks. -/
def Turn.timedCall (t : Turn) : Option TimedCall :=
  match t.call H with
  | .ok c => some ⟨t.time, c⟩
  | .error _ => none

-- ===== books

/-- The ledger and the exact accounted amounts. -/
structure Books where
  keyspace : Keyspace
  spent : OperationKey → Nat → Nat

def Books.empty : Books := ⟨Keyspace.empty, fun _ _ => 0⟩

/-- The exact accounted amount of the request's event that went out as
this one. -/
def exactIncrease (request : ReconcileRequest) (e : Event) : Nat :=
  ((request.events.find? fun c =>
    (wireEvent H c).toOption == some e).map fun c => c.accountedIncreaseUsd.units).getD 0

/-- A record's accounted amounts after a batch: the settled
reservations are worth what their events say. -/
def settledSpent (request : ReconcileRequest) (items : List Staged)
    (spent : Nat → Nat) (i : Nat) : Nat :=
  match items.find? (·.index == i) with
  | some s => exactIncrease H request s.event
  | none => spent i

/-- The accounted amounts after a reconcile. -/
def spend (request : ReconcileRequest) (a : ReconcileArgs) (K : Keyspace)
    (spent : OperationKey → Nat → Nat) (op : OperationKey) : Nat → Nat :=
  if op = a.key then
    settledSpent H request (appliedEvents a K) (spent op)
  else spent op

/-- The accounted amounts after a turn's call. -/
def Turn.spent (t : Turn) (c : Call) (B : Books) : OperationKey → Nat → Nat :=
  match t.request, c with
  | .reconcile request, .reconcile a =>
    spend H request a B.keyspace B.spent
  | _, _ => B.spent

/-- One turn. -/
def Turn.perform (t : Turn) (B : Books) : Books × Option Reply :=
  match t.call H with
  | .error _ => (B, none)
  | .ok c =>
    (⟨(Budget.perform ⟨t.time, c⟩ B.keyspace).1, t.spent H c B⟩,
      some (Budget.perform ⟨t.time, c⟩ B.keyspace).2)

/-- The books after a run. -/
def books (turns : List Turn) : Books :=
  runAll (Turn.perform H) Books.empty turns

-- ===== exposure

/-- A charge is live while the expiry index has its member, or while
its reservation is claimed and not settled. -/
def liveCharge (K : Keyspace) (r : Record) (x : HeldReservation) : Bool :=
  (0 < x.total && (K.zscore x.key (durableExpiryMember r.fingerprint x.bucket x.total)).isSome)
    || (r.claimed && 0 < x.reservedNano)

/-- What a reservation is worth in 10⁻¹⁸ dollars: the exact amount
while it is reserved, and the exact accounted amount. -/
def exactCharge (spent : Nat) (x : HeldReservation) : Nat :=
  (if 0 < x.reservedNano then x.amountUsd else 0) + spent

/-- What a window's live reservations and accounted spend come to. -/
def exactTotal (B : Books) (w : WindowKey) : Int :=
  total (fun op r => (r.reservations.zipIdx.map fun p =>
    if p.1.key = w ∧ liveCharge B.keyspace r p.1 then
      (exactCharge (B.spent op p.2) p.1 : Int)
    else 0).sum) B.keyspace.records

/-- The Function adds a settlement's increase to the accounted amount
it meets without rounding. -/
def settlesExactly (t : Turn) (K : Keyspace) : Bool :=
  match t.call H with
  | .ok (.reconcile a) =>
    (K.records.lookup a.key).all fun r =>
      a.events.all fun e => r.reservations.all fun x =>
        !e.names x || luaAdd x.accountedNano e.accountedIncreaseNano
          == x.accountedNano + e.accountedIncreaseNano
  | _ => true

/-- Every settlement of a run is added exactly, where the run makes
it. -/
def addsExactly (turns : List Turn) : Bool :=
  (List.range turns.length).all fun n => turns[n]?.all fun t =>
    settlesExactly H t (books H (turns.take n)).keyspace

end LlmTemporalWorker.Budget
