/-
What the throttle has granted, kept beside the store.

A ledger is written from the calls and their answers alone: an acquire
answered `created` adds a charge to the window of each of its counters,
and a release answered `released` removes the charges of its
reservation. A counter's window begins with the first charge made while
none is open and lasts for that acquire's time to live. The counters of
the store are right when they count what the ledger lists.

The ledger also lists the reservations that the store has handed out.
-/
import LlmTemporalWorker.Throttle.Store
import LlmTemporalWorker.Lib.Run

namespace LlmTemporalWorker.Throttle

open Lib

/-- An amount charged by one reservation. -/
structure Charge where
  (holder amount : Nat)
deriving DecidableEq, Repr

/-- The charges made since a window began and not released. -/
structure Window where
  ends : Nat
  charges : List Charge
deriving DecidableEq, Repr

/-- A window's charges together. -/
def Window.spent (w : Window) : Nat := (w.charges.map Charge.amount).sum

/-- The charges of one holder. -/
def Window.own (w : Window) (holder : Nat) : Nat :=
  ((w.charges.filter (·.holder == holder)).map Charge.amount).sum

/-- A window without the charges of one holder. -/
def Window.without (w : Window) (holder : Nat) : Window :=
  { w with charges := w.charges.filter (·.holder != holder) }

structure Ledger where
  /-- how many reservations have been created -/
  created : Nat
  windows : CounterKey → Option Window
  /-- the last reservation created under an id, by its number -/
  holder : String → Option Nat
  /-- what `Acquire` and `Lookup` have returned -/
  issued : List ThrottleReservation

def Ledger.empty : Ledger := ⟨0, fun _ => none, fun _ => none, []⟩

variable (L : Ledger) (now : Nat)

/-- A counter's window while it lasts. -/
def Ledger.window (key : CounterKey) : Option Window :=
  (L.windows key).filter fun w => now < w.ends

/-- What is charged to a counter's window. -/
def Ledger.spent (key : CounterKey) : Nat :=
  ((L.window now key).map Window.spent).getD 0

/-- What the reservation last created under an id has charged to a
counter's window. -/
def Ledger.own (id : String) (key : CounterKey) : Nat :=
  match L.holder id, L.window now key with
  | some holder, some w => w.own holder
  | _, _ => 0

/-- A counter's window with one more charge, of the reservation that is
being created. -/
def Ledger.grown (ttl : Nat) (line : CounterKey × Nat) :
    Window :=
  match L.window now line.1 with
  | none => ⟨now + ttl * 1000, [⟨L.created, line.2⟩]⟩
  | some w => { w with charges := ⟨L.created, line.2⟩ :: w.charges }

/-- A charge to one counter. -/
def Ledger.charge (now ttl : Nat) (L : Ledger) (line : CounterKey × Nat) : Ledger :=
  { L with windows := Function.update L.windows line.1 (some (L.grown now ttl line)) }

/-- An acquire answered `created`. -/
def Ledger.record (now ttl : Nat) (id : String)
    (lines : List (CounterKey × Nat)) (L : Ledger) : Ledger :=
  let L := lines.foldl (Ledger.charge now ttl) L
  { L with
    created := L.created + 1
    holder := Function.update L.holder id (some L.created) }

/-- A release answered `released`. -/
def Ledger.release (id : String) (L : Ledger) : Ledger :=
  match L.holder id with
  | none => L
  | some holder =>
    { L with windows := fun key =>
        (L.windows key).map (Window.without · holder) }

/-- A reservation that the store returned. -/
def Ledger.issue (r : Except String ThrottleReservation) (L : Ledger) :
    Ledger :=
  match r with
  | .error _ => L
  | .ok r => { L with issued := r :: L.issued }

-- ===== steps

/-- What happens to a store. -/
inductive Step where
  | acquire (id : String) (limits : List ThrottleLimit)
  | lookup (id : String)
  | release (r : ThrottleReservation)
  | advance (millis : Nat)
deriving Repr

/-- A limit's counter and its amount. -/
def ThrottleLimit.line (l : ThrottleLimit) : CounterKey × Nat :=
  (l.key, l.amount.toNat)

/-- The time to live that `Acquire` computes, where it computes one. -/
def acquireTtl (limits : List ThrottleLimit) : Nat :=
  match acquireLoop [] 1 limits with
  | .error _ => 0
  | .ok ttl => ttl.toNat

/-- The store and its ledger after a step, and the Function's answer. -/
def Step.perform (host : Host) : Step → Keyspace × Ledger → (Keyspace × Ledger) × Option Status
  | .acquire id limits, (K, L) =>
    match submitAcquire host id limits K with
    | .error _ => ((K, L), none)
    | .ok (K', reply) =>
      let L := if reply.status = .created then
          L.record K.now (acquireTtl limits) id (limits.map ThrottleLimit.line)
        else L
      let returned := (answerAcquire reply).map
        ThrottleAcquireResult.reservation
      ((K', L.issue returned), some reply.status)
  | .lookup id, (K, L) => ((K, L.issue (Throttle.lookup host id K)), none)
  | .release r, (K, L) =>
    match submitRelease r K with
    | .error _ => ((K, L), none)
    | .ok (K', reply) =>
      let L := if reply.status = .released then L.release r.id else L
      ((K', L), some reply.status)
  | .advance millis, (K, L) =>
    (({ K with now := K.now + millis }, L), none)

end LlmTemporalWorker.Throttle
