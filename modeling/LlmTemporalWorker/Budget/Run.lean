/-
Runs of the durable ledger.

Redis executes one Function call at a time, so an interleaving of any
number of workers is a list of calls, each with the Redis TIME it
reads. The readings are arbitrary: nothing says that they grow.

Duplicated and reordered deliveries are lists too; a call that was sent
once may stand in the list any number of times.
-/
import LlmTemporalWorker.Budget.Authority
import LlmTemporalWorker.Budget.Reconcile
import LlmTemporalWorker.Lib.Run

namespace LlmTemporalWorker.Budget

open Lib

/-- A call of one of the three accounting actions, or of an action on
the authority marker. -/
inductive Call where
  | reserve (args : ReserveArgs)
  | claim (args : ClaimArgs)
  | reconcile (args : ReconcileArgs)
  | authority (args : AuthorityArgs)
deriving DecidableEq

/-- The operation a call is about. -/
def Call.key : Call → Option OperationKey
  | .reserve a => some a.key
  | .claim a => some a.key
  | .reconcile a => some a.key
  | .authority _ => none

/-- A call with the Redis TIME it reads. -/
structure TimedCall where
  time : RedisTime
  call : Call
deriving DecidableEq

/-- Executing a call. -/
def perform (c : TimedCall) (K : Keyspace) : Keyspace × Reply :=
  match c.call with
  | .reserve a => durableReserve c.time a K
  | .claim a => durableClaim c.time a K
  | .reconcile a => durableReconcile a K
  | .authority a => durableAuthority a K

variable (calls : List TimedCall)

/-- The ledger after a run. -/
def ledger : Keyspace :=
  runAll perform Keyspace.empty calls

/-- The reply to a call after a run. -/
def answer (c : TimedCall) : Reply :=
  (perform c (ledger calls)).2

theorem ledger_snoc (c : TimedCall) : ledger (calls ++ [c]) = (perform c (ledger calls)).1 :=
  runAll_snoc

theorem ledger_cons (pre mid : List TimedCall) (c : TimedCall) :
    ledger (pre ++ c :: mid) = runAll perform (ledger (pre ++ [c])) mid := by
  rw [ledger, ledger, ← runAll_append, List.append_assoc]
  rfl

/-- The events a reconcile applies: none unless it answers ok. -/
def appliedEvents (a : ReconcileArgs) (K : Keyspace) : List Staged :=
  match (durableReconcile a K).2, K.records.lookup a.key with
  | .ok _, some r =>
    match stageAll K r a.events ⟨[], ∅, []⟩ with
    | .ok b => b.staged
    | .error _ => []
  | _, _ => []

/-- Reserve calls with one fingerprint are about one operation: what
distinct requests having distinct fingerprints comes to. -/
def FingerprintsDistinct : Prop :=
  ∀ c ∈ calls, ∀ d ∈ calls, ∀ a b, c.call = .reserve a →
    d.call = .reserve b → a.fingerprint = b.fingerprint → a.key = b.key

/-- The arguments of a reserve call. -/
def Call.reserveArgs : Call → Option ReserveArgs
  | .reserve a => some a
  | _ => none

theorem reserveArgs_eq_some {c : Call} {a : ReserveArgs} :
    c.reserveArgs = some a ↔ c = .reserve a := by
  cases c <;> simp [Call.reserveArgs]

theorem fingerprintsDistinct_iff {calls : List TimedCall} :
    FingerprintsDistinct calls ↔ ∀ a ∈ calls.filterMap (·.call.reserveArgs),
        ∀ b ∈ calls.filterMap (·.call.reserveArgs),
          a.fingerprint = b.fingerprint → a.key = b.key := by
  simp only [List.mem_filterMap, reserveArgs_eq_some]
  constructor
  · rintro h a ⟨c, hc, ha⟩ b ⟨d, hd, hb⟩
    exact h c hc d hd a b ha hb
  · intro h c hc d hd a b ha hb
    exact h a ⟨c, hc, ha⟩ b ⟨d, hd, hb⟩

instance (calls : List TimedCall) : Decidable (FingerprintsDistinct calls) :=
  decidable_of_iff _ fingerprintsDistinct_iff.symm

end LlmTemporalWorker.Budget
