/-
The retention sweep of the in-memory store.

A sweep removes terminal operations past their retention, and the
buckets that have left every window recorded for their key. Two kinds
of reader remain. An admission check at a later time reads the buckets
of its own window, which the widest recorded window covers, so it reads
nothing that the sweep removed. A settlement reads the buckets of its
operation's reservations, and the sweep keeps those of every operation
it keeps.

# What is left represents the store

`Represents left full` relates a swept store to the store it was swept
from: every operation left is the full store's, what is missing was
terminal, and the places that an operation left names hold the same
values. Calls that reserve nothing keep the relation and answer alike
for every operation left, so any run of them does.
-/
import LlmTemporalWorker.Admission.Proofs.MemoryErrors

namespace LlmTemporalWorker.Admission.Memory

open Lib Budget Pricing

variable {store left full : AdmissionStore} {id : String}
  {operation next : MemoryOperation}

-- ===== checks

/-- The window of a reservation is one that the store has recorded for
its key: of the same width and no longer, or of a key whose widths are
mixed. -/
def Recorded (ledger : Ledger) (r : WindowReservation) : Prop :=
  ∃ g, ledger.geometry.lookup (budgetKey r) = some g ∧ (g.mixed = true
      ∨ (g.bucketNanos = r.bucketNanos ∧ r.durationNanos ≤ g.durationNanos))

/-- What is left of a store stands for the full one. -/
structure Represents (left full : AdmissionStore) : Prop where
  found : ∀ {id operation}, left.operations.lookup id = some operation →
    full.operations.lookup id = some operation
  missing : ∀ {id operation}, full.operations.lookup id = some operation →
    left.operations.lookup id = none → operation.state.terminal = true
  provider : ∀ {id operation}, left.operations.lookup id = some operation →
    left.providerIds.lookup id = full.providerIds.lookup id
  value : ∀ p, Named left.operations p → left.ledger.value p = full.ledger.value p
  keyed : Keyed full.operations

/-- A change of both ledgers that shows alike at the named places. -/
theorem Represents.ledgers (h : Represents left full) {small big : Ledger}
    (hvalue : ∀ p, Named left.operations p → small.value p = big.value p) :
    Represents { left with ledger := small } { full with ledger := big } :=
  ⟨h.found, h.missing, h.provider, hvalue, h.keyed⟩

/-- An operation stored anew with its reservations. -/
theorem Represents.put (h : Represents left full)
    (hfound : left.operations.lookup id = some operation)
    (hid : next.id = operation.id)
    (hrs : next.reservations = operation.reservations) :
    Represents (left.put next) (full.put next) := by
  have hkey : next.id = id := hid.trans (h.keyed _ _ (h.found hfound))
  -- the places named are those named before
  have hnamed : ∀ p, Named (left.put next).operations p → Named left.operations p := by
    rintro p ⟨id', operation', hfound', hp⟩
    rw [lookup_put] at hfound'
    split at hfound'
    · cases hfound'
      exact ⟨id, operation, hfound, hrs ▸ hp⟩
    · exact ⟨id', operation', hfound', hp⟩
  refine ⟨?_, ?_, ?_, fun p hp => h.value p (hnamed p hp), h.keyed.insert next⟩
  · intro id' operation' hfound'
    rw [lookup_put] at hfound' ⊢
    split at hfound'
    · rename_i heq
      rw [if_pos heq]
      exact hfound'
    · rename_i hne
      rw [if_neg hne]
      exact h.found hfound'
  · intro id' operation' hfound' hmissing
    rw [lookup_put] at hfound' hmissing
    split at hmissing
    · cases hmissing
    rename_i hne
    rw [if_neg hne] at hfound'
    exact h.missing hfound' hmissing
  · intro id' operation' hfound'
    rw [lookup_put] at hfound'
    split at hfound'
    · rename_i heq
      have hfound : left.operations.lookup id' = some operation := by
        rw [heq, hkey]
        exact hfound
      exact h.provider hfound
    · exact h.provider hfound'

/-- A settlement goes alike in both stores. -/
theorem Represents.settle (h : Represents left full)
    (hfound : left.operations.lookup id = some operation)
    (hid : next.id = operation.id)
    (hrs : next.reservations = operation.reservations) (actual : Int) :
    Represents (left.settle operation next actual).1 (full.settle operation next actual).1
      ∧ (left.settle operation next actual).2 = (full.settle operation next actual).2 := by
  have hnamed : ∀ r ∈ operation.reservations, Named left.operations (place r) := fun r hr =>
    ⟨id, operation, hfound, List.mem_map_of_mem hr⟩
  obtain ⟨houtcome, hvalue⟩ := reconcile_agree h.value hnamed actual
  have hrep := h.ledgers hvalue
  unfold AdmissionStore.settle
  generalize left.ledger.reconcile operation.reservations actual = small
    at houtcome hrep ⊢
  generalize full.ledger.reconcile operation.reservations actual = big
    at houtcome hrep ⊢
  obtain ⟨small, outcome⟩ := small
  obtain ⟨big, _⟩ := big
  cases houtcome
  cases outcome with
  | error e => exact ⟨hrep, rfl⟩
  | ok u => exact ⟨hrep.put hfound hid hrs, rfl⟩

-- ===== calls

/-- A call's outcome in both stores: they keep standing for one another,
and answer alike if the operation is left. -/
def Alike {α : Type} (left : AdmissionStore) (id : String)
    (small big : AdmissionStore × Except StoreError α) : Prop :=
  Represents small.1 big.1 ∧ ((left.operations.lookup id).isSome → small.2 = big.2)

/-- A call with a token is alike when its body is, and does nothing to a
terminal operation. -/
theorem Represents.withToken {α : Type} (h : Represents left full) (token : String)
    {small big : MemoryOperation → AdmissionStore × Except StoreError α}
    (hbody : ∀ operation, left.operations.lookup id = some operation →
      Represents (small operation).1 (big operation).1 ∧ (small operation).2 = (big operation).2)
    (hterminal : ∀ operation, operation.state.terminal = true → (big operation).1 = full) :
    Alike left id (left.withToken id token small) (full.withToken id token big) := by
  cases hleft : left.operations.lookup id with
  | none =>
    have hsmall : left.withToken id token small = (left, .error .operationNotFound) := by
      rw [AdmissionStore.withToken, AdmissionStore.loadToken, hleft]
    refine ⟨?_, fun hsome => by rw [hleft] at hsome; cases hsome⟩
    rw [hsmall]
    rcases withToken_cases full id token big with
      ⟨e, hbig⟩ | ⟨operation, hfound, -, hbig⟩
    · rw [hbig]
      exact h
    · rw [hbig, hterminal operation (h.missing hfound hleft)]
      exact h
  | some operation =>
    obtain ⟨hrep, hanswer⟩ := hbody operation hleft
    unfold Alike AdmissionStore.withToken AdmissionStore.loadToken
    rw [hleft, h.found hleft]
    dsimp only
    by_cases htoken : operation.dispatchToken ≠ token
    · rw [if_pos htoken]
      exact ⟨h, fun _ => rfl⟩
    · rw [if_neg htoken]
      exact ⟨hrep, fun _ => hanswer⟩

variable {clock : Nat → Int}

theorem Represents.markDispatching (h : Represents left full) (request : DispatchRequest) :
    Alike left request.operationId (left.markDispatching clock request)
      (full.markDispatching clock request) := by
  refine h.withToken request.dispatchToken ?_ ?_
  · intro operation hfound
    split
    · split
      · exact ⟨h, rfl⟩
      · exact ⟨h, rfl⟩
    · exact ⟨h.put hfound rfl rfl, rfl⟩
  · intro operation hterminal
    have hstate : operation.state ≠ .reserved := by
      intro heq
      rw [heq] at hterminal
      cases hterminal
    rw [if_pos hstate, if_pos hterminal]

theorem Represents.markProviderPending (h : Represents left full)
    (request : ProviderPendingRequest) :
    Alike left request.operationId (left.markProviderPending clock request)
      (full.markProviderPending clock request) := by
  unfold AdmissionStore.markProviderPending
  split
  · exact ⟨h, fun _ => rfl⟩
  refine h.withToken request.dispatchToken ?_ ?_
  · intro operation hfound
    have hkey : operation.id = request.operationId := h.keyed _ _ (h.found hfound)
    have hprovider : left.providerIds.getD operation.id ""
        = full.providerIds.getD operation.id "" := by
      rw [FMap.getD, FMap.getD, hkey, h.provider hfound]
    rw [hprovider]
    split
    · split
      · exact ⟨h, rfl⟩
      · exact ⟨h, rfl⟩
    · split
      · exact ⟨h, rfl⟩
      · refine ⟨Represents.put ⟨h.found, h.missing, ?_, h.value, h.keyed⟩ hfound rfl rfl, rfl⟩
        intro id' operation' hfound'
        show (left.providerIds.insert _ _).lookup _ = (full.providerIds.insert _ _).lookup _
        rw [lookup_insert_eq, lookup_insert_eq, h.provider hfound']
  · intro operation hterminal
    have hstate : operation.state ≠ .providerPending ∧ operation.state ≠ .dispatching := by
      constructor <;> intro heq <;> rw [heq] at hterminal <;>
        cases hterminal
    rw [if_neg hstate.1, if_pos hstate.2]

theorem Represents.complete (h : Represents left full) (request : CompleteRequest) :
    Alike left request.operationId (left.complete clock request) (full.complete clock request) := by
  refine h.withToken request.dispatchToken ?_ ?_
  · intro operation hfound
    split
    · exact ⟨h, rfl⟩
    split
    · exact ⟨h, rfl⟩
    split
    · exact ⟨h, rfl⟩
    · exact h.settle hfound (by rfl) (by rfl) request.actual
  · intro operation hterminal
    split
    · rfl
    have hstate : operation.state ≠ .dispatching ∧ operation.state ≠ .providerPending := by
      constructor <;> intro heq <;> rw [heq] at hterminal <;>
        cases hterminal
    rw [if_pos hstate]

theorem Represents.fail (h : Represents left full)
    (quoted : DispatchCertainty → String) (request : FailRequest) :
    Alike left request.operationId (left.fail quoted clock request)
      (full.fail quoted clock request) := by
  refine h.withToken request.dispatchToken ?_ ?_
  · intro operation hfound
    split
    · exact ⟨h, rfl⟩
    split
    · exact ⟨h, rfl⟩
    split
    · exact ⟨h.put hfound rfl rfl, rfl⟩
    · exact h.settle hfound (by rfl) (by rfl) request.incurred
  · intro operation hterminal
    rw [if_pos hterminal]

-- ===== runs

/-- The operation that an action settles. -/
def Action.settles : Action → Option String
  | .complete request => some request.operationId
  | .fail request => some request.operationId
  | _ => none

/-- The actions that neither reserve nor sweep. -/
def Action.reservesNothing : Action → Bool
  | .markDispatching _ | .markProviderPending _ | .complete _
  | .fail _ => true
  | _ => false

/-- The operation that such an action is about. -/
def Action.about : Action → String
  | .markDispatching request => request.operationId
  | .markProviderPending request => request.operationId
  | .complete request => request.operationId
  | .fail request => request.operationId
  | _ => ""

theorem Alike.map {α β : Type}
    {small big : AdmissionStore × Except StoreError α}
    (h : Alike left id small big) (f : α → β) :
    Alike left id (Prod.map (fun s => s) (Except.map f) small)
      (Prod.map (fun s => s) (Except.map f) big) :=
  ⟨h.1, fun hsome => congrArg (Except.map f) (h.2 hsome)⟩

theorem Represents.call (h : Represents left full) {call : Call}
    (hcall : call.action.reservesNothing = true) :
    Alike left call.action.about (call.run left) (call.run full) := by
  obtain ⟨ctxErr, clock, quoted, action⟩ := call
  cases ctxErr with
  | some e =>
    cases action with
    | sweep now => cases hcall
    | _ => exact ⟨h, fun _ => rfl⟩
  | none =>
    cases action with
    | begin request | «continue» request | sweep now => cases hcall
    | markDispatching request => exact (h.markDispatching request).map _
    | markProviderPending request => exact (h.markProviderPending request).map _
    | complete request => exact (h.complete request).map _
    | fail request => exact (h.fail quoted request).map _

/-- The relation survives a run of such calls, and no operation that is
left gets lost in it. -/
theorem Represents.run (h : Represents left full) {calls : List Call}
    (hcalls : ∀ call ∈ calls, call.action.reservesNothing = true) :
    Represents (runAll Call.run left calls) (runAll Call.run full calls) := by
  induction calls generalizing left full with
  | nil => exact h
  | cons call rest ih =>
    obtain ⟨hcall, hrest⟩ := List.forall_mem_cons.mp hcalls
    exact ih (h.call hcall).1 hrest

end LlmTemporalWorker.Admission.Memory
