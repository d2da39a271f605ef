/-
Errors of the in-memory store.

The store checks and changes its buckets one reservation after another,
so a call can fail halfway. It does when a bucket overflows: `Begin`
then keeps the charges it made before (`overflow_keeps_charge`). This
is the only way. As long as the buckets have room for what the calls
bring, every error comes before the first change, and the store an error
leaves is the store the call found, swept if it sweeps.

# Why nothing else fails

Settling an operation takes its amounts out of the buckets, and fails
where a bucket holds less. `Sound` says that this never happens: the
values are in range and cover what the live operations hold, at every
place. It is a relation between the operations and the values, so the
bookkeeping of the ledger does not enter.
-/
import LlmTemporalWorker.Admission.Proofs.MemoryLedger
import LlmTemporalWorker.Admission.Proofs.MemoryCalls

namespace LlmTemporalWorker.Admission.Memory

open Lib Budget Pricing

-- ===== envelopes

/-- What an accepted envelope says of its reservations. -/
structure Enveloped (rs : List WindowReservation) : Prop where
  apart : (rs.map place).Nodup
  inRange : ∀ r ∈ rs, 0 ≤ r.amount ∧ r.amount ≤ nanoUsdSafeLimit

theorem enveloped_of_valid {rs : List WindowReservation} {expected : Int}
    {expectedUsd : Usd}
    (h : validateExactUsdReservationEnvelope rs expected expectedUsd = .ok ()) : Enveloped rs := by
  obtain ⟨_, henvelope, -⟩ := bind_ok h
  unfold validateReservationEnvelope at henvelope
  split at henvelope
  · cases henvelope
  rename_i hvalid
  obtain ⟨hrs, hnodup, -⟩ := envelopeLoop_ok_iff.mp henvelope
  rw [not_or] at hvalid
  have hmicro : microValid expected = true := by
    simpa using hvalid.2
  refine ⟨hnodup, fun r hr => ?_⟩
  rw [hrs r hr]
  exact microValid_iff.mp hmicro

variable {request : BeginRequest} {actual : Int}

theorem enveloped_of_checkBegin (h : checkBegin request = .ok ()) :
    Enveloped request.reservations := by
  unfold checkBegin at h
  split at h
  · cases h
  split at h
  · cases h
  · rename_i hvalid
    exact enveloped_of_valid hvalid

-- ===== claims

/-- What an operation holds at a place: nothing once it is terminal. -/
def MemoryOperation.claims (operation : MemoryOperation) (p : Place) :
    Int :=
  if operation.state.terminal then 0
  else (operation.reservations.map fun r =>
    if place r = p then r.amount else 0).sum

/-- What the operations hold at a place. -/
def held (operations : FMap String MemoryOperation) (p : Place) : Int :=
  total (fun _ operation => operation.claims p) operations

variable {operation next : MemoryOperation} {p : Place}
  {rs : List WindowReservation}

theorem claims_of_terminal (h : operation.state.terminal = true) : operation.claims p = 0 := by
  rw [MemoryOperation.claims, if_pos h]

theorem sum_at_notMem (h : p ∉ rs.map place) :
    (rs.map fun r => if place r = p then r.amount else 0).sum = 0 := by
  refine List.sum_eq_zero fun x hx => ?_
  obtain ⟨r, hr, rfl⟩ := List.mem_map.mp hx
  have hne : place r ≠ p := fun heq => h (heq ▸ List.mem_map_of_mem hr)
  exact if_neg hne

theorem sum_at_mem (hnd : (rs.map place).Nodup) {r : WindowReservation} (h : r ∈ rs) :
    (rs.map fun x => if place x = place r then x.amount else 0).sum
      = r.amount := by
  induction rs with
  | nil => cases h
  | cons a rest ih =>
    rw [List.map_cons, List.nodup_cons] at hnd
    rw [List.map_cons, List.sum_cons]
    rcases List.mem_cons.mp h with rfl | h
    · rw [if_pos rfl, sum_at_notMem hnd.1, Int.add_zero]
    · have hne : place a ≠ place r := fun heq =>
        hnd.1 (heq ▸ List.mem_map_of_mem h)
      rw [if_neg hne, ih hnd.2 h, Int.zero_add]

theorem sum_at_nonneg (h : Enveloped rs) (p : Place) :
    0 ≤ (rs.map fun r => if place r = p then r.amount else 0).sum := by
  refine List.sum_nonneg fun x hx => ?_
  obtain ⟨r, hr, rfl⟩ := List.mem_map.mp hx
  split
  · exact (h.inRange r hr).1
  · exact le_rfl

theorem claims_nonneg (h : operation.state.terminal = false →
      Enveloped operation.reservations) : 0 ≤ operation.claims p := by
  unfold MemoryOperation.claims
  split
  · exact le_rfl
  rename_i hlive
  exact sum_at_nonneg (h (by simpa using hlive)) p

-- ===== soundness

/-- The values are in range and cover what the live operations hold. -/
structure Sound (operations : FMap String MemoryOperation)
    (values : Place → Int) : Prop where
  keyed : Keyed operations
  inRange : ∀ p, 0 ≤ values p ∧ values p ≤ nanoUsdSafeLimit
  envelope : ∀ {id operation}, operations.lookup id = some operation →
    operation.state.terminal = false → Enveloped operation.reservations
  covered : ∀ p, held operations p ≤ values p

variable {operations : FMap String MemoryOperation}
  {values values' : Place → Int} {id : String}

/-- Storing an operation keeps a store sound when the values cover the
change of what is held. -/
theorem Sound.insert (h : Sound operations values)
    (hrange : ∀ p, 0 ≤ values' p ∧ values' p ≤ nanoUsdSafeLimit)
    (henv : next.state.terminal = false → Enveloped next.reservations)
    (hcovered : ∀ p, held (operations.insert next.id next) p ≤ values' p) :
    Sound (operations.insert next.id next) values' where
  keyed := h.keyed.insert next
  inRange := hrange
  envelope := by
    intro id found hfound hlive
    rw [lookup_insert_eq] at hfound
    split at hfound
    · cases hfound
      exact henv hlive
    · exact h.envelope hfound hlive
  covered := hcovered

theorem held_insert_of_some (hfound : operations.lookup next.id = some operation) (p : Place) :
    held (operations.insert next.id next) p
      = held operations p + next.claims p - operation.claims p := by
  rw [held, total_insert_eq, hfound]
  rfl

/-- Storing an operation adds at most what it holds. -/
theorem Sound.held_insert_le (h : Sound operations values) (next : MemoryOperation) (p : Place) :
    held (operations.insert next.id next) p ≤ held operations p + next.claims p := by
  cases hfound : operations.lookup next.id with
  | none =>
    rw [held, total_insert_eq, hfound]
    exact (Int.sub_zero _).le
  | some operation =>
    rw [held_insert_of_some hfound]
    have := claims_nonneg (p := p) (h.envelope hfound)
    omega

/-- What a live operation reserved is in its bucket. -/
theorem Sound.amount_le (h : Sound operations values)
    (hfound : operations.lookup id = some operation)
    (hlive : operation.state.terminal = false) {r : WindowReservation}
    (hr : r ∈ operation.reservations) : r.amount ≤ values (place r) := by
  have hclaims : operation.claims (place r) = r.amount := by
    rw [MemoryOperation.claims, if_neg (by simp [hlive]),
      sum_at_mem (h.envelope hfound hlive).apart hr]
  have hle : operation.claims (place r) ≤ held operations (place r) :=
    le_total (f := fun _ o => o.claims (place r))
      (fun _ _ hk => claims_nonneg (h.envelope hk)) hfound
  have := h.covered (place r)
  omega

/-- A live operation settled at a cost. -/
theorem Sound.settled (h : Sound operations values) (next : MemoryOperation)
    (hfound : operations.lookup id = some operation)
    (hlive : operation.state.terminal = false) (hactual : 0 ≤ actual)
    (hroom : ∀ r ∈ operation.reservations, values (place r) - r.amount + actual ≤ nanoUsdSafeLimit)
    (hid : next.id = operation.id) (hterminal : next.state.terminal = true) :
    Sound (operations.insert next.id next) (settled operation.reservations actual values) := by
  have henv := h.envelope hfound hlive
  have hkey : operations.lookup next.id = some operation := by
    rw [hid, h.keyed _ _ hfound]
    exact hfound
  refine h.insert ?_ (fun hneg => ?_) ?_
  · intro p
    rcases revalue_cases henv.apart p with ⟨-, hv⟩ | ⟨r, hr, rfl, hv⟩
    · rw [Memory.settled, hv]
      exact h.inRange p
    · rw [Memory.settled, hv]
      have hle := h.amount_le hfound hlive hr
      have := hroom r hr
      omega
  · rw [hterminal] at hneg
    cases hneg
  · intro p
    rw [held_insert_of_some hkey, claims_of_terminal hterminal]
    have hcov := h.covered p
    rcases revalue_cases henv.apart p with ⟨hp, hv⟩ | ⟨r, hr, rfl, hv⟩
    · have hclaims : 0 ≤ operation.claims p := claims_nonneg (h.envelope hfound)
      rw [Memory.settled, hv]
      omega
    · rw [Memory.settled, hv, MemoryOperation.claims, if_neg (by simp [hlive]),
        sum_at_mem henv.apart hr]
      omega

/-- A live operation stored with its reservations charged. -/
theorem Sound.charged (h : Sound operations values)
    (next : MemoryOperation) (henv : Enveloped next.reservations)
    (hroom : ∀ r ∈ next.reservations, values (place r) + r.amount ≤ nanoUsdSafeLimit) :
    Sound (operations.insert next.id next) (charged next.reservations values) := by
  refine h.insert ?_ (fun _ => henv) ?_
  · intro p
    have hrange := h.inRange p
    rcases revalue_cases henv.apart p with ⟨-, hv⟩ | ⟨r, hr, rfl, hv⟩
    · rw [Memory.charged, hv]
      exact hrange
    · rw [Memory.charged, hv]
      have := hroom r hr
      have := (henv.inRange r hr).1
      omega
  · intro p
    have hcov := h.covered p
    refine (h.held_insert_le next p).trans ?_
    have hsum : next.claims p ≤ (next.reservations.map fun r =>
        if place r = p then r.amount else 0).sum := by
      unfold MemoryOperation.claims
      split
      · exact sum_at_nonneg henv p
      · exact le_rfl
    rcases revalue_cases henv.apart p with ⟨hp, hv⟩ | ⟨r, hr, rfl, hv⟩
    · rw [sum_at_notMem hp] at hsum
      rw [Memory.charged, hv]
      omega
    · rw [sum_at_mem henv.apart hr] at hsum
      rw [Memory.charged, hv]
      omega

/-- An operation stored with what it held, or with nothing. -/
theorem Sound.kept (h : Sound operations values) (next : MemoryOperation)
    (hfound : operations.lookup id = some operation)
    (hid : next.id = operation.id)
    (hrs : next.reservations = operation.reservations)
    (hstate : next.state.terminal = true ∨ operation.state.terminal = false) :
    Sound (operations.insert next.id next) values := by
  have hkey : operations.lookup next.id = some operation := by
    rw [hid, h.keyed _ _ hfound]
    exact hfound
  refine h.insert h.inRange (fun hlive => ?_) fun p => ?_
  · rw [hrs]
    rcases hstate with hterminal | hold
    · rw [hterminal] at hlive
      cases hlive
    · exact h.envelope hfound hold
  · rw [held_insert_of_some hkey]
    have hcov := h.covered p
    have hclaims : next.claims p ≤ operation.claims p := by
      rcases hstate with hterminal | hold
      · rw [claims_of_terminal hterminal]
        exact claims_nonneg (h.envelope hfound)
      · by_cases hterminal : next.state.terminal = true
        · rw [claims_of_terminal hterminal]
          exact claims_nonneg (h.envelope hfound)
        · rw [MemoryOperation.claims, MemoryOperation.claims, hrs,
            if_neg hterminal, if_neg (by simp [hold])]
    omega

/-- A sweep of a sound store. -/
theorem Sound.swept {store : AdmissionStore}
    (h : Sound store.operations store.ledger.value) (now : Int) :
    Sound (store.swept now).operations (store.swept now).ledger.value := by
  -- only terminal operations go, and they hold nothing
  have hheld : ∀ p, held (store.swept now).operations p = held store.operations p := by
    intro p
    unfold held AdmissionStore.swept
    rw [total_filterMap]
    refine total_congr fun id operation hfound => ?_
    split
    · rename_i hexpired
      have hterminal : operation.state.terminal = true := by
        by_contra hlive
        simp [MemoryOperation.expired, hlive] at hexpired
      rw [claims_of_terminal hterminal]
      rfl
    · rfl
  -- and a bucket that goes is named by nothing that is left
  have hvalue : ∀ p, (store.swept now).ledger.value p = store.ledger.value p
      ∨ ((store.swept now).ledger.value p = 0 ∧ held (store.swept now).operations p = 0) := by
    intro p
    rcases entry_swept store.ledger now (referenced (store.swept now).operations) p with
      hsame | ⟨hnot, hnone, -⟩
    · exact .inl (congrArg (Option.getD · 0) hsame)
    · refine .inr ⟨congrArg (Option.getD · 0) hnone, ?_⟩
      rw [← total_zero (store.swept now).operations]
      refine total_congr fun id operation hfound => ?_
      rw [MemoryOperation.claims]
      split
      · rfl
      · refine sum_at_notMem fun hp => hnot ?_
        exact named_iff_mem_referenced.mpr ⟨id, operation, hfound, hp⟩
  refine ⟨?_, ?_, ?_, ?_⟩
  · intro id operation hfound
    exact h.keyed _ _ (lookup_of_swept hfound).1
  · intro p
    rcases hvalue p with hv | ⟨hv, -⟩
    · rw [hv]
      exact h.inRange p
    · rw [hv]
      exact ⟨le_rfl, by decide⟩
  · intro id operation hfound hlive
    exact h.envelope (lookup_of_swept hfound).1 hlive
  · intro p
    rcases hvalue p with hv | ⟨hv, hzero⟩
    · rw [hv, hheld]
      exact h.covered p
    · rw [hv, hzero]

-- ===== room

/-- Every bucket has room for the cost that replaces its reservation. -/
def roomToSettle (values : Place → Int) (rs : List WindowReservation) (actual : Int) : Bool :=
  decide (∀ r ∈ rs, values (place r) - r.amount + actual ≤ nanoUsdSafeLimit)

/-- Every bucket has room for its reservation. -/
def roomToCharge (values : Place → Int) (rs : List WindowReservation) :
    Bool :=
  decide (∀ r ∈ rs, values (place r) + r.amount ≤ nanoUsdSafeLimit)

/-- The buckets that a call changes have room for what it brings. -/
def Call.hasRoom (call : Call) (store : AdmissionStore) : Bool :=
  match call.action with
  | .begin request =>
    roomToCharge (call.base store).ledger.value request.reservations
  | .continue request =>
    (store.operations.lookup request.operationId).all fun operation =>
      roomToSettle store.ledger.value operation.reservations request.outcome.incurred
        && roomToCharge (settled operation.reservations request.outcome.incurred store.ledger.value)
          request.reservations
  | .complete request =>
    (store.operations.lookup request.operationId).all fun operation =>
      roomToSettle store.ledger.value operation.reservations request.actual
  | .fail request =>
    (store.operations.lookup request.operationId).all fun operation =>
      roomToSettle store.ledger.value operation.reservations request.incurred
  | _ => true

/-- They do at every call of a run. -/
def roomThroughout : AdmissionStore → List Call → Bool
  | _, [] => true
  | store, call :: rest =>
    call.hasRoom store && roomThroughout (call.run store).1 rest

-- ===== calls

/-- A sound store, as its ledger shows the values. -/
def AdmissionStore.Sound (store : AdmissionStore) : Prop :=
  Memory.Sound store.operations store.ledger.value

/-- A result that leaves the store as it was when it is an error, and
sound in any case. -/
structure Tidy {α : Type} (store : AdmissionStore)
    (result : AdmissionStore × Except StoreError α) : Prop where
  unchanged : ∀ {e}, result.2 = .error e → result.1 = store
  sound : result.1.Sound

variable {store : AdmissionStore} {clock : Nat → Int}

theorem tidy_same {α : Type} (h : store.Sound)
    (answer : Except StoreError α) : Tidy store (store, answer) :=
  ⟨fun _ => rfl, h⟩

theorem tidy_ok {α : Type} {after : AdmissionStore} (h : after.Sound)
    (answer : α) : Tidy store (after, .ok answer) :=
  ⟨fun h => (by cases h), h⟩

theorem Tidy.map {α β : Type}
    {result : AdmissionStore × Except StoreError α} (h : Tidy store result)
    (f : α → β) :
    Tidy store (Prod.map (fun s => s) (Except.map f) result) := by
  obtain ⟨after, answer⟩ := result
  refine ⟨fun {e} he => ?_, h.sound⟩
  cases answer with
  | error e' => exact h.unchanged rfl
  | ok a => cases he

theorem tidy_withToken {α : Type} (h : store.Sound) {id token : String}
    {body : MemoryOperation → AdmissionStore × Except StoreError α}
    (hbody : ∀ operation, store.operations.lookup id = some operation →
      Tidy store (body operation)) :
    Tidy store (store.withToken id token body) := by
  rcases withToken_cases store id token body with
    ⟨e, heq⟩ | ⟨operation, hfound, -, heq⟩
  · rw [heq]
    exact tidy_same h _
  · rw [heq]
    exact hbody operation hfound

/-- Releasing what a live operation holds fails at once or not at all. -/
theorem reconcile_tidy (h : store.Sound) (hfound : store.operations.lookup id = some operation)
    (hlive : operation.state.terminal = false)
    (hroom : roomToSettle store.ledger.value operation.reservations actual = true) :
    ((actual < 0 ∨ (!microValid actual) = true) ∧
        ∃ e, store.ledger.reconcile operation.reservations actual = (store.ledger, .error e))
      ∨ ∃ ledger, 0 ≤ actual ∧ store.ledger.reconcile operation.reservations actual
          = (ledger, .ok ())
        ∧ ledger.value = settled operation.reservations actual store.ledger.value := by
  have henv := h.envelope hfound hlive
  by_cases hactual : actual < 0 ∨ (!microValid actual) = true
  · refine .inl ⟨hactual, .other "invalid reconciliation cost", ?_⟩
    rw [Ledger.reconcile, if_pos hactual]
  rw [not_or] at hactual
  obtain ⟨h0, hsafe⟩ : 0 ≤ actual ∧ actual ≤ nanoUsdSafeLimit :=
    microValid_iff.mp (by simpa using hactual.2)
  obtain ⟨hok, hvalue⟩ := reconcile_ok henv.apart h0 hsafe fun r hr =>
    ⟨(henv.inRange r hr).1, h.amount_le hfound hlive hr,
      (h.inRange _).2, of_decide_eq_true hroom r hr⟩
  exact .inr ⟨_, h0, Prod.ext rfl hok, hvalue⟩

theorem settle_tidy (h : store.Sound) (hfound : store.operations.lookup id = some operation)
    (hlive : operation.state.terminal = false)
    (hroom : roomToSettle store.ledger.value operation.reservations actual
      = true) (hid : next.id = operation.id)
    (hterminal : next.state.terminal = true) :
    Tidy store (store.settle operation next actual) := by
  unfold AdmissionStore.settle
  rcases reconcile_tidy h hfound hlive hroom with
    ⟨-, e, heq⟩ | ⟨ledger, h0, heq, hvalue⟩
  · rw [heq]
    exact tidy_same h _
  · rw [heq]
    refine tidy_ok ?_ ()
    have hsound := h.settled next hfound hlive h0 (of_decide_eq_true hroom) hid hterminal
    rw [← hvalue] at hsound
    exact hsound

/-- Charging a vector that has room goes through. -/
theorem addReservations_tidy {ledger : Ledger}
    (hrange : ∀ p, 0 ≤ ledger.value p) (henv : Enveloped rs)
    (hroom : roomToCharge ledger.value rs = true) :
    ∃ after, ledger.addReservations rs = (after, .ok ())
      ∧ after.value = charged rs ledger.value := by
  obtain ⟨hok, hvalue⟩ := addReservations_ok henv.apart fun r hr =>
    ⟨(henv.inRange r hr).1, hrange _, of_decide_eq_true hroom r hr⟩
  exact ⟨_, Prod.ext rfl hok, hvalue⟩

theorem markDispatching_tidy (h : store.Sound) (request : DispatchRequest) :
    Tidy store (store.markDispatching clock request) := by
  refine tidy_withToken h fun operation hfound => ?_
  split
  · split
    · exact tidy_same h _
    · exact tidy_same h _
  · rename_i hstate
    rw [not_not] at hstate
    refine tidy_ok ?_ ()
    refine Sound.kept h _ hfound rfl rfl (.inr ?_)
    rw [hstate]
    rfl

theorem markProviderPending_tidy (h : store.Sound) (request : ProviderPendingRequest) :
    Tidy store (store.markProviderPending clock request) := by
  unfold AdmissionStore.markProviderPending
  split
  · exact tidy_same h _
  refine tidy_withToken h fun operation hfound => ?_
  split
  · split
    · exact tidy_same h _
    · exact tidy_same h _
  · split
    · exact tidy_same h _
    · rename_i hstate
      rw [not_not] at hstate
      refine tidy_ok ?_ ()
      refine Sound.kept h _ hfound rfl rfl (.inr ?_)
      rw [hstate]
      rfl

theorem complete_tidy (h : store.Sound) {request : CompleteRequest}
    (hroom : (store.operations.lookup request.operationId).all
      (fun operation => roomToSettle store.ledger.value
        operation.reservations request.actual) = true) :
    Tidy store (store.complete clock request) := by
  refine tidy_withToken h fun operation hfound => ?_
  rw [hfound, Option.all_some] at hroom
  split
  · exact tidy_same h _
  split
  · exact tidy_same h _
  rename_i hstate
  split
  · exact tidy_same h _
  refine settle_tidy h hfound ?_ hroom (by rfl) (by rfl)
  rw [not_and_or, not_not, not_not] at hstate
  rcases hstate with hs | hs <;> rw [hs] <;> rfl

theorem fail_tidy (h : store.Sound) (quoted : DispatchCertainty → String)
    {request : FailRequest}
    (hroom : (store.operations.lookup request.operationId).all
      (fun operation => roomToSettle store.ledger.value
        operation.reservations request.incurred) = true) :
    Tidy store (store.fail quoted clock request) := by
  refine tidy_withToken h fun operation hfound => ?_
  rw [hfound, Option.all_some] at hroom
  split
  · exact tidy_same h _
  rename_i hlive
  split
  · exact tidy_same h _
  split
  · refine tidy_ok ?_ ()
    exact Sound.kept h _ hfound rfl rfl (.inl rfl)
  · exact settle_tidy h hfound (by simpa using hlive) hroom (by rfl)
      (by rfl)

/-- A continuation that is denied ends in a settled store; one that is
let in charges its own reservations on top. -/
theorem continueReleased_tidy {released : AdmissionStore}
    {request : ContinueRequest}
    (hsettled : Sound (released.operations.insert operation.id
      (deniedOperation operation request (clock 1))) released.ledger.value)
    (henv : Enveloped request.reservations)
    (hroom : roomToCharge released.ledger.value request.reservations = true) :
    Tidy store (released.continueReleased clock request operation) := by
  unfold AdmissionStore.continueReleased
  split
  · refine tidy_ok ?_ _
    exact hsettled
  obtain ⟨ledger, heq, hvalue⟩ := addReservations_tidy (fun p => (hsettled.inRange p).1) henv hroom
  rw [heq]
  refine tidy_ok ?_ _
  have hnext := hsettled.charged (continuedOperation operation request (clock 1)) henv
    (of_decide_eq_true hroom)
  rw [show (continuedOperation operation request (clock 1)).id
    = operation.id from rfl, AList.insert_insert] at hnext
  have hvalue : ledger.value = charged (continuedOperation operation request
        (clock 1)).reservations released.ledger.value := hvalue
  rw [← hvalue] at hnext
  exact hnext

theorem continue_tidy (h : store.Sound) {request : ContinueRequest}
    (hroom : (store.operations.lookup request.operationId).all
      (fun operation => roomToSettle store.ledger.value
          operation.reservations request.outcome.incurred
        && roomToCharge (settled operation.reservations request.outcome.incurred store.ledger.value)
          request.reservations) = true) :
    Tidy store (store.continue clock request) := by
  unfold AdmissionStore.continue
  split
  · exact tidy_same h _
  rename_i hvalid
  refine tidy_withToken h fun operation hfound => ?_
  rw [hfound, Option.all_some, Bool.and_eq_true] at hroom
  split
  · exact tidy_same h _
  rename_i hstate
  rw [not_not] at hstate
  have hlive : operation.state.terminal = false := by
    rw [hstate]
    rfl
  split
  · exact tidy_same h _
  rcases reconcile_tidy h hfound hlive hroom.1 with
    ⟨-, e, heq⟩ | ⟨ledger, h0, heq, hvalue⟩
  · rw [heq]
    exact tidy_same h _
  · rw [heq]
    refine continueReleased_tidy ?_ (enveloped_of_valid hvalid) ?_
    · show Sound _ ledger.value
      rw [hvalue]
      exact Sound.settled h (deniedOperation operation request (clock 1)) hfound hlive
        h0 (of_decide_eq_true hroom.1) rfl rfl
    · show roomToCharge ledger.value _ = true
      rw [hvalue]
      exact hroom.2

theorem reserve_tidy (h : store.Sound) (henv : Enveloped request.reservations)
    (hroom : roomToCharge store.ledger.value request.reservations = true)
    (reopened : Option MemoryOperation) :
    Tidy store (store.reserve clock request reopened) := by
  unfold AdmissionStore.reserve
  split
  · exact tidy_same h _
  obtain ⟨ledger, heq, hvalue⟩ := addReservations_tidy (fun p => (h.inRange p).1) henv hroom
  rw [heq]
  refine tidy_ok ?_ _
  have hnext := Sound.charged h (newOperation request (clock 2) (reopened.map
      (·, store.reopens.getD request.id 0 + 1))) henv
    (of_decide_eq_true hroom)
  have hvalue : ledger.value = charged (newOperation request (clock 2)
      (reopened.map (·, store.reopens.getD request.id 0
        + 1))).reservations store.ledger.value := hvalue
  rw [← hvalue] at hnext
  exact hnext

theorem beginSwept_tidy (h : store.Sound) (henv : Enveloped request.reservations)
    (hroom : roomToCharge store.ledger.value request.reservations = true) :
    Tidy store (store.beginSwept clock request) := by
  unfold AdmissionStore.beginSwept
  split
  · exact reserve_tidy h henv hroom none
  dsimp only
  split
  · exact tidy_same h _
  split
  · exact tidy_same h _
  · exact reserve_tidy h henv hroom _

/-- One call on a sound store with room. -/
theorem run_tidy (h : store.Sound) {call : Call} (hroom : call.hasRoom store = true) :
    Tidy (call.base store) (call.run store) := by
  obtain ⟨ctxErr, clock, quoted, action⟩ := call
  cases ctxErr with
  | some e =>
    cases action with
    | sweep now => exact tidy_ok (Sound.swept h now : (store.swept now).Sound) _
    | _ => exact tidy_same h _
  | none =>
    cases action with
    | sweep now => exact tidy_ok (Sound.swept h now : (store.swept now).Sound) _
    | begin request =>
      unfold Call.hasRoom at hroom
      unfold Call.base Call.sweepsAt at hroom ⊢
      unfold Call.run Action.run AdmissionStore.begin
      dsimp only at hroom ⊢
      cases hcheck : checkBegin request with
      | error e => exact tidy_same h _
      | ok u =>
        rw [hcheck] at hroom
        have hsound : (store.swept (clock 0)).Sound := Sound.swept h (clock 0)
        exact (beginSwept_tidy hsound (enveloped_of_checkBegin hcheck) hroom).map _
    | markDispatching request => exact (markDispatching_tidy h request).map _
    | markProviderPending request => exact (markProviderPending_tidy h request).map _
    | «continue» request => exact (continue_tidy h hroom).map _
    | complete request => exact (complete_tidy h hroom).map _
    | fail request => exact (fail_tidy h quoted hroom).map _

-- ===== runs

theorem sound_new : AdmissionStore.new.Sound where
  keyed _ _ h := by cases h
  inRange _ := ⟨le_rfl, Int.natCast_nonneg _⟩
  envelope h := by cases h
  covered _ := le_rfl

theorem roomThroughout_append {calls rest : List Call} :
    roomThroughout store (calls ++ rest) = (roomThroughout store calls
        && roomThroughout (runAll Call.run store calls) rest) := by
  induction calls generalizing store with
  | nil => rfl
  | cons call calls ih =>
    rw [List.cons_append, roomThroughout, roomThroughout, ih, Bool.and_assoc]
    rfl

/-- The room of a run and of the call after it. -/
theorem roomThroughout_concat {calls : List Call} {call : Call}
    (h : roomThroughout store (calls ++ [call]) = true) :
    roomThroughout store calls = true
      ∧ call.hasRoom (runAll Call.run store calls) = true := by
  rw [roomThroughout_append, Bool.and_eq_true, roomThroughout, Bool.and_eq_true] at h
  exact ⟨h.1, h.2.1⟩

theorem sound_run (h : store.Sound) {calls : List Call}
    (hroom : roomThroughout store calls = true) :
    (runAll Call.run store calls).Sound := by
  induction calls generalizing store with
  | nil => exact h
  | cons call rest ih =>
    rw [roomThroughout, Bool.and_eq_true] at hroom
    exact ih (run_tidy h hroom.1).sound hroom.2

/-- No charge in flight is lost. Along every run whose calls find room,
sweeps included, a bucket is in range and counts at least what the live
operations hold there together. -/
theorem buckets_cover_live_operations (calls : List Call)
    (hroom : roomThroughout .new calls = true) (p : Place) :
    (storeAfter calls).ledger.value p ≤ nanoUsdSafeLimit
      ∧ held (storeAfter calls).operations p ≤ (storeAfter calls).ledger.value p := by
  have hsound : (storeAfter calls).Sound := sound_run sound_new hroom
  exact ⟨(hsound.inRange p).2, hsound.covered p⟩

theorem buckets_cover_live_operations_small :
    held (storeAfter smallCalls).operations ⟨"policy", "hour", 1⟩
      ≤ (storeAfter smallCalls).ledger.value ⟨"policy", "hour", 1⟩ :=
  (buckets_cover_live_operations smallCalls (by decide +kernel) _).2

/-- A call that returns an error changes nothing. Along every run whose
calls find room in the buckets they change, a call that returns an error
leaves the store as it found it, or as its sweep left it. -/
theorem errors_change_nothing (calls : List Call) (call : Call) (e : StoreError)
    (hroom : roomThroughout .new (calls ++ [call]) = true)
    (herror : (call.run (storeAfter calls)).2 = .error e) :
    (call.run (storeAfter calls)).1 = call.base (storeAfter calls) := by
  obtain ⟨hcalls, hcall⟩ := roomThroughout_concat hroom
  have hsound : (storeAfter calls).Sound := sound_run sound_new hcalls
  exact (run_tidy hsound hcall).unchanged herror

theorem errors_change_nothing_small :
    let call := atTime 100 (.fail
      ⟨"b", "b", .rejected, -1, .zero, .empty, false⟩)
    (call.run (storeAfter smallCalls)).2 = .error (.other "invalid incurred cost")
      ∧ (call.run (storeAfter smallCalls)).1 = storeAfter smallCalls := by
  intro call
  have herror : (call.run (storeAfter smallCalls)).2
      = .error (.other "invalid incurred cost") := by decide +kernel
  exact ⟨herror, errors_change_nothing smallCalls call _ (by decide +kernel) herror⟩

/-- A bucket that is full makes `Begin` fail after it has charged the
reservations before, and the charge stays. -/
theorem overflow_keeps_charge :
    let calls := [atTime 15 (.begin (smallRequest "a" "s" (2 ^ 53 - 1)
      [smallReservation "day" 100 (2 ^ 53 - 1)]))]
    let call := atTime 16 (.begin (smallRequest "b" "t" 1
      [smallReservation "hour" 1 1, smallReservation "day" 100 1]))
    let p := place (smallReservation "hour" 1 1)
    (call.run (storeAfter calls)).2 = .error (.other "microUSD addition overflows safe range")
      ∧ (call.base (storeAfter calls)).ledger.value p = 0
      ∧ (call.run (storeAfter calls)).1.ledger.value p = 1 := by
  decide +kernel

end LlmTemporalWorker.Admission.Memory
