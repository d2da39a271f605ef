/-
What one call makes of the in-memory store.

A call works on the store it finds, or on what a sweep leaves of it
(`Call.base`). Over that base there are four things it can do: leave
every operation alone (whatever it did to the ledger), store an
operation it loaded under the token it had, continue an operation under
a new token, or begin one. `effect` says so once for all calls; the
invariants of runs are case analyses over it.
-/
import LlmTemporalWorker.Admission.Memory

namespace LlmTemporalWorker.Admission.Memory

open Lib Budget Pricing

-- ===== effects

/-- The time of the sweep that a call makes, if it makes one. -/
def Call.sweepsAt (call : Call) : Option Int :=
  match call.ctxErr, call.action with
  | _, .sweep now => some now
  | none, .begin request =>
    match checkBegin request with
    | .ok () => some (call.clock 0)
    | .error _ => none
  | _, _ => none

/-- The store that a call works on. -/
def Call.base (call : Call) (store : AdmissionStore) : AdmissionStore :=
  match call.sweepsAt with
  | none => store
  | some now => store.swept now

/-- The operation and the token that an answer hands out: a new one, not
one that was found. -/
def given : Except StoreError Answer → Option (String × String)
  | .ok (.began (.admitted operation false)) =>
    some (operation.id, operation.dispatchToken)
  | .ok (.continued ⟨operation, none⟩) =>
    some (operation.id, operation.dispatchToken)
  | _ => none

/-- The operation that `Begin` finds under a scope it can reopen. -/
def Reopens (base : AdmissionStore) (request : BeginRequest) : Option MemoryOperation → Prop
  | none => base.byScope.lookup request.scopeKey = none
  | some operation => ∃ id, base.byScope.lookup request.scopeKey = some id
      ∧ operation = base.operations.getD id .zero
      ∧ operation.id = request.id ∧ operation.state = .definiteFailed

/-- What an action can make of its base, and answer. -/
inductive Effect (action : Action) (base : AdmissionStore) :
    AdmissionStore → Except StoreError Answer → Prop
  | kept (ledger : Ledger) {answer : Except StoreError Answer} (hanswer : given answer = none) :
      Effect action base { base with ledger := ledger } answer
  | changed {id : String} {operation next : MemoryOperation}
      (ledger : Ledger) (providerIds : FMap String String)
      {answer : Except StoreError Answer}
      (hfound : base.operations.lookup id = some operation)
      (hid : next.id = operation.id)
      (htoken : next.dispatchToken = operation.dispatchToken)
      (hanswer : given answer = none) :
      Effect action base ({ base with
        ledger := ledger, providerIds := providerIds }.put next) answer
  | continued {id : String} {operation : MemoryOperation}
      (request : ContinueRequest) (now : Int) (ledger : Ledger)
      (hfound : base.operations.lookup id = some operation) :
      Effect action base ({ base with ledger := ledger }.put
          (continuedOperation operation request now))
        (.ok (.continued ⟨continuedOperation operation request now, none⟩))
  | begun (request : BeginRequest) (now : Int) (ledger : Ledger)
      {reopened : Option MemoryOperation}
      (haction : action = .begin request)
      (hscope : Reopens base request reopened) :
      Effect action base ({ base with
          ledger := ledger
          reopens := countReopen base.reopens request.id reopened
          byScope := base.byScope.insert request.scopeKey request.id }.put
          (newOperation request now (reopened.map (·, base.reopens.getD request.id 0 + 1))))
        (.ok (.began (.admitted (newOperation request now (reopened.map
          (·, base.reopens.getD request.id 0 + 1))) false)))

-- ===== calls

variable {action : Action} {store : AdmissionStore} {clock : Nat → Int}

variable {id : String} {operation : MemoryOperation}

theorem loadToken_ok_iff {token : String} : store.loadToken id token = .ok operation
      ↔ store.operations.lookup id = some operation ∧ operation.dispatchToken = token := by
  unfold AdmissionStore.loadToken
  cases store.operations.lookup id with
  | none => simp
  | some found =>
    dsimp only
    split
    · rename_i hne
      simp only [reduceCtorEq, Option.some.injEq, false_iff, not_and]
      rintro rfl
      exact hne
    · rename_i heq
      simp only [Except.ok.injEq, Option.some.injEq, iff_self_and]
      rintro rfl
      exact not_not.mp heq

/-- A call with a token is refused as it stands, or runs on the
operation that the token holds. -/
theorem withToken_cases {α : Type} (store : AdmissionStore) (id token : String)
    (body : MemoryOperation → AdmissionStore × Except StoreError α) :
    (∃ e, store.withToken id token body = (store, .error e))
      ∨ ∃ operation, store.operations.lookup id = some operation ∧ operation.dispatchToken = token
        ∧ store.withToken id token body = body operation := by
  unfold AdmissionStore.withToken
  cases h : store.loadToken id token with
  | error e => exact .inl ⟨e, rfl⟩
  | ok operation =>
    obtain ⟨hfound, htoken⟩ := loadToken_ok_iff.mp h
    exact .inr ⟨operation, hfound, htoken, rfl⟩

/-- An answer that only says that a call went through. -/
abbrev doneAnswer (outcome : Except StoreError Unit) : Except StoreError Answer :=
  outcome.map fun _ => .done

/-- A call with a token has an effect of this kind when its body has. -/
theorem withToken_effect {token : String}
    {body : MemoryOperation → AdmissionStore × Except StoreError Unit}
    (hbody : ∀ operation, store.operations.lookup id = some operation →
      Effect action store (body operation).1 (doneAnswer (body operation).2)) :
    Effect action store (store.withToken id token body).1
      (doneAnswer (store.withToken id token body).2) := by
  rcases withToken_cases store id token body with
    ⟨e, h⟩ | ⟨operation, hfound, -, h⟩
  · rw [h]
    exact .kept store.ledger rfl
  · rw [h]
    exact hbody operation hfound

theorem markDispatching_effect (request : DispatchRequest) :
    Effect action store (store.markDispatching clock request).1
      (doneAnswer (store.markDispatching clock request).2) := by
  refine withToken_effect fun operation hfound => ?_
  split
  · split
    · exact .kept store.ledger rfl
    · exact .kept store.ledger rfl
  · exact .changed store.ledger store.providerIds hfound rfl rfl rfl

theorem markProviderPending_effect (request : ProviderPendingRequest) :
    Effect action store (store.markProviderPending clock request).1
      (doneAnswer (store.markProviderPending clock request).2) := by
  unfold AdmissionStore.markProviderPending
  split
  · exact .kept store.ledger rfl
  refine withToken_effect fun operation hfound => ?_
  split
  · split
    · exact .kept store.ledger rfl
    · exact .kept store.ledger rfl
  · split
    · exact .kept store.ledger rfl
    · exact .changed store.ledger _ hfound rfl rfl rfl

theorem settle_effect {next : MemoryOperation}
    (hfound : store.operations.lookup id = some operation)
    (hid : next.id = operation.id)
    (htoken : next.dispatchToken = operation.dispatchToken) (actual : Int) :
    Effect action store (store.settle operation next actual).1
      (doneAnswer (store.settle operation next actual).2) := by
  unfold AdmissionStore.settle
  split
  · exact .kept _ rfl
  · exact .changed _ store.providerIds hfound hid htoken rfl

theorem complete_effect (request : CompleteRequest) :
    Effect action store (store.complete clock request).1
      (doneAnswer (store.complete clock request).2) := by
  refine withToken_effect fun operation hfound => ?_
  split
  · exact .kept store.ledger rfl
  split
  · exact .kept store.ledger rfl
  split
  · exact .kept store.ledger rfl
  · exact settle_effect hfound (by rfl) (by rfl) request.actual

theorem fail_effect (quoted : DispatchCertainty → String) (request : FailRequest) :
    Effect action store (store.fail quoted clock request).1
      (doneAnswer (store.fail quoted clock request).2) := by
  refine withToken_effect fun operation hfound => ?_
  split
  · exact .kept store.ledger rfl
  split
  · exact .kept store.ledger rfl
  split
  · exact .changed store.ledger store.providerIds hfound rfl rfl rfl
  · exact settle_effect hfound (by rfl) (by rfl) request.incurred

theorem continue_effect (request : ContinueRequest) :
    Effect action store (store.continue clock request).1
      ((store.continue clock request).2.map .continued) := by
  unfold AdmissionStore.continue
  split
  · exact .kept store.ledger rfl
  rcases withToken_cases store request.operationId
    request.dispatchToken _ with ⟨e, h⟩ | ⟨operation, hfound, -, h⟩
  · rw [h]
    exact .kept store.ledger rfl
  · rw [h]
    split
    · exact .kept store.ledger rfl
    split
    · exact .kept store.ledger rfl
    split
    · exact .kept _ rfl
    unfold AdmissionStore.continueReleased
    split
    · exact .changed _ store.providerIds hfound rfl rfl rfl
    split
    · exact .kept _ rfl
    · exact .continued request _ _ hfound

theorem reserve_effect {request : BeginRequest}
    {reopened : Option MemoryOperation}
    (hscope : Reopens store request reopened) :
    Effect (.begin request) store (store.reserve clock request reopened).1
      ((store.reserve clock request reopened).2.map .began) := by
  unfold AdmissionStore.reserve
  split
  · exact .kept store.ledger rfl
  split
  · exact .kept _ rfl
  · exact .begun request _ _ rfl hscope

theorem beginSwept_effect (request : BeginRequest) :
    Effect (.begin request) store (store.beginSwept clock request).1
      ((store.beginSwept clock request).2.map .began) := by
  unfold AdmissionStore.beginSwept
  split
  · rename_i hnone
    exact reserve_effect hnone
  rename_i id hsome
  dsimp only
  split
  · exact .kept store.ledger rfl
  split
  · exact .kept store.ledger rfl
  rename_i hstate
  simp only [not_or, ne_eq, not_not] at hstate
  exact reserve_effect ⟨id, hsome, rfl, hstate.2.2, hstate.1⟩

/-- What any call makes of its base. -/
theorem effect (call : Call) (store : AdmissionStore) :
    Effect call.action (call.base store) (call.run store).1 (call.run store).2 := by
  obtain ⟨ctxErr, clock, quoted, action⟩ := call
  cases ctxErr with
  | some e =>
    -- a sweep takes no context
    cases action with
    | sweep now => exact .kept (store.swept now).ledger rfl
    | _ => exact .kept store.ledger rfl
  | none =>
    cases action with
    | sweep now => exact .kept (store.swept now).ledger rfl
    | begin request =>
      unfold Call.run Call.base Call.sweepsAt Action.run AdmissionStore.begin
      dsimp only
      cases checkBegin request with
      | error e => exact .kept store.ledger rfl
      | ok u => exact beginSwept_effect request
    | markDispatching request => exact markDispatching_effect request
    | markProviderPending request => exact markProviderPending_effect request
    | «continue» request => exact continue_effect request
    | complete request => exact complete_effect request
    | fail request => exact fail_effect quoted request

-- ===== keyed stores

/-- Every operation is stored under its identity. -/
def Keyed (operations : FMap String MemoryOperation) : Prop :=
  ∀ id operation, operations.lookup id = some operation → operation.id = id

/-- The sweep keeps the operations it does not remove. -/
theorem lookup_swept (store : AdmissionStore) (now : Int) (id : String) :
    (store.swept now).operations.lookup id
      = (store.operations.lookup id).filter (!·.expired now) := by
  unfold AdmissionStore.swept
  rw [lookup_filterMap]
  cases store.operations.lookup id with
  | none => rfl
  | some operation =>
    rw [Option.bind_some, Option.filter_some]
    cases operation.expired now <;> rfl

theorem lookup_of_swept {now : Int} (h : (store.swept now).operations.lookup id = some operation) :
    store.operations.lookup id = some operation ∧ operation.expired now = false := by
  rw [lookup_swept, Option.filter_eq_some_iff] at h
  exact ⟨h.1, by simpa using h.2⟩

theorem lookup_put (store : AdmissionStore) (next : MemoryOperation) (id : String) :
    (store.put next).operations.lookup id
      = if id = next.id then some next else store.operations.lookup id :=
  lookup_insert_eq ..

theorem Keyed.insert {operations : FMap String MemoryOperation}
    (h : Keyed operations) (next : MemoryOperation) :
    Keyed (operations.insert next.id next) := by
  intro id operation hfound
  rw [lookup_insert_eq] at hfound
  split at hfound
  · rename_i hid
    cases hfound
    exact hid.symm
  · exact h id operation hfound

theorem Effect.keyed {base next : AdmissionStore}
    {answer : Except StoreError Answer} (h : Effect action base next answer)
    (hbase : Keyed base.operations) : Keyed next.operations := by
  cases h with
  | kept => exact hbase
  | changed | continued | begun => exact hbase.insert _

/-- Some operation's reservations name a place. -/
def Named (operations : FMap String MemoryOperation) (p : Place) : Prop :=
  ∃ id operation, operations.lookup id = some operation ∧ p ∈ operation.reservations.map place

theorem named_iff_mem_referenced
    {operations : FMap String MemoryOperation} {p : Place} :
    p ∈ referenced operations ↔ Named operations p := by
  unfold referenced Named
  rw [List.mem_flatMap]
  constructor
  · rintro ⟨⟨id, operation⟩, hmem, hp⟩
    exact ⟨id, operation, mem_entries_iff.mp hmem, hp⟩
  · rintro ⟨id, operation, hfound, hp⟩
    exact ⟨⟨id, operation⟩, mem_entries_iff.mpr hfound, hp⟩

-- ===== a small store

/-- A reservation in one of the buckets of a short window. -/
def smallReservation (window : String) (bucket amount : Int) :
    WindowReservation :=
  { policyId := "policy", windowId := window, bucket := bucket
    amount := amount, limit := 2 ^ 53 - 1, amountUsd := .zero
    limitUsd := .zero, bucketNanos := 10, durationNanos := 20 }

/-- A request for one amount in some buckets. -/
def smallRequest (id scope : String) (amount : Int) (rs : List WindowReservation) : BeginRequest :=
  { id := id, scopeKey := scope, requestDigest := zeroDigest
    reservation := amount, reservationUsd := .zero, reservations := rs
    configVersion := "", priceVersion := "", leaseUntil := zeroTime
    expiresAt := 60 }

/-- An action at a fixed time. -/
def atTime (now : Int) (action : Action) : Call :=
  ⟨none, fun _ => now, fun _ => "", action⟩

/-- Hands an operation to an attempt. -/
def smallDispatch (id token : String) : Action :=
  .markDispatching ⟨id, token, .empty, zeroTime⟩

/-- Completes an operation at a cost. -/
def smallComplete (id token : String) (actual : Int) : Action :=
  .complete ⟨id, token, actual, .zero, none, .empty⟩

/-- One operation completed and one under way, both past their
retention. -/
def smallCalls : List Call :=
  [atTime 5 (.begin (smallRequest "a" "s" 4 [smallReservation "hour" 0 4])),
    atTime 6 (smallDispatch "a" "a"),
    atTime 7 (smallComplete "a" "a" 3),
    atTime 15 (.begin (smallRequest "b" "t" 2 [smallReservation "hour" 1 2])),
    atTime 16 (smallDispatch "b" "b")]

end LlmTemporalWorker.Admission.Memory
