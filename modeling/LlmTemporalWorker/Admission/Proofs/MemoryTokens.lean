/-
Dispatch tokens of the in-memory store.

An operation is dispatched under a token that `Begin` hands out, that
every `Continue` replaces by a longer one, and that a reopening replaces
by one with the number of the reopening. Whoever holds an older token
is refused. This rests on the tokens of one operation being distinct,
although they are made of numbers the callers choose.

# Shape

A token is the identity, then the mark of a reopening if there was one,
then what the continuations appended (`Shaped`). A continuation appends
a hyphen and a printed integer, so what follows the identity tells the
mark from a continuation, and the number of the reopening can be read
back. A later token has a later reopening, or the same one and is
longer.

# One scope

`Begin` looks an operation up by its scope. Under a second scope it does
not find it and stores a new operation over it, with the first token
again (`second_scope_repeats_token`). The engine derives the identity
from the scope, so its scopes never share one.
-/
import LlmTemporalWorker.Admission.Proofs.MemoryCalls
import LlmTemporalWorker.Lib.Digits

namespace LlmTemporalWorker.Admission.Memory

open Lib Budget Pricing

-- ===== shape

/-- What follows the identity in the tokens of a reopening. -/
def reopenMark (n : Nat) : List Char :=
  if n = 0 then [] else "-reopen-".toList ++ Nat.toDigits 10 n

theorem reopenMark_zero : reopenMark 0 = [] := if_pos rfl

theorem reopenMark_succ (n : Nat) : reopenMark (n + 1)
    = "-reopen-".toList ++ Nat.toDigits 10 (n + 1) :=
  if_neg n.succ_ne_zero

/-- What continuations append. -/
def Appended (tail : List Char) : Prop :=
  tail = [] ∨ ∃ c rest, tail = '-' :: c :: rest ∧ (c.isDigit = true ∨ c = '-')

/-- A token of the `n`-th reopening of an operation. -/
def Shaped (id : String) (n : Nat) (token : String) : Prop :=
  ∃ tail, token.toList = id.toList ++ reopenMark n ++ tail ∧ Appended tail

theorem Appended.not_digit {tail : List Char} (h : Appended tail) :
    ∀ c ∈ tail.head?, c.isDigit = false := by
  intro c hc
  rcases h with rfl | ⟨_, _, rfl, -⟩
  · cases hc
  · cases hc
    decide

variable {n : Nat} {id token owner : String} {operation : MemoryOperation}

/-- What continuations append is not the mark of a reopening. -/
theorem Appended.ne_mark {tail tail' : List Char} (h : Appended tail) :
    tail ≠ reopenMark (n + 1) ++ tail' := by
  intro heq
  rcases h with rfl | ⟨c, rest, rfl, hc⟩
  · cases heq
  · injection heq with _ heq
    injection heq with hr _
    subst hr
    rcases hc with hc | hc
    · cases hc
    · cases hc

/-- A token tells which reopening it belongs to. -/
theorem Shaped.unique {m : Nat} (hn : Shaped id n token) (hm : Shaped id m token) : n = m := by
  obtain ⟨tail, htoken, htail⟩ := hn
  obtain ⟨tail', htoken', htail'⟩ := hm
  have heq : reopenMark n ++ tail = reopenMark m ++ tail' := by
    rw [htoken, List.append_assoc, List.append_assoc] at htoken'
    exact List.append_cancel_left htoken'
  cases n with
  | zero =>
    cases m with
    | zero => rfl
    | succ m => exact absurd heq htail.ne_mark
  | succ n =>
    cases m with
    | zero => exact absurd heq.symm htail'.ne_mark
    | succ m =>
      rw [reopenMark_succ, reopenMark_succ, List.append_assoc, List.append_assoc] at heq
      have hdigits : Nat.toDigits 10 (n + 1) ++ tail = Nat.toDigits 10 (m + 1) ++ tail' :=
        List.append_cancel_left heq
      exact toDigits_append_inj hdigits htail.not_digit htail'.not_digit

theorem shaped_first (id : String) : Shaped id 0 id := by
  refine ⟨[], ?_, .inl rfl⟩
  rw [reopenMark_zero, List.append_nil, List.append_nil]

theorem shaped_reopened (id : String) (n : Nat) :
    Shaped id (n + 1) (id ++ "-reopen-" ++ toString (n + 1)) := by
  refine ⟨[], ?_, .inl rfl⟩
  rw [String.toList_append, String.toList_append, toList_toString,
    reopenMark_succ, List.append_nil, List.append_assoc]

/-- A continuation appends to a token. -/
theorem Shaped.continued (h : Shaped id n token) (number : Int) :
    Shaped id n (token ++ "-" ++ toString number) := by
  obtain ⟨tail, htoken, htail⟩ := h
  obtain ⟨c, rest, hnumber, hc⟩ := head_toString_int number
  refine ⟨tail ++ '-' :: c :: rest, ?_, ?_⟩
  · rw [String.toList_append, String.toList_append, hnumber, htoken]
    simp
  · rcases htail with rfl | ⟨c', rest', rfl, hc'⟩
    · exact .inr ⟨c, rest, rfl, hc⟩
    · exact .inr ⟨c', rest' ++ '-' :: c :: rest, by simp, hc'⟩

theorem length_lt_continued (token : String) (number : Int) :
    token.length < (token ++ "-" ++ toString number).length := by
  rw [String.length_append, String.length_append]
  have : "-".length = 1 := rfl
  omega

/-- A token of an earlier reopening, or a shorter one of the same. -/
def Outranked (id : String) (n length : Nat) (token : String) : Prop :=
  ∃ m, Shaped id m token ∧ (m < n ∨ m = n ∧ token.length < length)

theorem Outranked.ne {other : String}
    (h : Outranked id n token.length other) (ht : Shaped id n token) :
    other ≠ token := by
  rintro rfl
  obtain ⟨m, hm, hrank⟩ := h
  have := hm.unique ht
  omega

-- ===== runs

/-- The tokens that the answers of a run give an operation. -/
def tokensOf (id : String) (answers : List (Except StoreError Answer)) : List String :=
  (answers.filterMap given).filterMap fun (owner, token) =>
    if owner = id then some token else none

/-- The tokens that a run on a new store gives an operation. -/
def tokensGiven (id : String) (calls : List Call) : List String :=
  tokensOf id (replies Call.run .new calls)

/-- No call of a run sweeps an operation. -/
def neverSwept (id : String) : AdmissionStore → List Call → Bool
  | _, [] => true
  | store, call :: rest =>
    ((store.operations.lookup id).isNone
      || ((call.base store).operations.lookup id).isSome)
    && neverSwept id (call.run store).1 rest

/-- Every begin of an operation carries one scope key. -/
def OneScope (id scope : String) (calls : List Call) : Prop :=
  ∀ call ∈ calls, ∀ request, call.action = .begin request →
    request.id = id → request.scopeKey = scope

/-- The tokens given so far, against the store: an operation that is not
there was given none; one that is holds the last, and outranks the
others with it. -/
structure Fenced (id scope : String) (store : AdmissionStore)
    (tokens : List String) : Prop where
  keyed : Keyed store.operations
  unborn : store.operations.lookup id = none → tokens = []
  living : ∀ operation, store.operations.lookup id = some operation →
    store.byScope.lookup scope = some id ∧ ∃ n before, tokens = before ++ [operation.dispatchToken]
        ∧ n ≤ store.reopens.getD id 0
        ∧ Shaped id n operation.dispatchToken
        ∧ ∀ token ∈ before, Outranked id n operation.dispatchToken.length token
  nodup : tokens.Nodup

variable {id scope : String} {store base after : AdmissionStore}
  {tokens : List String} {action : Action}
  {answer : Except StoreError Answer}

/-- Every token given is of a reopening that was counted. -/
theorem Fenced.counted (h : Fenced id scope store tokens) :
    ∀ token ∈ tokens, ∃ m ≤ store.reopens.getD id 0, Shaped id m token := by
  intro token htoken
  cases hfound : store.operations.lookup id with
  | none =>
    rw [h.unborn hfound] at htoken
    cases htoken
  | some operation =>
    obtain ⟨-, n, before, rfl, hn, hshape, hbefore⟩ := h.living operation hfound
    rcases List.mem_append.mp htoken with hmem | hmem
    · obtain ⟨m, hm, hrank⟩ := hbefore token hmem
      exact ⟨m, by omega, hm⟩
    · cases List.mem_singleton.mp hmem
      exact ⟨n, hn, hshape⟩

/-- A sweep that leaves the operation leaves its scope and its count. -/
theorem Fenced.swept {now : Int} (h : Fenced id scope store tokens)
    (hkept : (store.operations.lookup id).isSome →
      ((store.swept now).operations.lookup id).isSome) :
    Fenced id scope (store.swept now) tokens where
  keyed := fun _ _ hfound => h.keyed _ _ (lookup_of_swept hfound).1
  unborn := by
    intro hnone
    refine h.unborn ?_
    by_contra hsome
    have := hkept (Option.isSome_iff_ne_none.mpr hsome)
    rw [hnone] at this
    cases this
  living := by
    intro operation hswept
    obtain ⟨hfound, hexpired⟩ := lookup_of_swept hswept
    obtain ⟨hscope, n, before, htokens, hn, hshape, hbefore⟩ := h.living operation hfound
    have hscope' : (store.swept now).byScope.lookup scope = some id := by
      unfold AdmissionStore.swept
      rw [lookup_filterMap, hscope, Option.bind_some, hfound, Option.any_some, hexpired]
      rfl
    have hcount : (store.swept now).reopens.getD id 0 = store.reopens.getD id 0 := by
      unfold AdmissionStore.swept FMap.getD
      rw [lookup_filterMap]
      cases store.reopens.lookup id with
      | none => rfl
      | some count =>
        rw [Option.bind_some, AdmissionStore.expires, hfound, Option.any_some, hexpired]
        rfl
    exact ⟨hscope', n, before, htokens, hcount ▸ hn, hshape, hbefore⟩
  nodup := h.nodup

theorem Fenced.atBase {call : Call} (h : Fenced id scope store tokens)
    (hkept : (store.operations.lookup id).isSome →
      ((call.base store).operations.lookup id).isSome) :
    Fenced id scope (call.base store) tokens := by
  unfold Call.base at *
  split at hkept
  · exact h
  · exact h.swept hkept

/-- An operation stored anew under its token. -/
theorem Fenced.changed (h : Fenced id scope base tokens)
    {next : MemoryOperation}
    (hfound : base.operations.lookup owner = some operation)
    (hid : next.id = operation.id)
    (htoken : next.dispatchToken = operation.dispatchToken)
    (ledger : Ledger) (providerIds : FMap String String) :
    Fenced id scope ({ base with
      ledger := ledger, providerIds := providerIds }.put next) tokens where
  keyed := h.keyed.insert next
  unborn := by
    intro hnone
    rw [lookup_put] at hnone
    split at hnone
    · cases hnone
    · exact h.unborn hnone
  living := by
    intro found hput
    rw [lookup_put] at hput
    split at hput
    · rename_i heq
      cases hput
      have howner : owner = id := by
        rw [heq, hid, h.keyed _ _ hfound]
      subst howner
      rw [htoken]
      exact h.living operation hfound
    · exact h.living found hput
  nodup := h.nodup

/-- A step that does not touch the operation. -/
theorem Fenced.elsewhere (h : Fenced id scope base tokens) (hkeyed : Keyed after.operations)
    (hsame : after.operations.lookup id = base.operations.lookup id)
    (hscope : base.byScope.lookup scope = some id → (base.operations.lookup id).isSome →
      after.byScope.lookup scope = some id)
    (hcount : after.reopens.getD id 0 = base.reopens.getD id 0) :
    Fenced id scope after tokens where
  keyed := hkeyed
  unborn hnone := h.unborn (hsame ▸ hnone)
  living := by
    intro operation hfound
    rw [hsame] at hfound
    obtain ⟨hold, n, before, htokens, hn, hshape, hbefore⟩ := h.living operation hfound
    refine ⟨hscope hold ?_, n, before, htokens, hcount ▸ hn, hshape, hbefore⟩
    rw [hfound]
    rfl
  nodup := h.nodup

/-- A step that gives the operation a token above all earlier ones. -/
theorem Fenced.extend (h : Fenced id scope base tokens)
    {next : MemoryOperation} (hkeyed : Keyed after.operations)
    (hfound : after.operations.lookup id = some next)
    (hscope : after.byScope.lookup scope = some id)
    (hn : n ≤ after.reopens.getD id 0)
    (hshape : Shaped id n next.dispatchToken) (hall : ∀ other ∈ tokens,
      Outranked id n next.dispatchToken.length other) :
    Fenced id scope after (tokens ++ [next.dispatchToken]) where
  keyed := hkeyed
  unborn hnone := by
    rw [hfound] at hnone
    cases hnone
  living := by
    intro operation hoperation
    rw [hfound] at hoperation
    cases hoperation
    exact ⟨hscope, n, tokens, rfl, hn, hshape, hall⟩
  nodup := by
    refine List.nodup_append.mpr ⟨h.nodup, List.nodup_singleton _, ?_⟩
    intro other hother last hlast
    cases List.mem_singleton.mp hlast
    exact (hall other hother).ne hshape

theorem tokensOf_none (h : given answer = none) : tokensOf id [answer] = [] := by
  simp [tokensOf, h]

theorem tokensOf_given (h : given answer = some (owner, token)) :
    tokensOf id [answer] = if owner = id then [token] else [] := by
  unfold tokensOf
  rw [List.filterMap_cons_some h, List.filterMap_nil]
  by_cases howner : owner = id
  · simp [howner]
  · simp [howner]

/-- A continuation's token is longer than the one it replaces. -/
theorem Fenced.continued (h : Fenced id scope base tokens)
    (hfound : base.operations.lookup owner = some operation)
    (request : ContinueRequest) (now : Int) (ledger : Ledger) :
    Fenced id scope ({ base with ledger := ledger }.put (continuedOperation operation request now))
      (tokens ++ tokensOf id [.ok (.continued
        ⟨continuedOperation operation request now, none⟩)]) := by
  have howner : operation.id = owner := h.keyed _ _ hfound
  rw [tokensOf_given rfl]
  split
  · rename_i heq
    have heq : operation.id = id := heq
    rw [howner] at heq
    subst heq
    obtain ⟨hscope, n, before, rfl, hn, hshape, hbefore⟩ := h.living operation hfound
    refine h.extend (h.keyed.insert _) ?_ hscope hn (hshape.continued _) ?_
    · rw [lookup_put]
      exact if_pos howner.symm
    · have hlonger := length_lt_continued operation.dispatchToken
        (goSucc request.outcome.attempt.attemptNumber)
      intro other hother
      rcases List.mem_append.mp hother with hmem | hmem
      · obtain ⟨m, hm, hrank⟩ := hbefore other hmem
        refine ⟨m, hm, ?_⟩
        rcases hrank with hlt | ⟨heq, hlt⟩
        · exact .inl hlt
        · exact .inr ⟨heq, hlt.trans hlonger⟩
      · cases List.mem_singleton.mp hmem
        exact ⟨n, hshape, .inr ⟨rfl, hlonger⟩⟩
  · rename_i hne
    have hne : id ≠ operation.id := fun heq => hne heq.symm
    rw [List.append_nil]
    refine h.elsewhere (h.keyed.insert _) ?_ (fun hold _ => hold) rfl
    rw [lookup_put]
    exact if_neg hne

/-- An operation begun is new to its scope, or is reopened under a count
of its own. -/
theorem Fenced.begun (h : Fenced id scope base tokens)
    {request : BeginRequest} {reopened : Option MemoryOperation}
    (hreopens : Reopens base request reopened)
    (hone : request.id = id → request.scopeKey = scope) (now : Int)
    (ledger : Ledger) :
    Fenced id scope ({ base with
        ledger := ledger
        reopens := countReopen base.reopens request.id reopened
        byScope := base.byScope.insert request.scopeKey request.id }.put
        (newOperation request now (reopened.map (·, base.reopens.getD request.id 0 + 1))))
      (tokens ++ tokensOf id [.ok (.began (.admitted (newOperation request now (reopened.map
          (·, base.reopens.getD request.id 0 + 1))) false))]) := by
  rw [tokensOf_given rfl]
  split
  · rename_i heq
    have hscope := hone heq
    subst heq
    subst hscope
    cases reopened with
    | none =>
      -- the scope is new, so nothing was given before
      have hnone : base.byScope.lookup request.scopeKey = none := hreopens
      have hnil : tokens = [] := by
        refine h.unborn ?_
        by_contra hsome
        obtain ⟨operation, hfound⟩ := Option.ne_none_iff_exists'.mp hsome
        obtain ⟨hscope, -⟩ := h.living operation hfound
        rw [hnone] at hscope
        cases hscope
      subst hnil
      refine h.extend (h.keyed.insert _) (n := 0) ?_ ?_ (Nat.zero_le _)
        (shaped_first request.id) (fun _ hother => by cases hother)
      · rw [lookup_put]
        exact if_pos rfl
      · exact AList.lookup_insert ..
    | some operation =>
      have hcount : (countReopen base.reopens request.id (some operation)).getD request.id 0
            = base.reopens.getD request.id 0 + 1 := by
        rw [countReopen, FMap.getD, AList.lookup_insert]
        rfl
      refine h.extend (h.keyed.insert _) ?_ ?_ (Nat.le_of_eq hcount.symm)
        (shaped_reopened request.id _) ?_
      · rw [lookup_put]
        exact if_pos rfl
      · exact AList.lookup_insert ..
      · intro other hother
        obtain ⟨m, hm, hshape⟩ := h.counted other hother
        exact ⟨m, hshape, .inl (Nat.lt_succ_of_le hm)⟩
  · rename_i hother
    have hne : id ≠ request.id := fun heq => hother heq.symm
    rw [List.append_nil]
    refine h.elsewhere (h.keyed.insert _) ?_ ?_ ?_
    · rw [lookup_put]
      exact if_neg hne
    · -- a scope that finds the operation begins no other
      intro hold hsome
      obtain ⟨found, hfound⟩ := Option.isSome_iff_exists.mp hsome
      show (base.byScope.insert request.scopeKey request.id).lookup scope = some id
      rw [lookup_insert_eq, if_neg, hold]
      intro heq
      subst heq
      cases reopened with
      | none =>
        have hnone : base.byScope.lookup request.scopeKey = none := hreopens
        rw [hnone] at hold
        cases hold
      | some operation =>
        obtain ⟨other, hother, hop, hid, -⟩ := hreopens
        rw [hold] at hother
        cases hother
        rw [FMap.getD, hfound] at hop
        subst hop
        exact hne ((h.keyed _ _ hfound).symm.trans hid)
    · show (countReopen base.reopens request.id reopened).getD id 0 = _
      cases reopened with
      | none => rfl
      | some operation =>
        rw [countReopen, FMap.getD, lookup_insert_eq, if_neg hne]
        rfl

/-- What one call does to the tokens given. -/
theorem Effect.fenced (heffect : Effect action base after answer) (h : Fenced id scope base tokens)
    (hone : ∀ request, action = .begin request → request.id = id → request.scopeKey = scope) :
    Fenced id scope after (tokens ++ tokensOf id [answer]) := by
  cases heffect with
  | kept ledger hanswer =>
    rw [tokensOf_none hanswer, List.append_nil]
    exact ⟨h.keyed, h.unborn, h.living, h.nodup⟩
  | changed ledger providerIds hfound hid htoken hanswer =>
    rw [tokensOf_none hanswer, List.append_nil]
    exact h.changed hfound hid htoken ledger providerIds
  | continued request now ledger hfound => exact h.continued hfound request now ledger
  | begun request now ledger haction hscope =>
    exact h.begun hscope (hone request haction) now ledger

theorem tokensOf_cons (first : Except StoreError Answer) (rest : List (Except StoreError Answer)) :
    tokensOf id (first :: rest) = tokensOf id [first] ++ tokensOf id rest := by
  unfold tokensOf
  rw [← List.filterMap_append, ← List.filterMap_append]
  rfl

/-- What a run does to them. -/
theorem Fenced.run (h : Fenced id scope store tokens) {calls : List Call}
    (hkept : neverSwept id store calls = true)
    (hone : OneScope id scope calls) :
    Fenced id scope (runAll Call.run store calls)
      (tokens ++ tokensOf id (replies Call.run store calls)) := by
  induction calls generalizing store tokens with
  | nil =>
    show Fenced id scope store (tokens ++ [])
    rwa [List.append_nil]
  | cons call rest ih =>
    obtain ⟨hcall, hrest⟩ := List.forall_mem_cons.mp hone
    rw [neverSwept, Bool.and_eq_true, Bool.or_eq_true] at hkept
    have hbase : Fenced id scope (call.base store) tokens := by
      refine h.atBase fun hsome => hkept.1.resolve_left ?_
      rw [Option.isNone_iff_eq_none]
      exact Option.isSome_iff_ne_none.mp hsome
    have hstep := (effect call store).fenced hbase hcall
    rw [show replies Call.run store (call :: rest)
      = (call.run store).2 :: replies Call.run (call.run store).1 rest
      from rfl, tokensOf_cons, ← List.append_assoc]
    exact ih hstep hkept.2 hrest

-- ===== fencing

/-- The operation and the token that an action presents. -/
def Action.presents : Action → Option (String × String)
  | .markDispatching r => some (r.operationId, r.dispatchToken)
  | .markProviderPending r => some (r.operationId, r.dispatchToken)
  | .continue r => some (r.operationId, r.dispatchToken)
  | .complete r => some (r.operationId, r.dispatchToken)
  | .fail r => some (r.operationId, r.dispatchToken)
  | .begin _ | .sweep _ => none

/-- A token that the operation does not hold is refused. -/
theorem withToken_refuses {α β : Type} (hfound : store.operations.lookup id = some operation)
    (hne : operation.dispatchToken ≠ token)
    (body : MemoryOperation → AdmissionStore × Except StoreError α)
    (f : α → β) :
    (store.withToken id token body).2.map f = .error .invalidToken := by
  rw [AdmissionStore.withToken, AdmissionStore.loadToken, hfound]
  dsimp only
  rw [if_pos hne]
  rfl

theorem run_refuses {call : Call} (hcall : call.action.presents = some (id, token))
    (hfound : store.operations.lookup id = some operation)
    (hne : operation.dispatchToken ≠ token) :
    ∃ e, (call.run store).2 = .error e := by
  obtain ⟨ctxErr, clock, quoted, action⟩ := call
  cases ctxErr with
  | some e =>
    cases action with
    | begin | sweep => cases hcall
    | _ => exact ⟨_, rfl⟩
  | none =>
    cases action with
    | begin | sweep => cases hcall
    | markDispatching | complete | fail =>
      cases hcall
      exact ⟨_, withToken_refuses hfound hne _ fun _ => Answer.done⟩
    | markProviderPending request =>
      cases hcall
      show ∃ e, doneAnswer (store.markProviderPending clock request).2 = .error e
      unfold AdmissionStore.markProviderPending
      split
      · exact ⟨_, rfl⟩
      · exact ⟨_, withToken_refuses hfound hne _ fun _ => Answer.done⟩
    | «continue» request =>
      cases hcall
      show ∃ e, (store.continue clock request).2.map Answer.continued = .error e
      unfold AdmissionStore.continue
      split
      · exact ⟨_, rfl⟩
      · exact ⟨_, withToken_refuses hfound hne _ Answer.continued⟩

/-- Dispatch tokens fence stale holders. Along every run in which an
operation is never swept and is begun under one scope key, the tokens it
is given are distinct, and whoever presents one that is not the last is
refused. -/
theorem tokens_fence_stale_holders (id scope : String)
    (calls : List Call) (hkept : neverSwept id .new calls = true)
    (hone : OneScope id scope calls) :
    (tokensGiven id calls).Nodup ∧ ∀ earlier token later,
        tokensGiven id calls = earlier ++ token :: later → later ≠ [] →
        ∀ call : Call, call.action.presents = some (id, token) →
          ∃ e, (call.run (storeAfter calls)).2 = .error e := by
  have hnew : Fenced id scope .new [] :=
    ⟨fun _ _ h => (by cases h), fun _ => rfl, fun _ h => (by cases h),
      List.nodup_nil⟩
  have h := hnew.run hkept hone
  rw [List.nil_append] at h
  refine ⟨h.nodup, ?_⟩
  intro earlier token later hsplit hlater call hcall
  have hsplit : tokensOf id (replies Call.run .new calls) = earlier ++ token :: later := hsplit
  cases hfound : (storeAfter calls).operations.lookup id with
  | none =>
    have hnil := h.unborn hfound
    rw [hsplit] at hnil
    exact absurd hnil (by simp)
  | some operation =>
    obtain ⟨-, n, before, htokens, -⟩ := h.living operation hfound
    -- the operation holds the last token, which is not this one
    refine run_refuses hcall hfound ?_
    rintro rfl
    have hnodup := h.nodup
    have hmem : operation.dispatchToken ∈ before := by
      rw [hsplit] at htokens
      have hlast := congrArg List.dropLast htokens
      rw [List.dropLast_concat, List.dropLast_append_cons,
        List.dropLast_cons_of_ne_nil hlater] at hlast
      rw [← hlast]
      exact List.mem_append_right _ List.mem_cons_self
    rw [htokens, List.nodup_append] at hnodup
    exact hnodup.2.2 _ hmem _ (List.mem_singleton_self _) rfl

/-- Gives up an attempt that did not reach the provider, with a request
for the next. -/
def smallContinue (id token : String) (attempt : Int) : Action :=
  .continue
    { operationId := id, dispatchToken := token
      outcome := ⟨.notDispatched, 0,
        { AttemptFacts.empty with attemptNumber := attempt }⟩
      remaining := 1, remainingUsd := .zero
      reservations := [smallReservation "hour" 1 1]
      leaseUntil := zeroTime, expiresAt := 60 }

/-- Fails an operation that may be tried again. -/
def smallFail (id token : String) : Action :=
  .fail ⟨id, token, .rejected, 0, .zero, .empty, true⟩

/-- A run through a continuation, a failure and a reopening. -/
def reopeningCalls : List Call :=
  [atTime 10 (.begin (smallRequest "a" "s" 1 [smallReservation "hour" 1 1])),
    atTime 11 (smallDispatch "a" "a"),
    atTime 12 (smallContinue "a" "a" 6),
    atTime 13 (smallFail "a" "a-7"),
    atTime 14 (.begin (smallRequest "a" "s" 1 [smallReservation "hour" 1 1]))]

theorem tokens_fence_stale_holders_reopening :
    tokensGiven "a" reopeningCalls = ["a", "a-7", "a-reopen-1"]
      ∧ (tokensGiven "a" reopeningCalls).Nodup
      ∧ ∃ e, ((atTime 15 (smallDispatch "a" "a-7")).run
        (storeAfter reopeningCalls)).2 = .error e := by
  have hgiven : tokensGiven "a" reopeningCalls = ["a", "a-7", "a-reopen-1"] := by decide +kernel
  have hone : OneScope "a" "s" reopeningCalls := by
    intro call hcall request haction _
    simp only [reopeningCalls, List.mem_cons, List.not_mem_nil, or_false]
      at hcall
    rcases hcall with rfl | rfl | rfl | rfl | rfl <;> cases haction <;> rfl
  obtain ⟨hnodup, hfence⟩ := tokens_fence_stale_holders "a" "s"
    reopeningCalls (by decide +kernel) hone
  exact ⟨hgiven, hnodup, hfence ["a"] "a-7" ["a-reopen-1"] hgiven (by decide) _ rfl⟩

/-- An operation begun under a second scope is given its first token
again, and the first holder is not refused. -/
theorem second_scope_repeats_token :
    let calls := [
      atTime 10 (.begin (smallRequest "a" "s" 1 [smallReservation "hour" 1 1])),
      atTime 11 (.begin (smallRequest "a" "t" 1 [smallReservation "hour" 1 1]))]
    neverSwept "a" .new calls = true ∧ tokensGiven "a" calls = ["a", "a"]
      ∧ ((atTime 12 (smallDispatch "a" "a")).run (storeAfter calls)).2 = .ok .done := by
  decide +kernel

end LlmTemporalWorker.Admission.Memory
