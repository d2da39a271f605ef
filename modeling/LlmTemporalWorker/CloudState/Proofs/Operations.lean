/-
Whole operations: begin one, complete one.

Both are loops around single updates of the record they have just read,
so all they need of the rule is that it allows those updates
(`OperationRules`).
-/
import LlmTemporalWorker.CloudState.Proofs.Repository

namespace LlmTemporalWorker.CloudState

open Lib Contract Repo

variable {δ : Type} [DecidableEq δ] {docs : Documents δ}
variable {R : RepoCalls δ} {T : RepoTerms R} {j : R.Job}
variable {s s' s₀ : RepoStore δ} {scope : Scope} {id : String}
variable {u : Update δ} {record : Record δ}

/-- The rule allows what operations write. -/
structure OperationRules (docs : Documents δ) (T : RepoTerms R) :
    Prop where
  start : ∀ request (record : Record δ) progress, record.status = .pending →
    docs.normalize docs.started = .ok progress →
    T.rule record (Update.next (startUpdate docs request record) progress record)
  complete : ∀ {record : Record δ} {d progress now},
    record.status = .running → docs.normalize d = .ok progress →
    T.rule record (Update.next ⟨record.revision, "runtime-complete",
      .completed, d, now⟩ progress record)
  child : ∀ {root record : Record δ} {d progress now},
    docs.completeChild root record = .ok (some d) →
    docs.normalize d = .ok progress →
    T.rule record (Update.next ⟨record.revision, "attempt-complete",
      .completed, d, now⟩ progress record)

variable {request : CreateRequest δ} {rounds : Nat} {now : Int}

/-- The record that a begin goes on with has been read under the
invariant. -/
theorem wp_findOperation : T.wp docs j (findOperation docs request).run
      (fun _ s' r => ∀ request' record, r = .ok (request', some record) → RepoInv docs T.rule s' ∧
          Found s' request'.scope request'.id record) s₀ s := by
  refine wp_observe_bind.mpr ?_
  refine wp_readIndex ?_ ?_ ?_
  · intro s' row hs' hrow
    refine wp_run_bind.mpr (wp_run_observe.mpr (wp_readRecord ?_ ?_))
    · intro t e ht he hscope
      refine wp_run_bind.mpr (wp_run_pure.mpr ?_)
      dsimp only
      split
      · exact fun _ _ h => nomatch h
      intro request' record h
      obtain ⟨rfl, hrecord⟩ := Prod.mk.inj (Except.ok.inj h)
      obtain rfl := Option.some.inj hrecord
      exact ⟨ht.inv, found_last ht.inv he hscope⟩
    · intro t u e _
      refine wp_ite (fun _ => fun _ _ h => nomatch h) fun hother => ?_
      refine wp_run_bind.mpr (wp_run_pure.mpr ?_)
      dsimp only
      split
      · exact fun _ _ h => nomatch h
      · exact fun _ _ h => nomatch h
  · exact fun _ _ _ _ _ h => nomatch h
  · intro s' e _ he
    rcases CloudError.isStorage_cases he with rfl | rfl
    all_goals exact fun _ _ h => nomatch h

/-- An update whose conflict is tried again. -/
theorem wp_update_again (hfree : ∀ s s', T.acts j s s') {β : Type}
    {value : Record δ → β} {again : Repo δ β}
    (hfound : Found s scope id record)
    (hrevision : u.expectedRevision = record.revision)
    (hrule : ∀ progress, docs.normalize u.progress = .ok progress →
      T.rule record (Update.next u progress record))
    (hagain : ∀ s₀ s, T.wp docs j again.run (fun _ _ _ => True) s₀ s) :
    T.wp docs j (show Repo δ β from do
      match ← Program.observe (tryUpdate docs scope id u) with
      | .ok updated => return value updated
      | .error e => if e.isConflict then again else throw e).run
      (fun _ _ _ => True) s₀ s := by
  refine wp_observe_bind.mpr ?_
  refine wp_mono (wp_tryUpdate (fun _ _ _ _ _ _ => hfree _ _) (hfound.ruled hrevision hrule)) ?_
  intro t s' r _
  cases r with
  | ok record => trivial
  | error e =>
    exact wp_ite (fun _ => hagain t s') fun _ => trivial

variable (hrules : OperationRules docs T) (hfree : ∀ s s', T.acts j s s')

include hrules hfree

theorem wp_startOperation {again : Repo δ (Record δ)} (hinv : RepoInv docs T.rule s)
    (hfound : Found s request.scope request.id record)
    (hagain : ∀ s₀ s, T.wp docs j again.run (fun _ _ _ => True) s₀ s) :
    T.wp docs j (startOperation docs request record again).run (fun _ _ _ => True) s₀ s := by
  refine wp_ite (fun _ => ?_) fun hpending => ?_
  · exact wp_run_bind.mpr (wp_advanceIndexLoop hfound.committed
      (fun _ _ _ => trivial) (fun _ _ _ _ _ => trivial) hinv)
  exact wp_update_again hfree hfound rfl
    (fun progress hprogress => hrules.start request record progress
      (not_not.mp hpending) hprogress) hagain

/-- Each round of a begin writes by the rule, and so do all of them. -/
theorem wp_beginLoop :
    T.wp docs j (beginLoop docs request rounds).run (fun _ _ _ => True) s₀ s := by
  induction rounds generalizing request s s₀ with
  | zero => trivial
  | succ rounds ih =>
    refine wp_run_bind.mpr (wp_mono wp_findOperation ?_)
    intro t s' r hr
    rcases r with e | ⟨request', existing⟩
    · trivial
    cases existing with
    | some record =>
      obtain ⟨hinv, hfound⟩ := hr request' record rfl
      exact wp_startOperation hrules hfree hinv hfound fun _ _ => ih
    | none =>
      refine wp_observe_bind.mpr ?_
      refine wp_mono (wp_createRequest hfree) ?_
      intro t' s'' created _
      cases created with
      | error e =>
        exact wp_ite (fun _ => ih) fun _ => trivial
      | ok _ =>
        exact wp_readRecord_bind fun _ record hinv hfound =>
          wp_startOperation hrules hfree hinv hfound fun _ _ => ih

theorem wp_beginOperation {operation : Operation δ} :
    T.wp docs j (beginOperation docs operation).run (fun _ _ _ => True) s₀ s := by
  refine wp_ite (fun _ => trivial) fun hkey => ?_
  refine wp_check_bind.mpr ?_
  cases normalizeRequest docs ⟨docs.operationId operation.scope
      operation.kind operation.key, operation.scope, operation.kind,
      operation.requestIndex, operation.manifest, operation.now⟩ with
  | error e => trivial
  | ok request => exact wp_beginLoop hrules hfree

theorem wp_completeChildLoop {root : Record δ} {child : String} :
    T.wp docs j (completeChildLoop docs root child now rounds).run (fun _ _ _ => True) s₀ s := by
  induction rounds generalizing now s s₀ with
  | zero => trivial
  | succ rounds ih =>
    refine wp_readRecord_bind fun s' record hinv hfound => ?_
    refine wp_check_bind.mpr ?_
    cases hchild : docs.completeChild root record with
    | error e => trivial
    | ok progress =>
      cases progress with
      | none =>
        exact wp_advanceIndexLoop hfound.committed (fun _ _ _ => trivial)
          (fun _ _ _ _ _ => trivial) hinv
      | some progress =>
        exact wp_update_again hfree hfound rfl (fun normal hnormal => hrules.child hchild hnormal)
          fun _ _ => ih

theorem wp_completeRequestAttempt {root : Record δ} :
    T.wp docs j (completeRequestAttempt docs root now).run (fun _ _ _ => True) s₀ s := by
  refine wp_check_bind.mpr ?_
  cases docs.handoffChild root with
  | error e => trivial
  | ok child =>
    cases child with
    | none => trivial
    | some child =>
      refine wp_run_bind.mpr (wp_get (fun _ _ => rfl) ?_
        (fun _ _ _ => trivial) (fun _ _ _ _ => trivial))
      intro s' _ hs' _
      refine wp_readRecord_bind fun t record hinv hfound => ?_
      refine wp_ite (fun _ => trivial) fun hlinked => ?_
      exact wp_run_bind.mpr (wp_repairIndex hfound.committed
        (fun _ _ _ => wp_completeChildLoop hrules hfree)
        (fun _ _ _ => trivial) hinv)

/-- The same for a completion, which may complete a child first. -/
theorem wp_completeLoop {progress : δ} :
    T.wp docs j (completeLoop docs scope id progress now rounds).run (fun _ _ _ => True) s₀ s := by
  induction rounds generalizing now s s₀ with
  | zero => trivial
  | succ rounds ih =>
    refine wp_readRecord_bind fun s' record hinv hfound => ?_
    refine wp_ite (fun _ => ?_) fun hcompleted => ?_
    · refine wp_ite (fun _ => trivial) fun _ => ?_
      exact wp_run_bind.mpr (wp_advanceIndexLoop hfound.committed
        (fun _ _ _ => trivial) (fun _ _ _ _ _ => trivial) hinv)
    refine wp_ite (fun _ => trivial) fun hrunning => ?_
    refine wp_run_bind.mpr (wp_mono (wp_later (wp_completeRequestAttempt hrules hfree) hinv
        ((repoContract docs T).later_refl s')) ?_)
    rintro t s'' r ⟨-, -, hlater⟩
    cases r with
    | error e => trivial
    | ok _ =>
      exact wp_update_again hfree (hfound.mono hlater) rfl (fun normal hnormal => hrules.complete
          (not_not.mp hrunning) hnormal) fun _ _ => ih

theorem wp_completeOperation {progress : δ} :
    T.wp docs j (completeOperation docs scope id progress now).run (fun _ _ _ => True) s₀ s := by
  unfold completeOperation
  cases docs.normalize progress with
  | error e => trivial
  | ok progress =>
    exact wp_ite (fun _ => trivial) fun _ => wp_completeLoop hrules hfree

end LlmTemporalWorker.CloudState
