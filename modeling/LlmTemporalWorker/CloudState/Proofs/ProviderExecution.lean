/-
The calls on provider executions, one by one.

An accepted write is always one of two things: the first execution of an
attempt that has none, or a valid transition from the execution it
replaces (`ExecutionWritten`). Whatever else works on the store, a rule
that allows these lets both calls run.

`Kept` is what a valid transition leaves as it was. It composes, so it
holds between any two executions of one history.
-/
import LlmTemporalWorker.CloudState.ProviderExecution
import LlmTemporalWorker.CloudState.Proofs.Repository

namespace LlmTemporalWorker.CloudState

open Lib Contract Repo Budget

-- ===== settlements

variable {H : Host} {plan : BudgetPlan} {S : Setting}

theorem validateEvents_ok {request : ReconcileRequest}
    {events : List CompletionEvent} {ids windows : List String}
    (h : validateEvents H request events ids windows = .ok ()) :
    ∀ e ∈ events, e.validate = .ok () := by
  induction events generalizing ids windows with
  | nil => exact fun _ he => nomatch he
  | cons e rest ih =>
    obtain ⟨-, h⟩ := refusal_ok h
    cases hvalid : e.validate with
    | error err =>
      rw [hvalid] at h
      cases h
    | ok _ =>
      rw [hvalid] at h
      obtain ⟨-, hrest⟩ := refusal_ok h
      exact List.forall_mem_cons.mpr ⟨hvalid, ih hrest⟩

/-- The events of a valid settlement are valid. -/
theorem reconcile_events_ok {request : ReconcileRequest} (h : request.validate H = .ok ()) :
    ∀ e ∈ request.events, e.validate = .ok () := by
  obtain ⟨-, -, h⟩ := bind_ok h
  exact validateEvents_ok (refusal_ok h).2

/-- An unknown cost is charged as it was reserved. -/
theorem accounted_of_finalizeUnknown {e : CompletionEvent}
    (h : e.validate = .ok ()) (hkind : e.kind = .finalizeUnknown) :
    e.accountedIncreaseUsd = e.reservedDecreaseUsd := by
  obtain ⟨-, -, h⟩ := bind_ok h
  obtain ⟨-, -, h⟩ := bind_ok h
  obtain ⟨-, -, h⟩ := bind_ok h
  obtain ⟨-, -, h⟩ := bind_ok h
  obtain ⟨-, h⟩ := refusal_ok h
  obtain ⟨-, h⟩ := refusal_ok h
  obtain ⟨-, h⟩ := refusal_ok h
  obtain ⟨-, h⟩ := refusal_ok h
  simp only [validateKindDeltas, hkind] at h
  split at h
  · cases h
  split at h
  · cases h
  rename_i hdeltas
  simp only [not_or, ne_eq, not_not] at hdeltas
  exact (Pricing.Usd.mk.injEq ..).mpr hdeltas.2.1

-- ===== one execution

namespace ProviderExecution

variable {H : Host} {x : ProviderExecution} {plan : BudgetPlan}

/-- A settlement that an execution may carry. -/
structure SettledBy (H : Host) (x : ProviderExecution)
    (settlement : ReconcileRequest) : Prop where
  claimed : x.claim.isSome = true
  stage : x.stage.terminal = true ∨ x.stage = .unknown
  recovered : x.stage = .unknown → x.recoverAfter ≤ x.updatedAt
  valid : settlement.validate H = .ok ()
  events : List.Forall₂ (fun reserved event => x.settles reserved event = true)
    x.reservation.events settlement.events

theorem forall₂_of_zip_all {α β : Type} {p : α → β → Bool} {as : List α}
    {bs : List β} (hlength : bs.length = as.length)
    (hall : (as.zip bs).all (fun pair => p pair.1 pair.2) = true) :
    List.Forall₂ (fun a b => p a b = true) as bs := by
  refine List.forall₂_iff_zip.mpr ⟨hlength.symm, fun hmem => ?_⟩
  exact List.all_eq_true.mp hall _ hmem

theorem settledBy_of_validate (h : x.validate H plan = true)
    {settlement : ReconcileRequest}
    (hsettlement : x.settlement = some settlement) :
    SettledBy H x settlement := by
  simp only [validate, Bool.and_eq_true] at h
  have hvalid := h.2
  simp only [validSettlement, hsettlement, Option.all_some, Bool.and_eq_true, beq_iff_eq] at hvalid
  obtain ⟨⟨⟨⟨⟨⟨⟨⟨hclaim, hstage⟩, htime⟩, hok⟩, -⟩, -⟩, -⟩, hlength⟩, hevents⟩ := hvalid
  refine ⟨hclaim, ?_, ?_, ?_, forall₂_of_zip_all hlength hevents⟩
  · simpa using hstage
  · intro hunknown
    simpa [hunknown] using htime
  · cases hresult : settlement.validate H with
    | error e => simp [hresult, Except.toOption] at hok
    | ok u => rfl

/-- The flag of a paid attempt needs a settlement, unless the attempt is
proven unclaimed. -/
theorem settled_of_validate (h : x.validate H plan = true)
    (hpaid : plan.requiresReservation = true) (hsettled : x.settled = true) :
    x.settlement.isSome = true ∨ x.unclaimed plan = true := by
  simp only [validate, Bool.and_eq_true] at h
  have houtcome := h.1.2
  simp only [validOutcome, Bool.and_eq_true] at houtcome
  have hflag := houtcome.1.1.2
  cases hsettlement : x.settlement with
  | some settlement => exact .inl rfl
  | none =>
    refine .inr ?_
    simpa [hsettled, hpaid, hsettlement] using hflag

end ProviderExecution

-- ===== one save to another

/-- What stays from one execution of an attempt to a later one. A
terminal result stays but for its bookkeeping, and once it is settled
it stays settled. -/
structure Kept (x y : ProviderExecution) : Prop where
  startToken : y.startToken = x.startToken
  reservation : y.reservation = x.reservation
  uncached : y.uncached = x.uncached
  recoverAfter : y.recoverAfter = x.recoverAfter
  claim : ∀ claim, x.claim = some claim → y.claim = some claim
  operation : x.providerOperationId ≠ "" → y.providerOperationId = x.providerOperationId
  completedAt : x.completedAt ≠ 0 → y.completedAt = x.completedAt
  settlement : ∀ settlement, x.settlement = some settlement → y.settlement = some settlement
  result : x.stage.terminal = true → y = { x with
    revision := y.revision
    updatedAt := y.updatedAt
    settled := y.settled }
  settled : x.stage.terminal = true → x.settled = true → y.settled = true

namespace Kept

variable {x y z : ProviderExecution}

theorem refl (x : ProviderExecution) : Kept x x :=
  ⟨rfl, rfl, rfl, rfl, fun _ h => h, fun _ => rfl, fun _ => rfl,
    fun _ h => h, fun _ => rfl, fun _ h => h⟩

theorem stage (h : Kept x y) (hstage : x.stage.terminal = true) : y.stage.terminal = true := by
  rw [h.result hstage]
  exact hstage

theorem trans (h : Kept x y) (h' : Kept y z) : Kept x z where
  startToken := h'.startToken.trans h.startToken
  reservation := h'.reservation.trans h.reservation
  uncached := h'.uncached.trans h.uncached
  recoverAfter := h'.recoverAfter.trans h.recoverAfter
  claim := fun claim hclaim => h'.claim claim (h.claim claim hclaim)
  operation := fun hset => by
    have hy := h.operation hset
    exact (h'.operation (hy ▸ hset)).trans hy
  completedAt := fun hset => by
    have hy := h.completedAt hset
    exact (h'.completedAt (hy ▸ hset)).trans hy
  settlement := fun settlement hset =>
    h'.settlement settlement (h.settlement settlement hset)
  result := fun hstage => by
    have hz := h'.result (h.stage hstage)
    rw [h.result hstage] at hz
    exact hz
  settled := fun hstage hset =>
    h'.settled (h.stage hstage) (h.settled hstage hset)

end Kept

/-- A valid transition keeps what an execution has settled on. -/
theorem kept_of_transition {old next : ProviderExecution} (hold : old.validate H plan = true)
    (h : validExecutionTransition old next = true) : Kept old next := by
  unfold validExecutionTransition at h
  split at h
  · cases h
  rename_i hbindings
  simp only [Bool.or_eq_true, not_or, bne_iff_ne, ne_eq, not_not,
    decide_eq_true_eq, Int.not_lt, Bool.and_eq_true, not_and] at hbindings
  obtain ⟨⟨⟨⟨⟨⟨⟨⟨htoken, huncached⟩, -⟩, hrecover⟩, -⟩, hreservation⟩,
    hclaim⟩, hoperation⟩, hcompleted⟩ := hbindings
  have hkeep : ∀ {claim}, old.claim = some claim → next.claim = some claim := by
    intro claim hset
    rw [← hclaim (by simp [hset]), hset]
  by_cases hterminal : old.stage.terminal = true
  · -- a result: only its acknowledgement
    rw [if_pos hterminal] at h
    simp only [Bool.and_eq_true, Bool.not_eq_true', beq_iff_eq] at h
    obtain ⟨⟨hopen, -⟩, heq⟩ := h
    have hresult : next = { old with
        revision := next.revision
        updatedAt := next.updatedAt
        settled := next.settled } := by
      rw [heq]
    refine ⟨htoken.symm, hreservation.symm, huncached.symm, hrecover.symm,
      fun _ => hkeep, fun hset => (hoperation hset).symm,
      fun hset => (hcompleted hset).symm, ?_, fun _ => hresult, ?_⟩
    · intro settlement hset
      rw [hresult]
      exact hset
    · intro _ hset
      rw [hopen] at hset
      cases hset
  rw [if_neg hterminal] at h
  refine ⟨htoken.symm, hreservation.symm, huncached.symm, hrecover.symm,
    fun _ => hkeep, fun hset => (hoperation hset).symm,
    fun hset => (hcompleted hset).symm, ?_,
    fun hstage => absurd hstage hterminal,
    fun hstage => absurd hstage hterminal⟩
  intro settlement hset
  -- a settlement of what is not terminal is one of an unknown outcome
  have hunknown : old.stage = .unknown :=
    (ProviderExecution.settledBy_of_validate hold hset).stage.resolve_left hterminal
  rw [if_pos (by simp [hunknown, hset])] at h
  simp only [Bool.and_eq_true, beq_iff_eq] at h
  rw [← h.1.2, hset]

-- ===== one write

/-- A record that one of the calls wrote over another: with a first
execution, or with one that a valid transition leads to. -/
def ExecutionWritten (S : Setting) (p r : Record Progress) : Prop :=
  ∃ plan x, p.progress.plan = some plan ∧ x.validate S.host plan = true ∧
    r = Update.next (executionUpdate S p x)
      { p.progress with execution := some x } p ∧
    (p.progress.execution = none ∨
      ∃ old, p.progress.execution = some old ∧ old.validate S.host plan = true ∧
        x.revision = old.revision + 1 ∧
        validExecutionTransition old x = true)

theorem executionProgress_ok {record : Record Progress}
    {existing : Option ProviderExecution}
    (h : executionProgress S record = .ok (plan, existing)) :
    record.progress.plan = some plan ∧ record.progress.execution = existing ∧
      ∀ x, existing = some x → x.validate S.host plan = true := by
  obtain ⟨found, hfound, h⟩ := bind_ok h
  cases found with
  | none => cases h
  | some plan' =>
    have hplan : record.progress.plan = some plan' := by
      unfold budgetPlanProgress at hfound
      split at hfound
      · cases hfound
      cases hp : record.progress.plan with
      | none =>
        rw [hp] at hfound
        cases hfound
      | some q =>
        rw [hp] at hfound
        dsimp only at hfound
        split at hfound
        · exact Except.ok.inj hfound
        · cases hfound
    dsimp only at h
    split at h
    · cases h
    cases hx : record.progress.execution with
    | none =>
      rw [hx] at h
      obtain ⟨rfl, rfl⟩ := h
      exact ⟨hplan, rfl, fun x hx => by cases hx⟩
    | some x =>
      rw [hx] at h
      dsimp only at h
      by_cases hvalid : x.validate S.host plan' = true
      · simp only [if_pos hvalid, pure, Except.pure, Except.ok.injEq, Prod.mk.injEq] at h
        obtain ⟨rfl, rfl⟩ := h
        refine ⟨hplan, rfl, fun y hy => ?_⟩
        obtain rfl := Option.some.inj hy
        exact hvalid
      · rw [if_neg hvalid] at h
        cases h

-- ===== the calls

/-- A checked execution stands at a place of a stream, with its plan. -/
def StandsAt (S : Setting) (s : RepoStore Progress) (id : String)
    (i : Nat) (plan : BudgetPlan) (x : ProviderExecution) : Prop :=
  ∃ e, (s.ledger id).events[i]? = some e ∧ e.record.progress.plan = some plan ∧
    e.record.progress.execution = some x ∧ x.validate S.host plan = true

/-- What a call that begins an execution returns as fresh it wrote
itself, under its own token, at a place that was still to come. -/
def BeginPost (S : Setting) (since s : RepoStore Progress) (id token : String)
    (r : Except CloudError (SavedProviderExecution × Bool)) : Prop :=
  ∀ saved, r = .ok (saved, true) → saved.execution.startToken = token ∧
    ∃ i, (since.ledger id).events.length ≤ i ∧ StandsAt S s id i saved.plan saved.execution

theorem StandsAt.mono {s s' : RepoStore Progress} {id : String} {i : Nat}
    {x : ProviderExecution} (h : StandsAt S s id i plan x)
    (hs : RepoLater s s') :
    StandsAt S s' id i plan x := by
  obtain ⟨e, he, hrest⟩ := h
  exact ⟨e, (hs id).event he, hrest⟩

theorem RepoLater.length_le {δ : Type} {s t : RepoStore δ} (h : RepoLater s t) (id : String) :
    (s.ledger id).events.length ≤ (t.ledger id).events.length :=
  (h id).events.length_le

theorem BeginPost.error {since s : RepoStore Progress} {id token : String}
    {e : CloudError} :
    BeginPost S since s id token (.error e) := fun _ h => nomatch h

/-- The terms of a store allow executions to be written. -/
structure AllowsExecutions (S : Setting) {R : RepoCalls Progress}
    (T : RepoTerms R) (j : R.Job) : Prop where
  rule : ∀ p r, ExecutionWritten S p r → T.rule p r
  acts : ∀ t id e r token, RepoInv S.docs T.rule t → (t.ledger id).events.getLast? = some e →
    ExecutionWritten S e.record r → T.acts j t (t.pushEvent id ⟨token, r⟩)

section

variable {S : Setting} {R : RepoCalls Progress} {T : RepoTerms R}
variable {j : R.Job} {s s' s₀ : RepoStore Progress} {scope : Scope}
variable {id : String} {record : Record Progress} {x : ProviderExecution}

theorem wp_writeExecution {plan : BudgetPlan}
    {Q : RepoStore Progress → RepoStore Progress → Except CloudError Unit →
      Prop} (hT : AllowsExecutions S T j)
    (hinv : RepoInv S.docs T.rule s)
    (hfound : Found s scope id record)
    (hplan : record.progress.plan = some plan)
    (hvalid : x.validate S.host plan = true)
    (hwritten : ExecutionWritten S record (Update.next (executionUpdate S record x)
        { record.progress with execution := some x } record))
    (hok : ∀ t s', RepoLater s s' → StandsAt S s' id record.revision plan x → Q t s' (.ok ()))
    (herror : ∀ t s' e, RepoInv S.docs T.rule s' → RepoLater s s' → Q t s' (.error e)) :
    (repoContract S.docs T).wp j (writeExecution S record x).run Q s₀ s := by
  refine wp_ite (fun _ => herror _ _ _ hinv fun _ => .refl _) fun hfits => ?_
  obtain rfl := hfound.id_eq
  obtain rfl := hfound.scope_eq
  refine wp_run_bind.mpr (wp_updateFound hinv hfound rfl ?_ ?_ ?_ herror)
  · intro progress hprogress
    rw [S.normal hprogress]
    exact hT.rule _ _ hwritten
  · intro t e progress hinv' _ hlast hsame hprogress
    rw [S.normal hprogress]
    exact hT.acts t _ e _ _ hinv' hlast (hsame ▸ hwritten)
  · intro t s' progress _ hlater hprogress hcommitted
    rw [S.normal hprogress] at hcommitted
    exact hok _ _ hlater ⟨_, hcommitted, hplan, rfl, hvalid⟩

theorem wp_beginExecutionLoop {since : RepoStore Progress} {token : String}
    {reservation : ReserveResult} {uncached : Bool} {now : Int}
    {rounds : Nat} (hT : AllowsExecutions S T j)
    (hsince : RepoLater since s) :
    (repoContract S.docs T).wp j (beginExecutionLoop S scope id token
        reservation uncached now rounds).run
      (fun _ s' r => BeginPost S since s' id token r) s₀ s := by
  induction rounds generalizing now s s₀ with
  | zero => exact .error
  | succ rounds ih =>
    refine wp_run_bind.mpr (wp_readRecord ?_ fun _ _ _ _ => .error)
    intro s' e hs' he hscope
    have hlater : RepoLater since s' := (repoContract S.docs T).later_trans hsince hs'.later
    have hfound := found_last hs'.inv he hscope
    refine wp_check_bind.mpr ?_
    cases hprogress : executionProgress S e.record with
    | error err => exact .error
    | ok found =>
      obtain ⟨plan, existing⟩ := found
      obtain ⟨hplan, hexecution, hexisting⟩ := executionProgress_ok hprogress
      cases existing with
      | some x =>
        refine wp_run_bind.mpr (wp_repairIndex
          hfound.committed ?_ (fun _ _ _ => .error) hs'.inv)
        exact fun _ t ht saved h => by cases h
      | none =>
        dsimp only
        refine wp_ite (fun _ => .error) fun _ => ?_
        generalize hnow : max now e.record.updatedAt = now'
        generalize hx : newExecution token reservation uncached now' = x
        refine wp_ite (fun _ => .error) fun hinvalid => ?_
        have hvalid : x.validate S.host plan = true := by
          simpa using hinvalid
        have hwritten : ExecutionWritten S e.record (Update.next (executionUpdate S e.record x)
              { e.record.progress with execution := some x }
              e.record) :=
          ⟨plan, x, hplan, hvalid, rfl, .inl hexecution⟩
        have hlength : (since.ledger id).events.length ≤ e.record.revision := by
          rw [(hs'.inv id).last_revision he]
          exact hlater.length_le id
        refine wp_run_bind.mpr (wp_run_observe.mpr
          (wp_writeExecution hT hs'.inv hfound hplan hvalid hwritten ?_ ?_))
        · intro _ t ht hstands saved h
          obtain ⟨rfl, -⟩ := Prod.mk.inj (Except.ok.inj h)
          exact ⟨by rw [← hx]; rfl, _, hlength, hstands⟩
        · intro _ t err hinv ht
          refine wp_ite (fun _ => ?_) fun _ => .error
          exact ih ((repoContract S.docs T).later_trans hlater ht)

/-- A save that is reported as done stands in the stream. -/
theorem wp_saveProviderExecution {previous : Nat} (hT : AllowsExecutions S T j) :
    (repoContract S.docs T).wp j (saveProviderExecution S scope id previous x).run
      (fun _ s' r => r = .ok () → ∃ plan i, StandsAt S s' id i plan x)
      s₀ s := by
  refine wp_run_bind.mpr (wp_readRecord ?_ fun _ _ _ _ h => nomatch h)
  intro s' e hs' he hscope
  have hfound := found_last hs'.inv he hscope
  refine wp_check_bind.mpr ?_
  cases hprogress : executionProgress S e.record with
  | error err => exact nofun
  | ok found =>
    obtain ⟨plan, existing⟩ := found
    obtain ⟨hplan, hexecution, hexisting⟩ := executionProgress_ok hprogress
    cases existing with
    | none => exact nofun
    | some old =>
      refine wp_ite (fun _ => fun h => nomatch h) fun hinvalid => ?_
      simp only [not_or, not_not, Bool.not_eq_true', Bool.not_eq_false] at hinvalid
      refine wp_ite (fun hsame => ?_) fun hsame => ?_
      · subst hsame
        refine wp_repairIndex hfound.committed ?_ (fun _ _ _ h => nomatch h) hs'.inv
        intro _ t ht _
        rw [List.getLast?_eq_getElem?] at he
        have hstands : StandsAt S s' id _ plan old := ⟨e, he, hplan, hexecution, hinvalid.1⟩
        exact ⟨plan, _, hstands.mono ht.later⟩
      refine wp_ite (fun _ => fun h => nomatch h) fun hrefused => ?_
      simp only [not_or, not_not, Bool.not_eq_true, Bool.not_eq_true',
        Bool.not_eq_false] at hrefused
      obtain ⟨hprevious, -, htransition⟩ := hrefused
      refine wp_writeExecution hT hs'.inv hfound hplan hinvalid.1
        ⟨plan, x, hplan, hinvalid.1, rfl, .inr ⟨old, hexecution, hexisting old rfl,
            hprevious ▸ hinvalid.2, htransition⟩⟩ ?_
        (fun _ _ _ _ _ h => nomatch h)
      exact fun _ t ht hstands _ => ⟨plan, _, hstands⟩

end

end LlmTemporalWorker.CloudState
