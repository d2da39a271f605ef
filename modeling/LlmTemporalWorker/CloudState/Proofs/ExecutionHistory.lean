/-
The history of one provider execution.

Any number of calls that begin and save executions are at work, from any
store whose ledgers are in order: stale views, lost acknowledgements,
writes that land late, workers that stop anywhere. Every write to a
stream is one that the calls allow (`ExecutionWritten`), so neighbours
of the stream are related, and from neighbours what a whole history
keeps follows by induction (`kept_along`).

A call that reports a fresh execution has written it under its own
token. A history has one token, so two such calls are one.
-/
import LlmTemporalWorker.CloudState.Proofs.ProviderExecution
import LlmTemporalWorker.CloudState.Proofs.Discovery

namespace LlmTemporalWorker.CloudState

open Lib Repo Budget

-- ===== the contract

/-- From the store `s₀` on, only the two calls write. -/
def ExecutionRule (S : Setting) (s₀ : RepoStore Progress) (p r : Record Progress) : Prop :=
  (s₀.ledger p.request.id).events.length ≤ p.revision → ExecutionWritten S p r

def ExecutionPost (S : Setting) (job : ExecutionJob)
    (since s' : RepoStore Progress) (report : ExecutionReport) : Prop :=
  match job, report with
  | .begin' _ id token _ _ _, .begun r => BeginPost S since s' id token r
  | .save _ id _ x, .saved r =>
    r = .ok () → ∃ plan i, StandsAt S s' id i plan x
  | _, _ => True

def executionTerms (S : Setting) (s₀ : RepoStore Progress) : RepoTerms (executionCalls S) where
  rule := ExecutionRule S s₀
  acts := fun _ _ _ => True
  post := fun job since _ s' report => ExecutionPost S job since s' report
  acts_of_events := fun _ => trivial

variable {S : Setting} {s₀ : RepoStore Progress}

theorem wp_executionProgram {s t : RepoStore Progress} (job : ExecutionJob) :
    (repoContract S.docs (executionTerms S s₀)).wp job ((executionCalls S).program job)
      (fun _ s' report => ExecutionPost S job s s' report) t s := by
  have hT : AllowsExecutions S (executionTerms S s₀) job :=
    ⟨fun _ _ h _ => h, fun _ _ _ _ _ _ _ _ => trivial⟩
  cases job with
  | begin' scope id token reservation uncached now =>
    exact Contract.wp_bind.mpr (wp_beginExecutionLoop hT fun _ => .refl _)
  | save scope id previous x => exact Contract.wp_bind.mpr (wp_saveProviderExecution hT)

-- ===== one history

/-- A write over an execution continues it. -/
theorem ExecutionWritten.kept {p r : Record Progress}
    {x : ProviderExecution} (h : ExecutionWritten S p r)
    (hx : p.progress.execution = some x) :
    ∃ y, r.progress.execution = some y ∧ y.revision = x.revision + 1 ∧ Kept x y := by
  obtain ⟨plan, y, -, -, rfl, hnone | ⟨old, hold, hvalid, hrevision, htransition⟩⟩ := h
  · rw [hx] at hnone
    cases hnone
  · rw [hx] at hold
    obtain rfl := Option.some.inj hold
    exact ⟨y, rfl, hrevision, kept_of_transition hvalid htransition⟩

section

variable {L : Ledger Progress} {id : String} {i j : Nat}
variable {e e' : Committed Progress} {x y : ProviderExecution}

/-- Neighbours of a stream, from the last record of `s₀` on. -/
theorem LedgerInv.written_next (h : LedgerInv S.docs (ExecutionRule S s₀) id L)
    (hi : (s₀.ledger id).events.length ≤ i + 1)
    (he : L.events[i]? = some e) (he' : L.events[i + 1]? = some e') :
    ExecutionWritten S e.record e'.record := by
  refine h.ruled i e e' he he' ?_
  rw [h.revision i e he, (h.good e (List.mem_of_getElem? he)).id_eq]
  exact hi

/-- An execution is continued by every later record, one revision at a
time. -/
theorem LedgerInv.kept_along (h : LedgerInv S.docs (ExecutionRule S s₀) id L)
    (hi : (s₀.ledger id).events.length ≤ i + 1) (hij : i ≤ j)
    (he : L.events[i]? = some e) (he' : L.events[j]? = some e')
    (hx : e.record.progress.execution = some x) :
    ∃ y, e'.record.progress.execution = some y ∧ y.revision = x.revision + (j - i) ∧ Kept x y := by
  induction j, hij using Nat.le_induction generalizing e' with
  | base =>
    obtain rfl := Option.some.inj (he.symm.trans he')
    exact ⟨x, hx, by omega, .refl x⟩
  | succ j hij ih =>
    obtain ⟨hlt, -⟩ := List.getElem?_eq_some_iff.mp he'
    have hmid := List.getElem?_eq_getElem (show j < L.events.length by omega)
    obtain ⟨y, hy, hrevision, hkept⟩ := ih hmid
    obtain ⟨z, hz, hnext, hkept'⟩ := (h.written_next (by omega) hmid he').kept hy
    exact ⟨z, hz, by omega, hkept.trans hkept'⟩

/-- Two executions of one stream have one token. -/
theorem LedgerInv.token_unique (h : LedgerInv S.docs (ExecutionRule S s₀) id L)
    (hi : (s₀.ledger id).events.length ≤ i + 1)
    (hj : (s₀.ledger id).events.length ≤ j + 1)
    (he : L.events[i]? = some e) (he' : L.events[j]? = some e')
    (hx : e.record.progress.execution = some x)
    (hy : e'.record.progress.execution = some y) :
    x.startToken = y.startToken := by
  rcases Nat.le_total i j with hij | hji
  · obtain ⟨z, hz, -, hkept⟩ := h.kept_along hi hij he he' hx
    obtain rfl := Option.some.inj (hy.symm.trans hz)
    exact hkept.startToken.symm
  · obtain ⟨z, hz, -, hkept⟩ := h.kept_along hj hji he' he hy
    obtain rfl := Option.some.inj (hx.symm.trans hz)
    exact hkept.startToken

end

-- ===== the runs

abbrev ExecutionMove (S : Setting) :=
  Move (executionCalls S).storage.system

/-- The store and the calls after a list of moves. -/
def executions (S : Setting) (s₀ : RepoStore Progress) (moves : List (ExecutionMove S)) :
    Pool (executionCalls S).storage.system :=
  (Pool.init (S := (executionCalls S).storage.system) s₀).run moves

/-- The committed records of one attempt. -/
def history (S : Setting) (s₀ : RepoStore Progress) (moves : List (ExecutionMove S)) (id : String) :
    List (Committed Progress) :=
  ((executions S s₀ moves).state.ledger id).events

/-- A call has reported a fresh execution of an attempt. -/
def ReportsFresh (P : Pool (executionCalls S).storage.system) (i : Nat) (id : String) : Prop :=
  ∃ (t : Thread (executionCalls S).storage.system) (scope : Scope)
    (token : String) (reservation : ReserveResult) (uncached : Bool)
    (now : Int) (saved : SavedProviderExecution),
    P.threads[i]? = some t ∧
    t.job = .begin' scope id token reservation uncached now ∧
    t.result? = some (.begun (.ok (saved, true)))

/-- Every call that would begin an execution draws a token of its own. -/
def DistinctTokens (moves : List (ExecutionMove S)) : Prop :=
  ((moves.filterMap Move.job?).filterMap ExecutionJob.token).Nodup

/-- A ledger in order keeps every rule that its stream keeps. -/
theorem LedgerInv.with_rule {δ : Type} [DecidableEq δ]
    {docs : Documents δ} {rule rule' : Record δ → Record δ → Prop}
    {id : String} {L : Ledger δ} (h : LedgerInv docs rule id L)
    (hruled : ∀ i e e', L.events[i]? = some e →
      L.events[i + 1]? = some e' → rule' e.record e'.record) :
    LedgerInv docs rule' id L :=
  ⟨h.good, h.revision, h.follows, h.first, hruled, h.build, h.binding,
    h.bound, h.same, h.visible, h.grows, h.found⟩

/-- The rule says nothing about what is there already. -/
theorem repoInv_executionRule (h₀ : RepoInv S.docs (fun _ _ => True) s₀) :
    RepoInv S.docs (ExecutionRule S s₀) s₀ := by
  intro id
  refine (h₀ id).with_rule fun i e e' he he' hlength => ?_
  obtain ⟨hlt, -⟩ := List.getElem?_eq_some_iff.mp he'
  have hrevision := (h₀ id).revision i e he
  have hid := ((h₀ id).good e (List.mem_of_getElem? he)).id_eq
  rw [hid] at hlength
  omega

section

variable {moves : List (ExecutionMove S)} {id : String}
variable (h₀ : RepoInv S.docs (fun _ _ => True) s₀)

include h₀

theorem executions_init : (repoContract S.docs (executionTerms S s₀)).Holds
      (Pool.init (S := (executionCalls S).storage.system) s₀) :=
  Contract.holds_init (repoInv_executionRule h₀)

theorem executions_admits (moves : List (ExecutionMove S)) :
    (repoContract S.docs (executionTerms S s₀)).Admits (Pool.init s₀)
      moves := by
  refine (executions_init h₀).admits fun pre m post heq hpool => ⟨?_, ?_⟩
  · cases m with
    | start job => exact wp_executionProgram job
    | event checkpoints => exact ⟨hpool.inv, fun id => .refl _⟩
    | act | detach | land => trivial
  · exact fun _ _ _ _ _ => trivial

theorem executions_holds : (repoContract S.docs (executionTerms S s₀)).Holds
      (executions S s₀ moves) :=
  (executions_init h₀).run (executions_admits h₀ moves)

theorem executions_ledger (id : String) : LedgerInv S.docs (ExecutionRule S s₀) id
      ((executions S s₀ moves).state.ledger id) :=
  (executions_holds h₀).inv id

end

-- ===== sound executions

/-- What an accepted save may carry as its settlement. -/
structure ExecutionSound (plan : BudgetPlan) (x : ProviderExecution) :
    Prop where
  /-- No settlement without a claim. -/
  claimed : ∀ settlement, x.settlement = some settlement → x.claim.isSome = true
  /-- An unknown outcome is settled late enough, and in full. -/
  unknown : ∀ settlement, x.settlement = some settlement →
    x.stage = .unknown → x.recoverAfter ≤ x.updatedAt ∧ List.Forall₂ (fun reserved event =>
        event.windowId = reserved.windowId ∧
        event.bucketStart = reserved.bucketStart ∧
        event.kind = .finalizeUnknown ∧
        event.reservedDecreaseUsd = reserved.amountUsd ∧
        event.accountedIncreaseUsd = reserved.amountUsd)
        x.reservation.events settlement.events
  /-- A paid attempt counts as settled by its settlement, or is proven
  unclaimed. -/
  settled : plan.requiresReservation = true → x.settled = true →
    x.settlement.isSome = true ∨ x.unclaimed plan = true

theorem executionSound_of_validate {H : Host} {plan : BudgetPlan}
    {x : ProviderExecution} (h : x.validate H plan = true) :
    ExecutionSound plan x := by
  refine ⟨fun settlement hset =>
      (ProviderExecution.settledBy_of_validate h hset).claimed,
    fun settlement hset hunknown => ?_,
    ProviderExecution.settled_of_validate h⟩
  have hsettled := ProviderExecution.settledBy_of_validate h hset
  refine ⟨hsettled.recovered hunknown, ?_⟩
  have hvalid := reconcile_events_ok hsettled.valid
  refine List.forall₂_iff_zip.mpr ⟨hsettled.events.length_eq, fun {reserved event} hmem => ?_⟩
  have hone := (List.forall₂_iff_zip.mp hsettled.events).2 hmem
  simp only [ProviderExecution.settles, hunknown, bne_self_eq_false,
    Bool.false_or, Bool.and_eq_true, beq_iff_eq] at hone
  obtain ⟨⟨⟨⟨hwindow, hbucket⟩, -⟩, hamount⟩, hkind⟩ := hone
  have hfull := accounted_of_finalizeUnknown (hvalid event (List.of_mem_zip hmem).2) hkind
  exact ⟨hwindow, hbucket, hkind, hamount, hfull.trans hamount⟩

section

variable {moves : List (ExecutionMove S)} {id : String}
variable (h₀ : RepoInv S.docs (fun _ _ => True) s₀)

include h₀

/-- What was written after `s₀` is a checked execution. -/
theorem sound_at {i : Nat} {e : Committed Progress}
    (hi : (s₀.ledger id).events.length ≤ i) (hpos : 0 < i)
    (he : (history S s₀ moves id)[i]? = some e) :
    ∃ plan x, e.record.progress.plan = some plan ∧
      e.record.progress.execution = some x ∧ ExecutionSound plan x := by
  obtain ⟨i, rfl⟩ := Nat.exists_eq_succ_of_ne_zero (Nat.ne_of_gt hpos)
  obtain ⟨hlt, -⟩ := List.getElem?_eq_some_iff.mp he
  have hprevious := List.getElem?_eq_getElem (show i < (history S s₀ moves id).length by omega)
  obtain ⟨plan, x, hplan, hvalid, heq, -⟩ :=
    (executions_ledger h₀ id).written_next hi hprevious he
  rw [heq]
  exact ⟨plan, x, hplan, rfl, executionSound_of_validate hvalid⟩

/-- A fresh execution stands in the history, after `s₀`, under the token
of the call that reported it. -/
theorem fresh_at {k : Nat} (hfresh : ReportsFresh (executions S s₀ moves) k id) :
    ∃ t i e x, (executions S s₀ moves).threads[k]? = some t ∧ (s₀.ledger id).events.length ≤ i ∧
      (history S s₀ moves id)[i]? = some e ∧
      e.record.progress.execution = some x ∧
      t.job.token = some x.startToken := by
  obtain ⟨t, scope, token, reservation, uncached, now, saved, ht, hjob, hr⟩ := hfresh
  obtain ⟨s, s', hpost, hlater⟩ := (executions_holds h₀).returned t (List.mem_of_getElem? ht) _ hr
  have hsince : RepoLater s₀ t.since :=
    (executions_init h₀).run_since (executions_admits h₀ moves) (Nat.zero_le k) ht
  rw [hjob] at hpost
  obtain ⟨htoken, i, hi, e, he, -, hx, -⟩ := (hpost : BeginPost ..) saved rfl
  refine ⟨t, i, e, saved.execution, ht,
    Nat.le_trans (hsince.length_le id) hi, (hlater id).event he, hx, ?_⟩
  rw [hjob, htoken]
  rfl

end

/-- Calls with the same token are one call. -/
theorem same_call {moves : List (ExecutionMove S)} (htokens : DistinctTokens moves) {i j : Nat}
    {t u : Thread (executionCalls S).storage.system} {token : String}
    (ht : (executions S s₀ moves).threads[i]? = some t)
    (hu : (executions S s₀ moves).threads[j]? = some u)
    (htoken : t.job.token = some token)
    (hutoken : u.job.token = some token) : i = j := by
  have hjobs : (executions S s₀ moves).threads.map (·.job) =
      moves.filterMap Move.job? := Pool.run_jobs
  have hpairs : (executions S s₀ moves).threads.Pairwise fun a b =>
      ∀ c, a.job.token = some c → ∀ d, b.job.token = some d → c ≠ d := by
    have hnodup := htokens
    unfold DistinctTokens at hnodup
    rw [← hjobs] at hnodup
    exact List.pairwise_map.mp (List.pairwise_filterMap.mp hnodup)
  have hall := List.pairwise_iff_getElem.mp hpairs
  obtain ⟨hi, rfl⟩ := List.getElem?_eq_some_iff.mp ht
  obtain ⟨hj, rfl⟩ := List.getElem?_eq_some_iff.mp hu
  rcases Nat.lt_trichotomy i j with hlt | heq | hgt
  · exact absurd rfl (hall i j hi hj hlt _ htoken _ hutoken)
  · exact heq
  · exact absurd rfl (hall j i hj hi hgt _ hutoken _ htoken)

/-- The history of an attempt's execution. From any store in order, after
every run of calls that begin and save executions: at most one of them
reports a fresh execution of an attempt, and a save that reports success
stands in the attempt's stream. Along the stream the revision of the
execution grows by one at a time; what an execution has settled on stays
(`Kept`: token and reservation, claim, provider operation, completion
time and settlement once they are set, and a result but for the
acknowledgement of its settlement). Every record written has a sound
execution: no settlement without a claim, and that of an unknown outcome
is in full and not before its recovery time. -/
theorem execution_history (S : Setting) (s₀ : RepoStore Progress) (moves : List (ExecutionMove S))
    (h₀ : RepoInv S.docs (fun _ _ => True) s₀)
    (htokens : DistinctTokens moves) :
    (∀ id i j, ReportsFresh (executions S s₀ moves) i id →
      ReportsFresh (executions S s₀ moves) j id → i = j) ∧
    (∀ t ∈ (executions S s₀ moves).threads, ∀ scope id previous x,
      t.job = .save scope id previous x →
      t.result? = some (.saved (.ok ())) →
      ∃ e ∈ history S s₀ moves id, e.record.progress.execution = some x) ∧
    (∀ id i j e e' x, (s₀.ledger id).events.length ≤ i + 1 → i ≤ j →
      (history S s₀ moves id)[i]? = some e →
      (history S s₀ moves id)[j]? = some e' →
      e.record.progress.execution = some x →
      ∃ y, e'.record.progress.execution = some y ∧ y.revision = x.revision + (j - i) ∧ Kept x y) ∧
    ∀ id i e, (s₀.ledger id).events.length ≤ i → 0 < i → (history S s₀ moves id)[i]? = some e →
      ∃ plan x, e.record.progress.plan = some plan ∧
        e.record.progress.execution = some x ∧ ExecutionSound plan x := by
  refine ⟨?_, ?_, fun id i j e e' x => (executions_ledger h₀ id).kept_along,
    fun id i e => sound_at h₀⟩
  · intro id i j hi hj
    obtain ⟨t, k, e, x, ht, hk, he, hx, htoken⟩ := fresh_at h₀ hi
    obtain ⟨u, k', e', y, hu, hk', he', hy, hutoken⟩ := fresh_at h₀ hj
    rw [← (executions_ledger h₀ id).token_unique (by omega) (by omega) he he'
      hx hy] at hutoken
    exact same_call htokens ht hu htoken hutoken
  · intro t ht scope id previous x hjob hr
    obtain ⟨s, s', hpost, hlater⟩ := (executions_holds h₀).returned t ht _ hr
    rw [hjob] at hpost
    obtain ⟨plan, i, e, he, -, hx, -⟩ := (hpost : _ → _) rfl
    exact ⟨e, (hlater id).events.subset (List.mem_of_getElem? he), hx⟩

-- ===== one run

/-- The first instant of the year 1970. -/
def epoch : Int := -Budget.zeroTime

def oneHost : Host where
  sha256 := fun _ => ⟨"0000000000000000000000000000000000000000" ++
    "000000000000000000000000", by decide⟩
  marshalRequest := fun _ => ""
  marshalEvent := fun _ => ""
  rfc3339Nano := fun t => toString t

def attemptSetting : Setting where
  host := oneHost
  docs := {
    normalize := .ok
    normalize_idem := fun _ => rfl
    empty := .empty
    empty_normal := rfl
    started := { Progress.empty with versioned := true }
    fits := fun _ => true
    operationId := fun _ _ _ => oneId
    handoffChild := fun _ => .ok none
    linked := fun _ _ => false
    completeChild := fun _ _ => .ok none }
  eventStore := listStore
  normal := fun h => (Except.ok.inj h).symm
  payloadFits := fun _ => true
  digest := fun x => toString x.revision

/-- Half a dollar. -/
def oneCost : Pricing.Usd := ⟨500000000000000000, by decide⟩

/-- A plan that reserves the cost in one window. -/
def onePlan : BudgetPlan where
  mode := .reserved
  kind := "generate"
  operationId := oneId
  generationId := "generation"
  candidateId := "candidate"
  costUsd := oneCost
  microUsd := 500000
  reservation := ⟨oneId, "generation", [⟨"policy", "day", 0, 500000, 1000000,
    oneCost, oneCost, 3600000000000, 86400000000000⟩], 900000000000⟩
  quotedAt := epoch + 10
  sound := true

def oneReservation : ReserveResult :=
  ⟨oneId, true, "generation", "incarnation",
    [⟨"event", "generation", oneId, "day", 0, 1, oneCost, 10⟩], ∅⟩

def tokenA : String := "00000000-0000-4000-8000-00000000000a"

def tokenB : String := "00000000-0000-4000-8000-00000000000b"

def begunExecution : ProviderExecution :=
  newExecution tokenA oneReservation false (epoch + 20)

def submittedExecution : ProviderExecution :=
  { begunExecution with
    revision := 2
    stage := .submitting
    claim := some ⟨"incarnation", oneId, "generation"⟩ }

def unknownExecution : ProviderExecution :=
  { submittedExecution with
    revision := 3
    stage := .unknown
    failure := some ⟨.ambiguousDispatch, .ambiguous, false, 0, false, 0⟩ }

/-- The unknown outcome, settled in full at its recovery time. -/
def settledExecution : ProviderExecution :=
  { unknownExecution with
    revision := 4
    updatedAt := unknownExecution.recoverAfter
    settlement := some ⟨oneId, "generation", "incarnation",
      [⟨"settled", "generation", oneId, "day", 0, 2, .finalizeUnknown,
        oneCost, oneCost, .zero, none, .unknown, "outcome_unknown", 20⟩]⟩ }

/-- An attempt that is running and has its plan. -/
def plannedRun : List (RepoMove attemptSetting.docs listStore) :=
  [.start (.create ⟨oneId, oneScope, "generate", 0, .empty, epoch⟩)] ++
    List.replicate 4 (.act 0 .done) ++
    [.start (.update oneScope oneId ⟨1, "plan", .running,
      { Progress.empty with versioned := true, plan := some onePlan },
      epoch + 10⟩)] ++
    List.replicate 4 (.act 1 .done)

def plannedStore : RepoStore Progress :=
  (requests attemptSetting.docs listStore plannedRun).state

/-- Two workers begin; the second reads before the first writes. The
first one's save is committed but not acknowledged, and repeated. The
outcome stays unknown and is settled at its recovery time. -/
def settledRun : List (ExecutionMove attemptSetting) :=
  [.start (.begin' oneScope oneId tokenA oneReservation false (epoch + 20)),
    .start (.begin' oneScope oneId tokenB oneReservation false (epoch + 15)),
    .act 1 .done] ++
    List.replicate 5 (.act 0 .done) ++ List.replicate 6 (.act 1 .done) ++
    [.start (.save oneScope oneId 1 submittedExecution), .act 2 .done, .act 2 .done, .act 2 .lost,
      .start (.save oneScope oneId 1 submittedExecution)] ++
    List.replicate 3 (.act 3 .done) ++
    [.start (.save oneScope oneId 2 unknownExecution)] ++
    List.replicate 5 (.act 4 .done) ++
    [.start (.save oneScope oneId 3 settledExecution)] ++
    List.replicate 5 (.act 5 .done)

/-- What the run leaves: the first call's report and the history. -/
theorem observed_settledRun : ((executions attemptSetting plannedStore settledRun).threads[0]?.map
        (fun t => (t.job, t.result?)),
      (history attemptSetting plannedStore settledRun oneId).map (·.record.progress.execution)) =
    (some (.begin' oneScope oneId tokenA oneReservation false (epoch + 20),
        some (.begun (.ok (⟨onePlan, begunExecution⟩, true)))),
      [none, none, some begunExecution, some submittedExecution,
        some unknownExecution, some settledExecution]) := by
  decide +kernel

theorem reportsFresh_settledRun : ReportsFresh
    (executions attemptSetting plannedStore settledRun) 0 oneId := by
  obtain ⟨t, ht, heq⟩ := Option.map_eq_some_iff.mp (Prod.mk.inj observed_settledRun).1
  obtain ⟨hjob, hr⟩ := Prod.mk.inj heq
  exact ⟨t, _, _, _, _, _, _, ht, hjob, hr⟩

theorem distinctTokens_settledRun : DistinctTokens settledRun := by
  unfold DistinctTokens
  decide +kernel

theorem execution_history_settledRun :
    (history attemptSetting plannedStore settledRun oneId).length = 6 ∧
      (∀ j, ReportsFresh (executions attemptSetting plannedStore settledRun) j oneId → 0 = j) ∧
      ∃ e plan x, (history attemptSetting plannedStore settledRun oneId)[5]? = some e ∧
        e.record.progress.execution = some x ∧
        x.settlement.isSome = true ∧ ExecutionSound plan x := by
  have hrun := execution_history attemptSetting plannedStore settledRun
    requests_holds.inv distinctTokens_settledRun
  have hall := (Prod.mk.inj observed_settledRun).2
  have hlength : (history attemptSetting plannedStore settledRun oneId).length = 6 := by
    simpa using congrArg List.length hall
  have hlast := congrArg (·[5]?) hall
  rw [List.getElem?_map] at hlast
  obtain ⟨e, he, hx⟩ := Option.map_eq_some_iff.mp hlast
  refine ⟨hlength, fun j => hrun.1 oneId 0 j reportsFresh_settledRun, ?_⟩
  obtain ⟨plan, x, -, hx', hsound⟩ := hrun.2.2.2 oneId 5 e (by decide +kernel) (by decide) he
  obtain rfl := Option.some.inj (hx.symm.trans hx')
  exact ⟨e, plan, settledExecution, he, hx, rfl, hsound⟩

end LlmTemporalWorker.CloudState
