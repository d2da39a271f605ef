/-
The calls of the durable request store, one by one.

Each is proved from whatever state it finds: every write it makes keeps
every ledger in order, whenever it lands, and an update leaves the
streams alone once the revision it asks for is committed.
-/
import LlmTemporalWorker.CloudState.Proofs.Ledger

namespace LlmTemporalWorker.CloudState

open Lib Contract Repo

variable {δ : Type}

-- ===== the contract

/-- The record that an update commits, and the check of its arguments
and of what it extends. -/
structure Updated (docs : Documents δ) (scope : Scope) (id : String)
    (u : Update δ) (s : RepoStore δ) (record : Record δ) : Prop where
  args : ¬(!scope.valid ∨ !validRequestId id ∨ u.expectedRevision = 0 ∨
    maxRevisions ≤ u.expectedRevision ∨ !safeText u.token 128 ∨
    !validTime u.updatedAt)
  extends' : ∃ progress previous, docs.normalize u.progress = .ok progress ∧
    (s.ledger id).events[u.expectedRevision - 1]? = some previous ∧
    previous.record.request.scope = scope ∧
    validTransition previous.record.status u.status = true ∧
    previous.record.updatedAt ≤ u.updatedAt ∧
    docs.fits (Update.next u progress previous.record) = true ∧
    record = Update.next u progress previous.record
  committed : (s.ledger id).events[u.expectedRevision]? = some ⟨u.token, record⟩

/-- An answer that leaves the outcome to a retry: the storage failed, or
the record is committed and its index is not up to date. -/
def Unfinished (r : Except CloudError (Record δ)) : Prop :=
  ∃ e, r = .error e ∧ (e.isStorage = true ∨ ∃ cause, e = .indexPending cause)

def RepoInv [DecidableEq δ] (docs : Documents δ)
    (rule : Record δ → Record δ → Prop) (s : RepoStore δ) : Prop :=
  ∀ id, LedgerInv docs rule id (s.ledger id)

def RepoLater (s s' : RepoStore δ) : Prop :=
  ∀ id, LedgerLater (s.ledger id) (s'.ledger id)

/-- What an update returns: the record it committed, or that one again
if it was committed before. -/
structure UpdatePost (docs : Documents δ) (scope : Scope) (id : String)
    (u : Update δ) (since s' : RepoStore δ)
    (r : Except CloudError (Record δ)) : Prop where
  committed : ∀ record, r = .ok record → Updated docs scope id u s' record
  again : ∀ record, Updated docs scope id u since record → r = .ok record ∨ Unfinished r

namespace RepoStore

variable {s : RepoStore δ} {id id' : String} {L : Ledger δ}

@[simp] theorem ledger_put_self : (s.put id L).ledger id = L := Function.update_self ..

theorem ledger_put_ne (h : id' ≠ id) : (s.put id L).ledger id' = s.ledger id' :=
  Function.update_of_ne h ..

theorem put_ledger (s : RepoStore δ) (id : String) : s.put id (s.ledger id) = s := by
  rw [put, Function.update_eq_self]

/-- An append that is there already. -/
theorem append_there {E : EventStore (Committed δ)} {fate : Fate} {expected : Nat}
    {event : Committed δ} (h : (s.ledger id).events[expected]? = some event) :
    s.append id E fate expected event = writeRow fate true .conflict () s s := by
  rw [append, E.repeats fate h]
  cases fate <;> exact congrArg (Prod.mk _) (s.put_ledger id)

end RepoStore

variable [DecidableEq δ]

/-- What the calls at work on the store promise beyond its order: a rule
for successive records, what the operations of a call may do, and what a
call returns. -/
structure RepoTerms (R : RepoCalls δ) where
  rule : Record δ → Record δ → Prop
  acts : R.Job → RepoStore δ → RepoStore δ → Prop
  post : R.Job → RepoStore δ → RepoStore δ → RepoStore δ → R.Result → Prop
  /-- Rows may change at any time. -/
  acts_of_events : ∀ {job s s'},
    (∀ id, (s'.ledger id).events = (s.ledger id).events) → acts job s s'

/-- What the calls owe each other: ledgers in order that only grow. -/
def repoContract (docs : Documents δ) {R : RepoCalls δ} (T : RepoTerms R) :
    Contract R.storage.system where
  inv := RepoInv docs T.rule
  later := RepoLater
  acts := T.acts
  keeps := fun _ _ _ => True
  post := T.post
  later_refl := fun s id => .refl (s.ledger id)
  later_trans := fun h h' id => (h id).trans (h' id)
  acts_refl := fun _ _ => T.acts_of_events fun _ => rfl
  keeps_refl := fun _ _ => trivial
  keeps_trans := fun _ _ => trivial

namespace RepoTerms

variable {R : RepoCalls δ} (T : RepoTerms R) (docs : Documents δ)

abbrev Rely := (repoContract docs T).Rely

abbrev Moves := (repoContract docs T).Moves

abbrev wp {α : Type} := (repoContract docs T).wp (α := α)

end RepoTerms

variable {docs : Documents δ} {R : RepoCalls δ} {T : RepoTerms R}
variable {j : R.Job} {s s' s₀ : RepoStore δ} {id : String}

omit [DecidableEq δ] in
theorem later_put {L : Ledger δ} (h : LedgerLater (s.ledger id) L) : RepoLater s (s.put id L) := by
  intro id'
  by_cases hid : id' = id
  · subst hid
    rw [RepoStore.ledger_put_self]
    exact h
  · rw [RepoStore.ledger_put_ne hid]
    exact .refl _

omit [DecidableEq δ] in
theorem later_pushEvent (s : RepoStore δ) (e : Committed δ) : RepoLater s (s.pushEvent id e) :=
  later_put ⟨List.suffix_refl _, List.prefix_append _ _⟩

/-- A change of one ledger that keeps it in order. -/
theorem repo_moves {L : Ledger δ} (h : RepoInv docs T.rule s)
    (hinv : LedgerInv docs T.rule id L) (hlater : LedgerLater (s.ledger id) L)
    (hacts : T.acts j s (s.put id L)) :
    T.Moves docs j s (s.put id L) := by
  refine ⟨fun id' => ?_, later_put hlater, hacts⟩
  by_cases hid : id' = id
  · subst hid
    rw [RepoStore.ledger_put_self]
    exact hinv
  · rw [RepoStore.ledger_put_ne hid]
    exact h id'

variable {row : IndexRow δ} {record : Record δ}
  {rule : Record δ → Record δ → Prop}
  {Q : RepoStore δ → RepoStore δ → Except CloudError Unit → Prop}

theorem repo_moves_row (h : RepoInv docs T.rule s) (hinv : LedgerInv docs T.rule id
      { s.ledger id with rows := row :: (s.ledger id).rows }) :
    T.Moves docs j s (s.pushRow id row) := by
  refine repo_moves h hinv ⟨List.suffix_cons _ _, List.prefix_refl _⟩
    (T.acts_of_events fun id' => ?_)
  by_cases hid : id' = id
  · subst hid
    rw [RepoStore.ledger_put_self]
  · rw [RepoStore.ledger_put_ne hid]

/-- What a call's own change leaves for it to go on with. -/
theorem rely_of_moves (h : T.Moves docs j s s') : T.Rely docs j s s' :=
  ⟨h.inv, h.later, trivial⟩

-- ===== records that are in order

theorem loadRecord_ok {r r' : Record δ} : loadRecord docs r = .ok r' ↔ r' = r ∧
      normalizeRequest docs r.request = .ok r.request ∧
      validTime r.updatedAt = true ∧ r.request.createdAt ≤ r.updatedAt ∧
      ∃ d, docs.normalize r.progress = .ok d := by
  unfold loadRecord
  cases hrequest : normalizeRequest docs r.request with
  | error e => simp
  | ok request =>
    dsimp only
    by_cases hbad : request ≠ r.request ∨ (!validTime r.updatedAt) = true ∨
        r.updatedAt < request.createdAt
    · rw [if_pos hbad]
      simp only [reduceCtorEq, Except.ok.injEq, false_iff, not_and]
      rintro - rfl htime hafter
      rcases hbad with hne | hinvalid | hbefore
      · exact absurd rfl hne
      · simp [htime] at hinvalid
      · omega
    · rw [if_neg hbad]
      simp only [not_or, not_not, Int.not_lt] at hbad
      obtain ⟨rfl, htime, hafter⟩ := hbad
      cases hprogress : docs.normalize r.progress with
      | error e => simp
      | ok d =>
        simp only [Except.ok.injEq, exists_eq', and_true, true_and]
        refine ⟨fun h => ⟨h.symm, by simpa using htime, hafter⟩,
          fun h => h.1.symm⟩

omit [DecidableEq δ] in
theorem normalizeRequest_ok {r r' : CreateRequest δ} (h : normalizeRequest docs r = .ok r') :
    normalizeRequest docs r' = .ok r' ∧ r'.id = r.id ∧
      r'.scope = r.scope ∧ r'.createdAt = r.createdAt ∧
      validRequestId r.id = true ∧ validTime r.createdAt = true := by
  unfold normalizeRequest at h
  split at h
  · cases h
  rename_i hgood
  obtain ⟨manifest, hmanifest, heq⟩ := bind_ok h
  obtain rfl := Except.ok.inj heq
  refine ⟨?_, rfl, rfl, rfl, ?_, ?_⟩
  · unfold normalizeRequest
    rw [if_neg hgood]
    simp [docs.normalize_idem hmanifest]
  · by_contra hid
    exact hgood (.inl (by simpa using hid))
  · by_contra htime
    exact hgood (.inr (.inr (.inr (.inr (by simpa using htime)))))

theorem goodRecord_first {request : CreateRequest δ}
    (h : normalizeRequest docs request = .ok request) :
    GoodRecord docs request.id (firstRecord docs request) := by
  obtain ⟨-, -, -, -, hid, htime⟩ := normalizeRequest_ok h
  exact ⟨rfl, hid, loadRecord_ok.mpr ⟨rfl, h, htime, Int.le_refl _, docs.empty, docs.empty_normal⟩⟩

theorem goodRecord_next {u : Update δ} {progress : δ} (h : GoodRecord docs id record)
    (hprogress : docs.normalize u.progress = .ok progress)
    (htime : validTime u.updatedAt = true)
    (hafter : record.updatedAt ≤ u.updatedAt) :
    GoodRecord docs id (Update.next u progress record) := by
  obtain ⟨-, hrequest, -, hcreated, -⟩ := loadRecord_ok.mp h.loads
  exact ⟨h.id_eq, h.id_valid, loadRecord_ok.mpr ⟨rfl, hrequest, htime,
    Int.le_trans hcreated hafter, progress, docs.normalize_idem hprogress⟩⟩

-- ===== the reads

section

variable {Q : RepoStore δ → RepoStore δ → Except CloudError (List (Committed δ)) → Prop}

theorem wp_readEvents (hok : ∀ s', T.Rely docs j s s' → Q s' s' (.ok (s'.ledger id).events))
    (hstorage : ∀ s' e, T.Rely docs j s s' → e.isStorage = true → Q s' s' (.error e)) :
    T.wp docs j (readEvents id).run Q s₀ s := by
  refine wp_get (fun _ _ => rfl) ?_ ?_ hstorage
  · intro s' value hs' hvalue
    obtain rfl := Option.some.inj hvalue
    exact hok s' hs'
  · intro s' _ hnone
    cases hnone

end

/-- The stream as the checks on it see it. -/
theorem LedgerInv.build_all {L : Ledger δ} (h : LedgerInv docs rule id L) :
    buildState none L.events = .ok (L.events.getLast?.map (·.record)) := by
  have := h.build L.events.length
  rwa [List.take_length] at this

omit [DecidableEq δ] in
theorem Ledger.take_getLast? {L : Ledger δ} {n : Nat} {e : Committed δ}
    (hn : 0 < n) (he : L.events[n - 1]? = some e) :
    (L.events.take n).getLast? = some e := by
  obtain ⟨hlt, -⟩ := List.getElem?_eq_some_iff.mp he
  rw [List.getLast?_eq_getElem?, List.length_take, Nat.min_eq_left (by omega),
    List.getElem?_take_of_lt (by omega)]
  exact he

theorem wp_readRevision {revision : Nat} (hpos : 0 < revision)
    {Q : RepoStore δ → RepoStore δ → Except CloudError (Record δ) → Prop}
    (hok : ∀ s' e, T.Rely docs j s s' → (s'.ledger id).events[revision - 1]? = some e →
      Q s' s' (.ok e.record))
    (hmissing : ∀ s', T.Rely docs j s s' → (s'.ledger id).events[revision - 1]? = none →
      Q s' s' (.error .conflict))
    (hstorage : ∀ s' e, T.Rely docs j s s' → e.isStorage = true → Q s' s' (.error e)) :
    T.wp docs j (readRevision id revision).run Q s₀ s := by
  refine wp_run_bind.mpr (wp_readEvents ?_ hstorage)
  intro s' hs'
  have hinv := hs'.inv id
  refine wp_check_bind.mpr ?_
  rw [hinv.build]
  cases he : (s'.ledger id).events[revision - 1]? with
  | some e =>
    rw [Ledger.take_getLast? hpos he]
    have hid := (hinv.good e (List.mem_of_getElem? he)).id_eq
    have hrevision : e.record.revision = revision := by
      have := hinv.revision _ _ he
      omega
    simp only [Option.map_some, hid, hrevision, ne_eq, not_true, if_false]
    exact hok s' e hs' he
  | none =>
    have hlen := List.getElem?_eq_none_iff.mp he
    rw [List.take_of_length_le (by omega)]
    cases hlast : (s'.ledger id).events.getLast? with
    | none => exact hmissing s' hs' he
    | some e =>
      have hid := (hinv.good e (List.mem_of_getLast? hlast)).id_eq
      have hrevision : e.record.revision ≠ revision := by
        have := hinv.last_revision hlast
        omega
      simp only [Option.map_some, hid, ne_eq, not_true, if_false,
        hrevision, not_false_eq_true, if_true]
      exact hmissing s' hs' he

/-- What a read returns is the last record of the stream. -/
theorem wp_readRecord {scope : Scope}
    {Q : RepoStore δ → RepoStore δ → Except CloudError (Record δ) → Prop}
    (hok : ∀ s' e, T.Rely docs j s s' → (s'.ledger id).events.getLast? = some e →
      e.record.request.scope = scope → Q s' s' (.ok e.record))
    (herror : ∀ t s' e, e ≠ .corrupt → Q t s' (.error e)) :
    T.wp docs j (Repo.read docs scope id).run Q s₀ s := by
  refine wp_ite (fun _ => herror _ _ _ nofun) fun hscope => ?_
  refine wp_ite (fun _ => herror _ _ _ nofun) fun hvalid => ?_
  refine wp_run_bind.mpr (wp_readEvents ?_ ?_)
  · intro s' hs'
    have hinv := hs'.inv id
    refine wp_check_bind.mpr ?_
    rw [hinv.build_all]
    cases hlast : (s'.ledger id).events.getLast? with
    | none => exact herror _ _ _ nofun
    | some e =>
      have hgood := hinv.good e (List.mem_of_getLast? hlast)
      refine wp_ite (fun _ => herror _ _ _ nofun) fun hother => ?_
      simp only [hinv.last_revision hlast, hgood.id_eq, ne_eq, not_true, or_self, if_false]
      show Q s' s' (loadRecord docs e.record)
      rw [hgood.loads]
      exact hok s' e hs' hlast (not_not.mp hother)
  · intro s' e _ he
    refine herror _ _ _ ?_
    rintro rfl
    cases he

-- ===== the index

theorem LedgerInv.validRow {L : Ledger δ} (h : LedgerInv docs rule id L)
    (hrow : row ∈ L.rows) : validRow row = true := by
  unfold Repo.validRow
  rcases h.visible row hrow with ⟨hzero, hpending, htime⟩ | ⟨e, hpos, he, -, htime⟩
  · obtain ⟨-, -, -, -, -, hvalid⟩ := normalizeRequest_ok (h.bound row hrow).2.2
    simp [hzero, hpending, htime, hvalid]
  · have hloads := (h.good e (List.mem_of_getElem? he)).loads
    obtain ⟨-, -, hvalid, -, -⟩ := loadRecord_ok.mp hloads
    rw [htime] at hvalid
    have hrevision := h.revision _ _ he
    have hbounded : row.revision ≤ maxRevisions := by
      by_cases hone : row.revision = 1
      · rw [hone]
        decide
      obtain ⟨hlt, -⟩ := List.getElem?_eq_some_iff.mp he
      have hprevious : (L.events)[row.revision - 2]? = some (L.events[row.revision - 2]) :=
        List.getElem?_eq_getElem (by omega)
      have hnext : L.events[row.revision - 2 + 1]? = some e := by
        rw [show row.revision - 2 + 1 = row.revision - 1 by omega]
        exact he
      have := (h.follows _ _ _ hprevious hnext).bounded
      omega
    simp [hbounded, hvalid, Nat.pos_iff_ne_zero.mp hpos]

theorem wp_readIndex {Q : RepoStore δ → RepoStore δ → Except CloudError (IndexRow δ × Nat) → Prop}
    (hok : ∀ s' row, T.Rely docs j s s' → (s'.ledger id).rows.head? = some row →
      Q s' s' (.ok (row, (s'.ledger id).rows.length)))
    (hmissing : ∀ s', T.Rely docs j s s' → (s'.ledger id).rows = [] → Q s' s' (.error .notFound))
    (hstorage : ∀ s' e, T.Rely docs j s s' → e.isStorage = true → Q s' s' (.error e)) :
    T.wp docs j (readIndex id).run Q s₀ s := by
  refine wp_run_bind.mpr (wp_get (fun _ _ => rfl) ?_ ?_ hstorage)
  · intro s' value hs' hvalue
    obtain ⟨row, hrow, rfl⟩ := Option.map_eq_some_iff.mp hvalue
    have hvalid := (hs'.inv id).validRow (List.mem_of_mem_head? hrow)
    simp only [hvalid, Bool.not_true, Bool.false_eq_true, if_false]
    exact hok s' row hs' hrow
  · intro s' hs' hnone
    exact hmissing s' hs' (List.head?_eq_none_iff.mp (Option.map_eq_none_iff.mp hnone))

/-- A record is committed at its revision. -/
def IsCommitted (s : RepoStore δ) (record : Record δ) : Prop :=
  ∃ e, (s.ledger record.request.id).events[record.revision - 1]? = some e ∧ e.record = record

omit [DecidableEq δ] in
theorem IsCommitted.mono (h : IsCommitted s record) (hs : RepoLater s s') :
    IsCommitted s' record := by
  obtain ⟨e, he, heq⟩ := h
  exact ⟨e, (hs _).event he, heq⟩

/-- The row of a committed record is its own request's. -/
theorem IsCommitted.bound (h : IsCommitted s record) (hinv : RepoInv docs rule s)
    (hrow : row ∈ (s.ledger record.request.id).rows) :
    row.binding = record.request ∧ row.scopeTag = record.request.scope := by
  obtain ⟨e, he, rfl⟩ := h
  have hbinding := (hinv _).binding row hrow e (List.mem_of_getElem? he)
  exact ⟨hbinding, ((hinv _).bound row hrow).1.trans (by rw [hbinding])⟩

/-- A row at the revision of a committed record shows that record. -/
theorem IsCommitted.shown (h : IsCommitted s record) (hinv : RepoInv docs rule s)
    (hrow : row ∈ (s.ledger record.request.id).rows)
    (hrevision : row.revision = record.revision) :
    row.status = record.status ∧ row.updatedAt = record.updatedAt := by
  obtain ⟨e, he, heq⟩ := h
  have hpos := (hinv _).revision _ _ he
  rcases (hinv _).visible row hrow with ⟨hzero, -, -⟩ | ⟨x, -, hx, hstatus, htime⟩
  · rw [heq] at hpos
    omega
  · rw [hrevision, he] at hx
    obtain rfl := Option.some.inj hx
    rw [← hstatus, ← htime, heq]
    exact ⟨rfl, rfl⟩

/-- The row of a committed record moves up to it, or is there already.
It cannot be missing and cannot be another request's. -/
theorem wp_advanceIndexLoop {rounds : Nat} (hcommitted : IsCommitted s record)
    (hok : ∀ t s', T.Rely docs j s s' → Q t s' (.ok ()))
    (herror : ∀ t s' e, T.Rely docs j s s' → e = .conflict ∨ e.isStorage = true → Q t s' (.error e))
    (hinv : RepoInv docs T.rule s) :
    T.wp docs j (advanceIndexLoop record rounds).run Q s₀ s := by
  induction rounds generalizing s s₀ with
  | zero => exact herror _ _ _ (.refl hinv) (.inl rfl)
  | succ rounds ih =>
    refine wp_run_bind.mpr (wp_readIndex ?_ ?_ ?_)
    · intro s' row hs' hrow
      have hmem := List.mem_of_mem_head? hrow
      have hhere : IsCommitted s' record := hcommitted.mono hs'.later
      obtain ⟨hbinding, hscope⟩ := hhere.bound hs'.inv hmem
      simp only [hbinding, hscope, ne_eq, not_true, or_self, if_false]
      refine wp_ite (fun _ => hok _ _ hs') fun hnewer => ?_
      by_cases hsame : row.revision = record.revision
      · obtain ⟨hstatus, htime⟩ := hhere.shown hs'.inv hmem hsame
        rw [if_pos hsame]
        simp only [hstatus, htime, not_true, or_self, if_false]
        exact hok _ _ hs'
      rw [if_neg hsame]
      refine wp_observe_bind.mpr ?_
      have hpush : ∀ t, (repoContract docs T).inv t → (repoContract docs T).later s' t →
          ((t.ledger record.request.id).rows.length == (s'.ledger record.request.id).rows.length &&
            (s'.ledger record.request.id).rows.length != 0) = true →
          T.Moves docs j t (t.pushRow record.request.id (nextRow row record)) := by
        intro t ht hst hcond
        -- The row is still the one that was read.
        have hrows : (t.ledger record.request.id).rows = (s'.ledger record.request.id).rows := by
          refine ((hst _).rows.eq_of_length ?_).symm
          simp only [Bool.and_eq_true, beq_iff_eq] at hcond
          exact hcond.1.symm
        obtain ⟨e, he, rfl⟩ := hhere.mono hst
        refine repo_moves_row ht ((ht _).replaceRow ?_ (by omega) he)
        rw [hrows]
        exact hrow
      refine wp_put (fun _ _ => rfl) ?_ ?_ ?_ ?_
      · intro t u ht hu htu hcond
        exact hpush u hu ((repoContract docs T).later_trans ht.later htu) hcond
      · intro t ht hcond
        exact hok _ _ (hs'.trans (ht.trans (rely_of_moves (hpush t ht.inv ht.later hcond))))
      · intro t ht _
        have hrely := hs'.trans ht
        exact ih (hcommitted.mono hrely.later) (fun _ _ h => hok _ _ (hrely.trans h))
          (fun _ _ _ h => herror _ _ _ (hrely.trans h)) ht.inv
      · intro t u e ht he hu
        have hrely : T.Rely docs j s u := by
          rcases hu with rfl | ⟨hcond, rfl⟩
          · exact hs'.trans ht
          · exact hs'.trans (ht.trans (rely_of_moves (hpush t ht.inv ht.later hcond)))
        rcases CloudError.isStorage_cases he with rfl | rfl
        all_goals exact herror _ _ _ hrely (.inr rfl)
    · intro s' hs' hnone
      obtain ⟨e, he, -⟩ : IsCommitted s' record := hcommitted.mono hs'.later
      exact absurd hnone ((hs'.inv _).found (List.ne_nil_of_mem (List.mem_of_getElem? he)))
    · intro s' e hs' he
      exact herror _ _ _ hs' (.inr he)

theorem wp_repairIndex (hcommitted : IsCommitted s record)
    (hok : ∀ t s', T.Rely docs j s s' → Q t s' (.ok ()))
    (herror : ∀ t s' e, Q t s' (.error e)) (hinv : RepoInv docs T.rule s) :
    T.wp docs j (repairIndex record).run Q s₀ s :=
  wp_run_bind.mpr (wp_run_observe.mpr
    (wp_advanceIndexLoop hcommitted hok (fun _ _ _ _ _ => herror _ _ _) hinv))

/-- A row of the request, once there is one, stays. -/
theorem wp_ensureIndex {request : CreateRequest δ}
    (hnormal : normalizeRequest docs request = .ok request)
    (hok : ∀ t s' row, T.Rely docs j s s' →
      row ∈ (s'.ledger request.id).rows → row.binding = request →
      Q t s' (.ok ())) (herror : ∀ t s' e, Q t s' (.error e)) :
    T.wp docs j (ensureIndex request).run Q s₀ s := by
  have hpush : ∀ t, RepoInv docs T.rule t → (t.ledger request.id).rows.isEmpty = true →
      T.Moves docs j t (t.pushRow request.id (newRow request)) :=
    fun t ht hempty => repo_moves_row ht ((ht _).createRow (List.isEmpty_iff.mp hempty) rfl hnormal)
  refine wp_observe_bind.mpr ?_
  refine wp_put (fun _ _ => rfl) ?_ ?_ ?_ ?_
  · intro _ t _ ht _ hempty
    exact hpush t ht hempty
  · intro s' hs' hempty
    refine hok _ _ (newRow request) (hs'.trans (rely_of_moves (hpush s' hs'.inv hempty))) ?_ rfl
    rw [RepoStore.pushRow, RepoStore.ledger_put_self]
    exact List.mem_cons_self
  · intro s' hs' _
    refine wp_run_bind.mpr (wp_readIndex ?_ ?_ ?_)
    · intro t row ht hrow
      refine wp_ite (fun _ => herror _ _ _) fun hother => ?_
      simp only [not_or, not_not] at hother
      exact hok _ _ row (hs'.trans ht) (List.mem_of_mem_head? hrow) hother.2
    · exact fun _ _ _ => herror _ _ _
    · exact fun _ _ _ _ => herror _ _ _
  · intro s' t e _ he _
    rcases CloudError.isStorage_cases he with rfl | rfl
    all_goals exact herror _ _ _

-- ===== publishing

/-- A record that may be appended whenever the stream has come to just
before it. -/
structure Publishable (docs : Documents δ)
    (rule : Record δ → Record δ → Prop) (s : RepoStore δ)
    (record : Record δ) : Prop where
  good : GoodRecord docs record.request.id record
  positive : 0 < record.revision
  fits : ∀ t, RepoInv docs rule t → RepoLater s t →
    (t.ledger record.request.id).events.length = record.revision - 1 →
    Next docs rule (t.ledger record.request.id).events record ∧
      (t.ledger record.request.id).rows ≠ [] ∧
      ∀ row ∈ (t.ledger record.request.id).rows, row.binding = record.request

theorem Publishable.mono (h : Publishable docs T.rule s record) (hs : RepoLater s s') :
    Publishable docs T.rule s' record :=
  ⟨h.good, h.positive, fun t ht hst =>
    h.fits t ht ((repoContract docs T).later_trans hs hst)⟩

theorem Publishable.moves {token : String}
    (h : Publishable docs T.rule s record) (hinv : RepoInv docs T.rule s)
    (hlength : (s.ledger record.request.id).events.length = record.revision - 1)
    (hacts : T.acts j s (s.pushEvent record.request.id ⟨token, record⟩)) :
    T.Moves docs j s (s.pushEvent record.request.id ⟨token, record⟩) := by
  obtain ⟨hnext, hfound, hbinding⟩ := h.fits s hinv (fun id => .refl _) hlength
  exact repo_moves hinv ((hinv _).pushEvent h.good hnext hfound hbinding)
    ⟨List.suffix_refl _, List.prefix_append _ _⟩ hacts

section

variable {record : Record δ} {token : String}

/-- The state after an append that is not refused. -/
def appended (s : RepoStore δ) (record : Record δ) (token : String) : RepoStore δ :=
  if (s.ledger record.request.id).events[record.revision - 1]? =
      some ⟨token, record⟩ then s
  else s.pushEvent record.request.id ⟨token, record⟩

/-- An append of the record succeeds: it is next, or there already. -/
def appendable (s : RepoStore δ) (record : Record δ) (token : String) :
    Bool :=
  decide ((s.ledger record.request.id).events[record.revision - 1]? = some ⟨token, record⟩) ||
    (s.ledger record.request.id).events.length == record.revision - 1

/-- The laws of the event store, for the store of all streams. -/
theorem exec_append {fate : Fate} : RepoStore.exec R.eventStore
      (.append record.request.id (record.revision - 1) ⟨token, record⟩) fate s =
      writeRow fate (appendable s record token) .conflict () s (appended s record token) := by
  show s.append _ R.eventStore fate _ _ = _
  unfold appendable appended
  by_cases hthere : (s.ledger record.request.id).events[
      record.revision - 1]? = some ⟨token, record⟩
  · rw [RepoStore.append_there hthere]
    simp [hthere]
  have hsame := s.put_ledger record.request.id
  unfold RepoStore.append
  by_cases hend : (s.ledger record.request.id).events.length = record.revision - 1
  · rw [← hend, R.eventStore.lands]
    cases fate <;> simp [writeRow, hsame, RepoStore.pushEvent]
  · rw [R.eventStore.conflicts fate hend hthere]
    cases fate <;> simp [writeRow, hthere, hend, hsame]

/-- The appended record is the committed one. -/
theorem committed_appended (h : appendable s record token = true) :
    ((appended s record token).ledger record.request.id).events[
      record.revision - 1]? = some ⟨token, record⟩ := by
  unfold appended
  by_cases hthere : (s.ledger record.request.id).events[
      record.revision - 1]? = some ⟨token, record⟩
  · rw [if_pos hthere]
    exact hthere
  · rw [if_neg hthere, RepoStore.pushEvent, RepoStore.ledger_put_self]
    simp only [appendable, hthere, decide_false, Bool.false_or, beq_iff_eq] at h
    rw [← h]
    exact List.getElem?_concat_length

theorem moves_appended (h : Publishable docs T.rule s record)
    (hinv : RepoInv docs T.rule s) (happend : appendable s record token = true)
    (hacts : (s.ledger record.request.id).events.length = record.revision - 1 →
      T.acts j s (s.pushEvent record.request.id ⟨token, record⟩)) :
    T.Moves docs j s (appended s record token) := by
  unfold appended
  by_cases hthere : (s.ledger record.request.id).events[
      record.revision - 1]? = some ⟨token, record⟩
  · rw [if_pos hthere]
    exact .refl hinv
  · rw [if_neg hthere]
    simp only [appendable, hthere, decide_false, Bool.false_or, beq_iff_eq] at happend
    exact h.moves hinv happend (hacts happend)

/-- The record is appended, then its row is brought up to date. -/
theorem wp_publish
    {Q : RepoStore δ → RepoStore δ → Except CloudError (Record δ) → Prop}
    (h : Publishable docs T.rule s record)
    (hacts : ∀ t, RepoInv docs T.rule t → RepoLater s t →
      (t.ledger record.request.id).events.length = record.revision - 1 →
      T.acts j t (t.pushEvent record.request.id ⟨token, record⟩))
    (hok : ∀ t s', T.Rely docs j s s' → (s'.ledger record.request.id).events[record.revision - 1]? =
        some ⟨token, record⟩ → Q t s' (.ok record))
    (hrefused : ∀ s', T.Rely docs j s s' →
      appendable s' record token = false → Q s' s' (.error .conflict))
    (herror : ∀ t s' e, e.isStorage = true ∨ (∃ cause, e = .indexPending cause) →
        Q t s' (.error e)) :
    T.wp docs j (publish record token).run Q s₀ s := by
  have hmoves : ∀ s' t, T.Rely docs j s s' →
      RepoInv docs T.rule t → RepoLater s' t → appendable t record token = true →
      T.Moves docs j t (appended t record token) :=
    fun s' t hs' ht hst happend =>
      have hlater := (repoContract docs T).later_trans hs'.later hst
      moves_appended (h.mono hlater) ht happend (hacts t ht hlater)
  refine wp_run_bind.mpr (wp_put (fun fate t => exec_append) hmoves ?_ hrefused ?_)
  · intro s' hs' happend
    have hmoved := rely_of_moves (hmoves s' s' hs' hs'.inv (fun id => .refl _) happend)
    have hhere := committed_appended happend
    refine wp_observe_bind.mpr ?_
    refine wp_advanceIndexLoop ⟨_, hhere, rfl⟩ ?_ ?_ hmoved.inv
    · intro t s'' hs''
      exact hok _ _ (hs'.trans (hmoved.trans hs'')) ((hs''.later _).event hhere)
    · exact fun _ _ e _ _ => herror _ _ _ (.inr ⟨e, rfl⟩)
  · exact fun _ _ _ _ he _ => herror _ _ _ (.inl he)

end

-- ===== create, update

section

variable {scope : Scope} {u : Update δ} {record : Record δ}

omit [DecidableEq δ] in
theorem Updated.mono (h : Updated docs scope id u s record)
    (hs : RepoLater s s') : Updated docs scope id u s' record := by
  obtain ⟨progress, previous, hprogress, hprevious, hrest⟩ := h.extends'
  exact ⟨h.args, ⟨progress, previous, hprogress,
    (hs id).event hprevious, hrest⟩, (hs id).event h.committed⟩

omit [DecidableEq δ] in
/-- The record an update extends is the one at its revision. -/
theorem Updated.of_previous (h : Updated docs scope id u s record)
    {progress : δ} {e : Committed δ}
    (hprogress : docs.normalize u.progress = .ok progress)
    (he : (s.ledger id).events[u.expectedRevision - 1]? = some e) :
    e.record.request.scope = scope ∧ validTransition e.record.status u.status = true ∧
      e.record.updatedAt ≤ u.updatedAt ∧
      docs.fits (Update.next u progress e.record) = true ∧
      record = Update.next u progress e.record := by
  obtain ⟨progress', previous, hprogress', hprevious, hrest⟩ := h.extends'
  rw [he] at hprevious
  obtain rfl := Option.some.inj hprevious
  rw [hprogress] at hprogress'
  obtain rfl := Except.ok.inj hprogress'
  exact hrest

omit [DecidableEq δ] in
/-- A refusal: the update was not committed before. -/
theorem UpdatePost.refused {e : CloudError} (h : ∀ record, ¬Updated docs scope id u s record) :
    UpdatePost docs scope id u s s' (.error e) :=
  ⟨nofun, fun record hrecord => absurd hrecord (h record)⟩

omit [DecidableEq δ] in
theorem UpdatePost.unfinished {e : CloudError}
    (h : e.isStorage = true ∨ ∃ cause, e = .indexPending cause) :
    UpdatePost docs scope id u s s' (.error e) :=
  ⟨nofun, fun _ _ => .inr ⟨e, rfl, h⟩⟩

/-- The record an update makes extends the stream that has come to the
revision it asks for. -/
theorem publishable_next {progress : δ} {e : Committed δ} (hinv : RepoInv docs T.rule s)
    (hprogress : docs.normalize u.progress = .ok progress)
    (htime : validTime u.updatedAt = true)
    (hpos : 0 < u.expectedRevision)
    (hbounded : u.expectedRevision < maxRevisions)
    (he : (s.ledger e.record.request.id).events[u.expectedRevision - 1]? = some e)
    (hstatus : validTransition e.record.status u.status = true)
    (hafter : e.record.updatedAt ≤ u.updatedAt)
    (hrule : T.rule e.record (Update.next u progress e.record)) :
    Publishable docs T.rule s (Update.next u progress e.record) := by
  have hrevision : e.record.revision = u.expectedRevision := by
    have := (hinv _).revision _ _ he
    omega
  refine ⟨goodRecord_next ((hinv _).good e (List.mem_of_getElem? he))
    hprogress htime hafter, Nat.succ_pos _, fun t ht hst hlength => ?_⟩
  have hlength : (t.ledger e.record.request.id).events.length =
      u.expectedRevision := hlength.trans hrevision
  have hhere := (hst _).event he
  have hmem := List.mem_of_getElem? hhere
  refine ⟨?_, (ht _).found (List.ne_nil_of_mem hmem),
    fun row hrow => (ht _).binding row hrow e hmem⟩
  have hlast : (t.ledger e.record.request.id).events.getLast? = some e := by
    rw [List.getLast?_eq_getElem?, hlength]
    exact hhere
  show Next docs T.rule (t.ledger e.record.request.id).events _
  unfold Next
  rw [hlast]
  refine ⟨⟨rfl, ?_, rfl, hstatus⟩, hrule⟩
  show e.record.revision + 1 ≤ maxRevisions
  omega

theorem wp_tryUpdate (hacts : ∀ t record, RepoInv docs T.rule t → RepoLater s t →
      (t.ledger id).events.length = u.expectedRevision →
      Updated docs scope id u (t.pushEvent id ⟨u.token, record⟩) record →
      T.acts j t (t.pushEvent id ⟨u.token, record⟩))
    (hrule : ∀ s' e progress, RepoLater s s' →
      (s'.ledger id).events[u.expectedRevision - 1]? = some e →
      docs.normalize u.progress = .ok progress →
      T.rule e.record (Update.next u progress e.record)) :
    T.wp docs j (tryUpdate docs scope id u).run (fun _ => UpdatePost docs scope id u s) s₀ s := by
  refine wp_ite (fun hargs => UpdatePost.refused fun record h => h.args hargs) fun hargs => ?_
  refine wp_check_bind.mpr ?_
  cases hprogress : docs.normalize u.progress with
  | error e =>
    refine UpdatePost.refused fun record h => ?_
    obtain ⟨progress, -, hok, -⟩ := h.extends'
    rw [hprogress] at hok
    cases hok
  | ok progress =>
    have hpos : 0 < u.expectedRevision := by
      omega
    refine wp_run_bind.mpr (wp_readRevision hpos ?_ ?_ ?_)
    · intro s' e hs' he
      have hgood := (hs'.inv id).good e (List.mem_of_getElem? he)
      have hprevious : ∀ record, Updated docs scope id u s record →
          _ := fun record h => (h.mono hs'.later).of_previous hprogress he
      refine wp_ite (fun hscope => ?_) fun hscope => ?_
      · exact UpdatePost.refused fun record h =>
          hscope (hprevious record h).1
      refine wp_check_bind.mpr ?_
      rw [hgood.loads]
      refine wp_ite (fun hmove => ?_) fun hmove => ?_
      · refine UpdatePost.refused fun record h => ?_
        obtain ⟨-, hstatus, hafter, -⟩ := hprevious record h
        rcases hmove with hmove | hmove
        · simp [hstatus] at hmove
        · omega
      refine wp_ite (fun hfits => ?_) fun hfits => ?_
      · refine UpdatePost.refused fun record h => ?_
        obtain ⟨-, -, -, hfit, -⟩ := hprevious record h
        simp [hfit] at hfits
      have hrevision : (Update.next u progress e.record).revision - 1 = u.expectedRevision := by
        have := (hs'.inv id).revision _ _ he
        show e.record.revision + 1 - 1 = _
        omega
      simp only [not_or, Bool.not_eq_true', Bool.not_eq_false, Int.not_lt] at hargs hmove hfits
      obtain rfl := hgood.id_eq
      have hdone : ∀ t, RepoLater s' t →
          (t.ledger e.record.request.id).events[u.expectedRevision]? =
            some ⟨u.token, Update.next u progress e.record⟩ →
          Updated docs scope e.record.request.id u t (Update.next u progress e.record) :=
        fun t ht hcommitted => ⟨by simpa using hargs, ⟨progress, e,
          hprogress, (ht _).event he, not_not.mp hscope, hmove.1,
          hmove.2, hfits, rfl⟩, hcommitted⟩
      have hpublishable := publishable_next hs'.inv hprogress
        hargs.2.2.2.2.2 hpos (by omega) he hmove.1 hmove.2
        (hrule s' e progress hs'.later he hprogress)
      refine wp_publish hpublishable ?_ ?_ ?_ ?_
      · intro t ht hst hlength
        have hlength' := hlength.trans hrevision
        refine hacts t _ ht ((repoContract docs T).later_trans hs'.later
          hst) hlength' (hdone _ ?_ ?_)
        · exact (repoContract docs T).later_trans hst (later_pushEvent t _)
        · rw [RepoStore.pushEvent, RepoStore.ledger_put_self, ← hlength']
          exact List.getElem?_concat_length
      · intro _ t ht hcommitted
        rw [hrevision] at hcommitted
        have hdone := hdone t ht.later hcommitted
        refine ⟨fun record h => ?_, fun record h => .inl ?_⟩
        · obtain rfl := Except.ok.inj h
          exact hdone
        · rw [(hprevious record h).2.2.2.2]
      · intro t ht hrefused
        refine UpdatePost.refused fun record h => ?_
        have hthere := (h.mono (hs'.trans ht).later).committed
        obtain ⟨-, -, -, -, rfl⟩ := hprevious record h
        unfold appendable at hrefused
        rw [hrevision] at hrefused
        simp only [Bool.or_eq_false_iff, decide_eq_false_iff_not]
          at hrefused
        exact hrefused.1 hthere
      · exact fun _ _ e h => UpdatePost.unfinished h
    · intro s' hs' hnone
      refine UpdatePost.refused fun record h => ?_
      obtain ⟨-, previous, -, hprevious, -⟩ := (h.mono hs'.later).extends'
      rw [hnone] at hprevious
      cases hprevious
    · exact fun _ e _ he => UpdatePost.unfinished (.inl he)

/-- The first record of a request whose row is there. -/
theorem publishable_first {request : CreateRequest δ} {row : IndexRow δ}
    (hnormal : normalizeRequest docs request = .ok request)
    (hrow : row ∈ (s.ledger request.id).rows)
    (hbinding : row.binding = request) :
    Publishable docs T.rule s (firstRecord docs request) := by
  refine ⟨goodRecord_first hnormal, Nat.one_pos, fun t ht hst hlength => ?_⟩
  have hempty : (t.ledger request.id).events = [] := List.length_eq_zero_iff.mp hlength
  have hmem : row ∈ (t.ledger request.id).rows := (hst _).rows.subset hrow
  refine ⟨?_, List.ne_nil_of_mem hmem, fun row' hrow' => ?_⟩
  · show Next docs T.rule (t.ledger request.id).events _
    rw [hempty]
    exact rfl
  · exact ((ht _).same row' hrow' row hmem).trans hbinding

theorem wp_createRequest (hfree : ∀ s s', T.acts j s s') {request : CreateRequest δ} :
    T.wp docs j (create docs request).run (fun _ _ _ => True) s₀ s := by
  refine wp_check_bind.mpr ?_
  cases hrequest : normalizeRequest docs request with
  | error e => trivial
  | ok normal =>
    have hnormal := (normalizeRequest_ok hrequest).1
    refine wp_ite (fun _ => trivial) fun hfits => ?_
    refine wp_run_bind.mpr (wp_ensureIndex hnormal ?_ fun _ _ _ => trivial)
    intro t s' row hs' hrow hbinding
    exact wp_publish (publishable_first hnormal hrow hbinding)
      (fun _ _ _ _ => hfree _ _) (fun _ _ _ _ => trivial)
      (fun _ _ _ => trivial) (fun _ _ _ _ => trivial)

/-- The last record of a stream is committed. -/
theorem isCommitted_last {rule : Record δ → Record δ → Prop}
    (hinv : RepoInv docs rule s) {e : Committed δ}
    (he : (s.ledger id).events.getLast? = some e) :
    IsCommitted s e.record := by
  have hrevision := (hinv id).last_revision he
  obtain rfl := ((hinv id).good e (List.mem_of_getLast? he)).id_eq
  rw [List.getLast?_eq_getElem?, ← hrevision] at he
  exact ⟨e, he, rfl⟩

/-- A record that a call has read of a request: it stays committed, and
an update of its revision extends it. -/
structure Found (s : RepoStore δ) (scope : Scope) (id : String)
    (record : Record δ) : Prop where
  committed : IsCommitted s record
  id_eq : record.request.id = id
  scope_eq : record.request.scope = scope

omit [DecidableEq δ] in
theorem Found.mono (h : Found s scope id record) (hs : RepoLater s s') : Found s' scope id record :=
  ⟨h.committed.mono hs, h.id_eq, h.scope_eq⟩

omit [DecidableEq δ] in
theorem Found.ruled (h : Found s scope id record) (hrevision : u.expectedRevision = record.revision)
    (hrule : ∀ progress, docs.normalize u.progress = .ok progress →
      T.rule record (Update.next u progress record)) :
    ∀ s' e progress, RepoLater s s' → (s'.ledger id).events[u.expectedRevision - 1]? = some e →
      docs.normalize u.progress = .ok progress →
      T.rule e.record (Update.next u progress e.record) := by
  intro s' e progress hs' he hprogress
  obtain ⟨x, hx, rfl⟩ := h.committed.mono hs'
  obtain rfl := h.id_eq
  rw [hrevision, hx] at he
  obtain rfl := Option.some.inj he
  exact hrule progress hprogress

/-- An update of the record that a call has found. -/
theorem wp_updateFound
    {Q : RepoStore δ → RepoStore δ → Except CloudError (Record δ) → Prop}
    (hinv : RepoInv docs T.rule s) (hfound : Found s scope id record)
    (hrevision : u.expectedRevision = record.revision)
    (hrule : ∀ progress, docs.normalize u.progress = .ok progress →
      T.rule record (Update.next u progress record))
    (hacts : ∀ t e progress, RepoInv docs T.rule t → RepoLater s t →
      (t.ledger id).events.getLast? = some e → e.record = record →
      docs.normalize u.progress = .ok progress →
      T.acts j t (t.pushEvent id ⟨u.token, Update.next u progress record⟩))
    (hok : ∀ t s' progress, RepoInv docs T.rule s' → RepoLater s s' →
      docs.normalize u.progress = .ok progress →
      (s'.ledger id).events[record.revision]? = some ⟨u.token, Update.next u progress record⟩ →
      Q t s' (.ok (Update.next u progress record)))
    (herror : ∀ t s' e, RepoInv docs T.rule s' → RepoLater s s' → Q t s' (.error e)) :
    T.wp docs j (tryUpdate docs scope id u).run Q s₀ s := by
  -- what an accepted update extends is the record that was found
  have hprevious : ∀ {t previous}, RepoLater s t →
      (t.ledger id).events[u.expectedRevision - 1]? = some previous →
      previous.record = record := by
    intro t previous hst hprevious
    obtain ⟨x, hx, rfl⟩ := hfound.committed.mono hst
    obtain rfl := hfound.id_eq
    rw [hrevision, hx] at hprevious
    rw [Option.some.inj hprevious]
  have hupdate : T.wp docs j (tryUpdate docs scope id u).run
      (fun _ => UpdatePost docs scope id u s) s₀ s := by
    refine wp_tryUpdate ?_ (hfound.ruled hrevision hrule)
    intro t updated hinv' hlater hlength hupdated
    obtain ⟨-, ⟨progress, previous, hprogress, hat, -, -, -, -, rfl⟩, -⟩ := hupdated
    have hpos : 0 < u.expectedRevision := by
      obtain ⟨x, hx, rfl⟩ := hfound.committed
      have := (hinv _).revision _ _ hx
      omega
    rw [RepoStore.pushEvent, RepoStore.ledger_put_self, List.getElem?_append_left (by omega)] at hat
    have hlast : (t.ledger id).events.getLast? = some previous := by
      rw [List.getLast?_eq_getElem?, hlength]
      exact hat
    rw [hprevious hlater hat]
    exact hacts t previous progress hinv' hlater hlast (hprevious hlater hat) hprogress
  refine wp_mono (wp_later hupdate hinv (fun _ => .refl _)) ?_
  rintro t s' (e | updated) ⟨hpost, hinv', hlater⟩
  · exact herror _ _ _ hinv' hlater
  · obtain ⟨-, ⟨progress, previous, hprogress, hat, -, -, -, -, rfl⟩,
      hcommitted⟩ := hpost.committed _ rfl
    rw [hprevious hlater hat] at hcommitted ⊢
    exact hok _ _ _ hinv' hlater hprogress (hrevision ▸ hcommitted)

theorem found_last {rule : Record δ → Record δ → Prop}
    (hinv : RepoInv docs rule s) {e : Committed δ}
    (he : (s.ledger id).events.getLast? = some e)
    (hscope : e.record.request.scope = scope) :
    Found s scope id e.record :=
  ⟨isCommitted_last hinv he, ((hinv id).good e (List.mem_of_getLast? he)).id_eq, hscope⟩

/-- A call that reads a record goes on from a state in which it is
committed. -/
theorem wp_readRecord_bind {β : Type} {f : Record δ → Repo δ β}
    (hok : ∀ s' record, RepoInv docs T.rule s' → Found s' scope id record →
      T.wp docs j (f record).run (fun _ _ _ => True) s' s') :
    T.wp docs j (Repo.read docs scope id >>= f).run (fun _ _ _ => True) s₀ s := by
  refine wp_run_bind.mpr (wp_readRecord ?_ fun _ _ _ _ => trivial)
  intro s' e hs' he hscope
  exact hok s' e.record hs'.inv (found_last hs'.inv he hscope)

end

end LlmTemporalWorker.CloudState
