/-
Discovery never hides unfinished work.

The runs of the request store, from an empty one: any number of calls on
any requests, any schedule, operations that fail or land late,
acknowledgements that are lost, workers that stop anywhere. Every run is
admitted by the contract of the single calls, so the relation between a
request's row and its stream holds after every move, and not only
between calls (`discovery_never_hides_work`).

An update that is repeated meets its own event. What it returns is the
record it committed first, or that the storage failed, or that the index
is not up to date yet; if nothing fails and nobody interferes it is the
record (`tryUpdate_alone`).
-/
import LlmTemporalWorker.CloudState.Proofs.Operations

namespace LlmTemporalWorker.CloudState

open Lib Contract Repo

variable {δ : Type}

-- ===== the contract

/-- An operation of an update changes no stream, unless it commits the
update and its revision was still to come. -/
def RepoActs (docs : Documents δ) : RepoJob δ → RepoStore δ → RepoStore δ → Prop
  | .update scope id u, s, s' =>
    (∀ id', (s'.ledger id').events = (s.ledger id').events) ∨
      (s.ledger id).events.length = u.expectedRevision ∧ ∃ record, Updated docs scope id u s' record
  | _, _, _ => True

def RepoPost (docs : Documents δ) (job : RepoJob δ)
    (since _ s' : RepoStore δ) (r : Except CloudError (Record δ)) : Prop :=
  match job with
  | .update scope id u => UpdatePost docs scope id u since s' r
  | _ => True

theorem repoActs_of_events {docs : Documents δ} {job : RepoJob δ}
    {s s' : RepoStore δ}
    (h : ∀ id, (s'.ledger id).events = (s.ledger id).events) :
    RepoActs docs job s s' := by
  cases job with
  | update scope id u => exact .inl h
  | create | begin' | complete => trivial

variable [DecidableEq δ] {docs : Documents δ} {E : EventStore (Committed δ)}

/-- The calls of operations and single updates keep no rule. -/
def repoTerms (docs : Documents δ) (E : EventStore (Committed δ)) :
    RepoTerms (repoCalls docs E) where
  rule := fun _ _ => True
  acts := RepoActs docs
  post := RepoPost docs
  acts_of_events := repoActs_of_events

theorem repoTerms_operationRules : OperationRules docs (repoTerms docs E) :=
  ⟨fun _ _ _ _ _ => trivial, fun _ _ => trivial, fun _ _ => trivial⟩

/-- Every call keeps the ledgers in order, from wherever it starts. -/
theorem wp_repoProgram {s s₀ : RepoStore δ} (job : RepoJob δ) :
    (repoContract docs (repoTerms docs E)).wp job (repoProgram docs job).run
      (fun s₀ s' r => RepoPost docs job s s₀ s' r) s₀ s := by
  cases job with
  | create request =>
    refine wp_createRequest ?_
    exact fun _ _ => trivial
  | begin' operation =>
    refine wp_beginOperation repoTerms_operationRules ?_
    exact fun _ _ => trivial
  | complete scope id progress now =>
    refine wp_completeOperation repoTerms_operationRules ?_
    exact fun _ _ => trivial
  | update scope id u =>
    exact wp_tryUpdate (fun t record _ _ hlength hupdated =>
      .inr ⟨hlength, record, hupdated⟩) fun _ _ _ _ _ _ => trivial

-- ===== the runs

section

variable (docs) (E)

abbrev RepoMove := Move (repoStorage docs E).system

abbrev RepoPool := Pool (repoStorage docs E).system

/-- The request store after a list of moves. -/
def requests (moves : List (RepoMove docs E)) : RepoPool docs E :=
  (Pool.init (S := (repoStorage docs E).system) RepoStore.empty).run moves

/-- What a run leaves of one request. -/
def stored (moves : List (RepoMove docs E)) (id : String) : Ledger δ :=
  (requests docs E moves).state.ledger id

end

theorem repoInv_empty {rule : Record δ → Record δ → Prop} : RepoInv docs rule .empty := by
  intro id
  refine ⟨?_, ?_, ?_, ?_, ?_, ?_, ?_, ?_, ?_, ?_, ?_, ?_⟩
  all_goals simp [RepoStore.empty, buildState]

variable {moves more : List (RepoMove docs E)} {id : String}

theorem requests_append : requests docs E (moves ++ more) = (requests docs E moves).run more :=
  Pool.run_append

theorem holds_requests_init : (repoContract docs (repoTerms docs E)).Holds
    (Pool.init (S := (repoStorage docs E).system) RepoStore.empty) :=
  Contract.holds_init repoInv_empty

/-- Every run is admitted: a call may start anywhere, and no call minds
what the others do. -/
theorem requests_admits (moves : List (RepoMove docs E)) :
    (repoContract docs (repoTerms docs E)).Admits (Pool.init RepoStore.empty) moves := by
  refine holds_requests_init.admits fun pre m post heq hpool => ⟨?_, ?_⟩
  · cases m with
    | start job => exact wp_repoProgram job
    | event checkpoints => exact ⟨hpool.inv, fun id => .refl _⟩
    | act | detach | land => trivial
  · exact fun _ _ _ _ _ => trivial

theorem requests_holds : (repoContract docs (repoTerms docs E)).Holds (requests docs E moves) :=
  holds_requests_init.run (requests_admits moves)

theorem requests_later : RepoLater (requests docs E moves).state
    (requests docs E (moves ++ more)).state := by
  rw [requests_append]
  exact requests_holds.run_later (requests_admits (moves ++ more)).right

-- ===== rows and streams

namespace LedgerInv

variable {rule : Record δ → Record δ → Prop} {L L' : Ledger δ}

/-- A committed record can be found. -/
theorem discovered (h : LedgerInv docs rule id L) {e : Committed δ}
    (he : e ∈ L.events) : ∃ row, L.rows.head? = some row ∧ row.scopeTag = e.record.request.scope ∧
      row.binding = e.record.request := by
  have hrows := h.found (List.ne_nil_of_mem he)
  cases hhead : L.rows with
  | nil => exact absurd hhead hrows
  | cons row rest =>
    have hmem : row ∈ L.rows := by simp [hhead]
    have hbinding := h.binding row hmem e he
    refine ⟨row, rfl, ?_, hbinding⟩
    rw [(h.bound row hmem).1, hbinding]

theorem row_le (h : LedgerInv docs rule id L) {row : IndexRow δ}
    (hrow : row ∈ L.rows) : row.revision ≤ L.events.length := by
  rcases h.visible row hrow with ⟨hzero, -⟩ | ⟨e, -, he, -⟩
  · omega
  · obtain ⟨hlt, -⟩ := List.getElem?_eq_some_iff.mp he
    omega

/-- A row that shows an end shows the end of the stream. -/
theorem row_terminal (h : LedgerInv docs rule id L) {row : IndexRow δ}
    (hrow : row ∈ L.rows) (hterminal : row.status.terminal = true) :
    ∃ e, L.events.getLast? = some e ∧ e.record.status = row.status := by
  rcases h.visible row hrow with ⟨-, hpending, -⟩ | ⟨e, hpos, he, hstatus, -⟩
  · rw [hpending] at hterminal
    cases hterminal
  · refine ⟨e, ?_, hstatus⟩
    have hlast := h.last_of_terminal he (hstatus ▸ hterminal)
    rw [List.getLast?_eq_getElem?, hlast]
    exact he

/-- The newest row is at no lower revision than any other. -/
theorem row_mono (h : LedgerInv docs rule id L') (hlater : LedgerLater L L')
    {row : IndexRow δ} (hrow : L.rows.head? = some row) :
    ∃ row', L'.rows.head? = some row' ∧ row.revision ≤ row'.revision := by
  have hmem : row ∈ L'.rows := hlater.rows.subset (List.mem_of_mem_head? hrow)
  cases hhead : L'.rows with
  | nil =>
    rw [hhead] at hmem
    cases hmem
  | cons row' rest =>
    refine ⟨row', rfl, ?_⟩
    have hgrows := h.grows
    rw [hhead] at hmem hgrows
    rcases List.mem_cons.mp hmem with rfl | hmem
    · exact Nat.le_refl _
    · exact Nat.le_of_lt ((List.pairwise_cons.mp hgrows).1 row hmem)

/-- A stream that has come to an end does not go on. -/
theorem events_final (h : LedgerInv docs rule id L) (h' : LedgerInv docs rule id L')
    (hlater : LedgerLater L L') {e : Committed δ}
    (he : L.events.getLast? = some e)
    (hterminal : e.record.status.terminal = true) :
    L'.events = L.events := by
  rw [List.getLast?_eq_getElem?] at he
  have hlength := h.last_of_terminal he hterminal
  have hlength' := h'.last_of_terminal (hlater.event he) hterminal
  exact (hlater.events.eq_of_length (by omega)).symm

end LedgerInv

-- ===== retries

/-- The same update: its progress may be written in another way. -/
structure SameUpdate (docs : Documents δ) (u u' : Update δ) : Prop where
  progress : docs.normalize u'.progress = docs.normalize u.progress
  rest : u' = { u with progress := u'.progress }

section

variable {scope : Scope} {u u' : Update δ} {record : Record δ}
variable {rule : Record δ → Record δ → Prop} {s : RepoStore δ}

omit [DecidableEq δ] in
theorem Updated.same (h : Updated docs scope id u s record)
    (hsame : SameUpdate docs u u') : Updated docs scope id u' s record := by
  obtain ⟨progress, previous, hprogress, hprevious, hrest⟩ := h.extends'
  have hargs := h.args
  have hcommitted := h.committed
  rw [hsame.rest]
  exact ⟨hargs, ⟨progress, previous, hsame.progress.trans hprogress, hprevious, hrest⟩, hcommitted⟩

/-- An operation of an update that is committed appends nothing. -/
theorem Updated.acts_nothing {s' : RepoStore δ} (h : Updated docs scope id u s record)
    (hacts : RepoActs docs (.update scope id u) s s') (id' : String) :
    (s'.ledger id').events = (s.ledger id').events := by
  rcases hacts with hsame | ⟨hlength, -⟩
  · exact hsame id'
  · obtain ⟨hlt, -⟩ := List.getElem?_eq_some_iff.mp h.committed
    omega

-- ------------------------------------------------- an update on its own

/-- The storage when every operation is performed and acknowledged. -/
def performed (E : EventStore (Committed δ)) (op : RepoOp δ) (s : RepoStore δ) :
    op.Answer × RepoStore δ :=
  RepoStore.exec E op .done s

theorem readIndex_alone (hinv : RepoInv docs rule s) {row : IndexRow δ}
    (hrow : (s.ledger id).rows.head? = some row) :
    (readIndex id).run.alone (performed E) s = (.ok (row, (s.ledger id).rows.length), s) := by
  have hread : (Repo.readRow id).run.alone (performed E) s =
      (.ok (row, (s.ledger id).rows.length), s) := by
    show (CloudState.readRow .done _, s) = _
    rw [hrow]
    rfl
  have hvalid := (hinv id).validRow (List.mem_of_mem_head? hrow)
  refine (Program.alone_run_bind hread).trans ?_
  rw [hvalid]
  rfl

theorem IsCommitted.row (h : IsCommitted s record) (hinv : RepoInv docs rule s) :
    ∃ row, (s.ledger record.request.id).rows.head? = some row := by
  obtain ⟨e, he, -⟩ := h
  obtain ⟨row, hrow, -⟩ := (hinv record.request.id).discovered (List.mem_of_getElem? he)
  exact ⟨row, hrow⟩

/-- The index of a committed record can be brought up to date. -/
theorem advanceIndex_alone (hinv : RepoInv docs rule s) (hcommitted : IsCommitted s record) :
    ∃ s', (advanceIndex record).run.alone (performed E) s = (.ok (), s') := by
  obtain ⟨row, hrow⟩ := hcommitted.row hinv
  have hmem := List.mem_of_mem_head? hrow
  obtain ⟨hbinding, hscope⟩ := hcommitted.bound hinv hmem
  unfold advanceIndex advanceIndexLoop
  rw [Program.alone_run_bind (readIndex_alone hinv hrow)]
  simp only [hbinding, hscope, ne_eq, not_true, or_self, if_false]
  by_cases hnewer : record.revision < row.revision
  · rw [if_pos hnewer]
    exact ⟨s, rfl⟩
  rw [if_neg hnewer]
  by_cases hsame : row.revision = record.revision
  · obtain ⟨hstatus, htime⟩ := hcommitted.shown hinv hmem hsame
    rw [if_pos hsame]
    simp only [hstatus, htime, not_true, or_self, if_false]
    exact ⟨s, rfl⟩
  rw [if_neg hsame]
  have hreplace : (Repo.replaceRow record.request.id (nextRow row record)
      (s.ledger record.request.id).rows.length).run.alone (performed E) s =
        (.ok (), s.pushRow record.request.id (nextRow row record)) := by
    show writeRow .done _ _ _ _ _ = _
    have hne := List.length_pos_of_mem hmem
    simp [writeRow, Nat.pos_iff_ne_zero.mp hne]
  rw [Program.alone_run_bind (Program.alone_run_observe hreplace)]
  exact ⟨_, rfl⟩

/-- A committed update that is repeated, with nothing failing and nobody
in between, returns its record. -/
theorem tryUpdate_alone (hinv : RepoInv docs rule s) (h : Updated docs scope id u s record) :
    ∃ s', (tryUpdate docs scope id u).run.alone (performed E) s = (.ok record, s') := by
  obtain ⟨progress, e, hprogress, he, hscope, hstatus, hafter, hfits, rfl⟩ := h.extends'
  have hpos : 0 < u.expectedRevision := by
    have := h.args
    omega
  have hgood := (hinv id).good e (List.mem_of_getElem? he)
  have hrevision : e.record.revision = u.expectedRevision := by
    have := (hinv id).revision _ _ he
    omega
  have hread : (readRevision id u.expectedRevision).run.alone (performed E) s =
      (.ok e.record, s) := by
    have hevents : (readEvents id).run.alone (performed E) s = (.ok (s.ledger id).events, s) := rfl
    refine (Program.alone_run_bind hevents).trans ?_
    rw [(hinv id).build, Ledger.take_getLast? hpos he]
    refine (Program.alone_run_bind (a := some e.record) rfl).trans ?_
    simp only [hgood.id_eq, hrevision, ne_eq, not_true, if_false]
    rfl
  obtain rfl := hgood.id_eq
  have hhere : (s.ledger e.record.request.id).events[
      (Update.next u progress e.record).revision - 1]? =
      some ⟨u.token, Update.next u progress e.record⟩ := by
    show (s.ledger e.record.request.id).events[ e.record.revision + 1 - 1]? = _
    rw [hrevision]
    exact h.committed
  have happend : (Repo.append (Update.next u progress e.record).request.id
      ((Update.next u progress e.record).revision - 1)
      ⟨u.token, Update.next u progress e.record⟩).run.alone (performed E) s = (.ok (), s) := by
    show RepoStore.append _ _ E _ _ _ = _
    exact RepoStore.append_there hhere
  have hcommitted : IsCommitted s (Update.next u progress e.record) := ⟨_, hhere, rfl⟩
  obtain ⟨s', hadvance⟩ := advanceIndex_alone hinv hcommitted
  refine ⟨s', ?_⟩
  unfold tryUpdate
  rw [if_neg h.args, hprogress]
  rw [Program.alone_run_bind (a := progress) rfl]
  rw [Program.alone_run_bind hread, if_neg (not_not.mpr hscope), hgood.loads]
  rw [Program.alone_run_bind (a := e.record) rfl]
  have hmove : ¬((!validTransition e.record.status u.status) = true ∨
      u.updatedAt < e.record.updatedAt) := by
    simp only [hstatus, Bool.not_true, Bool.false_eq_true, false_or]
    omega
  rw [if_neg hmove, if_neg (by simp [hfits])]
  unfold publish
  rw [Program.alone_run_bind happend]
  rw [Program.alone_run_bind (Program.alone_run_observe hadvance)]
  rfl

end

-- ===== every run

/-- A call of an update that began when it was committed answers with
its record, unless it fails. -/
theorem requests_again {scope : Scope} {u : Update δ} {record : Record δ}
    (h : Updated docs scope id u (requests docs E moves).state record)
    {i : Nat} {t : Thread (repoStorage docs E).system}
    {r : Except CloudError (Record δ)}
    (hi : (requests docs E moves).threads.length ≤ i)
    (ht : (requests docs E (moves ++ more)).threads[i]? = some t)
    (hjob : t.job = .update scope id u) (hr : t.result? = some r) :
    r = .ok record ∨ Unfinished r := by
  obtain ⟨s₀, s, hpost, -⟩ := requests_holds.returned t (List.mem_of_getElem? ht) r hr
  rw [requests_append] at ht
  have hsince : RepoLater (requests docs E moves).state t.since :=
    requests_holds.run_since (requests_admits (moves ++ more)).right hi ht
  rw [hjob] at hpost
  exact UpdatePost.again hpost record (h.mono hsince)

/-- The call that is made next has the next place. -/
theorem requests_start (moves : List (RepoMove docs E)) (job : RepoJob δ) :
    (requests docs E (moves ++ [.start job])).state = (requests docs E moves).state ∧
      (requests docs E (moves ++ [.start job])).threads[ (requests docs E moves).threads.length]? =
        some ⟨job, (requests docs E moves).state, (repoProgram docs job).run⟩ := by
  rw [requests_append]
  exact ⟨rfl, List.getElem?_concat_length⟩

/-- A committed update that is repeated on its own returns. -/
theorem requests_again_alone {scope : Scope} {u : Update δ}
    {record : Record δ}
    (h : Updated docs scope id u (requests docs E moves).state record) :
    ∃ n t, (requests docs E (moves ++ [.start (.update scope id u)] ++
        List.replicate n (.act (requests docs E moves).threads.length .done))
      ).threads[(requests docs E moves).threads.length]? = some t ∧
      t.result? = some (.ok record) := by
  obtain ⟨s', hs'⟩ := tryUpdate_alone requests_holds.inv h
  obtain ⟨hstate, hthread⟩ := requests_start moves (.update scope id u)
  obtain ⟨n, hn⟩ := Pool.run_alone Fate.done hthread
  rw [hstate] at hn
  rw [← requests_append] at hn
  refine ⟨n, _, hn, ?_⟩
  exact congrArg (some ∘ Prod.fst) hs'

/-- Discovery never hides unfinished work. After every run: a committed
record has a row with its scope and its binding; the row's revision is
at most the committed one and never goes down, and shows an end only if
the last committed record has it; a record that has come to an end does
not change any more. What an operation of an update appends, also one
that lands late, is the record of that update at a revision that was
still to come, and so is what an update returns. Once it is committed,
the same update answers with that record unless the storage fails or the
index is not up to date, answers with it if nobody interferes, and
appends nothing. -/
theorem discovery_never_hides_work (docs : Documents δ) (E : EventStore (Committed δ))
    (moves : List (RepoMove docs E)) :
    (∀ id, ∀ e ∈ (stored docs E moves id).events,
      ∃ row, (stored docs E moves id).rows.head? = some row ∧
        row.scopeTag = e.record.request.scope ∧ row.binding = e.record.request) ∧
    (∀ id row, (stored docs E moves id).rows.head? = some row →
      row.revision ≤ (stored docs E moves id).events.length ∧
      (row.status.terminal = true → ∃ e, (stored docs E moves id).events.getLast? = some e ∧
          e.record.status = row.status) ∧
      ∀ more, ∃ row', (stored docs E (moves ++ more) id).rows.head? = some row' ∧
          row.revision ≤ row'.revision) ∧
    (∀ id e, (stored docs E moves id).events.getLast? = some e → e.record.status.terminal = true →
      ∀ more, (stored docs E (moves ++ more) id).events = (stored docs E moves id).events) ∧
    (∀ scope id u record, ∀ t ∈ (requests docs E moves).threads,
      t.job = .update scope id u → t.result? = some (.ok record) →
      Updated docs scope id u (requests docs E moves).state record) ∧
    (∀ i t fate scope id u, (requests docs E moves).threads[i]? = some t →
      t.job = .update scope id u →
      RepoActs docs (.update scope id u) (requests docs E moves).state
        (requests docs E (moves ++ [.act i fate])).state) ∧
    (∀ k o fate scope id u, (requests docs E moves).orphans[k]? = some o →
      o.job = .update scope id u →
      RepoActs docs (.update scope id u) (requests docs E moves).state
        (requests docs E (moves ++ [.land k fate])).state) ∧
    ∀ scope id u record, Updated docs scope id u (requests docs E moves).state record →
      ∀ u', SameUpdate docs u u' → (∀ more i t r, (requests docs E moves).threads.length ≤ i →
          (requests docs E (moves ++ more)).threads[i]? = some t →
          t.job = .update scope id u' → t.result? = some r →
          r = .ok record ∨ Unfinished r) ∧
        (∃ n t, (requests docs E (moves ++ [.start (.update scope id u')] ++ List.replicate n
              (.act (requests docs E moves).threads.length .done))
          ).threads[(requests docs E moves).threads.length]? = some t ∧
          t.result? = some (.ok record)) ∧
        (∀ more i t fate, (requests docs E (moves ++ more)).threads[i]? = some t →
          t.job = .update scope id u' → ∀ id',
          (stored docs E (moves ++ more ++ [.act i fate]) id').events =
            (stored docs E (moves ++ more) id').events) ∧
        ∀ more k o fate, (requests docs E (moves ++ more)).orphans[k]? = some o →
          o.job = .update scope id u' → ∀ id',
          (stored docs E (moves ++ more ++ [.land k fate]) id').events =
            (stored docs E (moves ++ more) id').events := by
  have hact : ∀ {moves : List (RepoMove docs E)} {i t fate scope id u},
      (requests docs E moves).threads[i]? = some t →
      t.job = .update scope id u →
      RepoActs docs (.update scope id u) (requests docs E moves).state
        (requests docs E (moves ++ [.act i fate])).state := by
    intro moves i t fate scope id u ht hjob
    rw [requests_append, ← hjob]
    exact requests_holds.step_act ht
  have hland : ∀ {moves : List (RepoMove docs E)} {k o fate scope id u},
      (requests docs E moves).orphans[k]? = some o →
      o.job = .update scope id u →
      RepoActs docs (.update scope id u) (requests docs E moves).state
        (requests docs E (moves ++ [.land k fate])).state := by
    intro moves k o fate scope id u ho hjob
    rw [requests_append, ← hjob]
    exact requests_holds.step_land ho
  have hinv : ∀ {moves : List (RepoMove docs E)} (id : String),
      LedgerInv docs (repoTerms docs E).rule id (stored docs E moves id) :=
    fun id => requests_holds.inv id
  refine ⟨fun id e he => (hinv id).discovered he, ?_, ?_, ?_,
    fun i t fate scope id u => hact, fun k o fate scope id u => hland, ?_⟩
  · intro id row hrow
    have hmem := List.mem_of_mem_head? hrow
    exact ⟨(hinv id).row_le hmem, (hinv id).row_terminal hmem,
      fun more => (hinv id).row_mono (requests_later id) hrow⟩
  · intro id e he hterminal more
    exact (hinv id).events_final (hinv id) (requests_later id) he hterminal
  · intro scope id u record t ht hjob hr
    obtain ⟨s₀, s, hpost, hs⟩ := requests_holds.returned t ht _ hr
    rw [hjob] at hpost
    exact (UpdatePost.committed hpost record rfl).mono hs
  · intro scope id u record hupdated u' hsame
    have hagain := hupdated.same hsame
    refine ⟨fun more i t r => requests_again hagain, requests_again_alone hagain, ?_, ?_⟩
    · intro more i t fate ht hjob
      exact (hagain.mono requests_later).acts_nothing (hact ht hjob)
    · intro more k o fate ho hjob
      exact (hagain.mono requests_later).acts_nothing (hland ho hjob)

-- ===== one run

/-- The object with this one-digit version. -/
def versionObject (digit : UInt8) : Bytes :=
  0x7b :: Json.quote "version" ++ [0x3a, digit, 0x7d]

theorem objectJson_empty : objectJson [0x7b, 0x7d] = .ok [0x7b, 0x7d] := by decide +kernel

/-- Documents as they are stored, without handoffs. -/
def objectDocuments : Documents Bytes where
  normalize := objectJson
  normalize_idem := objectJson_idem
  empty := [0x7b, 0x7d]
  empty_normal := objectJson_empty
  started := versionObject 0x31
  fits := fun _ => true
  operationId := fun _ _ _ =>
    "llmtw_req_00000000-0000-4000-8000-000000000001"
  handoffChild := fun _ => .ok none
  linked := fun _ _ => false
  completeChild := fun _ _ => .ok none

/-- An event store that keeps its streams as lists. -/
def listStore {ε : Type} [DecidableEq ε] : EventStore ε where
  tryAppend fate events expected event :=
    if events[expected]? = some event then writeRow fate true .conflict () events events
    else writeRow fate (events.length == expected) .conflict () events (events ++ [event])
  lands fate events event := by simp
  repeats fate events expected event h := if_pos h
  conflicts fate events expected event hend hnot := by
    rw [if_neg hnot, beq_false_of_ne hend]
    cases fate <;> rfl

def oneScope : Scope := ⟨"tenant", "project"⟩

def oneId : String := "llmtw_req_00000000-0000-4000-8000-000000000001"

def stepUpdate : Update Bytes := ⟨2, "step", .running, versionObject 0x35, 20⟩

/-- The record that `stepUpdate` makes of the operation's. -/
def stepRecord : Record Bytes :=
  ⟨⟨oneId, oneScope, "generate", 0, versionObject 0x37, 10⟩, 3, .running, versionObject 0x35, 20⟩

/-- An operation begins. An update of it is appended, but its caller
does not learn of it; the operation is completed by somebody else. -/
def lostUpdateRun : List (RepoMove objectDocuments listStore) :=
  [.start (.begin' ⟨oneScope, "generate", "key", 0, versionObject 0x37, 10⟩)] ++
    List.replicate 10 (.act 0 .done) ++
    [.start (.update oneScope oneId stepUpdate), .act 1 .done, .act 1 .lost,
      .start (.complete oneScope oneId (versionObject 0x39) 30)] ++
    List.replicate 5 (.act 2 .done)

theorem updated_lostUpdateRun : Updated objectDocuments oneScope oneId
    stepUpdate (requests objectDocuments listStore lostUpdateRun).state
    stepRecord where
  args := by decide +kernel
  extends' := ⟨versionObject 0x35, ⟨"runtime-start",
    ⟨⟨oneId, oneScope, "generate", 0, versionObject 0x37, 10⟩, 2, .running, versionObject 0x31,
      10⟩⟩, by decide +kernel, by decide +kernel, rfl, rfl, by decide, rfl, rfl⟩
  committed := by decide +kernel

theorem discovery_never_hides_work_lostUpdateRun :
    (stored objectDocuments listStore lostUpdateRun oneId).events.length = 4 ∧
      ∃ n t, (requests objectDocuments listStore (lostUpdateRun ++
          [.start (.update oneScope oneId stepUpdate)] ++
          List.replicate n (.act (requests objectDocuments listStore
            lostUpdateRun).threads.length .done))).threads[
              (requests objectDocuments listStore lostUpdateRun).threads.length]? =
          some t ∧ t.result? = some (.ok stepRecord) :=
  ⟨by decide +kernel,
    ((discovery_never_hides_work objectDocuments listStore lostUpdateRun
      ).2.2.2.2.2.2 _ _ _ _ updated_lostUpdateRun stepUpdate ⟨rfl, rfl⟩).2.1⟩

end LlmTemporalWorker.CloudState
