/-
The ledger of one request: its committed records and its discovery row.

`LedgerInv` is what holds between the two stores at every moment, also
between the writes of one call: the stream is a chain of valid
transitions, every version of the row is one request's and shows a
committed revision, the versions only move up, and a stream that has
begun has a row. The four ways a ledger changes keep it.

A `rule` says what else holds between a committed record and the next.
It is up to the calls at work on the store: whoever knows all of them
knows a rule.
-/
import LlmTemporalWorker.CloudState.Repository

namespace LlmTemporalWorker.CloudState

open Lib Repo

variable {δ : Type}

/-- One committed record extends another. -/
structure Follows (p r : Record δ) : Prop where
  revision : r.revision = p.revision + 1
  bounded : r.revision ≤ maxRevisions
  request : r.request = p.request
  status : validTransition p.status r.status = true

/-- A record that the store's own checks accept. -/
structure GoodRecord [DecidableEq δ] (docs : Documents δ) (id : String)
    (r : Record δ) : Prop where
  id_eq : r.request.id = id
  id_valid : validRequestId id = true
  loads : loadRecord docs r = .ok r

/-- A record may be the next of a stream. -/
def Next (docs : Documents δ) (rule : Record δ → Record δ → Prop)
    (events : List (Committed δ)) (r : Record δ) : Prop :=
  match events.getLast? with
  | none => r = firstRecord docs r.request
  | some p => Follows p.record r ∧ rule p.record r

/-- A row shows a committed revision, or none yet. -/
def Shows (row : IndexRow δ) (events : List (Committed δ)) : Prop :=
  (row.revision = 0 ∧ row.status = .pending ∧ row.updatedAt = row.binding.createdAt) ∨
    ∃ e, 0 < row.revision ∧ events[row.revision - 1]? = some e ∧
      e.record.status = row.status ∧ e.record.updatedAt = row.updatedAt

/-- A request's ledger in order: revisions without gaps, each event a
lawful successor of the one before, and rows of one binding that show
committed revisions. -/
structure LedgerInv [DecidableEq δ] (docs : Documents δ)
    (rule : Record δ → Record δ → Prop) (id : String) (L : Ledger δ) :
    Prop where
  good : ∀ e ∈ L.events, GoodRecord docs id e.record
  revision : ∀ i e, L.events[i]? = some e → e.record.revision = i + 1
  follows : ∀ i e e', L.events[i]? = some e → L.events[i + 1]? = some e' →
    Follows e.record e'.record
  first : ∀ e, L.events[0]? = some e → e.record = firstRecord docs e.record.request
  ruled : ∀ i e e', L.events[i]? = some e → L.events[i + 1]? = some e' → rule e.record e'.record
  build : ∀ n, buildState none (L.events.take n) = .ok ((L.events.take n).getLast?.map (·.record))
  binding : ∀ row ∈ L.rows, ∀ e ∈ L.events, row.binding = e.record.request
  bound : ∀ row ∈ L.rows, row.scopeTag = row.binding.scope ∧
    row.binding.id = id ∧ normalizeRequest docs row.binding = .ok row.binding
  same : ∀ row ∈ L.rows, ∀ row' ∈ L.rows, row.binding = row'.binding
  visible : ∀ row ∈ L.rows, Shows row L.events
  grows : L.rows.Pairwise fun newer older => older.revision < newer.revision
  found : L.events ≠ [] → L.rows ≠ []

/-- The ledger of a request moves on: versions are added to the row,
events to the stream. -/
structure LedgerLater (L L' : Ledger δ) : Prop where
  rows : L.rows <:+ L'.rows
  events : L.events <+: L'.events

namespace LedgerLater

variable {L L' L'' : Ledger δ}

theorem refl (L : Ledger δ) : LedgerLater L L := ⟨List.suffix_refl _, List.prefix_refl _⟩

theorem trans (h : LedgerLater L L') (h' : LedgerLater L' L'') : LedgerLater L L'' :=
  ⟨h.rows.trans h'.rows, h.events.trans h'.events⟩

theorem event {i : Nat} {e : Committed δ} (h : LedgerLater L L')
    (he : L.events[i]? = some e) : L'.events[i]? = some e := by
  obtain ⟨rest, hrest⟩ := h.events
  obtain ⟨hi, -⟩ := List.getElem?_eq_some_iff.mp he
  rw [← hrest, List.getElem?_append_left hi]
  exact he

end LedgerLater

-- ===== the stream

variable [DecidableEq δ]

theorem buildState_append (events : List (Committed δ)) (e : Committed δ) (p : Option (Record δ)) :
    buildState p (events ++ [e]) = buildState p events >>= fun q => buildState q [e] := by
  induction events generalizing p with
  | nil => rfl
  | cons x events ih =>
    cases p with
    | none | some =>
      simp only [List.cons_append, buildState]
      split
      · rfl
      · exact ih _

/-- The checks on a stream accept a next record. -/
theorem buildState_next {docs : Documents δ}
    {rule : Record δ → Record δ → Prop} {id : String}
    {events : List (Committed δ)} {e : Committed δ}
    (hgood : GoodRecord docs id e.record)
    (hnext : Next docs rule events e.record) :
    buildState (events.getLast?.map (·.record)) [e] = .ok (some e.record) := by
  unfold Next at hnext
  cases hlast : events.getLast? with
  | none =>
    rw [hlast] at hnext
    have hrevision : e.record.revision = 1 := by rw [hnext]; rfl
    have hstatus : e.record.status = .pending := by rw [hnext]; rfl
    simp [buildState, hgood.id_eq, hgood.id_valid, hrevision, hstatus]
  | some p =>
    rw [hlast] at hnext
    replace hnext := hnext.1
    have hgood : ¬(e.record.revision ≠ p.record.revision + 1 ∨ maxRevisions < e.record.revision ∨
        e.record.request ≠ p.record.request ∨
        (!validTransition p.record.status e.record.status) = true) := by
      have hbounded := Nat.not_lt.mpr hnext.bounded
      simp [hnext.revision, hnext.request, hnext.status] at hbounded ⊢
      exact hbounded
    simp only [Option.map_some, buildState]
    rw [if_neg hgood]

omit [DecidableEq δ] in
theorem Next.of_last {docs : Documents δ}
    {rule : Record δ → Record δ → Prop} {events : List (Committed δ)} {r : Record δ}
    {p : Committed δ} (h : Next docs rule events r)
    (hp : events.getLast? = some p) :
    Follows p.record r ∧ rule p.record r := by
  unfold Next at h
  rw [hp] at h
  exact h

namespace LedgerInv

variable {docs : Documents δ} {rule : Record δ → Record δ → Prop}
variable {id : String} {L L' : Ledger δ}

variable {e : Committed δ}

theorem last_revision (h : LedgerInv docs rule id L) (he : L.events.getLast? = some e) :
    e.record.revision = L.events.length := by
  rw [List.getLast?_eq_getElem?] at he
  have hne : L.events ≠ [] := by
    rintro hnil
    simp [hnil] at he
  have hpos := List.length_pos_iff.mpr hne
  have := h.revision _ e he
  omega

omit [DecidableEq δ] in
/-- Two neighbours of a stream with one more event: two old ones, or the
last old one and the new one. -/
theorem pushed_pair {events : List (Committed δ)} {x y : Committed δ}
    {i : Nat} (hx : (events ++ [e])[i]? = some x)
    (hy : (events ++ [e])[i + 1]? = some y) :
    (events[i]? = some x ∧ events[i + 1]? = some y) ∨ events.getLast? = some x ∧ y = e := by
  by_cases hi : i + 1 < events.length
  · rw [List.getElem?_append_left hi] at hy
    rw [List.getElem?_append_left (by omega)] at hx
    exact .inl ⟨hx, hy⟩
  · rw [List.getElem?_append_right (Nat.le_of_not_lt hi)] at hy
    obtain ⟨hi', -⟩ := List.getElem?_eq_some_iff.mp hy
    have hi' : i + 1 - events.length < 1 := hi'
    have hlen : events.length = i + 1 := by omega
    rw [List.getElem?_append_left (by omega)] at hx
    refine .inr ⟨?_, List.mem_singleton.mp (List.mem_of_getElem? hy)⟩
    rw [List.getLast?_eq_getElem?, hlen]
    exact hx

/-- A committed record at the end of the stream. -/
theorem pushEvent (h : LedgerInv docs rule id L) (hgood : GoodRecord docs id e.record)
    (hnext : Next docs rule L.events e.record) (hfound : L.rows ≠ [])
    (hbinding : ∀ row ∈ L.rows, row.binding = e.record.request) :
    LedgerInv docs rule id { L with events := L.events ++ [e] } where
  good := by
    intro x hx
    rcases List.mem_append.mp hx with hx | hx
    · exact h.good x hx
    · obtain rfl := List.mem_singleton.mp hx
      exact hgood
  revision := by
    intro i x hx
    by_cases hi : i < L.events.length
    · rw [List.getElem?_append_left hi] at hx
      exact h.revision i x hx
    rw [List.getElem?_append_right (Nat.le_of_not_lt hi)] at hx
    obtain ⟨hi', rfl⟩ := List.getElem?_eq_some_iff.mp hx
    have hi' : i - L.events.length < 1 := hi'
    have hlen : i = L.events.length := by omega
    subst hlen
    simp only [Nat.sub_self, List.getElem_cons_zero]
    unfold Next at hnext
    cases hlast : L.events.getLast? with
    | none =>
      rw [hlast] at hnext
      rw [List.getLast?_eq_none_iff.mp hlast, hnext]
      rfl
    | some p =>
      rw [hlast] at hnext
      rw [hnext.1.revision, h.last_revision hlast]
  follows := fun i x y hx hy => by
    rcases pushed_pair hx hy with ⟨hx, hy⟩ | ⟨hlast, rfl⟩
    · exact h.follows i x y hx hy
    · exact (hnext.of_last hlast).1
  first := by
    intro x hx
    cases hevents : L.events with
    | nil =>
      rw [hevents] at hx hnext
      obtain rfl := Option.some.inj hx
      exact hnext
    | cons y rest =>
      rw [hevents] at hx
      exact h.first x (by rw [hevents]; exact hx)
  ruled := fun i x y hx hy => by
    rcases pushed_pair hx hy with ⟨hx, hy⟩ | ⟨hlast, rfl⟩
    · exact h.ruled i x y hx hy
    · exact (hnext.of_last hlast).2
  build := by
    intro n
    by_cases hn : n ≤ L.events.length
    · rw [List.take_append_of_le_length hn]
      exact h.build n
    have htake : (L.events ++ [e]).take n = L.events ++ [e] :=
      List.take_of_length_le (by simp; omega)
    have hall : buildState none L.events = .ok (L.events.getLast?.map (·.record)) := by
      have := h.build L.events.length
      rwa [List.take_length] at this
    rw [htake, buildState_append, hall]
    show buildState (L.events.getLast?.map (·.record)) [e] = _
    rw [buildState_next hgood hnext]
    simp
  binding := by
    intro row hrow x hx
    rcases List.mem_append.mp hx with hx | hx
    · exact h.binding row hrow x hx
    · obtain rfl := List.mem_singleton.mp hx
      exact hbinding row hrow
  bound := h.bound
  same := h.same
  visible := by
    intro row hrow
    rcases h.visible row hrow with hzero | ⟨x, hpos, hx, heq⟩
    · exact .inl hzero
    · refine .inr ⟨x, hpos, ?_, heq⟩
      obtain ⟨hi, -⟩ := List.getElem?_eq_some_iff.mp hx
      exact (List.getElem?_append_left hi).trans hx
  grows := h.grows
  found := fun _ => hfound

/-- The first row of a request. -/
theorem createRow (h : LedgerInv docs rule id L) (hempty : L.rows = [])
    {request : CreateRequest δ} (hid : request.id = id)
    (hnormal : normalizeRequest docs request = .ok request) :
    LedgerInv docs rule id { L with rows := newRow request :: L.rows } := by
  have hevents : L.events = [] := by
    by_contra hne
    exact h.found hne hempty
  have hrow : ∀ row ∈ newRow request :: L.rows, row = newRow request := by
    intro row hrow
    rw [hempty] at hrow
    exact List.mem_singleton.mp hrow
  refine ⟨h.good, h.revision, h.follows, h.first, h.ruled, h.build, ?_, ?_, ?_, ?_, ?_, ?_⟩
  · intro row _ e he
    rw [hevents] at he
    cases he
  · intro row hmem
    rw [hrow row hmem]
    exact ⟨rfl, hid, hnormal⟩
  · intro row hmem row' hmem'
    rw [hrow row hmem, hrow row' hmem']
  · intro row hmem
    rw [hrow row hmem]
    exact .inl ⟨rfl, rfl, rfl⟩
  · rw [hempty]
    exact List.pairwise_singleton _ _
  · exact fun _ => List.cons_ne_nil _ _

/-- The row moves up to a committed revision. -/
theorem replaceRow (h : LedgerInv docs rule id L) {row : IndexRow δ}
    (hrow : L.rows.head? = some row)
    (hrevision : row.revision < e.record.revision)
    (he : L.events[e.record.revision - 1]? = some e) :
    LedgerInv docs rule id
      { L with rows := nextRow row e.record :: L.rows } := by
  have hmem := List.mem_of_mem_head? hrow
  refine ⟨h.good, h.revision, h.follows, h.first, h.ruled, h.build, ?_, ?_, ?_, ?_, ?_, ?_⟩
  · intro x hx y hy
    rcases List.mem_cons.mp hx with rfl | hx
    · exact h.binding row hmem y hy
    · exact h.binding x hx y hy
  · exact List.forall_mem_cons.mpr ⟨h.bound row hmem, h.bound⟩
  · intro x hx y hy
    have hsame : ∀ z ∈ nextRow row e.record :: L.rows, z.binding = row.binding := by
      intro z hz
      rcases List.mem_cons.mp hz with rfl | hz
      · rfl
      · exact h.same z hz row hmem
    rw [hsame x hx, hsame y hy]
  · exact List.forall_mem_cons.mpr ⟨.inr ⟨e, Nat.zero_lt_of_lt hrevision, he, rfl, rfl⟩, h.visible⟩
  · refine List.pairwise_cons.mpr ⟨fun x hx => ?_, h.grows⟩
    have hle : x.revision ≤ row.revision := by
      cases hrows : L.rows with
      | nil =>
        rw [hrows] at hx
        cases hx
      | cons y rest =>
        have hgrows := h.grows
        rw [hrows] at hrow hx hgrows
        obtain rfl := Option.some.inj hrow
        rcases List.mem_cons.mp hx with rfl | hx
        · exact Nat.le_refl _
        · exact Nat.le_of_lt ((List.pairwise_cons.mp hgrows).1 x hx)
    exact Nat.lt_of_le_of_lt hle hrevision
  · exact fun _ => List.cons_ne_nil _ _

/-- A terminal record is the last of its stream. -/
theorem last_of_terminal (h : LedgerInv docs rule id L) {i : Nat} (he : L.events[i]? = some e)
    (hterminal : e.record.status.terminal = true) :
    L.events.length = i + 1 := by
  obtain ⟨hi, -⟩ := List.getElem?_eq_some_iff.mp he
  by_contra hne
  have hlt : i + 1 < L.events.length := by omega
  have hfollows := h.follows i e _ he (List.getElem?_eq_getElem hlt)
  rw [validTransition_not_terminal hfollows.status] at hterminal
  cases hterminal

end LedgerInv

end LlmTemporalWorker.CloudState
