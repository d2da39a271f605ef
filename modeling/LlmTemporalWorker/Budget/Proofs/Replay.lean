/-
Settlement batches: all or nothing, once, and forward only.

A batch that is not applied changes nothing. One that is applied leaves
all its events in the record, so the same batch finds them there
whenever it comes again, stages nothing and writes the record back as
it was. A finalized reservation is never touched again.

Revisions are compared with what the record holds, and the record holds
what `cjson` printed: fourteen significant digits. As long as every
event's revision is one that survives this (`revisionsKept`), revisions
only grow; a larger one may be read back as another number, or as none.
-/
import LlmTemporalWorker.Budget.Proofs.Conservation
import LlmTemporalWorker.Budget.Proofs.History

namespace LlmTemporalWorker.Budget

open Lib

-- ===== replay

variable {K K' : Keyspace} {r r' : Record} {b : Batch} {a : ReconcileArgs}
  {op : OperationKey} {c : TimedCall} {reply : Reply} {y : HeldReservation}
  {i : Nat}

/-- A batch that passed once passes again on any record that knows its
events, in any keyspace, and stages nothing. -/
theorem stageAll_replay {es : List Event} {b' c : Batch} (h : stageAll K r es b = .ok b')
    (hknown : ∀ e ∈ es, r'.events.lookup e.eventId = some e.fingerprint)
    (hcov : c.covered = b.covered)
    (hids : ∀ {id fp}, c.eventIds.lookup id = some fp → r'.events.lookup id = some fp) :
    ∃ c', stageAll K' r' es c = .ok c' ∧ c'.staged = c.staged := by
  induction es generalizing b c with
  | nil => exact ⟨c, rfl, rfl⟩
  | cons e rest ih =>
    rw [stageAll] at h
    cases hstep : stageEvent K r b e with
    | error reply =>
      rw [hstep] at h
      cases h
    | ok b₁ =>
      rw [hstep] at h
      obtain ⟨hbound, hfresh, hcov₁, -⟩ := stageEvent_ok hstep
      have hprior := hknown e List.mem_cons_self
      -- the event is known, to this batch or to the record
      have hagain : ∃ c₁, stageEvent K' r' c e = .ok c₁
          ∧ c₁.staged = c.staged ∧ c₁.covered = b₁.covered
          ∧ ∀ {id fp}, c₁.eventIds.lookup id = some fp → r'.events.lookup id = some fp := by
        rw [stageEvent, hbound, hcov]
        simp only [Bool.not_true, Bool.false_eq_true, if_false, if_neg hfresh]
        cases hlook : c.eventIds.lookup e.eventId with
        | some fp =>
          have hfp := hids hlook
          rw [hprior] at hfp
          obtain rfl := Option.some.inj hfp
          exact ⟨_, if_neg (by simp), rfl, hcov₁.symm, hids⟩
        | none =>
          rw [hprior]
          refine ⟨_, if_neg (by simp), rfl, hcov₁.symm, ?_⟩
          intro id fp hid
          rw [lookup_insert_eq] at hid
          split at hid
          · rename_i heq
            rw [heq, ← Option.some.inj hid]
            exact hprior
          · exact hids hid
      obtain ⟨c₁, hc₁, hstaged, hcov', hids'⟩ := hagain
      obtain ⟨c', hc', hstaged'⟩ := ih h
        (fun e' he' => hknown e' (List.mem_cons_of_mem _ he')) hcov'
        hids'
      refine ⟨c', ?_, hstaged'.trans hstaged⟩
      rw [stageAll, hc₁]
      exact hc'

theorem Evolves.reconcileRefusal (h : Evolves r r') (a : ReconcileArgs) :
    Budget.reconcileRefusal a r' = Budget.reconcileRefusal a r := by
  have hlen := h.reservations.length_eq
  have hempty : r'.reservations.isEmpty = r.reservations.isEmpty := by
    rw [Bool.eq_iff_iff, List.isEmpty_iff_length_eq_zero, List.isEmpty_iff_length_eq_zero, hlen]
  unfold Budget.reconcileRefusal Record.sized
  rw [h.generation, h.incarnation, h.operation, hempty, hlen]

/-- A batch that was applied, sent again to a later record. -/
theorem reconcile_again (hvalid : a.valid = true) (hadm : K'.admits a.authority = true)
    (href : Budget.reconcileRefusal a r = none)
    (hst : stageAll K r a.events ⟨[], ∅, []⟩ = .ok b)
    (hr' : K'.records.lookup a.key = some r') (hev : Evolves r r')
    (hknown : ∀ e ∈ a.events, r'.events.lookup e.eventId = some e.fingerprint) :
    durableReconcile a K' = (K'.setRecord a.key (durableEncode r'), .ok (durableEncode r')) := by
  obtain ⟨c', hc', hstaged⟩ : ∃ c',
      stageAll K' r' a.events ⟨[], ∅, []⟩ = .ok c' ∧ c'.staged = [] := by
    apply stageAll_replay hst hknown rfl
    intro id fp h
    cases h
  unfold durableReconcile
  rw [hadm, hvalid, hr']
  simp only [Bool.not_true, Bool.false_eq_true, if_false]
  rw [hev.reconcileRefusal, href, hc']
  dsimp only
  rw [commitBatch, hstaged]
  rfl

/-- Two keyspaces hold the same records, sums and members. -/
structure SameLedger (K K' : Keyspace) : Prop where
  records : ∀ op, K'.records.lookup op = K.records.lookup op
  hash : K'.hash = K.hash
  expiry : K'.expiry = K.expiry

/-- Writing a record back as it is. -/
theorem sameLedger_setRecord (hr : K.records.lookup op = some r) :
    SameLedger K (K.setRecord op r) := by
  refine ⟨?_, rfl, rfl⟩
  intro op'
  rw [records_setRecord, lookup_insert_eq]
  split
  · rename_i heq
    rw [heq, hr]
  · rfl

theorem Effect.admits (heff : Effect c K K' reply) (hK : Sound K)
    {envelope : Option String} (h : K.admits envelope = true) :
    K'.admits envelope = true := by
  cases envelope with
  | none => rfl
  | some m =>
    have hready : K.authority = some (.ready m) := of_decide_eq_true h
    exact decide_eq_true (heff.authority hK hready)

theorem admits_runAll (hK : Sound K) {envelope : Option String}
    (h : K.admits envelope = true) (calls : List TimedCall) :
    (runAll perform K calls).admits envelope = true := by
  refine (runAll_invariant (I := fun K' => Sound K' ∧ K'.admits envelope = true) ⟨hK, h⟩ ?_).2
  intro c _ K' h'
  exact ⟨h'.1.perform c, (h'.1.perform_effect c).admits h'.1 h'.2⟩

/-- A batch that was applied, sent again after any further calls. -/
theorem replays_of_ok (hK : Sound K) (henc : Encoded K)
    (hok : (durableReconcile a K).2 = .ok r) (mid : List TimedCall) :
    ∃ r', (durableReconcile a (runAll perform (durableReconcile a K).1 mid)).2 = .ok r'
      ∧ SameLedger (runAll perform (durableReconcile a K).1 mid) (durableReconcile a
          (runAll perform (durableReconcile a K).1 mid)).1 := by
  rcases durableReconcile_cases a K with
    ⟨reply, hres, hrefuse⟩ | ⟨r₀, b, hr₀, hvalid, hadm, href, hst, hb, hres⟩
  · rw [hres] at hok
    rw [show reply = .ok r from hok] at hrefuse
    cases hrefuse
  · have hcommit := commitBatch_of_sound hK hr₀ hb
    have heff := hK.perform_effect ⟨⟨0, 0⟩, .reconcile a⟩
    have hK₁ : Sound (durableReconcile a K).1 := hK.perform ⟨⟨0, 0⟩, .reconcile a⟩
    have henc₁ : Encoded (durableReconcile a K).1 := heff.encoded henc
    have hr₁ : (durableReconcile a K).1.records.lookup a.key
        = some (durableEncode (b.staged.foldl settleRecord r₀)) := by
      rw [hres, hcommit]
      exact lookup_setRecord_self ..
    have hev₁ := (hb.evolves (hK.wf hr₀)).encode (henc hr₀)
    obtain ⟨r', hr', hev⟩ := evolves_runAll hK₁ henc₁ hr₁ mid
    have hknown : ∀ e ∈ a.events, r'.events.lookup e.eventId = some e.fingerprint :=
      fun e he => hev.events (hb.adds_events he)
    have hadm' : (runAll perform (durableReconcile a K).1 mid).admits a.authority = true :=
      admits_runAll hK₁ (heff.admits hK hadm) mid
    have hagain := reconcile_again hvalid hadm' href hst hr' (hev₁.trans hev) hknown
    rw [(sound_runAll hK₁ henc₁ mid).2 hr'] at hagain
    rw [hagain]
    exact ⟨r', rfl, sameLedger_setRecord hr'⟩

-- ===== revisions

/-- The event's revision is stored as it is. -/
def Event.revisionKept (e : Event) : Bool :=
  cjsonNumber e.reservationRevision.toNat == e.reservationRevision.toNat

/-- All revisions a call may store are stored as they are. -/
def Call.revisionsKept : Call → Bool
  | .reconcile a => a.events.all Event.revisionKept
  | _ => true

/-- Stored revisions are ones that `durable_int` reads back. -/
def RevisionsSafe (K : Keyspace) : Prop :=
  ∀ {op r}, K.records.lookup op = some r → ∀ x ∈ r.reservations, x.reservationRevision ≤ maxSafe

/-- A reservation that changed has a higher revision. -/
def Revised (x y : HeldReservation) : Prop :=
  y = x ∨ x.reservationRevision < y.reservationRevision

theorem Revised.trans {x z : HeldReservation} (h : Revised x y)
    (h' : Revised y z) : Revised x z := by
  rcases h with rfl | h
  · exact h'
  · rcases h' with rfl | h'
    · exact Or.inr h
    · exact Or.inr (h.trans h')

/-- An applied event whose revision is kept. -/
theorem Transition.revised {claimed : Bool} {s : Staged}
    (h : Transition claimed s.reservation s.event s.newReserved
      s.newAccounted) (hkept : s.event.revisionKept = true)
    (hsafe : s.reservation.reservationRevision ≤ maxSafe) :
    s.reservation.reservationRevision < s.settled.encode.reservationRevision
      ∧ s.settled.encode.reservationRevision ≤ maxSafe := by
  obtain ⟨revision, hrev, hlt⟩ := h.revision
  obtain ⟨hcast, hle⟩ := durableInt_eq_some.mp hrev
  have hstored : s.settled.encode.reservationRevision = revision := by
    show cjsonNumber s.event.reservationRevision.toNat = revision
    rw [beq_iff_eq.mp hkept, hcast, Int.toNat_natCast]
  rw [durableInt_natCast hsafe, Option.getD_some] at hlt
  rw [hstored]
  exact ⟨hlt, hle⟩

theorem Batched.revised {es : List Event} (hb : Batched K r es b) (henc : durableEncode r = r)
    (hsafe : ∀ x ∈ r.reservations, x.reservationRevision ≤ maxSafe)
    (hkept : es.all Event.revisionKept = true) (hy : (durableEncode
      (b.staged.foldl settleRecord r)).reservations[i]? = some y) :
    ∃ x, r.reservations[i]? = some x ∧ Revised x y ∧ y.reservationRevision ≤ maxSafe := by
  obtain ⟨y₀, hy₀, rfl⟩ := getElem?_durableEncode hy
  rcases hb.settled_cases hy₀ with ⟨s, hs, -, rfl, rfl⟩ | ⟨-, hx⟩
  · have hlocated := (hb.items s hs).located
    have hrev := (hb.items s hs).transition.revised (List.all_eq_true.mp hkept _ (hb.fresh s hs).1)
      (hsafe _ (List.mem_of_getElem? hlocated))
    exact ⟨_, hlocated, Or.inr hrev.1, hrev.2⟩
  · have hmem := List.mem_of_getElem? hx
    rw [encode_of_durableEncode henc hmem]
    exact ⟨y₀, hx, Or.inl rfl, hsafe y₀ hmem⟩

/-- A reservation of a new record has revision one. -/
theorem Admitting.revision_le {now : Nat} {a : ReserveArgs} {st : Staging}
    (h : Admitting now K a.reservations K' st)
    (hy : (durableEncode (acceptedRecord a st)).reservations[i]? = some y) :
    y.reservationRevision ≤ maxSafe := by
  obtain ⟨x, hx, rfl⟩ := getElem?_durableEncode hy
  have hmem : x ∈ st.held := List.mem_of_getElem? hx
  obtain ⟨r, -, expires, windowExpiry, -, rfl⟩ := h.passed_of_mem hmem
  rw [HeldReservation.encode, Reservation.hold]
  dsimp only
  decide

/-- One call, from a stored reservation's point of view. -/
theorem Effect.revised (heff : Effect c K K' reply) (henc : Encoded K)
    (hsafe : RevisionsSafe K) (hkept : c.call.revisionsKept = true)
    (hr' : K'.records.lookup op = some r')
    (hy : r'.reservations[i]? = some y) :
    y.reservationRevision ≤ maxSafe ∧ ∀ {r}, K.records.lookup op = some r →
        ∃ x, r.reservations[i]? = some x ∧ Revised x y := by
  rcases heff.record op with hsame | ⟨r'', hr'', hw⟩
  · rw [hsame] at hr'
    refine ⟨hsafe hr' y (List.mem_of_getElem? hy), ?_⟩
    intro r₀ hr₀
    cases hr₀.symm.trans hr'
    exact ⟨y, hy, Or.inl rfl⟩
  cases hr''.symm.trans hr'
  cases hw with
  | accepted _ hnone hadm =>
    refine ⟨hadm.revision_le hy, ?_⟩
    intro r₀ hr₀
    cases hnone.symm.trans hr₀
  | claimed _ hr =>
    obtain ⟨x, hx, rfl⟩ := getElem?_durableEncode hy
    have hmem : x ∈ _ := List.mem_of_getElem? hx
    rw [encode_of_durableEncode (henc hr) hmem]
    refine ⟨hsafe hr x hmem, ?_⟩
    intro r₀ hr₀
    cases hr₀.symm.trans hr
    exact ⟨x, hx, Or.inl rfl⟩
  | settled hcall hr _ hb =>
    rw [hcall] at hkept
    obtain ⟨x, hx, hrev, hle⟩ := hb.revised (henc hr) (hsafe hr) hkept hy
    refine ⟨hle, ?_⟩
    intro r₀ hr₀
    cases hr₀.symm.trans hr
    exact ⟨x, hx, hrev⟩

theorem Effect.revisionsSafe (heff : Effect c K K' reply) (henc : Encoded K)
    (hsafe : RevisionsSafe K) (hkept : c.call.revisionsKept = true) :
    RevisionsSafe K' := by
  intro op r' hr' y hy
  obtain ⟨i, hi⟩ := List.mem_iff_getElem?.mp hy
  exact (heff.revised henc hsafe hkept hr' hi).1

theorem revisionsSafe_ledger {calls : List TimedCall}
    (hkept : ∀ c ∈ calls, c.call.revisionsKept = true) :
    RevisionsSafe (ledger calls) := by
  refine (runAll_invariant (I := fun K => Sound K ∧ Encoded K
    ∧ RevisionsSafe K) ⟨(sound_ledger []).1, (sound_ledger []).2, ?_⟩
    ?_).2.2
  · intro op r h
    cases h
  · rintro c hc K ⟨hK, henc, hsafe⟩
    have heff := hK.perform_effect c
    exact ⟨hK.perform c, heff.encoded henc, heff.revisionsSafe henc hsafe (hkept c hc)⟩

/-- What a run keeps about the record `r` stored under `op`. -/
structure KeptSince (op : OperationKey) (r : Record) (K : Keyspace) :
    Prop where
  sound : Sound K
  encoded : Encoded K
  safe : RevisionsSafe K
  present : ∃ r', K.records.lookup op = some r'
  revised : ∀ {r'}, K.records.lookup op = some r' → ∀ {i : Nat} {y}, r'.reservations[i]? = some y →
      ∃ x, r.reservations[i]? = some x ∧ Revised x y

theorem KeptSince.perform (h : KeptSince op r K) (hkept : c.call.revisionsKept = true) :
    KeptSince op r (Budget.perform c K).1 := by
  have heff := h.sound.perform_effect c
  obtain ⟨r₁, hr₁⟩ := h.present
  refine ⟨h.sound.perform c, heff.encoded h.encoded,
    heff.revisionsSafe h.encoded h.safe hkept, ?_, ?_⟩
  · obtain ⟨r₂, hr₂, -⟩ := heff.evolves h.sound h.encoded hr₁
    exact ⟨r₂, hr₂⟩
  · intro r₂ hr₂ i y hy
    obtain ⟨x₁, hx₁, hxy⟩ := (heff.revised h.encoded h.safe hkept hr₂ hy).2 hr₁
    obtain ⟨x, hx, hxx⟩ := h.revised hr₁ hx₁
    exact ⟨x, hx, hxx.trans hxy⟩

/-- Any two states of a run. -/
theorem keptSince_runAll (hK : Sound K) (henc : Encoded K)
    (hsafe : RevisionsSafe K) (hr : K.records.lookup op = some r)
    {mid : List TimedCall} (hkept : ∀ c ∈ mid, c.call.revisionsKept = true) :
    KeptSince op r (runAll perform K mid) := by
  refine runAll_invariant (I := KeptSince op r)
    ⟨hK, henc, hsafe, ⟨r, hr⟩, ?_⟩ fun c hc _ h => h.perform (hkept c hc)
  intro r₀ hr₀ i y hy
  obtain rfl : r₀ = r := Option.some.inj (hr₀.symm.trans hr)
  exact ⟨y, hy, Or.inl rfl⟩

-- ===== batches

/-- A batch that is not applied writes nothing. -/
theorem Sound.reconcile_refused (hK : Sound K) (h : ∀ r, (durableReconcile a K).2 ≠ .ok r) :
    (durableReconcile a K).1 = K := by
  rcases durableReconcile_cases a K with
    ⟨reply, hres, -⟩ | ⟨r, b, hr, -, -, -, -, hb, hres⟩
  · rw [hres]
  · refine absurd ?_ (h (durableEncode (b.staged.foldl settleRecord r)))
    rw [hres, commitBatch_of_sound hK hr hb]

/-- Each event of an applied batch raises the revision. -/
theorem Sound.applied_revision_lt (hK : Sound K) (hsafe : RevisionsSafe K)
    (hkept : a.events.all Event.revisionKept = true) {s : Staged}
    (hs : s ∈ appliedEvents a K) :
    ∃ r r' y, K.records.lookup a.key = some r ∧ r.reservations[s.index]? = some s.reservation
      ∧ (durableReconcile a K).1.records.lookup a.key = some r'
      ∧ r'.reservations[s.index]? = some y
      ∧ s.reservation.reservationRevision < y.reservationRevision := by
  obtain ⟨r', hok⟩ := exists_ok_of_mem_appliedEvents hs
  rcases durableReconcile_cases a K with
    ⟨reply, hres, hrefuse⟩ | ⟨r, b, hr, -, -, -, hst, hb, hres⟩
  · rw [hres] at hok
    rw [show reply = .ok r' from hok] at hrefuse
    cases hrefuse
  · rw [appliedEvents_of_ok hr hst hok] at hs
    have hitem := hb.items s hs
    have hrev := hitem.transition.revised (List.all_eq_true.mp hkept _ (hb.fresh s hs).1)
      (hsafe hr _ (List.mem_of_getElem? hitem.located))
    refine ⟨r, durableEncode (b.staged.foldl settleRecord r),
      s.settled.encode, hr, hitem.located, ?_, ?_, hrev.1⟩
    · rw [hres, commitBatch_of_sound hK hr hb]
      exact lookup_setRecord_self ..
    · show ((b.staged.foldl settleRecord r).reservations.map
        HeldReservation.encode)[s.index]? = some s.settled.encode
      rw [List.getElem?_map, getElem?_foldl_settleRecord hb.indices,
        find?_of_nodup hb.indices hs, hitem.located]
      rfl

/-- Settlement in every run: a batch is applied whole or not at all, an
applied batch may come again at any time and changes nothing, and
reservations only move forward, to the state they end in. -/
theorem settlement_atomic_replayable_forward (calls mid : List TimedCall)
    (t t' : RedisTime) (a : ReconcileArgs) :
    ((∀ r, answer calls ⟨t, .reconcile a⟩ ≠ .ok r) →
        ledger (calls ++ [⟨t, .reconcile a⟩]) = ledger calls)
      ∧ (∀ r, answer calls ⟨t, .reconcile a⟩ = .ok r →
        (∃ r', answer (calls ++ ⟨t, .reconcile a⟩ :: mid) ⟨t', .reconcile a⟩ = .ok r')
          ∧ SameLedger (ledger (calls ++ ⟨t, .reconcile a⟩ :: mid))
            (ledger (calls ++ ⟨t, .reconcile a⟩ :: mid ++ [⟨t', .reconcile a⟩])))
      ∧ (∀ op r (i : Nat) x, (ledger calls).records.lookup op = some r →
        r.reservations[i]? = some x → ∃ r' y, (ledger (calls ++ mid)).records.lookup op = some r'
            ∧ r'.reservations[i]? = some y
            ∧ (x.status = .finalized → y = x)
            ∧ ((∀ c ∈ calls ++ mid, c.call.revisionsKept = true) →
              y = x ∨ x.reservationRevision < y.reservationRevision))
      ∧ ((∀ c ∈ calls ++ [⟨t, .reconcile a⟩], c.call.revisionsKept = true) →
        ∀ s ∈ appliedEvents a (ledger calls), ∃ r r' y, (ledger calls).records.lookup a.key = some r
            ∧ r.reservations[s.index]? = some s.reservation
            ∧ (ledger (calls ++ [⟨t, .reconcile a⟩])).records.lookup a.key = some r'
            ∧ r'.reservations[s.index]? = some y
            ∧ s.reservation.reservationRevision < y.reservationRevision) := by
  obtain ⟨hK, henc⟩ := sound_ledger calls
  refine ⟨?_, ?_, ?_, ?_⟩
  · intro h
    rw [ledger_snoc]
    exact hK.reconcile_refused h
  · intro r hok
    have hrun : ledger (calls ++ ⟨t, .reconcile a⟩ :: mid)
        = runAll perform (durableReconcile a (ledger calls)).1 mid := by
      rw [ledger_cons, ledger_snoc]
      rfl
    obtain ⟨r', hok', hsame⟩ := replays_of_ok hK henc hok mid
    rw [ledger_snoc, answer, hrun]
    exact ⟨⟨r', hok'⟩, hsame⟩
  · intro op r i x hr hx
    have hrun : ledger (calls ++ mid) = runAll perform (ledger calls) mid := runAll_append
    obtain ⟨r', hr', hev⟩ := evolves_runAll hK henc hr mid
    obtain ⟨y, hy, hadv⟩ := getElem?_of_forall₂ hev.reservations hx
    rw [hrun]
    refine ⟨r', y, hr', hy, hadv.final, ?_⟩
    intro hkept
    have hsince := keptSince_runAll hK henc (revisionsSafe_ledger fun c hc =>
        hkept c (List.mem_append_left _ hc)) hr
      (fun c hc => hkept c (List.mem_append_right _ hc))
    obtain ⟨x', hx', hrev⟩ := hsince.revised hr' hy
    obtain rfl := Option.some.inj (hx'.symm.trans hx)
    exact hrev
  · intro hkept s hs
    rw [ledger_snoc]
    exact hK.applied_revision_lt (revisionsSafe_ledger fun c hc =>
        hkept c (List.mem_append_left _ hc))
      (hkept ⟨t, .reconcile a⟩ (by simp)) hs

def sampleEvent (event : String) (revision : Int) (kind : JournalKind)
    (decrease increase : Nat) : Event where
  eventId := event
  windowId := "daily"
  bucketStartNanos := 3600000000000
  reservationRevision := revision
  kind := kind
  reservedDecreaseNano := decrease
  accountedIncreaseNano := increase
  accountedDecreaseNano := 0
  fingerprint := sampleDigest

/-- The claimed operation is retained under a given revision. -/
def sampleRetain (revision : Int) : ReconcileArgs where
  generationId := "generation"
  incarnationId := "incarnation"
  operationId := "first"
  events := [sampleEvent "retain" revision .retainAmbiguous 0 0]
  authority := none

/-- Its cost turns out to be two of the three nano-USD reserved. -/
def sampleResolve (revision : Int) : ReconcileArgs :=
  { sampleRetain revision with
    events := [sampleEvent "resolve" revision .resolveUnknownExact 3 2] }

theorem settlement_atomic_replayable_forward_sample :
    (∀ c ∈ sampleCalls ++ [⟨⟨3603, 0⟩, .reconcile (sampleRetain 2)⟩], c.call.revisionsKept = true)
      ∧ (appliedEvents (sampleRetain 2) (ledger sampleCalls)).length = 1
      ∧ ∀ s ∈ appliedEvents (sampleRetain 2) (ledger sampleCalls), ∃ r r' y,
          (ledger sampleCalls).records.lookup (sampleRetain 2).key = some r
            ∧ r.reservations[s.index]? = some s.reservation
            ∧ (ledger (sampleCalls ++ [⟨⟨3603, 0⟩, .reconcile (sampleRetain 2)⟩])).records.lookup
              (sampleRetain 2).key = some r'
            ∧ r'.reservations[s.index]? = some y
            ∧ s.reservation.reservationRevision < y.reservationRevision := by
  have hkept : ∀ c ∈ sampleCalls ++ [⟨⟨3603, 0⟩, .reconcile (sampleRetain 2)⟩],
      c.call.revisionsKept = true := by decide +kernel
  exact ⟨hkept, by decide +kernel,
    (settlement_atomic_replayable_forward sampleCalls [] ⟨3603, 0⟩
      ⟨3604, 0⟩ (sampleRetain 2)).2.2.2 hkept⟩

/-- The revisions stored for the operation of the samples. -/
def sampleRevisions (calls : List TimedCall) : Option (List Nat) :=
  ((ledger calls).records.lookup ⟨"generation", "first"⟩).map
    fun r => r.reservations.map (·.reservationRevision)

/-- The largest safe revision is stored as a number above the safe
range, read back as none, and revision 2 is then accepted. -/
theorem stored_revision_falls : sampleRevisions (sampleCalls
        ++ [⟨⟨3603, 0⟩, .reconcile (sampleRetain 9007199254740991)⟩])
        = some [9007199254741000]
      ∧ sampleRevisions (sampleCalls ++ [⟨⟨3603, 0⟩, .reconcile (sampleRetain 9007199254740991)⟩,
          ⟨⟨3604, 0⟩, .reconcile (sampleResolve 2)⟩]) = some [2] := by
  decide +kernel

end LlmTemporalWorker.Budget
