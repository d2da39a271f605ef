/-
`durable_reconcile` under the ledger's invariants.

The record under settlement lives in a local of the Function until the
batch is done. The invariants are therefore carried through the
applying loop on the keyspace with that local stored, `K.setRecord op
r`: applying an event does not look at the stored records, so the two
keyspaces go through the same steps.

The staging loop keeps `Batched`: what it has collected so far is
verified, settles distinct reservations, and accounts for every event
read, as one the record has seen or as one that is staged.
-/
import LlmTemporalWorker.Budget.Proofs.Settlement

namespace LlmTemporalWorker.Budget

open Lib

-- ===== the applying loop

variable {items : List Staged} {K : Keyspace} {r : Record} {s : Staged}
  {op : OperationKey} {b b' : Batch} {e : Event} {done es : List Event}
  {reply : Reply} {x : HeldReservation}

/-- The applying loop, by what one turn keeps. -/
theorem applyAll_rule {C : Keyspace → Record → Prop} (hstep : ∀ {K r s}, C K r → ItemOk K r s →
      C (applyItem K r s).1 (settleRecord r s)) (hwf : RecordWf r)
    (hC : C K r) (hok : ∀ s ∈ items, ItemOk K r s)
    (hnd : (items.map Staged.index).Nodup) :
    (applyAll items K r).2 = some (items.foldl settleRecord r)
      ∧ C (applyAll items K r).1 (items.foldl settleRecord r) := by
  induction items generalizing K r with
  | nil => exact ⟨rfl, hC⟩
  | cons s rest ih =>
    rw [List.map_cons, List.nodup_cons] at hnd
    have hs := hok s List.mem_cons_self
    have happ : applyItem K r s = ((applyItem K r s).1, some (settleRecord r s)) :=
      Prod.ext rfl hs.applyItem_some
    rw [applyAll, happ, List.foldl_cons]
    refine ih (hwf.settle hs) (hstep hC hs) ?_ hnd.2
    intro s' hs'
    refine hs.of_applyItem hwf (hok s' (List.mem_cons_of_mem _ hs')) ?_
    intro he
    exact hnd.1 (he ▸ List.mem_map_of_mem hs')

/-- The record a batch leaves, reservation by reservation. -/
theorem getElem?_foldl_settleRecord (hnd : (items.map Staged.index).Nodup) (r : Record) (i : Nat) :
    (items.foldl settleRecord r).reservations[i]?
      = (items.find? (·.index == i)).elim r.reservations[i]?
        fun s => r.reservations[i]?.map fun _ => s.settled := by
  refine foldl_update (g := fun r i => r.reservations[i]?)
    (w := fun s x => x.map fun _ => s.settled) (fun r s i => ?_) hnd r i
  show (r.reservations.set s.index s.settled)[i]? = _
  split
  · rename_i hi
    rw [hi, List.getElem?_set_self']
    rfl
  · rename_i hi
    exact List.getElem?_set_ne (Ne.symm hi)

theorem hincrbyDropZero_setRecord (K : Keyspace) (op : OperationKey)
    (r : Record) (w : WindowKey) (b : Nat) (d : Int) :
    (K.setRecord op r).hincrbyDropZero w b d = (K.hincrbyDropZero w b d).setRecord op r := by
  unfold Keyspace.hincrbyDropZero
  dsimp only
  rw [show ((K.setRecord op r).hincrby w b d).sum w b = (K.hincrby w b d).sum w b from rfl]
  split <;> rfl

theorem dropCharge_setRecord (K : Keyspace) (op : OperationKey)
    (r : Record) (fp : String) (x : HeldReservation) :
    dropCharge (K.setRecord op r) fp x = (dropCharge K fp x).setRecord op r := by
  unfold dropCharge
  split
  · rw [hincrbyDropZero_setRecord]
    rfl
  · rfl

/-- Applying an event does not look at the stored records. -/
theorem applyItem_setRecord {r₀ : Record} (h : ItemOk K r s) : (applyItem (K.setRecord op r₀) r s).1
      = (applyItem K r s).1.setRecord op r₀ := by
  obtain ⟨score, hscore⟩ := h.balance.score
  rw [applyItem_fst hscore, applyItem_fst hscore]
  rw [dropCharge_setRecord]
  split
  · rfl
  · split <;> rfl

theorem ItemOk.setRecord {r₀ : Record} (h : ItemOk K r s) : ItemOk (K.setRecord op r₀) r s :=
  ⟨h.located, h.named, h.transition, h.balance.member, h.balance.score,
    h.balance.charged, h.balance.capped⟩

theorem setRecord_setRecord (K : Keyspace) (op : OperationKey) (r r' : Record) :
    (K.setRecord op r).setRecord op r' = K.setRecord op r' := by
  unfold Keyspace.setRecord
  rw [AList.insert_insert]

/-- A turn of the loop, read on the keyspace with the local stored. -/
theorem applyItem_virtual (h : ItemOk K r s) :
    (applyItem (K.setRecord op r) r s).1.setRecord op (settleRecord r s)
      = (applyItem K r s).1.setRecord op (settleRecord r s) := by
  rw [applyItem_setRecord h, setRecord_setRecord]

/-- Storing a record that says the same in other print changes no
book. -/
theorem slack_setRecord_book {r' : Record} (hr : K.records.lookup op = some r)
    (hb : SameBook r r') (w : WindowKey) (P : Nat → Bool) :
    slack (K.setRecord op r') w P = slack K w P := by
  rw [slack, retainedTotal_setRecord hr, hb.retainedIn, add_sub_cancel_right]
  rfl

theorem Sound.setRecord_book {r' : Record} (h : Sound K)
    (hr : K.records.lookup op = some r) (hb : SameBook r r') :
    Sound (K.setRecord op r') where
  wf := forall_setRecord (hb.recordWf (h.wf hr)) h.wf
  members := fun hm => h.members hm
  covered := fun w P => slack_setRecord_book hr hb w P ▸ h.covered w P
  capped := h.capped

theorem Exact.setRecord_book {owner : String → OperationKey} {r' : Record}
    (h : Exact owner K) (hr : K.records.lookup op = some r)
    (hb : SameBook r r') : Exact owner (K.setRecord op r') where
  toSound := h.toSound.setRecord_book hr hb
  owned := forall_setRecord (hb.fingerprint ▸ h.owned hr) h.owned
  backed := fun hm => (h.backed hm).setRecord rfl fun r'' hr'' => by
    cases hr''.symm.trans hr
    rintro ⟨x, hx, hmx, hkey, hpos, hret⟩
    obtain ⟨y, hy, hxy⟩ := hb.exists_book hx
    refine ⟨y, hy, ?_, hxy.key ▸ hkey, hxy.total ▸ hpos, ?_⟩
    · rw [hmx, hb.fingerprint, hxy.bucket, hxy.total]
    · rw [retained, ← hb.claimed, ← hxy.reserved]
      exact hret
  balanced := fun w P => slack_setRecord_book hr hb w P ▸ h.balanced w P

/-- A batch that was staged keeps the ledger sound. -/
theorem Sound.applyAll (h : Sound K) (hr : K.records.lookup op = some r)
    (hok : ∀ s ∈ items, ItemOk K r s) (hnd : (items.map Staged.index).Nodup) :
    (applyAll items K r).2 = some (items.foldl settleRecord r)
      ∧ Sound ((applyAll items K r).1.setRecord op
        (durableEncode (items.foldl settleRecord r))) := by
  have hrun := applyAll_rule (C := fun K r => Sound (K.setRecord op r)) (fun hC hs => by
      rw [← applyItem_virtual hs]
      exact hC.applyItem (lookup_setRecord_self ..) hs.setRecord)
    (h.wf hr) (h.setRecord_book hr (SameBook.refl r)) hok hnd
  refine ⟨hrun.1, ?_⟩
  have := hrun.2.setRecord_book (lookup_setRecord_self ..) (sameBook_encode _)
  rw [setRecord_setRecord] at this
  exact this

/-- A batch that was staged keeps the ledger exact. -/
theorem Exact.applyAll {owner : String → OperationKey} (h : Exact owner K)
    (hr : K.records.lookup op = some r) (hok : ∀ s ∈ items, ItemOk K r s)
    (hnd : (items.map Staged.index).Nodup) :
    Exact owner ((applyAll items K r).1.setRecord op
      (durableEncode (items.foldl settleRecord r))) := by
  have hrun := applyAll_rule (C := fun K r => Exact owner (K.setRecord op r)) (fun hC hs => by
      rw [← applyItem_virtual hs]
      exact hC.applyItem (lookup_setRecord_self ..) hs.setRecord)
    (h.wf hr) (h.setRecord_book hr (SameBook.refl r)) hok hnd
  have := hrun.2.setRecord_book (lookup_setRecord_self ..) (sameBook_encode _)
  rw [setRecord_setRecord] at this
  exact this

-- ===== the staging loop

/-- The staging loop's invariant, after the events `done`. -/
structure Batched (K : Keyspace) (r : Record) (done : List Event)
    (b : Batch) : Prop where
  items : ∀ s ∈ b.staged, ItemOk K r s
  indices : (b.staged.map Staged.index).Nodup
  fresh : ∀ s ∈ b.staged, s.event ∈ done ∧ r.events.lookup s.event.eventId = none
  known : ∀ e ∈ done, b.eventIds.lookup e.eventId = some e.fingerprint
  source : ∀ {id fp}, b.eventIds.lookup id = some fp → r.events.lookup id = some fp
      ∨ ∃ s ∈ b.staged, s.event.eventId = id ∧ s.event.fingerprint = fp
  ids : (b.staged.map fun s => s.event.eventId).Nodup

theorem Batched.start (K : Keyspace) (r : Record) : Batched K r [] ⟨[], ∅, []⟩ where
  items := fun _ hs => absurd hs List.not_mem_nil
  indices := List.nodup_nil
  fresh := fun _ hs => absurd hs List.not_mem_nil
  known := fun _ he => absurd he List.not_mem_nil
  source := fun h => by
    rw [AList.lookup_empty] at h
    cases h
  ids := List.nodup_nil

/-- What staging a new event has verified. -/
theorem stageNew_ok (h : stageNew K r b e = .ok s) :
    ItemOk K r s ∧ s.event = e ∧ s.index ∉ b.staged.map Staged.index := by
  unfold stageNew at h
  split at h
  · cases h
  · rename_i x index hnamed
    have hmem : (x, index) ∈ r.named e := by
      rw [hnamed]
      exact List.mem_singleton_self _
    obtain ⟨hzip, hnames⟩ := List.mem_filter.mp hmem
    have hloc : r.reservations[index]? = some x := List.mem_zipIdx_iff_getElem?.mp hzip
    split at h
    · cases h
    rename_i hfree
    split at h
    · cases h
    rename_i newReserved newAccounted htrans
    split at h
    · cases h
    rename_i hbal
    have hs := Except.ok.inj h
    subst hs
    have ht := stageTransition_ok htrans
    exact ⟨⟨hloc, hnames, ht, stageBalance_none ht.safe hbal⟩, rfl, hfree⟩
  · cases h

/-- What one turn of the staging loop does when it passes: the event is
known already, or it is staged. -/
theorem stageEvent_ok (h : stageEvent K r b e = .ok b') : e.bounded = true ∧ e.identity ∉ b.covered
      ∧ b'.covered = e.identity :: b.covered
      ∧ ((b.eventIds.lookup e.eventId = some e.fingerprint
          ∧ b'.staged = b.staged ∧ b'.eventIds = b.eventIds)
        ∨ (b.eventIds.lookup e.eventId = none
          ∧ b'.eventIds = b.eventIds.insert e.eventId e.fingerprint
          ∧ ((r.events.lookup e.eventId = some e.fingerprint ∧ b'.staged = b.staged)
            ∨ (r.events.lookup e.eventId = none ∧ ∃ s, stageNew K r b e = .ok s
                ∧ b'.staged = b.staged ++ [s])))) := by
  unfold stageEvent at h
  split at h
  · cases h
  rename_i hbound
  split at h
  · cases h
  rename_i hcov
  refine ⟨by simpa using hbound, hcov, ?_⟩
  split at h
  · rename_i fp hfp
    split at h
    · cases h
    rename_i heq
    have hb := Except.ok.inj h
    subst hb
    have heq' : fp = e.fingerprint := by simpa using heq
    exact ⟨rfl, Or.inl ⟨heq' ▸ hfp, rfl, rfl⟩⟩
  · rename_i hnone
    split at h
    · rename_i prior hprior
      split at h
      · cases h
      rename_i heq
      have hb := Except.ok.inj h
      subst hb
      have heq' : prior = e.fingerprint := by simpa using heq
      exact ⟨rfl, Or.inr ⟨hnone, rfl, Or.inl ⟨heq' ▸ hprior, rfl⟩⟩⟩
    · rename_i hprior
      split at h
      · cases h
      rename_i s hs
      have hb := Except.ok.inj h
      subst hb
      exact ⟨rfl, Or.inr ⟨hnone, rfl, Or.inr ⟨hprior, s, hs, rfl⟩⟩⟩

/-- An event the batch had not met is known afterwards, and only it. -/
private theorem known_insert (hknown : ∀ e' ∈ done,
      b.eventIds.lookup e'.eventId = some e'.fingerprint)
    (hnone : b.eventIds.lookup e.eventId = none) :
    ∀ e' ∈ done ++ [e], (b.eventIds.insert e.eventId e.fingerprint).lookup e'.eventId
        = some e'.fingerprint := by
  refine List.forall_mem_append.mpr ⟨fun e' he' => ?_, List.forall_mem_singleton.mpr ?_⟩
  · have := hknown e' he'
    rw [lookup_insert_eq, if_neg]
    · exact this
    · intro hid
      rw [hid, hnone] at this
      cases this
  · rw [lookup_insert_eq, if_pos rfl]

/-- One turn keeps the staging loop's invariant. -/
theorem Batched.step (h : Batched K r done b) (hstep : stageEvent K r b e = .ok b') :
    Batched K r (done ++ [e]) b' := by
  have hmono : ∀ s ∈ b.staged, s.event ∈ done ++ [e]
      ∧ r.events.lookup s.event.eventId = none := fun s hs =>
    ⟨List.mem_append_left _ (h.fresh s hs).1, (h.fresh s hs).2⟩
  obtain ⟨-, -, -, ⟨hid, hst, hids⟩ | ⟨hid, hids, hcase⟩⟩ := stageEvent_ok hstep
  · refine ⟨hst ▸ h.items, hst ▸ h.indices, hst ▸ hmono, ?_, ?_, hst ▸ h.ids⟩
    · rw [hids]
      exact List.forall_mem_append.mpr ⟨h.known, List.forall_mem_singleton.mpr hid⟩
    · rw [hids, hst]
      exact h.source
  · have hknown := known_insert h.known hid
    rw [← hids] at hknown
    rcases hcase with ⟨hprior, hst⟩ | ⟨hprior, s, hs, hst⟩
    · refine ⟨hst ▸ h.items, hst ▸ h.indices, hst ▸ hmono, hknown, ?_, hst ▸ h.ids⟩
      intro id fp hlook
      rw [hids, lookup_insert_eq] at hlook
      split at hlook
      · rename_i hide
        rw [hide, ← Option.some.inj hlook]
        exact Or.inl hprior
      · rw [hst]
        exact h.source hlook
    · obtain ⟨hok, hev, hidx⟩ := stageNew_ok hs
      refine ⟨?_, ?_, ?_, hknown, ?_, ?_⟩
      · rw [hst]
        exact List.forall_mem_append.mpr ⟨h.items, List.forall_mem_singleton.mpr hok⟩
      · rw [hst, List.map_append, List.nodup_append]
        exact ⟨h.indices, List.nodup_singleton _, fun i hi =>
          List.forall_mem_singleton.mpr fun hij => hidx (hij ▸ hi)⟩
      · rw [hst]
        refine List.forall_mem_append.mpr ⟨hmono, List.forall_mem_singleton.mpr ?_⟩
        rw [hev]
        exact ⟨List.mem_append_right _ (List.mem_singleton_self _), hprior⟩
      · intro id fp hlook
        rw [hids, lookup_insert_eq] at hlook
        rw [hst]
        split at hlook
        · rename_i hide
          refine Or.inr ⟨s, List.mem_append_right _ (List.mem_singleton_self _), ?_, ?_⟩
          · rw [hev, hide]
          · rw [hev]
            exact Option.some.inj hlook
        · rcases h.source hlook with hl | ⟨s', hs', h1, h2⟩
          · exact Or.inl hl
          · exact Or.inr ⟨s', List.mem_append_left _ hs', h1, h2⟩
      · rw [hst, List.map_append, List.nodup_append]
        refine ⟨h.ids, List.nodup_singleton _, List.forall_mem_map.mpr fun s' hs' =>
          List.forall_mem_singleton.mpr fun hij : s'.event.eventId = s.event.eventId => ?_⟩
        have := h.known _ (h.fresh s' hs').1
        rw [hij, hev, hid] at this
        cases this

/-- The staging loop keeps its invariant. -/
theorem Batched.all (h : Batched K r done b)
    (hall : stageAll K r es b = .ok b') : Batched K r (done ++ es) b' := by
  induction es generalizing done b with
  | nil =>
    have hb := Except.ok.inj hall
    subst hb
    rw [List.append_nil]
    exact h
  | cons e rest ih =>
    rw [stageAll] at hall
    split at hall
    · cases hall
    rename_i b₁ hstep
    have := ih (h.step hstep) hall
    rw [List.append_assoc] at this
    exact this

/-- A reservation of the record a batch leaves: settled by one of its
events, or the one that was there. -/
theorem Batched.settled_cases (hb : Batched K r es b) {i : Nat}
    {y : HeldReservation}
    (hy : (b.staged.foldl settleRecord r).reservations[i]? = some y) :
    (∃ s ∈ b.staged, b.staged.find? (·.index == i) = some s ∧ s.index = i ∧ y = s.settled)
      ∨ (b.staged.find? (·.index == i) = none ∧ r.reservations[i]? = some y) := by
  rw [getElem?_foldl_settleRecord hb.indices] at hy
  cases hfind : b.staged.find? (·.index == i) with
  | none =>
    rw [hfind] at hy
    exact Or.inr ⟨rfl, hy⟩
  | some s =>
    rw [hfind] at hy
    obtain ⟨_, -, rfl⟩ := Option.map_eq_some_iff.mp hy
    exact Or.inl ⟨s, List.mem_of_find?_eq_some hfind, rfl,
      beq_iff_eq.mp (List.find?_some hfind :), rfl⟩

/-- The events of the record a batch leaves. -/
theorem lookup_foldl_settleRecord (hnd : (items.map fun s => s.event.eventId).Nodup) (id : String) :
    (items.foldl settleRecord r).events.lookup id
      = (items.find? (·.event.eventId == id)).elim (r.events.lookup id)
        fun s => some s.event.fingerprint := by
  refine foldl_update (g := fun r id => r.events.lookup id)
    (w := fun s _ => some s.event.fingerprint) (fun r s id => ?_) hnd r id
  exact lookup_insert_eq ..

/-- A batch keeps the events the record had. -/
theorem Batched.keeps_events (hb : Batched K r es b) {id fp : String}
    (h : r.events.lookup id = some fp) :
    (b.staged.foldl settleRecord r).events.lookup id = some fp := by
  rw [lookup_foldl_settleRecord hb.ids]
  cases hfind : b.staged.find? (·.event.eventId == id) with
  | none => exact h
  | some s =>
    have hfresh := (hb.fresh s (List.mem_of_find?_eq_some hfind)).2
    rw [beq_iff_eq.mp (List.find?_some hfind :), h] at hfresh
    cases hfresh

/-- A batch adds its own events. -/
theorem Batched.adds_events (hb : Batched K r es b) (he : e ∈ es) :
    (b.staged.foldl settleRecord r).events.lookup e.eventId = some e.fingerprint := by
  rcases hb.source (hb.known e he) with hold | ⟨s, hs, hid, hfp⟩
  · exact hb.keeps_events hold
  · rw [lookup_foldl_settleRecord hb.ids]
    rw [← hid, find?_of_nodup hb.ids hs]
    exact congrArg some hfp

theorem getElem?_durableEncode {i : Nat} {y : HeldReservation}
    (hy : (durableEncode r).reservations[i]? = some y) :
    ∃ x, r.reservations[i]? = some x ∧ y = x.encode := by
  change (r.reservations.map HeldReservation.encode)[i]? = some y at hy
  rw [List.getElem?_map] at hy
  obtain ⟨x, hx, rfl⟩ := Option.map_eq_some_iff.mp hy
  exact ⟨x, hx, rfl⟩

-- ===== the action

theorem reconcileRefusal_refuses {a : ReconcileArgs} (h : reconcileRefusal a r = some reply) :
    reply.refuses = true := by
  unfold reconcileRefusal at h
  grind [Reply.refuses]

theorem kindVerdict_refuses (h : kindVerdict e x = some reply) : reply.refuses = true := by
  unfold kindVerdict at h
  grind [Reply.refuses]

theorem stageTransition_refuses {claimed : Bool} (h : stageTransition claimed x e = .error reply) :
    reply.refuses = true := by
  unfold stageTransition at h
  grind [Reply.refuses, kindVerdict_refuses]

theorem stageBalance_refuses {n : Nat}
    (h : stageBalance K r x n = some reply) : reply.refuses = true := by
  unfold stageBalance at h
  grind [Reply.refuses]

theorem stageNew_refuses (h : stageNew K r b e = .error reply) : reply.refuses = true := by
  unfold stageNew at h
  grind [Reply.refuses, stageTransition_refuses, stageBalance_refuses]

/-- Staging answers nothing that grants. -/
theorem stageEvent_refuses (h : stageEvent K r b e = .error reply) : reply.refuses = true := by
  unfold stageEvent at h
  grind [Reply.refuses, stageNew_refuses]

theorem stageAll_refuses (h : stageAll K r es b = .error reply) : reply.refuses = true := by
  induction es generalizing b with
  | nil => cases h
  | cons e rest ih =>
    rw [stageAll] at h
    split at h
    · rename_i hstep
      rw [← Except.error.inj h]
      exact stageEvent_refuses hstep
    · exact ih h

/-- Everything `durable_reconcile` can do: refuse and write nothing, or
apply a staged batch. -/
theorem durableReconcile_cases (a : ReconcileArgs) (K : Keyspace) :
    (∃ reply, durableReconcile a K = (K, reply) ∧ reply.refuses = true)
      ∨ ∃ r b, K.records.lookup a.key = some r ∧ a.valid = true
        ∧ K.admits a.authority = true ∧ reconcileRefusal a r = none
        ∧ stageAll K r a.events ⟨[], ∅, []⟩ = .ok b
        ∧ Batched K r a.events b
        ∧ durableReconcile a K = commitBatch a r b K := by
  unfold durableReconcile
  split
  · exact Or.inl ⟨_, rfl, rfl⟩
  rename_i hadm
  split
  · exact Or.inl ⟨_, rfl, rfl⟩
  rename_i hvalid
  split
  · exact Or.inl ⟨_, rfl, rfl⟩
  rename_i r hr
  split
  · rename_i reply href
    exact Or.inl ⟨_, rfl, reconcileRefusal_refuses href⟩
  rename_i href
  split
  · rename_i reply hst
    exact Or.inl ⟨_, rfl, stageAll_refuses hst⟩
  rename_i b hst
  exact Or.inr ⟨r, b, hr, by simpa using hvalid,
    by simpa using hadm, href, hst,
    (Batched.start K r).all hst, rfl⟩

/-- A staged batch is applied to its end in a sound ledger. -/
theorem commitBatch_of_sound (h : Sound K) {a : ReconcileArgs}
    (hr : K.records.lookup a.key = some r) (hb : Batched K r a.events b) :
    commitBatch a r b K = ((applyAll b.staged K r).1.setRecord a.key
          (durableEncode (b.staged.foldl settleRecord r)),
        .ok (durableEncode (b.staged.foldl settleRecord r))) := by
  have hall := (h.applyAll hr hb.items hb.indices).1
  unfold commitBatch
  rw [show applyAll b.staged K r = ((applyAll b.staged K r).1, some (b.staged.foldl settleRecord r))
    from Prod.ext rfl hall]

end LlmTemporalWorker.Budget
