/-
A recovery pass: merges in any order with any repetitions, then floors.

# Merges

A merge catches one operation up (`Caught`) and leaves every other one
alone, so after all of them every saved operation is caught up, whatever
the order. Operations are told apart by their keys and by the
fingerprints their expiry members carry.

# Floors

The floor pass adds up what the scan returned and raises every bucket to
it. The scan returns every field, so the buckets cover the ledger of
floors (`Floored`), and with it the charges it has noted.
-/
import LlmTemporalWorker.Budget.Recoverer
import LlmTemporalWorker.Budget.Proofs.Restore

namespace LlmTemporalWorker.Budget

open Lib

-- ===== one merge

/-- A merge that went through. -/
def MergeStep (t : RedisTime) (d : RecoveredOperation) (S S' : Recovery) :
    Prop :=
  ∃ i merges r, MergeRun t d S i merges ∧ MergeEffect i merges S S' r

/-- An operation is caught up with, and its live charges are noted. -/
def Caught (d : RecoveredOperation) (now : Nat) (S : Recovery) : Prop :=
  ∃ r, Restored d now r S.keyspace ∧ Noted d now r S.floors

/-- Two saved operations that cannot be mistaken for each other. -/
structure Apart (d d' : RecoveredOperation) : Prop where
  key : d.key ≠ d'.key
  fingerprint : d.fingerprint ≠ d'.fingerprint

section

variable {t : RedisTime} {d d' : RecoveredOperation} {S S' : Recovery}
variable {K K' : Keyspace} {r : Record} {now after : Nat}

theorem mergeStep_of_merges {marker token : String} {reply : Reply}
    (h : durableRecoverOperation t marker token d S = (S', reply))
    (hok : reply.merges = true) (hwf : StoredWf S.keyspace)
    (hsaved : SavedWf d) : MergeStep t d S S' := by
  rcases durableRecoverOperation_cases t marker token d S with
    ⟨reply', heq, hfail⟩ | ⟨i, merges, hrun, heq⟩
  · cases heq.symm.trans h
    cases hfail.symm.trans hok
  · obtain ⟨r, heff⟩ := hrun.effect hwf.encoded hsaved.places (heq.symm.trans h)
    exact ⟨i, merges, r, hrun, heff⟩

theorem Restored.congr (h : Restored d now r K)
    (hrec : K'.records.lookup d.key = K.records.lookup d.key)
    (hmem : ∀ {w : WindowKey} {m : Member}, m.fingerprint = d.fingerprint →
      K'.zscore w m = K.zscore w m) : Restored d now r K' := by
  refine ⟨hrec.trans h.stored, h.fingerprint, h.claimed, h.events, h.reservations, ?_⟩
  intro x hx
  obtain ⟨total, score, hcharge, hpresent⟩ := h.charges x hx
  refine ⟨total, score, hcharge, ?_⟩
  intro hsome
  rw [hmem rfl]
  exact hpresent hsome

theorem Restored.later (h : Restored d now r K) (hle : now ≤ after) : Restored d after r K := by
  refine ⟨h.stored, h.fingerprint, h.claimed, h.events, h.reservations, ?_⟩
  intro x hx
  obtain ⟨total, score, hcharge, hpresent⟩ := h.charges x hx
  rcases recoveryTarget_later hcharge hle with hsame | hended
  · exact ⟨total, score, hsame, hpresent⟩
  · refine ⟨0, none, hended, ?_⟩
    intro hsome
    cases hsome

/-- A charge that is live later is the same charge now. -/
theorem Restored.charge_earlier (h : Restored d now r K)
    (hle : now ≤ after) {x : HeldReservation} (hx : x ∈ r.reservations)
    {total : Nat} {score : Option Nat}
    (hcharge : d.charge r x after = some (total, score))
    (hpos : 0 < total) : d.charge r x now = some (total, score) := by
  obtain ⟨total', score', hnow, -⟩ := h.charges x hx
  rcases recoveryTarget_later hnow hle with hsame | hended
  · cases hsame.symm.trans hcharge
    exact hnow
  · cases hended.symm.trans hcharge
    cases hpos

theorem Caught.later (h : Caught d now S) (hle : now ≤ after) : Caught d after S := by
  obtain ⟨r, hres, hnoted⟩ := h
  refine ⟨r, hres.later hle, ?_⟩
  intro j x total score hx hcharge hpos
  exact hnoted hx (hres.charge_earlier hle (List.mem_of_getElem? hx) hcharge hpos) hpos

theorem MergeStep.caught (h : MergeStep t d S S') (hwf : StoredWf S.keyspace) (hsaved : SavedWf d)
    (htimes : TimesKept d) : Caught d t.millis S' := by
  obtain ⟨i, merges, r, hrun, heff⟩ := h
  rw [← hrun.now]
  exact ⟨r, hrun.restored hwf hsaved htimes heff, hrun.noted hwf hsaved htimes heff⟩

theorem MergeStep.storedWf (h : MergeStep t d S S')
    (hwf : StoredWf S.keyspace) (hsaved : SavedWf d) :
    StoredWf S'.keyspace := by
  obtain ⟨i, merges, r, hrun, heff⟩ := h
  exact hrun.storedWf hwf hsaved heff

variable {op : OperationKey}

theorem MergeStep.others (h : MergeStep t d S S') (hop : op ≠ d.key) :
    S'.keyspace.records.lookup op = S.keyspace.records.lookup op := by
  obtain ⟨i, merges, r, hrun, heff⟩ := h
  exact heff.others (hrun.saved ▸ hop)

theorem MergeStep.restored_other (h : MergeStep t d S S')
    (hapart : Apart d' d) (hres : Restored d' now r S.keyspace) :
    Restored d' now r S'.keyspace := by
  obtain ⟨i, merges, r', hrun, heff⟩ := h
  apply hres.congr
  · exact heff.others (hrun.saved ▸ hapart.key)
  · intro w m hm
    apply heff.members
    rw [hm, hrun.saved]
    exact hapart.fingerprint

theorem MergeStep.floors_other (h : MergeStep t d S S') (hop : op ≠ d.key) (j : Nat) :
    S'.floors.lookup (op, j) = S.floors.lookup (op, j) := by
  obtain ⟨i, merges, r', hrun, heff⟩ := h
  rw [heff.floors, lookup_foldl_writeFloor hrun.staged.nodup, hrun.saved, if_neg hop]

theorem MergeStep.caught_other (h : MergeStep t d S S')
    (hapart : Apart d' d) (hcaught : Caught d' now S) :
    Caught d' now S' := by
  obtain ⟨r, hres, hnoted⟩ := hcaught
  refine ⟨r, h.restored_other hapart hres, ?_⟩
  intro j x total score hx hcharge hpos
  rw [h.floors_other hapart.key]
  exact hnoted hx hcharge hpos

theorem MergeStep.authority (h : MergeStep t d S S') :
    S'.keyspace.authority = S.keyspace.authority := by
  obtain ⟨i, merges, r', hrun, heff⟩ := h
  exact heff.authority

/-- Where a record was, it is still, and not moved back. -/
theorem MergeStep.notBack (h : MergeStep t d S S') (hwf : StoredWf S.keyspace) (hsaved : SavedWf d)
    (hr : S.keyspace.records.lookup op = some r) :
    ∃ r', S'.keyspace.records.lookup op = some r' ∧ NotBack r r' := by
  by_cases hop : op = d.key
  · subst hop
    obtain ⟨i, merges, r', hrun, heff⟩ := h
    refine ⟨r', hrun.saved ▸ heff.stored, ?_⟩
    exact hrun.notBack hwf hsaved heff.merged (hrun.existing.trans hr)
  · exact ⟨r, (h.others hop).trans hr, NotBack.refl r⟩

theorem MergeStep.sourced (h : MergeStep t d S S') (hwf : StoredWf S.keyspace) {K₀ : Keyspace}
    (hsrc : ∀ {r₀}, S.keyspace.records.lookup d.key = some r₀ → Sourced K₀ d r₀) {r' : Record}
    (hr' : S'.keyspace.records.lookup d.key = some r') :
    Sourced K₀ d r' := by
  obtain ⟨i, merges, r, hrun, heff⟩ := h
  have hstored := heff.stored
  rw [hrun.saved] at hstored
  cases hstored.symm.trans hr'
  exact hrun.sourced hwf heff.merged fun hex =>
    hsrc (hrun.existing.symm.trans hex)

end

-- ===== all merges

/-- What the merges of a pass rely on of the saved operations. -/
structure SavedAll (ds : List RecoveredOperation) : Prop where
  wf : ∀ d ∈ ds, SavedWf d
  times : ∀ d ∈ ds, TimesKept d
  apart : ∀ d ∈ ds, ∀ d' ∈ ds, d ≠ d' → Apart d d'

/-- Every stored reservation of a saved operation has survived in `K₀`
or is the saved one. -/
def SourcedAll (K₀ : Keyspace) (ds : List RecoveredOperation) (K : Keyspace) : Prop :=
  ∀ d ∈ ds, ∀ {r}, K.records.lookup d.key = some r → Sourced K₀ d r

/-- What merges of saved operations make of a state, with every reading
up to `T`. -/
structure Progress (ds : List RecoveredOperation) (T : Nat)
    (S S' : Recovery) : Prop where
  storedWf : StoredWf S'.keyspace
  caught : ∀ d ∈ ds, Caught d T S → Caught d T S'
  notBack : ∀ {op r}, S.keyspace.records.lookup op = some r →
    ∃ r', S'.keyspace.records.lookup op = some r' ∧ NotBack r r'
  authority : S'.keyspace.authority = S.keyspace.authority
  sourced : ∀ {K₀}, SourcedAll K₀ ds S.keyspace → SourcedAll K₀ ds S'.keyspace

variable {ds : List RecoveredOperation} {T n : Nat} {S S' : Recovery}
  {marker token : String} {K : Keyspace} {w : WindowKey}
  {totals : FloorTotals} {scan : List (FloorField × Floor)}
  {order : FloorOrder}

theorem Progress.refl (hwf : StoredWf S.keyspace) : Progress ds T S S :=
  ⟨hwf, fun _ _ h => h, fun hr => ⟨_, hr, NotBack.refl _⟩, rfl, fun h => h⟩

theorem Progress.trans {S'' : Recovery} (h : Progress ds T S S')
    (h' : Progress ds T S' S'') : Progress ds T S S'' where
  storedWf := h'.storedWf
  caught := fun d hd hc => h'.caught d hd (h.caught d hd hc)
  notBack := by
    intro op r hr
    obtain ⟨r', hr', hback⟩ := h.notBack hr
    obtain ⟨r'', hr'', hback'⟩ := h'.notBack hr'
    exact ⟨r'', hr'', hback.trans hback'⟩
  authority := h'.authority.trans h.authority
  sourced := fun hs => h'.sourced (h.sourced hs)

theorem MergeStep.progress {t : RedisTime} {d : RecoveredOperation}
    (h : MergeStep t d S S') (hwf : StoredWf S.keyspace) (hds : SavedAll ds)
    (hd : d ∈ ds) (ht : t.millis ≤ T) :
    Progress ds T S S' ∧ Caught d T S' := by
  have hcaught := (h.caught hwf (hds.wf d hd) (hds.times d hd)).later ht
  refine ⟨⟨h.storedWf hwf (hds.wf d hd), ?_, h.notBack hwf (hds.wf d hd), h.authority, ?_⟩, hcaught⟩
  · intro d' hd' hc
    by_cases heq : d' = d
    · subst heq
      exact hcaught
    · exact h.caught_other (hds.apart d' hd' d hd heq) hc
  · intro K₀ hsrc d' hd' r hr
    by_cases heq : d' = d
    · subst heq
      exact h.sourced hwf (hsrc d' hd') hr
    · rw [h.others (hds.apart d' hd' d hd heq).key] at hr
      exact hsrc d' hd' hr

/-- After all merges every merged operation is caught up. -/
theorem mergeAll_progress (hds : SavedAll ds)
    {ms : List (RedisTime × RecoveredOperation)}
    (h : mergeAll marker token ms S = (S', true))
    (hwf : StoredWf S.keyspace) (hms : ∀ m ∈ ms, m.2 ∈ ds)
    (ht : ∀ m ∈ ms, m.1.millis ≤ T) :
    Progress ds T S S' ∧ ∀ m ∈ ms, Caught m.2 T S' := by
  induction ms generalizing S with
  | nil =>
    cases h
    exact ⟨Progress.refl hwf, nofun⟩
  | cons m rest ih =>
    obtain ⟨t, d⟩ := m
    have hd : d ∈ ds := hms (t, d) List.mem_cons_self
    rw [mergeAll] at h
    cases hstep : durableRecoverOperation t marker token d S with
    | mk S₁ reply =>
      rw [hstep] at h
      dsimp only at h
      split at h
      · rename_i hok
        have hmerge := mergeStep_of_merges hstep hok hwf (hds.wf d hd)
        obtain ⟨hprog, hcaught⟩ := hmerge.progress hwf hds hd (ht (t, d) List.mem_cons_self)
        obtain ⟨hprog', hrest⟩ := ih h hprog.storedWf
          (fun m hm => hms m (List.mem_cons_of_mem _ hm))
          (fun m hm => ht m (List.mem_cons_of_mem _ hm))
        refine ⟨hprog.trans hprog', ?_⟩
        exact List.forall_mem_cons.mpr ⟨hprog'.caught d hd hcaught, hrest⟩
      · cases h

-- ===== raising

/-- What raising buckets does: sums grow, nothing else changes. -/
structure Raised (K K' : Keyspace) : Prop where
  records : K'.records = K.records
  expiry : K'.expiry = K.expiry
  authority : K'.authority = K.authority
  sum_le : ∀ w b, K.sum w b ≤ K'.sum w b

theorem Raised.refl (K : Keyspace) : Raised K K := ⟨rfl, rfl, rfl, fun _ _ => le_rfl⟩

theorem Raised.trans {K' K'' : Keyspace} (h : Raised K K') (h' : Raised K' K'') : Raised K K'' :=
  ⟨h'.records.trans h.records, h'.expiry.trans h.expiry, h'.authority.trans h.authority,
    fun w b => (h.sum_le w b).trans (h'.sum_le w b)⟩

theorem sum_raiseBucket (w w' : WindowKey) (b : Nat) (K : Keyspace) (raise : RecoveryFloor × Nat) :
    (raiseBucket w K raise).sum w' b
      = K.sum w' b + if w' = w ∧ b = raise.1.bucket then (raise.2 : Int)
        else 0 := by
  unfold raiseBucket
  split
  · rename_i hzero
    simp [hzero]
  dsimp only
  split
  · rw [sum_hincrby]
  · rw [sum_hsetLimit, sum_hincrby]

theorem raised_raiseBucket (w : WindowKey) (K : Keyspace)
    (raise : RecoveryFloor × Nat) : Raised K (raiseBucket w K raise) := by
  have hframe : (raiseBucket w K raise).records = K.records
      ∧ (raiseBucket w K raise).expiry = K.expiry
      ∧ (raiseBucket w K raise).authority = K.authority := by
    unfold raiseBucket
    split
    · exact ⟨rfl, rfl, rfl⟩
    · dsimp only
      split <;> exact ⟨rfl, rfl, rfl⟩
  refine ⟨hframe.1, hframe.2.1, hframe.2.2, fun w' b => ?_⟩
  rw [sum_raiseBucket]
  split <;> omega

theorem raised_foldl (w : WindowKey) (raises : List (RecoveryFloor × Nat))
    (K : Keyspace) : Raised K (raises.foldl (raiseBucket w) K) := by
  induction raises generalizing K with
  | nil => exact Raised.refl K
  | cons raise rest ih => exact (raised_raiseBucket w K raise).trans (ih _)

/-- A raised bucket has gained its deficit. -/
theorem sum_foldl_raiseBucket {raises : List (RecoveryFloor × Nat)}
    {raise : RecoveryFloor × Nat} (hmem : raise ∈ raises) (K : Keyspace) :
    K.sum w raise.1.bucket + raise.2 ≤ (raises.foldl (raiseBucket w) K).sum w raise.1.bucket := by
  induction raises generalizing K with
  | nil => cases hmem
  | cons head rest ih =>
    rw [List.foldl_cons]
    rcases List.mem_cons.mp hmem with rfl | hmem
    · have hraise := sum_raiseBucket w w raise.1.bucket K raise
      rw [if_pos ⟨rfl, rfl⟩] at hraise
      rw [← hraise]
      exact (raised_foldl w rest _).sum_le ..
    · have := (raised_raiseBucket w K head).sum_le w raise.1.bucket
      have := ih hmem (raiseBucket w K head)
      omega

theorem floorDeficit_ok {f : RecoveryFloor} (h : floorDeficit K w f = .ok n) :
    ∃ sum : Nat, K.sum w f.bucket = sum ∧ n = f.floorNano - sum := by
  unfold floorDeficit at h
  split at h
  · cases h
  split at h
  · cases h
  rename_i sum hsum
  cases h
  exact ⟨sum, (durableInt_eq_some.mp hsum).1, rfl⟩

/-- What a floor call does, whatever it answers. -/
theorem durableRecoverFloor_cases (marker token : String) (w : WindowKey)
    (floors : List RecoveryFloor) (S : Recovery) :
    (∃ reply, durableRecoverFloor marker token w floors S = (S, reply) ∧ ∀ n, reply ≠ .raised n)
      ∨ ∃ deficits n, floors.mapM (floorDeficit S.keyspace w) = .ok deficits
        ∧ durableRecoverFloor marker token w floors S
          = ({ S with keyspace := (floors.zip deficits).foldl (raiseBucket w) S.keyspace },
            .raised n) := by
  unfold durableRecoverFloor
  split
  · exact Or.inl ⟨_, rfl, nofun⟩
  split
  · rename_i reply hfence
    refine Or.inl ⟨_, rfl, ?_⟩
    rintro n rfl
    unfold recoveryFence at hfence
    grind
  · split
    · exact Or.inl ⟨_, rfl, nofun⟩
    · split
      · rename_i reply hmap
        obtain ⟨f, -, hfail⟩ := mapM_error hmap
        refine Or.inl ⟨_, rfl, ?_⟩
        rintro n rfl
        unfold floorDeficit at hfail
        split at hfail
        · cases hfail
        · split at hfail <;> cases hfail
      · rename_i deficits hmap
        exact Or.inr ⟨deficits, _, hmap, rfl⟩

/-- A floor call only raises, and no bucket it lists is left below its
floor. -/
theorem durableRecoverFloor_raised {floors : List RecoveryFloor}
    (h : durableRecoverFloor marker token w floors S = (S', .raised n)) :
    Raised S.keyspace S'.keyspace ∧ S'.floors = S.floors
      ∧ ∀ f ∈ floors, (f.floorNano : Int) ≤ S'.keyspace.sum w f.bucket := by
  rcases durableRecoverFloor_cases marker token w floors S with
    ⟨reply, heq, hreply⟩ | ⟨deficits, n', hmap, heq⟩
  · cases heq.symm.trans h
    exact absurd rfl (hreply n)
  · cases heq.symm.trans h
    refine ⟨raised_foldl .., rfl, ?_⟩
    intro f hf
    have hall := mapM_ok hmap
    obtain ⟨j, hj⟩ := List.mem_iff_getElem?.mp hf
    obtain ⟨deficit, hdef, hok⟩ := getElem?_of_forall₂ hall hj
    have hzip : (f, deficit) ∈ floors.zip deficits := by
      apply List.mem_of_getElem? (i := j)
      rw [List.getElem?_zip_eq_some]
      exact ⟨hj, hdef⟩
    obtain ⟨sum, hsum, hdeficit⟩ := floorDeficit_ok hok
    have hgain := sum_foldl_raiseBucket (w := w) hzip S.keyspace
    dsimp only at hgain ⊢
    omega

/-- A floor call that asks for nothing new writes nothing. -/
theorem durableRecoverFloor_covered {floors : List RecoveryFloor}
    (h : ∀ f ∈ floors, (f.floorNano : Int) ≤ S.keyspace.sum w f.bucket) :
    (durableRecoverFloor marker token w floors S).1 = S := by
  rcases durableRecoverFloor_cases marker token w floors S with
    ⟨reply, heq, -⟩ | ⟨deficits, n, hmap, heq⟩
  · rw [heq]
  · rw [heq]
    have hzero : ∀ raise ∈ floors.zip deficits, raise.2 = 0 := by
      rintro ⟨f, deficit⟩ hmem
      have hok := (List.forall₂_iff_zip.mp (mapM_ok hmap)).2 hmem
      obtain ⟨sum, hsum, rfl⟩ := floorDeficit_ok hok
      have := h f (List.of_mem_zip hmem).1
      omega
    have hfold := foldl_keeps (f := raiseBucket w) (g := fun K => K) (fun K raise hraise => by
      rw [raiseBucket, if_pos (hzero raise hraise)]) S.keyspace
    rw [hfold]

/-- All floor calls of a pass. -/
theorem raiseAll_raised {chunks : List FloorChunk}
    (h : raiseAll marker token chunks S = (S', true)) :
    Raised S.keyspace S'.keyspace ∧ S'.floors = S.floors ∧ ∀ c ∈ chunks, ∀ f ∈ c.2,
        (f.floorNano : Int) ≤ S'.keyspace.sum c.1 f.bucket := by
  induction chunks generalizing S with
  | nil =>
    cases h
    exact ⟨Raised.refl _, rfl, nofun⟩
  | cons c rest ih =>
    rw [raiseAll] at h
    split at h
    · rename_i S₁ n hcall
      obtain ⟨hraised, hsame, hfloors⟩ := durableRecoverFloor_raised hcall
      obtain ⟨hraised', hsame', hfloors'⟩ := ih h
      refine ⟨hraised.trans hraised', hsame'.trans hsame, ?_⟩
      intro c hc f hf
      rcases List.mem_cons.mp hc with rfl | hc
      · exact (hfloors f hf).trans (hraised'.sum_le ..)
      · exact hfloors' c hc f hf
    · cases h

theorem raiseAll_covered {chunks : List FloorChunk} (h : ∀ c ∈ chunks, ∀ f ∈ c.2,
      (f.floorNano : Int) ≤ S.keyspace.sum c.1 f.bucket) :
    (raiseAll marker token chunks S).1 = S := by
  induction chunks with
  | nil => rfl
  | cons c rest ih =>
    obtain ⟨w, floors⟩ := c
    have hcall : (durableRecoverFloor marker token w floors S).1 = S :=
      durableRecoverFloor_covered (h (w, floors) List.mem_cons_self)
    rw [raiseAll]
    split
    · rename_i S₁ n heq
      rw [heq] at hcall
      cases hcall
      exact ih fun c hc => h c (List.mem_cons_of_mem _ hc)
    · rename_i S₁ reply _ heq
      rw [heq] at hcall
      exact hcall

-- ===== totals

/-- What a floor asks of a bucket. -/
def floorAt (w : WindowKey) (b : Nat) (f : Floor) : Int :=
  if f.key = w ∧ f.bucket = b then f.total else 0

theorem floorAt_nonneg (w : WindowKey) (b : Nat) (f : Floor) : 0 ≤ floorAt w b f := by
  unfold floorAt
  split <;> omega

/-- What the floor ledger asks of a bucket. -/
def floorSum (floors : FMap FloorField Floor) (w : WindowKey) (b : Nat) :
    Int :=
  total (fun _ f => floorAt w b f) floors

theorem addFloor_ok {totals' : FloorTotals} {f : Floor}
    (h : addFloor totals f = .ok totals') (w : WindowKey) (b : Nat) :
    (((totals'.lookup (w, b)).getD (0, 0)).1 : Int)
      = ((totals.lookup (w, b)).getD (0, 0)).1 + floorAt w b f := by
  unfold addFloor at h
  split at h
  · cases h
  dsimp only at h
  split at h
  · cases h
  cases h
  unfold floorAt
  rw [lookup_insert_eq]
  by_cases hwb : (w, b) = (f.key, f.bucket)
  · obtain ⟨rfl, rfl⟩ := Prod.mk.inj hwb
    simp
  have hne : ¬ (f.key = w ∧ f.bucket = b) := by
    rintro ⟨rfl, rfl⟩
    exact hwb rfl
  rw [if_neg hwb, if_neg hne]
  simp

theorem floorTotals_foldlM {totals' : FloorTotals}
    (h : scan.foldlM (fun acc e => addFloor acc e.2) totals = .ok totals')
    (w : WindowKey) (b : Nat) :
    (((totals'.lookup (w, b)).getD (0, 0)).1 : Int) = ((totals.lookup (w, b)).getD (0, 0)).1
        + (scan.map fun e => floorAt w b e.2).sum := by
  induction scan generalizing totals with
  | nil =>
    cases h
    simp
  | cons e rest ih =>
    obtain ⟨mid, hmid, h⟩ := bind_ok h
    rw [ih h, addFloor_ok hmid, List.map_cons, List.sum_cons]
    omega

/-- The totals are what the scan's entries come to. -/
theorem floorTotals_ok (h : floorTotals scan = .ok totals) (w : WindowKey) (b : Nat) :
    (((totals.lookup (w, b)).getD (0, 0)).1 : Int) = (scan.map fun e => floorAt w b e.2).sum := by
  rw [floorTotals_foldlM h w b]
  show ((0 : Nat) : Int) + _ = _
  simp

/-- A scan returns every field, so it comes to no less. -/
theorem Scanned.floorSum_le {floors : FMap FloorField Floor}
    (h : Scanned floors scan) (w : WindowKey) (b : Nat) :
    floorSum floors w b ≤ (scan.map fun e => floorAt w b e.2).sum := by
  have hnd : (floors.entries.map fun e => ((e.1, e.2) : FloorField × Floor)).Nodup := by
    apply List.Nodup.map_on _ floors.nodupKeys.nodup
    rintro ⟨k, f⟩ - ⟨k', f'⟩ - heq
    cases heq
    rfl
  have hsub : (floors.entries.map fun e => ((e.1, e.2) : FloorField × Floor)) ⊆ scan := by
    intro e he
    obtain ⟨⟨k, f⟩, hmem, rfl⟩ := List.mem_map.mp he
    exact h.complete (mem_entries_iff.mp hmem)
  obtain ⟨scan', hperm, hle⟩ := List.subperm_of_subset hnd hsub
  have hsum := (hle.map fun e => floorAt w b e.2).sum_le_sum (by
    intro n hn
    obtain ⟨e, -, rfl⟩ := List.mem_map.mp hn
    exact floorAt_nonneg w b e.2)
  rw [(hperm.map fun e => floorAt w b e.2).sum_eq, List.map_map] at hsum
  exact hsum

/-- Floors of distinct fields, each within its field of the ledger, come
to no more than the ledger. -/
theorem sum_scan_le {floors : FMap FloorField Floor} (hnd : (scan.map Prod.fst).Nodup)
    (hwithin : ∀ e ∈ scan, ∃ f, floors.lookup e.1 = some f
      ∧ f.key = e.2.key ∧ f.bucket = e.2.bucket ∧ e.2.total ≤ f.total)
    (w : WindowKey) (b : Nat) :
    (scan.map fun e => floorAt w b e.2).sum ≤ floorSum floors w b := by
  apply sum_map_le_total hnd
  · intro e he _
    obtain ⟨f, hf, hkey, hbucket, hle⟩ := hwithin e he
    refine ⟨f, hf, ?_⟩
    unfold floorAt
    rw [hkey, hbucket]
    split <;> omega
  · intro k f _
    exact floorAt_nonneg w b f

-- ===== floor pass

/-- The buckets hold what the floor ledger asks for. -/
def Floored (floors : FMap FloorField Floor) (K : Keyspace) : Prop :=
  ∀ w b, floorSum floors w b ≤ K.sum w b

theorem mem_chunks_iff (order : FloorOrder) (totals : FloorTotals)
    {b limit : Nat} :
    (∃ c ∈ order.chunks totals, c.1 = w ∧ (⟨b, n, limit⟩ : RecoveryFloor) ∈ c.2)
      ↔ totals.lookup (w, b) = some (n, limit) := by
  have hperm := (order.complete totals).mem_iff (a := ((w, b), n, limit))
  constructor
  · rintro ⟨c, hc, rfl, hf⟩
    have hmem := hperm.mp (List.mem_flatMap.mpr ⟨c, hc, List.mem_map.mpr ⟨_, hf, rfl⟩⟩)
    obtain ⟨⟨k, v⟩, he, heq⟩ := List.mem_map.mp hmem
    cases heq
    exact mem_entries_iff.mp he
  · intro hlookup
    have hmem := hperm.mpr (List.mem_map.mpr
      ⟨⟨(w, b), (n, limit)⟩, mem_entries_iff.mpr hlookup, rfl⟩)
    obtain ⟨c, hc, hfield⟩ := List.mem_flatMap.mp hmem
    obtain ⟨f, hf, heq⟩ := List.mem_map.mp hfield
    cases heq
    exact ⟨c, hc, rfl, hf⟩

theorem le_of_chunks (hpos : ∀ w b, 0 ≤ K.sum w b) (h : ∀ c ∈ order.chunks totals, ∀ f ∈ c.2,
      (f.floorNano : Int) ≤ K.sum c.1 f.bucket) (w : WindowKey) (b : Nat) :
    (((totals.lookup (w, b)).getD (0, 0)).1 : Int) ≤ K.sum w b := by
  cases hlookup : totals.lookup (w, b) with
  | none => exact hpos w b
  | some v =>
    obtain ⟨c, hc, rfl, hf⟩ := (mem_chunks_iff order totals).mpr hlookup
    exact h c hc _ hf

/-- A floor pass that went through. -/
theorem applyRecoveryFloors_ok (h : applyRecoveryFloors marker token scan order S = (S', true))
    (hscan : Scanned S.floors scan) (hpos : ∀ w b, 0 ≤ S.keyspace.sum w b) :
    Raised S.keyspace S'.keyspace ∧ S'.floors = S.floors ∧ Floored S.floors S'.keyspace := by
  unfold applyRecoveryFloors at h
  split at h
  · cases h
  rename_i totals htotals
  obtain ⟨hraised, hsame, hfloors⟩ := raiseAll_raised h
  refine ⟨hraised, hsame, ?_⟩
  intro w b
  calc floorSum S.floors w b
      ≤ (scan.map fun e => floorAt w b e.2).sum := hscan.floorSum_le w b
    _ = ((totals.lookup (w, b)).getD (0, 0)).1 := (floorTotals_ok htotals w b).symm
    _ ≤ S'.keyspace.sum w b := le_of_chunks
        (fun w b => (hpos w b).trans (hraised.sum_le w b)) hfloors w b

/-- A floor pass that finds nothing below its floor. -/
theorem applyRecoveryFloors_covered (h : ∀ w b,
      (scan.map fun e => floorAt w b e.2).sum ≤ S.keyspace.sum w b) :
    (applyRecoveryFloors marker token scan order S).1 = S := by
  unfold applyRecoveryFloors
  split
  · rfl
  rename_i totals htotals
  apply raiseAll_covered
  rintro c hc ⟨b, n, limit⟩ hf
  have hlookup : totals.lookup (c.1, b) = some (n, limit) :=
    (mem_chunks_iff order totals).mp ⟨c, hc, rfl, hf⟩
  have htotal := floorTotals_ok htotals c.1 b
  rw [hlookup] at htotal
  have hle := h c.1 b
  rw [← htotal] at hle
  exact hle

end LlmTemporalWorker.Budget
