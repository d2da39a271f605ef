/-
A ledger that lost keys, recovered and committed.

Any of the records, hashes and expiry sets of a reachable ledger may be
gone (`Survives`). A pass over all saved operations makes every bucket
cover the charges that are live at the commit, puts the members of
those charges back and moves no record back. What it has caught up with
it finds caught up, so a second pass has nothing to write but the floor
ledger, and nothing to raise: its floors are among those of the first.

That last step rests on the scan of the floor ledger. The totals are
sums over what the scan returned, so a field that comes back twice is
asked for twice (`second_scan_raises`).
-/
import LlmTemporalWorker.Budget.Proofs.Pass
import LlmTemporalWorker.Budget.Proofs.Rebuild
import LlmTemporalWorker.Budget.Proofs.Replay

namespace LlmTemporalWorker.Budget

open Lib

-- ===== leases in a ledger

/-- A positive number is stored as a positive number. -/
theorem one_le_cjsonNumber {n : Nat} (h : 1 ≤ n) : 1 ≤ cjsonNumber n :=
  le_roundSig (by decide) (by decide) (cjsonNumber_of_lt (by decide)) h

variable {K K' : Keyspace} {r : Record} {marker : String} {S S' : Recovery}
  {ds : List RecoveredOperation} {T : Nat}
  {scan : List (FloorField × Floor)}

theorem Admitting.leaseWf {now : Nat} {a : ReserveArgs} {st : Staging}
    (h : Admitting now K a.reservations K' st) :
    LeaseWf (durableEncode (acceptedRecord a st)) := by
  have hone : ∀ y ∈ (durableEncode (acceptedRecord a st)).reservations,
      y.reservationRevision = 1 := by
    intro y hy
    obtain ⟨x, hx, rfl⟩ := List.mem_map.mp hy
    obtain ⟨r, -, expires, windowExpiry, -, rfl⟩ := h.passed_of_mem hx
    rw [HeldReservation.encode, Reservation.hold]
    dsimp only
    rw [cjsonNumber_of_lt (by decide)]
  constructor
  · intro y hy
    exact (hone y hy).ge
  · intro _ y hy _
    exact hone y hy

/-- What a claim or a batch changes of the revisions and the leases. -/
theorem Batched.leaseWf {es : List Event} {b : Batch}
    (hb : Batched K r es b) (henc : durableEncode r = r) (h : LeaseWf r) :
    LeaseWf (durableEncode (b.staged.foldl settleRecord r)) := by
  have hclaimed : (durableEncode (b.staged.foldl settleRecord r)).claimed = r.claimed := by
    show (b.staged.foldl settleRecord r).claimed = r.claimed
    exact foldl_keeps (f := settleRecord) (g := Record.claimed) (fun _ _ _ => rfl) _
  -- a reservation of the new record is settled or was there
  have hcases : ∀ y ∈ (durableEncode (b.staged.foldl settleRecord r)).reservations,
      (∃ s ∈ b.staged, y = s.settled.encode) ∨ y ∈ r.reservations := by
    intro y hy
    obtain ⟨i, hi⟩ := List.mem_iff_getElem?.mp hy
    obtain ⟨y₀, hy₀, rfl⟩ := getElem?_durableEncode hi
    rcases hb.settled_cases hy₀ with ⟨s, hs, -, -, rfl⟩ | ⟨-, hx⟩
    · exact Or.inl ⟨s, hs, rfl⟩
    · have hmem := List.mem_of_getElem? hx
      rw [encode_of_durableEncode henc hmem]
      exact Or.inr hmem
  constructor
  · intro y hy
    rcases hcases y hy with ⟨s, hs, rfl⟩ | hmem
    · obtain ⟨revision, hrev, hlt⟩ := (hb.items s hs).transition.revision
      apply one_le_cjsonNumber
      obtain ⟨hcast, -⟩ := durableInt_eq_some.mp hrev
      show 1 ≤ s.event.reservationRevision.toNat
      omega
    · exact h.started y hmem
  · intro hunclaimed y hy hres
    rw [hclaimed] at hunclaimed
    rcases hcases y hy with ⟨s, hs, rfl⟩ | hmem
    · -- an unclaimed record is settled by releases only
      have htrans := (hb.items s hs).transition
      have hkind := htrans.claim.mpr hunclaimed
      have hzero := (htrans.replace (by rw [hkind]; decide)).1
      have : s.settled.encode.reservedNano = s.newReserved := rfl
      omega
    · exact h.leased hunclaimed y hmem hres

theorem leaseWf_claimed (henc : durableEncode r = r) (h : LeaseWf r) :
    LeaseWf (claimedRecord r) := by
  have hres : (claimedRecord r).reservations = r.reservations := by
    show (durableEncode r).reservations = r.reservations
    rw [henc]
  constructor
  · intro x hx
    rw [hres] at hx
    exact h.started x hx
  · intro hclaimed
    cases hclaimed

theorem Effect.leases {c : TimedCall} {reply : Reply}
    (heff : Effect c K K' reply) (henc : Encoded K)
    (h : ∀ {op r}, K.records.lookup op = some r → LeaseWf r)
    {op : OperationKey} (hr : K'.records.lookup op = some r) :
    LeaseWf r := by
  rcases heff.record op with hsame | ⟨r', hr', hw⟩
  · exact h (hsame.symm.trans hr)
  cases hr'.symm.trans hr
  cases hw with
  | accepted _ _ hadm => exact hadm.leaseWf
  | claimed _ hr₀ => exact leaseWf_claimed (henc hr₀) (h hr₀)
  | settled _ hr₀ _ hb => exact hb.leaseWf (henc hr₀) (h hr₀)

/-- Every reachable ledger is one that merges can rely on. -/
theorem storedWf_ledger (calls : List TimedCall) : StoredWf (ledger calls) := by
  have h : (Sound (ledger calls) ∧ Encoded (ledger calls))
      ∧ ∀ {op r}, (ledger calls).records.lookup op = some r → LeaseWf r :=
    runAll_invariant (I := fun K => (Sound K ∧ Encoded K)
      ∧ ∀ {op r}, K.records.lookup op = some r → LeaseWf r)
    ⟨⟨(exact_empty fun _ => ⟨"", ""⟩).toSound, encoded_empty⟩, nofun⟩
    fun c _ K hK => ⟨⟨hK.1.1.perform c, (hK.1.1.perform_effect c).encoded hK.1.2⟩,
      (hK.1.1.perform_effect c).leases hK.1.2 hK.2⟩
  exact ⟨h.1.2, h.2, h.1.1.sum_nonneg⟩

-- ===== what survives

/-- What is left of a keyspace: every record, hash and expiry set is
there as it was or not at all. The authority marker is arbitrary. -/
structure Survives (K K₀ : Keyspace) : Prop where
  records : ∀ op, K₀.records.lookup op = K.records.lookup op ∨ K₀.records.lookup op = none
  hashes : ∀ w, K₀.hash w = K.hash w ∨ K₀.hash w = ⟨∅, ∅⟩
  members : ∀ w, K₀.expiry w = K.expiry w ∨ K₀.expiry w = ∅

theorem Survives.record {K₀ : Keyspace} (h : Survives K K₀)
    {op : OperationKey} (hr : K₀.records.lookup op = some r) :
    K.records.lookup op = some r := by
  rcases h.records op with hsame | hnone
  · exact hsame.symm.trans hr
  · cases hnone.symm.trans hr

theorem Survives.storedWf {K₀ : Keyspace} (h : Survives K K₀) (hwf : StoredWf K) : StoredWf K₀ := by
  refine ⟨fun hr => hwf.encoded (h.record hr), fun hr => hwf.leases (h.record hr), ?_⟩
  intro w b
  rcases h.hashes w with hsame | hlost
  · rw [Keyspace.sum, hsame]
    exact hwf.nonneg w b
  · rw [Keyspace.sum, hlost]
    exact le_rfl

-- ===== passes

/-- The records, hashes and expiry sets are the same. -/
structure SameKeys (K K' : Keyspace) : Prop where
  records : K'.records = K.records
  hash : K'.hash = K.hash
  expiry : K'.expiry = K.expiry

theorem SameKeys.trans {K'' : Keyspace} (h : SameKeys K K') (h' : SameKeys K' K'') :
    SameKeys K K'' :=
  ⟨h'.records.trans h.records, h'.hash.trans h.hash, h'.expiry.trans h.expiry⟩

/-- A begin changes nothing, or fences the ledger off and clears the
disposable keys. -/
theorem recoverBegin_cases (marker : String) (force : Bool) (S : Recovery) :
    (∃ reply, recoverBegin marker force S = (S, reply) ∧ (reply = .recovering →
        markerValid marker = true ∧ S.keyspace.authority = some (.recovering marker)))
      ∨ markerValid marker = true ∧ recoverBegin marker force S
        = (⟨{ S.keyspace with authority := some (.recovering marker) }, S.lease, none, ∅⟩,
          .recovering) := by
  unfold recoverBegin
  split
  · exact .inl ⟨_, rfl, nofun⟩
  rename_i hvalid
  have hvalid : markerValid marker = true := by simpa using hvalid
  split
  · rename_i hauth
    exact .inl ⟨_, rfl, fun _ => ⟨hvalid, hauth⟩⟩
  split
  · exact .inl ⟨_, rfl, nofun⟩
  split
  · exact .inl ⟨_, rfl, nofun⟩
  · exact .inr ⟨hvalid, rfl⟩

theorem recoverBegin_same (marker : String) (force : Bool) (S : Recovery) :
    SameKeys S.keyspace (recoverBegin marker force S).1.keyspace := by
  rcases recoverBegin_cases marker force S with ⟨reply, h, -⟩ | ⟨-, h⟩ <;> rw [h] <;>
    exact ⟨rfl, rfl, rfl⟩

theorem recoverBegin_recovering {force : Bool} (h : (recoverBegin marker force S).2 = .recovering) :
    markerValid marker = true ∧ (recoverBegin marker force S).1.keyspace.authority
        = some (.recovering marker) := by
  rcases recoverBegin_cases marker force S with ⟨reply, heq, hreply⟩ | ⟨hvalid, heq⟩
  · rw [heq] at h ⊢
    exact hreply h
  · rw [heq]
    exact ⟨hvalid, rfl⟩

/-- A begin leaves no floors that were not there. -/
theorem recoverBegin_floors {force : Bool} (h : S.floors = ∅) :
    (recoverBegin marker force S).1.floors = ∅ := by
  rcases recoverBegin_cases marker force S with ⟨reply, heq, -⟩ | ⟨-, heq⟩ <;> rw [heq]
  exact h

theorem recoverCommit_floors (hvalid : markerValid marker = true)
    (hauth : S.keyspace.authority = some (.recovering marker)) :
    (recoverCommit marker true S).1.floors = ∅ := by
  unfold recoverCommit
  simp [hvalid, hauth]

theorem recoverCommit_same (marker : String) (permitted : Bool) (S : Recovery) :
    SameKeys S.keyspace (recoverCommit marker permitted S).1.keyspace := by
  unfold recoverCommit
  split
  · exact ⟨rfl, rfl, rfl⟩
  split
  · exact ⟨rfl, rfl, rfl⟩
  · split <;> exact ⟨rfl, rfl, rfl⟩

theorem StoredWf.congr (h : StoredWf K) (hsame : SameKeys K K') : StoredWf K' := by
  refine ⟨Encoded.of_records h.encoded hsame.records, ?_, ?_⟩
  · intro op r hr
    rw [hsame.records] at hr
    exact h.leases hr
  · intro w b
    rw [sum_congr hsame.hash]
    exact h.nonneg w b

/-- The pass merges the saved operations and nothing else, in any order
and any number of times. -/
def Pass.Merges (p : Pass) (ds : List RecoveredOperation) : Prop :=
  ∀ d, d ∈ ds ↔ ∃ t, (t, d) ∈ p.merges

/-- What a pass leaves before its commit. -/
structure PassDone (marker : String) (ds : List RecoveredOperation)
    (T : Nat) (S S' : Recovery) : Prop where
  valid : markerValid marker = true
  authority : S'.keyspace.authority = some (.recovering marker)
  caught : ∀ d ∈ ds, Caught d T S'
  floored : Floored S'.floors S'.keyspace
  notBack : ∀ {op r}, S.keyspace.records.lookup op = some r →
    ∃ r', S'.keyspace.records.lookup op = some r' ∧ NotBack r r'
  sourced : SourcedAll S.keyspace ds S'.keyspace

theorem Pass.floored_done {p : Pass} (hwf : StoredWf S.keyspace)
    (hds : SavedAll ds) (hmerges : p.Merges ds)
    (hdone : p.Completes marker S) (ht : ∀ m ∈ p.merges, m.1.millis ≤ T) :
    PassDone marker ds T S (p.floored marker S).1 := by
  have hbegin := recoverBegin_same marker p.force S
  have hmerged : mergeAll marker p.token p.merges
      (recoverBegin marker p.force S).1 = ((p.merged marker S).1, true) := by
    rw [← hdone.merges]
    rfl
  obtain ⟨hprog, hcaught⟩ := mergeAll_progress hds hmerged
    (hwf.congr hbegin) (fun m hm => (hmerges m.2).mpr ⟨m.1, hm⟩) ht
  have hfloors : applyRecoveryFloors marker p.token p.scan p.order
      (p.merged marker S).1 = ((p.floored marker S).1, true) := by
    rw [← hdone.floors]
    rfl
  obtain ⟨hraised, hsame, hfloored⟩ := applyRecoveryFloors_ok hfloors
    hdone.scanned hprog.storedWf.nonneg
  obtain ⟨hvalid, hauth⟩ := recoverBegin_recovering hdone.begins
  refine ⟨hvalid, ?_, ?_, ?_, ?_, ?_⟩
  · rw [hraised.authority, hprog.authority, hauth]
  · intro d hd
    obtain ⟨t, hm⟩ := (hmerges d).mp hd
    obtain ⟨r, hres, hnoted⟩ := hcaught (t, d) hm
    refine ⟨r, hres.congr (by rw [hraised.records]) ?_, ?_⟩
    · intro w m _
      exact zscore_congr hraised.expiry w m
    · rw [hsame]
      exact hnoted
  · rw [hsame]
    exact hfloored
  · intro op r hr
    rw [hraised.records]
    apply hprog.notBack
    rw [hbegin.records]
    exact hr
  · intro d hd r hr
    rw [hraised.records] at hr
    apply hprog.sourced _ d hd hr
    intro d' hd' r' hr' j x hx
    rw [hbegin.records] at hr'
    exact Or.inl ⟨r', hr', hx⟩

-- ===== once more

section

variable {t : RedisTime} {d : RecoveredOperation} {S S' : Recovery}
variable {i : MergeInput} {merges : List Merge} {r : Record}

/-- A merge of what is caught up keeps every reservation, with its
member. -/
theorem MergeRun.all_kept (h : MergeRun t d S i merges)
    (hres : Restored d i.now r S.keyspace) {m : Merge} (hm : m ∈ merges) :
    ∃ x live score, m.outcome = .keep x live none ∧ r.reservations[m.index]? = some x
      ∧ d.charge r x i.now = some (live, score)
      ∧ x.place = m.target.place := by
  have hex : i.existing = some r := h.existing.trans hres.stored
  have hstart : d.startByMillis.toNat = i.startBy := by
    rw [h.startBy_eq.1]
    rfl
  have hst := h.staged.staged m hm
  generalize hout : m.outcome = outcome at hst
  cases hst with
  | @kept r₀ x live score repair hex' hx hplace _ _ hlive _ hrepair =>
    cases hex.symm.trans hex'
    have hcharge : d.charge r x i.now = some (live, score) := by
      rw [RecoveredOperation.charge, hstart]
      exact hlive
    refine ⟨x, live, score, ?_, hx, hcharge, hplace⟩
    cases repair with
    | none => rfl
    | some rep =>
      -- the member that would be put back is there
      obtain ⟨s, member⟩ := rep
      obtain ⟨rfl, rfl, hnone⟩ := hrepair rfl
      obtain ⟨total, score', hcharge', hpresent⟩ := hres.charges x (List.mem_of_getElem? hx)
      cases hcharge'.symm.trans hcharge
      have := hpresent rfl
      rw [← hres.fingerprint, hnone] at this
      cases this
  | replaced hold _ _ _ _ =>
    exfalso
    rcases hold with ⟨hnone, -⟩ | ⟨r₀, x, hex', hx, -, -, hkeep, -⟩
    · cases hex.symm.trans hnone
    · cases hex.symm.trans hex'
      obtain ⟨j, hj⟩ := List.mem_iff_getElem?.mp hm
      have htarget : d.reservations[m.index]? = some m.target := by
        rw [h.staged.index_eq hj, ← h.saved, ← h.staged.targets, List.getElem?_map, hj]
        rfl
      obtain ⟨x', hx', hup⟩ := getElem?_of_forall₂ hres.reservations htarget
      cases hx.symm.trans hx'
      have hle := hup.revision
      unfold keeps at hkeep
      simp only [Bool.or_eq_false_iff, decide_eq_false_iff_not,
        Bool.and_eq_false_iff, beq_eq_false_iff_ne,
        Bool.not_eq_false'] at hkeep
      rcases hkeep.2 with hne | ⟨hunclaimed, hsaved⟩
      · omega
      · rw [h.saved] at hsaved
        rw [hres.claimed hsaved] at hunclaimed
        cases hunclaimed

/-- A merge of what is caught up writes floors and nothing else. -/
theorem MergeRun.unchanged (h : MergeRun t d S i merges)
    (hres : Restored d i.now r S.keyspace) : (writeMerge i merges S).1
      = { S with floors := merges.foldl (writeFloor d.key) S.floors } := by
  have hex : i.existing = some r := h.existing.trans hres.stored
  have hsame : mergeChanges i r merges = false := by
    unfold mergeChanges
    simp only [Bool.or_eq_false_iff, List.any_eq_false, and_assoc]
    refine ⟨?_, ?_, ?_⟩
    · intro m hm
      obtain ⟨x, live, score, hout, -⟩ := h.all_kept hres hm
      simp [hout]
    · rw [MergeInput.claimed, hex, h.saved]
      cases hd : d.claimed with
      | false => simp
      | true => simp [hres.claimed hd]
    · rintro ⟨id, fp⟩ he
      rw [h.saved] at he
      simp [hres.events (mem_entries_iff.mp he)]
  unfold writeMerge
  rw [hex, Option.any_some, hsame, h.saved]
  rfl

end

/-- A floor that stands for a charge of a saved operation, live at `T`
or later. -/
def LiveFloor (ds : List RecoveredOperation) (T : Nat) (K : Keyspace)
    (k : FloorField) (f : Floor) : Prop :=
  ∃ d ∈ ds, ∃ r x now score, T ≤ now ∧ k.1 = d.key
    ∧ K.records.lookup d.key = some r ∧ r.reservations[k.2]? = some x
    ∧ d.charge r x now = some (f.total, score) ∧ 0 < f.total
    ∧ f.key = x.key ∧ f.bucket = x.bucket

/-- Nothing has been written but the marker and floors that stand for
live charges. -/
structure Quiet (ds : List RecoveredOperation) (T : Nat) (K : Keyspace)
    (S : Recovery) : Prop where
  same : SameKeys K S.keyspace
  floors : ∀ {k f}, S.floors.lookup k = some f → LiveFloor ds T K k f

theorem Quiet.merge (hq : Quiet ds T K S) (hres : ∀ d ∈ ds, ∃ r, Restored d T r K) {t : RedisTime}
    (ht : T ≤ t.millis) {d : RecoveredOperation} (hd : d ∈ ds)
    (marker token : String) :
    Quiet ds T K (durableRecoverOperation t marker token d S).1 := by
  rcases durableRecoverOperation_cases t marker token d S with
    ⟨reply, heq, -⟩ | ⟨i, merges, hrun, heq⟩
  · rw [heq]
    exact hq
  · obtain ⟨r, hr⟩ := hres d hd
    have hnow : T ≤ i.now := hrun.now ▸ ht
    have hr' : Restored d i.now r S.keyspace :=
      (hr.later hnow).congr (by rw [hq.same.records]) (fun _ => zscore_congr hq.same.expiry ..)
    rw [heq, hrun.unchanged hr']
    refine ⟨hq.same, ?_⟩
    rintro ⟨op, j⟩ f hf
    rw [lookup_foldl_writeFloor hrun.staged.nodup] at hf
    split at hf
    · rename_i hop
      cases hfind : merges.find? (·.index == j) with
      | none => exact hq.floors (by rwa [hfind] at hf)
      | some m =>
        rw [hfind, Option.elim_some] at hf
        split at hf
        · rename_i hpos
          cases hf
          have hm := List.mem_of_find?_eq_some hfind
          have hindex : m.index = j := by
            simpa using List.find?_some hfind
          obtain ⟨x, live, score, hout, hx, hcharge, hplace⟩ := hrun.all_kept hr' hm
          have htotal : m.total = live := by
            rw [Merge.total, hout]
          refine ⟨d, hd, r, x, i.now, score, hnow, hop, hr.stored,
            hindex ▸ hx, htotal ▸ hcharge, hpos,
            (key_of_place hplace).symm, (bucket_of_place hplace).symm⟩
        · cases hf
    · exact hq.floors hf

theorem Quiet.mergeAll (hq : Quiet ds T K S) (hres : ∀ d ∈ ds, ∃ r, Restored d T r K)
    {ms : List (RedisTime × RecoveredOperation)}
    (hms : ∀ m ∈ ms, T ≤ m.1.millis ∧ m.2 ∈ ds) (marker token : String) :
    Quiet ds T K (mergeAll marker token ms S).1 := by
  induction ms generalizing S with
  | nil => exact hq
  | cons m rest ih =>
    obtain ⟨t, d⟩ := m
    obtain ⟨ht, hd⟩ := hms (t, d) List.mem_cons_self
    have hstep := hq.merge hres ht hd marker token
    rw [Budget.mergeAll]
    cases hcall : durableRecoverOperation t marker token d S with
    | mk S' reply =>
      rw [hcall] at hstep
      dsimp only at hstep ⊢
      split
      · exact ih hstep fun m hm => hms m (List.mem_cons_of_mem _ hm)
      · exact hstep

/-- Quiet floors are within the floors that noted the same charges. -/
theorem Quiet.scan_le (hq : Quiet ds T S.keyspace S')
    (hcaught : ∀ d ∈ ds, Caught d T S) (hscan : Scanned S'.floors scan)
    (hnd : scan.Nodup) (w : WindowKey) (b : Nat) :
    (scan.map fun e => floorAt w b e.2).sum ≤ floorSum S.floors w b := by
  apply sum_scan_le
  · apply List.Nodup.map_on _ hnd
    rintro ⟨k, f⟩ he ⟨k', f'⟩ he' heq
    obtain rfl : k = k' := heq
    cases (hscan.sound he).symm.trans (hscan.sound he')
    rfl
  · rintro ⟨⟨op, j⟩, f⟩ he
    obtain ⟨d, hd, r, x, now, score, hle, hop, hr, hx, hcharge, hpos, hkey,
      hbucket⟩ := hq.floors (hscan.sound he)
    obtain ⟨r', hres, hnoted⟩ := hcaught d hd
    cases hres.stored.symm.trans hr
    have hnow := hres.charge_earlier hle (List.mem_of_getElem? hx) hcharge hpos
    obtain ⟨f', hf', hkey', hbucket', htotal⟩ := hnoted hx hnow hpos
    refine ⟨f', ?_, hkey'.trans hkey.symm, hbucket'.trans hbucket.symm, htotal.ge⟩
    dsimp only at hop ⊢
    rw [hop]
    exact hf'

-- ===== live charges

/-- A reservation of a saved operation's record. -/
structure SavedCharge where
  saved : RecoveredOperation
  record : Record
  index : Nat
  reservation : HeldReservation

/-- What it holds at a time. -/
def SavedCharge.live (c : SavedCharge) (now : Nat) : Nat :=
  ((c.saved.charge c.record c.reservation now).getD (0, none)).1

/-- The reservations of all saved operations, as they are stored. -/
def savedCharges (ds : List RecoveredOperation) (K : Keyspace) : List SavedCharge :=
  ds.flatMap fun d =>
    match K.records.lookup d.key with
    | none => []
    | some r => r.reservations.zipIdx.map fun e => ⟨d, r, e.2, e.1⟩

/-- What the saved operations' charges that are live at `now` come to in
one bucket. -/
def liveSum (ds : List RecoveredOperation) (K : Keyspace) (now : Nat)
    (w : WindowKey) (b : Nat) : Int :=
  ((savedCharges ds K).map fun c =>
    if c.reservation.key = w ∧ c.reservation.bucket = b then
      (c.live now : Int) else 0).sum

theorem mem_savedCharges {c : SavedCharge} (h : c ∈ savedCharges ds K) :
    c.saved ∈ ds ∧ K.records.lookup c.saved.key = some c.record
      ∧ c.record.reservations[c.index]? = some c.reservation := by
  obtain ⟨d, hd, hc⟩ := List.mem_flatMap.mp h
  cases hr : K.records.lookup d.key with
  | none =>
    rw [hr] at hc
    cases hc
  | some r =>
    rw [hr] at hc
    obtain ⟨⟨x, j⟩, hx, rfl⟩ := List.mem_map.mp hc
    exact ⟨hd, hr, List.mem_zipIdx_iff_getElem?.mp hx⟩

theorem savedCharges_nodup (hkeys : (ds.map RecoveredOperation.key).Nodup) (K : Keyspace) :
    ((savedCharges ds K).map fun c =>
      ((c.saved.key, c.index) : FloorField)).Nodup := by
  unfold savedCharges
  rw [List.map_flatMap, List.nodup_flatMap]
  constructor
  · intro d _
    cases K.records.lookup d.key with
    | none => exact List.nodup_nil
    | some r =>
      rw [List.map_map]
      have hindex : (r.reservations.zipIdx.map Prod.snd).Nodup := by
        rw [List.zipIdx_map_snd]
        exact List.nodup_range'
      have hmap := hindex.map (f := fun j => (d.key, j)) (fun j j' h => congrArg Prod.snd h)
      rw [List.map_map] at hmap
      exact hmap
  · refine (List.pairwise_map.mp hkeys).imp ?_
    intro d d' hne k hk hk'
    have hkey : ∀ {d : RecoveredOperation}, k ∈ List.map
        (fun c : SavedCharge => ((c.saved.key, c.index) : FloorField))
        (match K.records.lookup d.key with
          | none => []
          | some r => r.reservations.zipIdx.map fun e => ⟨d, r, e.2, e.1⟩) →
        k.1 = d.key := by
      intro d hmem
      cases hr : K.records.lookup d.key with
      | none =>
        rw [hr] at hmem
        cases hmem
      | some r =>
        rw [hr] at hmem
        obtain ⟨c, hc, rfl⟩ := List.mem_map.mp hmem
        obtain ⟨e, -, rfl⟩ := List.mem_map.mp hc
        rfl
    exact hne ((hkey hk).symm.trans (hkey hk'))

/-- The floor ledger has noted the live charges. -/
theorem liveSum_le_floorSum (hkeys : (ds.map RecoveredOperation.key).Nodup)
    (hcaught : ∀ d ∈ ds, Caught d T S) (w : WindowKey) (b : Nat) :
    liveSum ds S.keyspace T w b ≤ floorSum S.floors w b := by
  apply sum_map_le_total (savedCharges_nodup hkeys S.keyspace)
  · intro c hc hpos
    obtain ⟨hd, hr, hx⟩ := mem_savedCharges hc
    obtain ⟨r, hres, hnoted⟩ := hcaught c.saved hd
    cases hres.stored.symm.trans hr
    obtain ⟨total, score, hcharge, -⟩ := hres.charges c.reservation (List.mem_of_getElem? hx)
    have hlive : c.live T = total := by
      rw [SavedCharge.live, hcharge]
      rfl
    split at hpos
    · rename_i hplace
      rw [hlive] at hpos
      obtain ⟨f, hf, hkey, hbucket, htotal⟩ := hnoted hx hcharge (by exact_mod_cast hpos)
      refine ⟨f, hf, ?_⟩
      rw [if_pos hplace, hlive, floorAt, hkey, hbucket, if_pos hplace, htotal]
    · cases hpos
  · intro k f _
    exact floorAt_nonneg w b f

-- ===== the statement

/-- The durably saved operations: each one rebuilt, and no two that could
be mistaken for each other. -/
structure SavedOps (H : Host) (ds : List RecoveredOperation) : Prop where
  distinct : ds.Nodup
  rebuilt : ∀ d ∈ ds, ∃ op, Saved op ∧ recoveredRecord H op = .ok d
  apart : ∀ d ∈ ds, ∀ d' ∈ ds, d ≠ d' → Apart d d'

theorem SavedOps.savedAll {H : Host} (h : SavedOps H ds) (htimes : ∀ d ∈ ds, TimesKept d) :
    SavedAll ds := by
  refine ⟨?_, htimes, h.apart⟩
  intro d hd
  obtain ⟨op, hsaved, hop⟩ := h.rebuilt d hd
  exact savedWf_of_recovered hsaved hop

theorem SavedOps.keys {H : Host} (h : SavedOps H ds) : (ds.map RecoveredOperation.key).Nodup := by
  apply List.Nodup.map_on _ h.distinct
  intro d hd d' hd' hkey
  by_contra hne
  exact (h.apart d hd d' hd' hne).key hkey

/-- A second pass over what a first one left. -/
theorem Pass.second_quiet {S₁ : Recovery} (hdone : PassDone marker ds T S₁ S)
    (hS' : S' = (recoverCommit marker true S).1) {p : Pass}
    (hms : ∀ m ∈ p.merges, T ≤ m.1.millis ∧ m.2 ∈ ds)
    (hscan : Scanned (p.merged marker S').1.floors p.scan)
    (hnd : p.scan.Nodup) :
    SameKeys S'.keyspace (p.run marker S').keyspace := by
  have hcommit := recoverCommit_same marker true S
  have hfloors : (recoverBegin marker p.force S').1.floors = ∅ := by
    apply recoverBegin_floors
    rw [hS']
    exact recoverCommit_floors hdone.valid hdone.authority
  rw [← hS'] at hcommit
  have hq : Quiet ds T S.keyspace (recoverBegin marker p.force S').1 := by
    refine ⟨hcommit.trans (recoverBegin_same marker p.force S'), ?_⟩
    intro k f hf
    rw [hfloors] at hf
    cases hf
  have hq' : Quiet ds T S.keyspace (p.merged marker S').1 := hq.mergeAll (fun d hd => by
      obtain ⟨r, hres, -⟩ := hdone.caught d hd
      exact ⟨r, hres⟩) hms marker p.token
  have hcovered : (p.floored marker S').1 = (p.merged marker S').1 := by
    apply applyRecoveryFloors_covered
    intro w b
    rw [sum_congr hq'.same.hash]
    exact (hq'.scan_le hdone.caught hscan hnd w b).trans (hdone.floored w b)
  refine SameKeys.trans ?_ (recoverCommit_same marker true (p.floored marker S').1)
  rw [hcovered]
  exact ⟨hq'.same.records.trans hcommit.records.symm, hq'.same.hash.trans hcommit.hash.symm,
    hq'.same.expiry.trans hcommit.expiry.symm⟩

/-- Recovery never under-counts at readiness.

`S` holds what is left of a reachable ledger. After a pass over all saved
operations that went through, with every reading up to `T`, every bucket
covers the saved operations' charges that are live at `T`; every saved
operation has a record that is as far as the saved one, with the members
of its live charges, and whose reservations have survived or are the
saved ones; no record has been moved back; and a second pass, with
readings from `T` on, changes no record, no hash and no expiry set. -/
theorem recovery_covers_live_charges {H : Host} {calls : List TimedCall}
    {marker : String} {S : Recovery} {ds : List RecoveredOperation}
    {p : Pass} {T : Nat} (hlost : Survives (ledger calls) S.keyspace)
    (hds : SavedOps H ds) (htimes : ∀ d ∈ ds, TimesKept d)
    (hmerges : p.Merges ds) (hdone : p.Completes marker S)
    (hclock : ∀ m ∈ p.merges, m.1.millis ≤ T) :
    (∀ w b, liveSum ds (p.run marker S).keyspace T w b ≤ (p.run marker S).keyspace.sum w b)
      ∧ (∀ d ∈ ds, ∃ r, Restored d T r (p.run marker S).keyspace ∧ Sourced S.keyspace d r)
      ∧ (∀ op r, S.keyspace.records.lookup op = some r →
        ∃ r', (p.run marker S).keyspace.records.lookup op = some r' ∧ NotBack r r')
      ∧ ∀ p₂ : Pass, (∀ m ∈ p₂.merges, T ≤ m.1.millis ∧ m.2 ∈ ds) →
        Scanned (p₂.merged marker (p.run marker S)).1.floors p₂.scan →
        p₂.scan.Nodup →
        (p₂.run marker (p.run marker S)).keyspace.records = (p.run marker S).keyspace.records
          ∧ (p₂.run marker (p.run marker S)).keyspace.hash = (p.run marker S).keyspace.hash
          ∧ (p₂.run marker (p.run marker S)).keyspace.expiry
            = (p.run marker S).keyspace.expiry := by
  have hpass := Pass.floored_done (hlost.storedWf (storedWf_ledger calls))
    (hds.savedAll htimes) hmerges hdone hclock
  obtain ⟨hrec, hhash, hexp⟩ := recoverCommit_same marker true (p.floored marker S).1
  have hlive : ∀ w b, liveSum ds (p.run marker S).keyspace T w b
      = liveSum ds (p.floored marker S).1.keyspace T w b := by
    intro w b
    rw [liveSum, liveSum, savedCharges, savedCharges, Pass.run, hrec]
  refine ⟨?_, ?_, ?_, ?_⟩
  · intro w b
    rw [hlive, Pass.run, sum_congr hhash]
    exact (liveSum_le_floorSum hds.keys hpass.caught w b).trans (hpass.floored w b)
  · intro d hd
    obtain ⟨r, hres, -⟩ := hpass.caught d hd
    refine ⟨r, hres.congr (by rw [Pass.run, hrec]) ?_,
      hpass.sourced d hd hres.stored⟩
    intro w m _
    exact zscore_congr hexp w m
  · intro op r hr
    rw [Pass.run, hrec]
    exact hpass.notBack hr
  · intro p₂ hms hscan hnd
    obtain ⟨hrec₂, hhash₂, hexp₂⟩ := Pass.second_quiet hpass rfl hms hscan hnd
    exact ⟨hrec₂, hhash₂, hexp₂⟩

/-- A scan that returns every field once. -/
theorem scanned_entries (floors : FMap FloorField Floor) :
    Scanned floors (floors.entries.map fun e => (e.1, e.2)) := by
  constructor
  · intro k f h
    exact List.mem_map.mpr ⟨⟨k, f⟩, mem_entries_iff.mpr h, rfl⟩
  · intro k f h
    obtain ⟨⟨k', f'⟩, hmem, heq⟩ := List.mem_map.mp h
    cases heq
    exact mem_entries_iff.mp hmem

/-- A scan that returns every field twice. -/
theorem Scanned.twice {floors : FMap FloorField Floor} (h : Scanned floors scan) :
    Scanned floors (scan ++ scan) := by
  constructor
  · intro k f hk
    exact List.mem_append_left _ (h.complete hk)
  · intro k f hk
    rcases List.mem_append.mp hk with hk | hk <;> exact h.sound hk

/-- One bucket a call. -/
def singleFloors : FloorOrder where
  chunks := fun totals => totals.entries.map fun e =>
    (e.1.1, [⟨e.1.2, e.2.1, e.2.2⟩])
  bounded := by
    intro totals c hc
    obtain ⟨e, -, rfl⟩ := List.mem_map.mp hc
    exact ⟨List.cons_ne_nil _ _, show 1 ≤ 4096 by decide⟩
  complete := by
    intro totals
    rw [List.flatMap_map]
    exact List.Perm.of_eq (List.flatMap_pure_eq_map _ _)

theorem threeNano_bounded : 3 * 10 ^ 9 ≤ 10 ^ 38 - 1 := by decide

/-- The operation of the samples as it was saved: claimed, not
settled. -/
def sampleSaved : BudgetRecoveryOperation where
  request := sampleRequest "first" 3 threeNano_bounded
  reservation :=
    { operationId := "first"
      accepted := true
      generationId := "generation"
      incarnationId := "incarnation"
      events := [{
        eventId := sampleDigest
        generationId := "generation"
        operationId := "first"
        windowId := "daily"
        bucketStart := 3600000000000
        reservationRevision := 1
        amountUsd := ⟨3 * 10 ^ 9, threeNano_bounded⟩
        occurredAt := 3600000000000 }]
      windowExpiries := ∅ }
  claimed := true
  startedAt := 3600000000000
  startBy := 4500000000000
  settlement := none

/-- It as it is rebuilt. -/
def sampleRebuilt : RecoveredOperation where
  operationId := "first"
  generationId := "generation"
  incarnationId := "incarnation"
  fingerprint := sampleDigest
  occurredAt := "3600000000000"
  startByMillis := 4500000
  claimed := true
  reservations := [{
    policyId := "team"
    windowId := "daily"
    bucket := 1
    amountNano := 3
    limitNano := 10
    bucketNanos := 3600000000000
    durationNanos := 86400000000000
    bucketStartNanos := 3600000000000
    windowExpiresMillis := 93600000
    expiresMillis := 4500000
    eventId := sampleDigest
    amountUsd := 3 * 10 ^ 9
    limitUsd := 10 * 10 ^ 9
    reservedNano := 3
    accountedNano := 0
    reservationRevision := 1
    status := .reserved }]
  events := ∅

theorem sampleSaved_rebuilt : recoveredRecord sampleHost sampleSaved = .ok sampleRebuilt := by
  rfl

theorem sampleSaved_saved : Saved sampleSaved := by
  constructor
  · exact List.forall_mem_singleton.mpr rfl
  · nofun

theorem sampleRebuilt_savedOps : SavedOps sampleHost [sampleRebuilt] := by
  refine ⟨List.nodup_singleton _, ?_, ?_⟩
  · exact List.forall_mem_singleton.mpr ⟨sampleSaved, sampleSaved_saved, sampleSaved_rebuilt⟩
  · intro d hd d' hd' hne
    rw [List.mem_singleton.mp hd, List.mem_singleton.mp hd'] at hne
    exact absurd rfl hne

theorem sampleRebuilt_times : TimesKept sampleRebuilt := by
  constructor
  · decide +kernel
  · exact List.forall_mem_singleton.mpr (by decide +kernel)

/-- Every key is lost. -/
def sampleLost : Recovery := ⟨Keyspace.empty, none, none, ∅⟩

theorem sampleLost_survives : Survives (ledger sampleCalls) sampleLost.keyspace :=
  ⟨fun _ => Or.inr rfl, fun _ => Or.inr rfl, fun _ => Or.inr rfl⟩

def sampleMarker : String := "budget-initialization/v1:e:5:c"

/-- The floor of the saved operation's one charge. -/
def sampleFloor : FloorField × Floor :=
  (⟨⟨"generation", "first"⟩, 0⟩, ⟨⟨"team", "daily"⟩, 1, 3, 10⟩)

/-- A pass over the saved operation. -/
def samplePass (seconds : Nat) (scan : List (FloorField × Floor)) : Pass where
  token := "token"
  force := true
  merges := [(⟨seconds, 0⟩, sampleRebuilt)]
  scan := scan
  order := singleFloors

theorem samplePass_merges (seconds : Nat) (scan : List (FloorField × Floor)) :
    (samplePass seconds scan).Merges [sampleRebuilt] := by
  intro d
  constructor
  · intro hd
    rw [List.mem_singleton.mp hd]
    exact ⟨⟨seconds, 0⟩, List.mem_singleton.mpr rfl⟩
  · rintro ⟨t, ht⟩
    have heq := List.mem_singleton.mp ht
    cases heq
    exact List.mem_singleton.mpr rfl

/-- The merged floor ledger holds the one floor. -/
theorem samplePass_scanned {seconds : Nat} (h : (((samplePass seconds scan).merged sampleMarker
      S).1.floors.entries.map fun e => (e.1, e.2)) = [sampleFloor]) :
    Scanned ((samplePass seconds scan).merged sampleMarker S).1.floors [sampleFloor] :=
  h ▸ scanned_entries _

theorem samplePass_completes :
    (samplePass 3700 [sampleFloor]).Completes sampleMarker sampleLost where
  begins := by decide +kernel
  merges := by decide +kernel
  scanned := samplePass_scanned (by decide +kernel)
  floors := by decide +kernel

/-- Everything is lost, one claimed operation was saved: the pass
charges its bucket again and a second one leaves it so. -/
theorem recovery_covers_live_charges_sample :
    liveSum [sampleRebuilt] ((samplePass 3700 [sampleFloor]).run
        sampleMarker sampleLost).keyspace 3700000 ⟨"team", "daily"⟩ 1 = 3
      ∧ liveSum [sampleRebuilt] ((samplePass 3700 [sampleFloor]).run
          sampleMarker sampleLost).keyspace 3700000 ⟨"team", "daily"⟩ 1
        ≤ ((samplePass 3700 [sampleFloor]).run sampleMarker
          sampleLost).keyspace.sum ⟨"team", "daily"⟩ 1
      ∧ ((samplePass 3800 [sampleFloor]).run sampleMarker
          ((samplePass 3700 [sampleFloor]).run sampleMarker sampleLost)).keyspace.hash
        = ((samplePass 3700 [sampleFloor]).run sampleMarker sampleLost).keyspace.hash := by
  have h := recovery_covers_live_charges (T := 3700000) sampleLost_survives sampleRebuilt_savedOps
    (fun d hd => List.mem_singleton.mp hd ▸ sampleRebuilt_times)
    (samplePass_merges 3700 [sampleFloor]) samplePass_completes
    (by
      intro m hm
      rw [List.mem_singleton.mp hm]
      decide)
  refine ⟨by decide +kernel, h.1 _ _, ?_⟩
  refine (h.2.2.2 (samplePass 3800 [sampleFloor]) ?_ ?_ ?_).2.1
  · intro m hm
    rw [List.mem_singleton.mp hm]
    exact ⟨by decide, List.mem_singleton.mpr rfl⟩
  · exact samplePass_scanned (by decide +kernel)
  · exact List.nodup_singleton _

/-- The scan of the second pass returns the one field twice: the bucket
that held three holds six. -/
theorem second_scan_raises : (samplePass 3700 [sampleFloor]).Completes sampleMarker sampleLost
      ∧ Scanned ((samplePass 3800 [sampleFloor, sampleFloor]).merged
          sampleMarker ((samplePass 3700 [sampleFloor]).run sampleMarker
            sampleLost)).1.floors [sampleFloor, sampleFloor]
      ∧ ((samplePass 3700 [sampleFloor]).run sampleMarker
          sampleLost).keyspace.sum ⟨"team", "daily"⟩ 1 = 3
      ∧ ((samplePass 3800 [sampleFloor, sampleFloor]).run sampleMarker
          ((samplePass 3700 [sampleFloor]).run sampleMarker
            sampleLost)).keyspace.sum ⟨"team", "daily"⟩ 1 = 6 := by
  refine ⟨samplePass_completes, ?_, by decide +kernel, by decide +kernel⟩
  exact (samplePass_scanned (by decide +kernel)).twice

end LlmTemporalWorker.Budget
