/-
A merged operation is caught up with.

After a successful merge the stored record is at least as far as the
saved one and as the one that survived, every charge of it that is live
and leaves its bucket by expiry has its expiry member (`Restored`), and
the floor ledger holds the live charges of the operation and nothing
else of it (`Noted`). Both are about the operation's own record, members
and fields, so merges of other operations keep them.

A merge looks at the surviving record's revisions and claim only. That
this is enough rests on two facts about stored records (`LeaseWf`):
revisions start at one, and as long as a record is not claimed what it
reserves is at revision one.
-/
import LlmTemporalWorker.Budget.Proofs.Merge

namespace LlmTemporalWorker.Budget

open Lib

-- ===== stored records

/-- What a merge relies on of a stored record. -/
structure LeaseWf (r : Record) : Prop where
  started : ∀ x ∈ r.reservations, 1 ≤ x.reservationRevision
  leased : r.claimed = false → ∀ x ∈ r.reservations, 0 < x.reservedNano → x.reservationRevision = 1

/-- What merges and floors rely on of the keyspace. -/
structure StoredWf (K : Keyspace) : Prop where
  encoded : Encoded K
  leases : ∀ {op r}, K.records.lookup op = some r → LeaseWf r
  nonneg : ∀ w b, 0 ≤ K.sum w b

/-- What a merge relies on of a saved operation. -/
structure SavedWf (d : RecoveredOperation) : Prop where
  started : ∀ x ∈ d.reservations, 1 ≤ x.reservationRevision
  leased : d.claimed = false → ∀ x ∈ d.reservations, 0 < x.reservedNano → x.reservationRevision = 1
  places : (d.reservations.map HeldReservation.place).Nodup
  revisions : ∀ x ∈ d.reservations, cjsonNumber x.reservationRevision = x.reservationRevision

/-- The saved times are stored as they are. -/
structure TimesKept (d : RecoveredOperation) : Prop where
  startBy : cjsonInt d.startByMillis = d.startByMillis
  windows : ∀ x ∈ d.reservations, cjsonInt x.windowExpiresMillis = x.windowExpiresMillis

-- ===== events

theorem lookup_foldl_insert {κ ν : Type*} [DecidableEq κ]
    {es : List (Sigma fun _ : κ => ν)} {m : FMap κ ν} {k : κ} {v : ν}
    (hsame : ∀ e ∈ es, e.1 = k → e.2 = v)
    (hhas : m.lookup k = some v ∨ ∃ e ∈ es, e.1 = k) :
    (es.foldl (fun acc e => acc.insert e.1 e.2) m).lookup k = some v := by
  induction es generalizing m with
  | nil =>
    rcases hhas with h | ⟨e, he, -⟩
    · exact h
    · cases he
  | cons e rest ih =>
    apply ih (fun e' he' => hsame e' (List.mem_cons_of_mem _ he'))
    by_cases hk : e.1 = k
    · left
      rw [lookup_insert_eq, if_pos hk.symm, hsame e List.mem_cons_self hk]
    · rcases hhas with h | ⟨e', he', hk'⟩
      · left
        rw [lookup_insert_eq, if_neg (fun heq => hk heq.symm)]
        exact h
      · rcases List.mem_cons.mp he' with rfl | he'
        · exact absurd hk' hk
        · exact Or.inr ⟨e', he', hk'⟩

/-- Saved events that agree with the stored ones are all there. -/
theorem lookup_mergeEvents {saved events : FMap String String}
    {id fp : String}
    (hagree : ∀ {fp'}, saved.lookup id = some fp' → fp' = fp)
    (hhas : events.lookup id = some fp ∨ (saved.lookup id).isSome) :
    (mergeEvents saved events).lookup id = some fp := by
  apply lookup_foldl_insert
  · rintro ⟨id', fp'⟩ he rfl
    exact hagree (mem_entries_iff.mp he)
  · rcases hhas with h | h
    · exact Or.inl h
    · obtain ⟨fp', hfp⟩ := Option.isSome_iff_exists.mp h
      exact Or.inr ⟨⟨id, fp'⟩, mem_entries_iff.mpr hfp, rfl⟩

-- ===== inversion

/-- What a successful merge has checked. -/
structure MergeRun (t : RedisTime) (d : RecoveredOperation)
    (S : Recovery) (i : MergeInput) (merges : List Merge) : Prop where
  saved : i.saved = d
  startBy : durableInt d.startByMillis = some i.startBy
  existing : i.existing = S.keyspace.records.lookup d.key
  now : i.now = t.millis
  valid : d.valid = true
  agrees : ∀ {r}, i.existing = some r → survivorConflict d r = false
  staged : StagedMerge i S.keyspace merges

variable {d : RecoveredOperation} {r : Record} {S : Recovery}
  {reply : Reply} {i : MergeInput} {x target : HeldReservation}
  {K : Keyspace} {t : RedisTime} {merges : List Merge} {m : Merge}

/-- A survivor that does not conflict has the operation's fingerprint, as
many reservations, and its fingerprint for every event of both. -/
theorem agrees_of_survivorConflict (h : survivorConflict d r = false) :
    r.fingerprint = d.fingerprint ∧ r.reservations.length = d.reservations.length
      ∧ ∀ {id fp fp'}, d.events.lookup id = some fp → r.events.lookup id = some fp' →
        fp' = fp := by
  unfold survivorConflict at h
  simp only [Bool.or_eq_false_iff, decide_eq_false_iff_not, not_not, List.any_eq_false,
    and_assoc] at h
  obtain ⟨-, -, -, hfp, hlength, hevents⟩ := h
  refine ⟨hfp, hlength, ?_⟩
  intro id fp fp' hd hr
  have := hevents ⟨id, fp⟩ (mem_entries_iff.mpr hd)
  rw [hr] at this
  simpa using this

theorem recoveryFence_merges {marker token : String}
    (h : recoveryFence marker token S = some reply) :
    reply.merges = false := by
  unfold recoveryFence at h
  grind [Reply.merges]

theorem stageKeep_error (h : stageKeep i r x K = .error reply) : reply.merges = false := by
  unfold stageKeep at h
  split at h
  · cases h
    rfl
  · cases h
  · dsimp only at h
    split at h <;> cases h

variable {member : Option Member}

theorem stageReplace_error {holds : Nat}
    (h : stageReplace i target holds member K = .error reply) :
    reply.merges = false := by
  unfold stageReplace at h
  split at h
  · cases h
    rfl
  split at h
  · cases h
    rfl
  split at h
  · cases h
    rfl
  · cases h

theorem stageMerge_error {index : Nat} (h : stageMerge i K index target = .error reply) :
    reply.merges = false := by
  unfold stageMerge at h
  split at h
  · exact stageReplace_error h
  split at h
  · cases h
    rfl
  split at h
  · cases h
    rfl
  split at h
  · cases h
    rfl
  split at h
  · exact stageKeep_error h
  split at h
  · cases h
    rfl
  · exact stageReplace_error h

theorem stageMerges_error {k : Nat} {targets : List HeldReservation}
    (h : stageMerges i K k targets = .error reply) :
    reply.merges = false := by
  induction targets generalizing k with
  | nil => cases h
  | cons target rest ih =>
    rw [stageMerges] at h
    split at h
    · rename_i reply' hst
      cases h
      exact stageMerge_error hst
    · split at h
      · rename_i reply' hrest
        cases h
        exact ih hrest
      · cases h

/-- A merge call answers with nothing written, or stages and writes. -/
theorem durableRecoverOperation_cases (t : RedisTime) (marker token : String)
    (d : RecoveredOperation) (S : Recovery) :
    (∃ reply, durableRecoverOperation t marker token d S = (S, reply) ∧ reply.merges = false)
      ∨ ∃ i merges, MergeRun t d S i merges
        ∧ durableRecoverOperation t marker token d S = writeMerge i merges S := by
  unfold durableRecoverOperation
  split
  · exact .inl ⟨_, rfl, rfl⟩
  split
  · rename_i reply hfence
    exact .inl ⟨_, rfl, recoveryFence_merges hfence⟩
  split
  · exact .inl ⟨_, rfl, rfl⟩
  rename_i startBy hstart
  dsimp only
  split
  · exact .inl ⟨_, rfl, rfl⟩
  rename_i hvalid
  split
  · exact .inl ⟨_, rfl, rfl⟩
  split
  · exact .inl ⟨_, rfl, rfl⟩
  rename_i hconf
  split
  · rename_i reply hst
    exact .inl ⟨_, rfl, stageMerges_error hst⟩
  rename_i merges hst
  obtain ⟨hall, hindex⟩ := stageMerges_ok hst
  have hagrees : ∀ {r}, S.keyspace.records.lookup d.key = some r →
        survivorConflict d r = false := by
    intro r hr
    rw [hr] at hconf
    simpa using hconf
  refine .inr ⟨_, merges, ⟨rfl, hstart, rfl, rfl, by simpa using hvalid, hagrees, ?_⟩, rfl⟩
  constructor
  · exact (forall₂_map_eq hall fun h => h.1.symm).symm
  · rw [hindex, hall.length_eq, List.range_eq_range']
  · intro m hm
    obtain ⟨target, -, -, hst⟩ := exists_of_forall₂_right hall hm
    exact hst
  · intro r hr
    exact (agrees_of_survivorConflict (hagrees hr)).1

-- ===== the merged record

/-- The record an operation has after its merge: the one written, or
the surviving one that had everything. -/
structure Merged (i : MergeInput) (merges : List Merge) (r : Record) :
    Prop where
  fingerprint : r.fingerprint = i.saved.fingerprint
  claimed : r.claimed = i.claimed
  survivor : ∀ {r₀}, i.existing = some r₀ → r.startByMillis = r₀.startByMillis
  alone : i.existing = none → r.startByMillis = cjsonNumber i.startBy
  events : ∀ {id fp}, i.saved.events.lookup id = some fp → r.events.lookup id = some fp
  reservations : r.reservations = merges.map fun m => m.reservation.encode

/-- The record that is written. -/
theorem MergeRun.merged_written (h : MergeRun t d S i merges) (henc : Encoded S.keyspace) :
    Merged i merges (durableEncode (mergedRecord i merges)) := by
  have hreservations : (durableEncode (mergedRecord i merges)).reservations
      = merges.map fun m => m.reservation.encode := by
    simp [durableEncode, mergedRecord]
  cases hex : i.existing with
  | none =>
    have hbase : i.base = i.saved.record i.startBy := by
      rw [MergeInput.base, hex]
    refine ⟨congrArg Record.fingerprint hbase, rfl, ?_, ?_, ?_, hreservations⟩
    · intro r₀ hr₀
      cases hex.symm.trans hr₀
    · exact fun _ => congrArg (fun r : Record => cjsonNumber r.startByMillis) hbase
    · intro id fp hid
      show i.base.events.lookup id = some fp
      rw [hbase]
      exact hid
  | some r =>
    have hbase : i.base = { r with events := mergeEvents i.saved.events r.events } := by
      rw [MergeInput.base, hex]
    have hfp : r.fingerprint = i.saved.fingerprint := h.staged.fingerprint hex
    have hr : durableEncode r = r := henc (h.existing.symm.trans hex)
    refine ⟨(congrArg Record.fingerprint hbase).trans hfp, rfl, ?_, ?_, ?_, hreservations⟩
    · intro r₀ hr₀
      cases hex.symm.trans hr₀
      exact (congrArg (fun r : Record => cjsonNumber r.startByMillis) hbase).trans
        (congrArg Record.startByMillis hr)
    · intro hnone
      cases hex.symm.trans hnone
    · intro id fp hid
      show i.base.events.lookup id = some fp
      rw [hbase]
      apply lookup_mergeEvents
      · intro fp' hfp'
        exact Option.some.inj (hfp'.symm.trans hid)
      · exact Or.inr (Option.isSome_of_mem hid)

/-- A merge with nothing to write keeps every reservation as it is. -/
theorem kept_of_unchanged (h : mergeChanges i r merges = false) :
    (∀ m ∈ merges, ∃ x live, m.outcome = .keep x live none) ∧ i.claimed = r.claimed
      ∧ ∀ {id fp}, i.saved.events.lookup id = some fp → (r.events.lookup id).isSome := by
  unfold mergeChanges at h
  simp only [Bool.or_eq_false_iff, List.any_eq_false, and_assoc] at h
  obtain ⟨hkeep, hclaimed, hev⟩ := h
  refine ⟨?_, by simpa using hclaimed, ?_⟩
  · intro m hm
    have hm := hkeep m hm
    cases hout : m.outcome with
    | keep x live repair =>
      rw [hout] at hm
      refine ⟨x, live, ?_⟩
      cases repair with
      | none => rfl
      | some _ => simp at hm
    | replace c mem total score =>
      rw [hout] at hm
      simp at hm
  · intro id fp hid
    have := hev ⟨id, fp⟩ (mem_entries_iff.mpr hid)
    cases hr : r.events.lookup id with
    | none => simp [hr] at this
    | some _ => rfl

theorem StagedMerge.length_eq (h : StagedMerge i K merges) :
    merges.length = i.saved.reservations.length := by
  rw [← h.targets, List.length_map]

variable {repair : Option (Nat × Member)}

/-- What a kept reservation was. -/
theorem StagedMerge.survivor (h : StagedMerge i K merges)
    (hex : i.existing = some r) {j : Nat} (hm : merges[j]? = some m)
    {live : Nat}
    (hout : m.outcome = .keep x live repair) :
    r.reservations[j]? = some x := by
  have hst := h.staged m (List.mem_of_getElem? hm)
  rw [hout, h.index_eq hm] at hst
  cases hst with
  | kept hex' hx =>
    cases hex.symm.trans hex'
    exact hx

/-- The record that is left alone. -/
theorem MergeRun.merged_unchanged (h : MergeRun t d S i merges)
    (henc : Encoded S.keyspace) (hex : i.existing = some r)
    (hsame : mergeChanges i r merges = false) : Merged i merges r := by
  obtain ⟨hkeep, hclaimed, hpresent⟩ := kept_of_unchanged hsame
  obtain ⟨-, hlen, hev⟩ := agrees_of_survivorConflict (h.agrees hex)
  rw [← h.saved] at hlen hev
  have hr : durableEncode r = r := henc (h.existing.symm.trans hex)
  refine ⟨h.staged.fingerprint hex, hclaimed.symm, ?_, ?_, ?_, ?_⟩
  · intro r₀ hr₀
    cases hex.symm.trans hr₀
    rfl
  · intro hnone
    cases hex.symm.trans hnone
  · intro id fp hid
    obtain ⟨fp', hfp'⟩ := Option.isSome_iff_exists.mp (hpresent hid)
    rw [hfp', hev hid hfp']
  · apply List.ext_getElem?
    intro j
    rw [List.getElem?_map]
    cases hm : merges[j]? with
    | none =>
      have hj := List.getElem?_eq_none_iff.mp hm
      rw [h.staged.length_eq, ← hlen] at hj
      rw [List.getElem?_eq_none hj]
      rfl
    | some m =>
      obtain ⟨x, live, hout⟩ := hkeep m (List.mem_of_getElem? hm)
      have hx := h.staged.survivor hex hm hout
      rw [hx, Option.map_some, Merge.reservation, hout]
      exact congrArg some (encode_of_durableEncode hr (List.mem_of_getElem? hx)).symm

-- ===== what a merge writes

/-- Everything a successful merge does. -/
structure MergeEffect (i : MergeInput) (merges : List Merge)
    (S S' : Recovery) (r : Record) : Prop where
  merged : Merged i merges r
  stored : S'.keyspace.records.lookup i.saved.key = some r
  others : ∀ {op}, op ≠ i.saved.key → S'.keyspace.records.lookup op = S.keyspace.records.lookup op
  encoded : Encoded S'.keyspace
  authority : S'.keyspace.authority = S.keyspace.authority
  floors : S'.floors = merges.foldl (writeFloor i.saved.key) S.floors
  members : ∀ {w : WindowKey} {m : Member}, m.fingerprint ≠ i.saved.fingerprint →
      S'.keyspace.zscore w m = S.keyspace.zscore w m
  present : ∀ m ∈ merges, ∀ {x live s repair}, m.outcome = .keep x live repair →
      (S.keyspace.zscore m.target.key s).isSome ∨ (∃ score, repair = some (score, s)) →
      s.bucket = m.target.bucket →
      (S'.keyspace.zscore m.target.key s).isSome
  entered : ∀ m ∈ merges, ∀ {current member total score},
    m.outcome = .replace current member total (some score) → 0 < total →
      (S'.keyspace.zscore m.target.key (durableExpiryMember
        i.saved.fingerprint m.target.bucket total)).isSome
  nonneg : (∀ w b, 0 ≤ S.keyspace.sum w b) → ∀ w b, 0 ≤ S'.keyspace.sum w b

/-- What a staged merge takes out of its bucket is in it. -/
theorem StagedMerge.delta_fits (h : StagedMerge i K merges)
    (hpos : ∀ w b, 0 ≤ K.sum w b) (hm : m ∈ merges) :
    0 ≤ K.sum m.target.key m.target.bucket + m.delta := by
  have hst := h.staged m hm
  rw [Merge.delta]
  generalize m.outcome = outcome at hst
  cases hst with
  | kept =>
    have := hpos m.target.key m.target.bucket
    dsimp only
    omega
  | replaced _ _ hsum _ _ =>
    dsimp only
    omega

theorem StagedMerge.places (h : StagedMerge i K merges)
    (hnd : (i.saved.reservations.map HeldReservation.place).Nodup) :
    (merges.map Merge.place).Nodup := by
  rw [← h.targets, List.map_map] at hnd
  exact hnd

/-- The members of a kept reservation's bucket outlive the merge. -/
theorem isSome_of_keep {fingerprint : String} (hown : ∀ m ∈ merges, m.Owns fingerprint)
    (hplaces : (merges.map Merge.place).Nodup) (hm : m ∈ merges)
    {live : Nat}
    (hout : m.outcome = .keep x live repair) {s : Member}
    (hbucket : s.bucket = m.target.bucket)
    (hsome : (K.zscore m.target.key s).isSome ∨ ∃ score, repair = some (score, s)) :
    ((merges.foldl (replaceCharge fingerprint)
      (merges.foldl repairMember K)).zscore m.target.key s).isSome := by
  rw [zscore_foldl_replaceCharge hown]
  · rcases hsome with hsome | ⟨score, rfl⟩
    · exact isSome_foldl_repairMember hsome merges
    · exact isSome_of_repair hm hout K
  · -- a replaced reservation of this place would be this one
    rintro m' hm' ⟨⟨c, mem, total, score, hout'⟩, hplace, -⟩
    have heq : m' = m := by
      apply List.inj_on_of_nodup_map hplaces hm' hm
      rw [hplace, hbucket]
      rfl
    rw [heq, hout] at hout'
    cases hout'

theorem MergeRun.effect {S' : Recovery} (h : MergeRun t d S i merges) (henc : Encoded S.keyspace)
    (hnd : (d.reservations.map HeldReservation.place).Nodup)
    (hwrite : writeMerge i merges S = (S', reply)) :
    ∃ r, MergeEffect i merges S S' r := by
  rw [← h.saved] at hnd
  have hplaces := h.staged.places hnd
  have hown : ∀ m ∈ merges, m.Owns i.saved.fingerprint := fun m hm => h.staged.owns hm
  unfold writeMerge at hwrite
  split at hwrite
  · rename_i hsame
    cases hwrite
    cases hex : i.existing with
    | none =>
      rw [hex] at hsame
      cases hsame
    | some r =>
      rw [hex] at hsame
      have hsame : mergeChanges i r merges = false := by
        simpa using hsame
      obtain ⟨hkeep, -, -⟩ := kept_of_unchanged hsame
      refine ⟨r, h.merged_unchanged henc hex hsame, ?_, fun _ => rfl,
        henc, rfl, rfl, fun _ => rfl, ?_, ?_, fun hpos => hpos⟩
      · rw [h.saved]
        exact h.existing.symm.trans hex
      · intro m hm x live s repair hout hsome _
        rcases hsome with hsome | ⟨score, rfl⟩
        · exact hsome
        · obtain ⟨x', live', hout'⟩ := hkeep m hm
          cases hout'.symm.trans hout
      · intro m hm current member total score hout
        obtain ⟨x', live', hout'⟩ := hkeep m hm
        cases hout'.symm.trans hout
  · cases hwrite
    have hframe : (merges.foldl (replaceCharge i.saved.fingerprint)
        (merges.foldl repairMember S.keyspace)).frame = S.keyspace.frame := by
      rw [foldl_keeps fun K m _ => frame_replaceCharge _ K m,
        foldl_keeps fun K m _ => frame_repairMember K m]
    obtain ⟨hrecords, hauthority⟩ := Prod.mk.inj hframe
    refine ⟨_, h.merged_written henc, lookup_setRecord_self .., ?_,
      Encoded.setRecord (henc.of_records hrecords) _ _, hauthority, rfl, ?_, ?_, ?_, ?_⟩
    · intro op hop
      rw [lookup_setRecord_ne hop, hrecords]
    · intro w m hne
      refine (zscore_congr (expiry_setRecord ..) w m).trans ?_
      rw [zscore_foldl_replaceCharge hown, zscore_foldl_repairMember hown hne]
      rintro m' - ⟨-, -, hfp⟩
      exact hne hfp
    · intro m hm x live s repair hout hsome hbucket
      exact isSome_of_keep hown hplaces hm hout hbucket hsome
    · intro m hm current member total score hout hpos
      exact isSome_of_replace hown hplaces hm hout hpos _
    · intro hpos w b
      apply sum_foldl_replaceCharge_nonneg hplaces
      · intro w b
        rw [sum_foldl_repairMember]
        exact hpos w b
      · intro m hm
        rw [sum_foldl_repairMember]
        exact h.staged.delta_fits hpos hm

-- ===== caught up

/-- What a reservation of an operation's record holds at a time, and the
score it leaves its bucket at: `recovery_target` as a later merge reads
it. -/
def RecoveredOperation.charge (d : RecoveredOperation) (r : Record)
    (x : HeldReservation) (now : Nat) : Option (Nat × Option Nat) :=
  recoveryTarget r.claimed x ((durableInt r.startByMillis).getD d.startByMillis.toNat) now

/-- A stored reservation is as far as the saved one. -/
structure CaughtUp (saved stored : HeldReservation) : Prop where
  place : stored.place = saved.place
  revision : saved.reservationRevision ≤ stored.reservationRevision
  safe : stored.reservationRevision ≤ maxSafe

/-- A stored record is as far as the saved operation, and its charges
that are live have their expiry members. -/
structure Restored (d : RecoveredOperation) (now : Nat) (r : Record)
    (K : Keyspace) : Prop where
  stored : K.records.lookup d.key = some r
  fingerprint : r.fingerprint = d.fingerprint
  claimed : d.claimed = true → r.claimed = true
  events : ∀ {id fp}, d.events.lookup id = some fp → r.events.lookup id = some fp
  reservations : List.Forall₂ CaughtUp d.reservations r.reservations
  charges : ∀ x ∈ r.reservations, ∃ total score,
    d.charge r x now = some (total, score) ∧ (score.isSome → (K.zscore x.key
        (durableExpiryMember d.fingerprint x.bucket total)).isSome)

/-- The floor ledger has every live charge of an operation. -/
def Noted (d : RecoveredOperation) (now : Nat) (r : Record)
    (floors : FMap FloorField Floor) : Prop :=
  ∀ {j x total score}, r.reservations[j]? = some x →
    d.charge r x now = some (total, score) → 0 < total →
      ∃ f, floors.lookup (d.key, j) = some f ∧ f.key = x.key ∧ f.bucket = x.bucket ∧ f.total = total

/-- The claim changes what a kept reservation holds only if it is
leased, and a leased one is not kept past a claim. -/
theorem kept_charge (hwf : LeaseWf r) (hx : x ∈ r.reservations)
    (hkeep : keeps i r x.reservationRevision target = true)
    (hstarted : 1 ≤ target.reservationRevision) (hex : i.existing = some r)
    (startBy now : Nat) :
    recoveryTarget i.claimed x startBy now = recoveryTarget r.claimed x startBy now := by
  apply recoveryTarget_congr rfl rfl rfl
  intro hres
  refine ⟨?_, fun _ => rfl⟩
  unfold MergeInput.claimed
  rw [hex]
  cases hc : r.claimed with
  | true => simp [hc]
  | false =>
    have hone := hwf.leased hc x hx hres
    unfold keeps at hkeep
    rw [hc, hone] at hkeep
    have : i.saved.claimed = false := by
      cases hs : i.saved.claimed with
      | false => rfl
      | true =>
        rw [hs] at hkeep
        simp at hkeep
        omega
    simp [this, hc]

/-- A replaced reservation that is still leased has no survivor. -/
theorem replaced_lease {index holds : Nat}
    (h : Replaces i K index target holds member)
    (hwf : ∀ {r}, i.existing = some r → LeaseWf r)
    (hclaimed : i.claimed = false) (hone : target.reservationRevision = 1) :
    i.existing = none := by
  rcases h with ⟨hnone, -, -⟩ | ⟨r, x, hex, hx, -, -, hkeep, -⟩
  · exact hnone
  · exfalso
    have hstarted := (hwf hex).started x (List.mem_of_getElem? hx)
    have hsaved : i.saved.claimed = false := by
      unfold MergeInput.claimed at hclaimed
      simp only [Bool.or_eq_false_iff] at hclaimed
      exact hclaimed.1
    unfold keeps at hkeep
    rw [hone, hsaved] at hkeep
    simp at hkeep
    omega

section

variable {t : RedisTime} {d : RecoveredOperation} {S S' : Recovery}
variable {i : MergeInput} {merges : List Merge} {r : Record}

theorem MergeRun.startBy_eq (h : MergeRun t d S i merges) :
    d.startByMillis = i.startBy ∧ i.startBy ≤ maxSafe :=
  durableInt_eq_some.mp h.startBy

variable {r₀ : Record} {m : Merge}

theorem MergeRun.leases (h : MergeRun t d S i merges)
    (hwf : StoredWf S.keyspace) (hex : i.existing = some r₀) : LeaseWf r₀ :=
  hwf.leases (h.existing.symm.trans hex)

variable {x : HeldReservation}

theorem MergeRun.encoded (h : MergeRun t d S i merges) (hwf : StoredWf S.keyspace)
    (hex : i.existing = some r₀) (hx : x ∈ r₀.reservations) : x.encode = x :=
  encode_of_durableEncode (hwf.encoded (h.existing.symm.trans hex)) hx

theorem MergeRun.target_mem (h : MergeRun t d S i merges) (hm : m ∈ merges) :
    m.target ∈ d.reservations := by
  rw [← h.saved, ← h.staged.targets]
  exact List.mem_map_of_mem hm

theorem MergeRun.recoverable (h : MergeRun t d S i merges)
    {y : HeldReservation} (hy : y ∈ d.reservations) :
    y.recoverable = true := by
  have hvalid := h.valid
  unfold RecoveredOperation.valid at hvalid
  simp only [Bool.and_eq_true, List.all_eq_true] at hvalid
  exact hvalid.2 y hy

theorem MergeRun.revision_le (h : MergeRun t d S i merges)
    {y : HeldReservation} (hy : y ∈ d.reservations) :
    y.reservationRevision ≤ maxSafe := by
  have hrec := h.recoverable hy
  unfold HeldReservation.recoverable at hrec
  simp only [Bool.and_eq_true] at hrec
  obtain ⟨n, hn⟩ := Option.isSome_iff_exists.mp hrec.1.2
  have := durableInt_eq_some.mp hn
  omega

/-- The merge's fields of the floor ledger. -/
theorem MergeRun.lookup_floors (h : MergeRun t d S i merges)
    (heff : MergeEffect i merges S S' r) {j : Nat}
    (hm : merges[j]? = some m) :
    S'.floors.lookup (d.key, j) = if 0 < m.total then
      some ⟨m.target.key, m.target.bucket, m.total, m.target.limitNano⟩
      else none := by
  rw [heff.floors, lookup_foldl_writeFloor h.staged.nodup, ← h.saved,
    if_pos rfl, h.staged.find?_index hm]
  rfl

variable (h : MergeRun t d S i merges) (hwf : StoredWf S.keyspace) (hsaved : SavedWf d)

include h hwf hsaved

/-- A kept reservation holds what it was staged with. -/
theorem MergeRun.charge_kept (hr : Merged i merges r) (hm : m ∈ merges)
    (hex : i.existing = some r₀) (hx : x ∈ r₀.reservations)
    (hkeep : keeps i r₀ x.reservationRevision m.target = true) :
    d.charge r x.encode i.now = recoveryTarget r₀.claimed x
      ((durableInt r₀.startByMillis).getD i.startBy) i.now := by
  have hstart : d.startByMillis.toNat = i.startBy := by
    rw [h.startBy_eq.1]
    rfl
  rw [h.encoded hwf hex hx, RecoveredOperation.charge, hr.claimed, hr.survivor hex, hstart]
  exact kept_charge (h.leases hwf hex) hx hkeep (hsaved.started m.target (h.target_mem hm)) hex _ _

/-- A replaced reservation holds what it was staged with. -/
theorem MergeRun.charge_replaced (htimes : TimesKept d) (hr : Merged i merges r) (hm : m ∈ merges)
    {holds : Nat}
    (hold : Replaces i S.keyspace m.index m.target holds member) :
    d.charge r m.target.encode i.now = recoveryTarget i.claimed m.target i.startBy i.now := by
  have hmem := h.target_mem hm
  rw [RecoveredOperation.charge, hr.claimed]
  have hwindow : m.target.encode.windowExpiresMillis
      = m.target.windowExpiresMillis := htimes.windows m.target hmem
  refine recoveryTarget_congr (x := m.target) (y := m.target.encode) rfl rfl hwindow ?_ _
  intro hres
  refine ⟨rfl, ?_⟩
  intro hclaimed
  have hsavedc : d.claimed = false := by
    unfold MergeInput.claimed at hclaimed
    rw [h.saved] at hclaimed
    simp only [Bool.or_eq_false_iff] at hclaimed
    exact hclaimed.1
  have hone := hsaved.leased hsavedc m.target hmem hres
  have hnone := replaced_lease hold (h.leases hwf) hclaimed hone
  -- without a survivor the record has the saved deadline
  have hstart : cjsonNumber i.startBy = i.startBy := by
    have := htimes.startBy
    rw [h.startBy_eq.1, cjsonInt_natCast] at this
    exact_mod_cast this
  rw [hr.alone hnone, hstart, durableInt_natCast h.startBy_eq.2]
  rfl

/-- Every reservation of the merged record holds what was staged. -/
theorem MergeRun.charge (htimes : TimesKept d) (heff : MergeEffect i merges S S' r)
    (hm : m ∈ merges) :
    ∃ score, d.charge r m.reservation.encode i.now = some (m.total, score)
      ∧ m.reservation.place = m.target.place
      ∧ (score.isSome → (S'.keyspace.zscore m.target.key
        (durableExpiryMember d.fingerprint m.target.bucket m.total)).isSome) := by
  have hst := h.staged.staged m hm
  rw [Merge.reservation, Merge.total]
  generalize hout : m.outcome = outcome at hst
  cases hst with
  | @kept r₀ x live score repair hex hx hplace hsafe hkeep hlive hpresent hrepair =>
      have hxmem := List.mem_of_getElem? hx
      refine ⟨score, ?_, hplace, ?_⟩
      · exact (h.charge_kept hwf hsaved heff.merged hm hex hxmem hkeep).trans hlive
      · intro hsome
        have hfp : r₀.fingerprint = d.fingerprint := by
          rw [h.staged.fingerprint hex, h.saved]
        rw [hfp, bucket_of_place hplace, key_of_place hplace] at hpresent
        refine heff.present m hm hout ?_ rfl
        cases repair with
        | none => exact Or.inl (hpresent rfl hsome)
        | some rep =>
          obtain ⟨s, member⟩ := rep
          obtain ⟨-, rfl, -⟩ := hrepair rfl
          refine Or.inr ⟨s, ?_⟩
          rw [hfp, bucket_of_place hplace]
  | @replaced holds sum total member score hold hlive hsum hsafe hfits =>
    refine ⟨score, ?_, rfl, ?_⟩
    · exact (h.charge_replaced hwf hsaved htimes heff.merged hm hold).trans hlive
    · intro hsome
      obtain ⟨s, rfl⟩ := Option.isSome_iff_exists.mp hsome
      have hpos : 0 < total := by
        rcases total_of_recoveryTarget hlive with ⟨-, hnone⟩ | ⟨rfl, hpos⟩
        · cases hnone
        · exact hpos
      rw [← h.saved]
      exact heff.entered m hm hout hpos

/-- A merged reservation is as far as the saved one. -/
theorem MergeRun.caughtUp (hm : m ∈ merges) : CaughtUp m.target m.reservation.encode := by
  have hst := h.staged.staged m hm
  rw [Merge.reservation]
  generalize m.outcome = outcome at hst
  cases hst with
  | @kept r₀ x _ _ _ hex hx hplace hsafe hkeep _ _ _ =>
    rw [h.encoded hwf hex (List.mem_of_getElem? hx)]
    refine ⟨hplace, ?_, hsafe⟩
    unfold keeps at hkeep
    simp only [Bool.or_eq_true, decide_eq_true_eq, Bool.and_eq_true, beq_iff_eq] at hkeep
    omega
  | replaced _ _ _ _ _ =>
    have hmem := h.target_mem hm
    have hrev : m.target.encode.reservationRevision
        = m.target.reservationRevision := hsaved.revisions m.target hmem
    refine ⟨rfl, ?_, ?_⟩
    · rw [hrev]
    · rw [hrev]
      exact h.revision_le hmem

theorem MergeRun.restored (htimes : TimesKept d) (heff : MergeEffect i merges S S' r) :
    Restored d i.now r S'.keyspace where
  stored := h.saved ▸ heff.stored
  fingerprint := h.saved ▸ heff.merged.fingerprint
  claimed := by
    intro hclaimed
    rw [heff.merged.claimed, MergeInput.claimed, h.saved, hclaimed]
    rfl
  events := h.saved ▸ heff.merged.events
  reservations := by
    rw [← h.saved, ← h.staged.targets, heff.merged.reservations,
      List.forall₂_map_left_iff, List.forall₂_map_right_iff]
    exact List.forall₂_same.mpr fun m hm => h.caughtUp hwf hsaved hm
  charges := by
    intro x hx
    rw [heff.merged.reservations] at hx
    obtain ⟨m, hm, rfl⟩ := List.mem_map.mp hx
    obtain ⟨score, hcharge, hplace, hpresent⟩ := h.charge hwf hsaved htimes heff hm
    refine ⟨m.total, score, hcharge, ?_⟩
    intro hsome
    have hkey : m.reservation.encode.key = m.target.key := key_of_place hplace
    have hbucket : m.reservation.encode.bucket = m.target.bucket := bucket_of_place hplace
    rw [hkey, hbucket]
    exact hpresent hsome

theorem MergeRun.noted (htimes : TimesKept d) (heff : MergeEffect i merges S S' r) :
    Noted d i.now r S'.floors := by
  intro j x total score hx hcharge hpos
  rw [heff.merged.reservations, List.getElem?_map] at hx
  obtain ⟨m, hm, rfl⟩ := Option.map_eq_some_iff.mp hx
  obtain ⟨score', hcharge', hplace, -⟩ := h.charge hwf hsaved htimes heff (List.mem_of_getElem? hm)
  cases hcharge'.symm.trans hcharge
  refine ⟨_, (h.lookup_floors heff hm).trans (if_pos hpos), ?_, ?_, rfl⟩
  · exact (key_of_place hplace).symm
  · exact (bucket_of_place hplace).symm

/-- What the next merge relies on. -/
theorem MergeRun.leaseWf (hr : Merged i merges r) : LeaseWf r := by
  have hmem : ∀ x ∈ r.reservations, ∃ m ∈ merges, x = m.reservation.encode := by
    intro x hx
    rw [hr.reservations] at hx
    obtain ⟨m, hm, rfl⟩ := List.mem_map.mp hx
    exact ⟨m, hm, rfl⟩
  constructor
  · intro x hx
    obtain ⟨m, hm, rfl⟩ := hmem x hx
    exact (hsaved.started m.target (h.target_mem hm)).trans (h.caughtUp hwf hsaved hm).revision
  · intro hclaimed x hx hres
    obtain ⟨m, hm, rfl⟩ := hmem x hx
    rw [hr.claimed, MergeInput.claimed, Bool.or_eq_false_iff] at hclaimed
    have hst := h.staged.staged m hm
    rw [Merge.reservation] at hres ⊢
    generalize m.outcome = outcome at hst hres ⊢
    cases hst with
    | @kept r₀ x _ _ _ hex hx₀ _ _ _ _ _ _ =>
      have hx₀ := List.mem_of_getElem? hx₀
      rw [h.encoded hwf hex hx₀] at hres ⊢
      apply (h.leases hwf hex).leased ?_ x hx₀ hres
      rw [hex] at hclaimed
      exact hclaimed.2
    | replaced _ _ _ _ _ =>
      have hmem := h.target_mem hm
      have hone := hsaved.leased (h.saved ▸ hclaimed.1) m.target hmem hres
      show cjsonNumber m.target.reservationRevision = 1
      rw [hsaved.revisions m.target hmem, hone]

theorem MergeRun.storedWf (heff : MergeEffect i merges S S' r) : StoredWf S'.keyspace := by
  refine ⟨heff.encoded, ?_, heff.nonneg hwf.nonneg⟩
  intro op r' hr'
  by_cases hop : op = i.saved.key
  · subst hop
    cases heff.stored.symm.trans hr'
    exact h.leaseWf hwf hsaved heff.merged
  · rw [heff.others hop] at hr'
    exact hwf.leases hr'

end

-- ===== survivors

/-- A record is not moved back. -/
structure NotBack (r r' : Record) : Prop where
  claimed : r.claimed = true → r'.claimed = true
  revisions : List.Forall₂ (fun x y =>
    x.reservationRevision ≤ y.reservationRevision) r.reservations r'.reservations

theorem NotBack.refl (r : Record) : NotBack r r := ⟨id, List.forall₂_same.mpr fun _ _ => le_rfl⟩

theorem NotBack.trans {r' r'' : Record} (h : NotBack r r') (h' : NotBack r' r'') : NotBack r r'' :=
  ⟨h'.claimed ∘ h.claimed, forall₂_trans (R := fun x y : HeldReservation =>
      x.reservationRevision ≤ y.reservationRevision) le_trans
    h.revisions h'.revisions⟩

/-- A reservation of an operation's record is one that survived or the
saved one as it was printed. -/
def Sourced (K₀ : Keyspace) (d : RecoveredOperation) (r : Record) : Prop :=
  ∀ (j : Nat) (x), r.reservations[j]? = some x →
    (∃ r₀, K₀.records.lookup d.key = some r₀ ∧ r₀.reservations[j]? = some x)
    ∨ ∃ y : HeldReservation, d.reservations[j]? = some y ∧ x = y.encode

section

variable {t : RedisTime} {d : RecoveredOperation} {S S' : Recovery}
variable {i : MergeInput} {merges : List Merge} {r r₀ : Record}
  (h : MergeRun t d S i merges) (hwf : StoredWf S.keyspace)

include h hwf

/-- No reservation is moved back. -/
theorem MergeRun.revision_mono (hsaved : SavedWf d) (hex : i.existing = some r₀) {j : Nat}
    {m : Merge} (hm : merges[j]? = some m) (hx : r₀.reservations[j]? = some x) :
    x.reservationRevision ≤ m.reservation.encode.reservationRevision := by
  have hst := h.staged.staged m (List.mem_of_getElem? hm)
  have hup := h.caughtUp hwf hsaved (List.mem_of_getElem? hm)
  rw [h.staged.index_eq hm] at hst
  rw [Merge.reservation] at hup ⊢
  generalize m.outcome = outcome at hst hup ⊢
  cases hst with
  | kept hex' hx' =>
    cases hex.symm.trans hex'
    cases hx.symm.trans hx'
    rw [h.encoded hwf hex (List.mem_of_getElem? hx)]
  | replaced hold _ _ _ _ =>
    refine le_trans ?_ hup.revision
    rcases hold with ⟨hnone, -⟩ | ⟨r', x', hex', hx', -, -, hkeep, -⟩
    · cases hex.symm.trans hnone
    · cases hex.symm.trans hex'
      cases hx.symm.trans hx'
      unfold keeps at hkeep
      simp only [Bool.or_eq_false_iff, decide_eq_false_iff_not] at hkeep
      omega

theorem MergeRun.notBack (hsaved : SavedWf d) (hr : Merged i merges r)
    (hex : i.existing = some r₀) : NotBack r₀ r := by
  constructor
  · intro hclaimed
    rw [hr.claimed, MergeInput.claimed, hex, Option.any_some, hclaimed, Bool.or_true]
  · have hlen : r₀.reservations.length = merges.length := by
      rw [h.staged.length_eq, h.saved]
      exact (agrees_of_survivorConflict (h.agrees hex)).2.1
    rw [hr.reservations, List.forall₂_map_right_iff]
    exact forall₂_of_getElem? hlen fun hx hm =>
      h.revision_mono hwf hsaved hex hm hx

theorem MergeRun.sourced (hr : Merged i merges r)
    {K₀ : Keyspace} (hsrc : ∀ {r₀}, i.existing = some r₀ → Sourced K₀ d r₀) : Sourced K₀ d r := by
  intro j x hx
  rw [hr.reservations, List.getElem?_map] at hx
  obtain ⟨m, hm, rfl⟩ := Option.map_eq_some_iff.mp hx
  have hst := h.staged.staged m (List.mem_of_getElem? hm)
  rw [h.staged.index_eq hm] at hst
  have htarget : d.reservations[j]? = some m.target := by
    rw [← h.saved, ← h.staged.targets, List.getElem?_map, hm]
    rfl
  rw [Merge.reservation]
  generalize m.outcome = outcome at hst
  cases hst with
  | kept hex' hx' =>
    rw [h.encoded hwf hex' (List.mem_of_getElem? hx')]
    exact hsrc hex' _ _ hx'
  | replaced _ _ _ _ _ => exact Or.inr ⟨m.target, htarget, rfl⟩

end

end LlmTemporalWorker.Budget
