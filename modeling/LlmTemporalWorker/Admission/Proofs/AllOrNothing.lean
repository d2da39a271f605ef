/-
A refused admission call changes nothing.

Redis does not roll a Function back, so a refusal is harmless only if it
comes before the first write. Two facts carry this. A loop that adds to
one bucket per reservation runs to its end whenever every bucket, taken
alone, can take its addition: the buckets of one vector are distinct, so
no addition sees another (`addEach_ok`). And the vector a settlement
releases is distinct because the record that holds it was admitted with
a distinct vector and printed without loss (`Stable`), which every step
keeps (`Wf.perform`).

Two refusals come after a write. `begin` deletes an index whose record
has expired before it looks at the request, and `continue` releases the
old reservation before it knows that the new one can be counted. The
condition of `refused_call_changes_nothing` is that neither happens, and
`refused_continue_releases` runs the second.
-/
import LlmTemporalWorker.Admission.Function
import LlmTemporalWorker.Lib.Run

namespace LlmTemporalWorker.Admission

open Lib Budget

-- ===== numbers

variable {v : Int} {rs : List (ReservationWire Int)} {K : Keyspace}
  {record : LuaRecord} {clock : Clock}

theorem integer_eq_some {n : Nat} : integer v = some n ↔ v = n ∧ n ≤ maxSafe := durableInt_eq_some

theorem integer_of_bounds (h₀ : 0 ≤ v) (h₁ : v ≤ maxSafe) : integer v = some v.toNat :=
  integer_eq_some.mpr ⟨by omega, by omega⟩

/-- A number that `cjson` prints without loss reads back as it was. -/
theorem luaNumber_cjsonLiteral {n : Nat} (hv : integer v = some n) (hexact : cjsonInt v = v) :
    luaNumber (cjsonLiteral v) = v := by
  obtain ⟨rfl, hn⟩ := integer_eq_some.mp hv
  have hdouble : luaDouble n = n := by
    refine luaDouble_of_le ?_
    have : maxSafe ≤ 2 ^ 53 := by decide
    omega
  unfold cjsonLiteral
  split
  · exact hdouble
  · rw [hexact]
    exact hdouble

-- ===== reservations

/-- The field of a budget hash that a reservation counts in. -/
def spot (r : ReservationWire Int) : WindowKey × Option Nat :=
  (r.key, integer r.bucket)

/-- The fields of a reservation are its numbers. -/
theorem reservationFields_spec {r : ReservationWire Int} {f : Fields}
    (h : reservationFields r = some f) :
    integer r.bucket = some f.bucket ∧ integer r.amount = some f.amount
      ∧ integer r.limit = some f.limit
      ∧ integer r.bucketNs = some f.bucketNs
      ∧ integer r.durationNs = some f.durationNs := by
  unfold reservationFields at h
  split at h
  · cases h
  obtain ⟨limit, hl, h⟩ := Option.bind_eq_some_iff.mp h
  obtain ⟨amount, ha, h⟩ := Option.bind_eq_some_iff.mp h
  obtain ⟨bucket, hb, h⟩ := Option.bind_eq_some_iff.mp h
  obtain ⟨bucketNs, hbn, h⟩ := Option.bind_eq_some_iff.mp h
  obtain ⟨durationNs, hdn, h⟩ := Option.bind_eq_some_iff.mp h
  split at h
  · cases h
  · cases h
    exact ⟨hb, ha, hl, hbn, hdn⟩

theorem reservationFields_bucket {r : ReservationWire Int} {f : Fields}
    (h : reservationFields r = some f) :
    integer r.bucket = some f.bucket :=
  (reservationFields_spec h).1

/-- An accepted envelope holds one amount, and no field twice. -/
theorem envelopeOk_spec {expected : Nat} {seen : List String}
    (h : envelopeOk expected seen rs = true) :
    (rs.map spot).Nodup ∧ ∀ r ∈ rs, ∃ f, reservationFields r = some f
      ∧ f.amount = expected ∧ r.identity f.bucket ∉ seen := by
  induction rs generalizing seen with
  | nil => simp
  | cons r rest ih =>
    unfold envelopeOk at h
    split at h
    · cases h
    rename_i f hf
    split at h
    · cases h
    rename_i hamount
    split at h
    · cases h
    rename_i hseen
    obtain ⟨hnodup, hrest⟩ := ih h
    refine ⟨?_, ?_⟩
    · rw [List.map_cons, List.nodup_cons]
      refine ⟨?_, hnodup⟩
      intro hmem
      obtain ⟨r', hr', hspot⟩ := List.mem_map.mp hmem
      obtain ⟨f', hf', -, hfresh⟩ := hrest r' hr'
      -- one field, one identity
      refine hfresh (List.mem_cons.mpr (.inl ?_))
      have hkey : r'.key = r.key := congrArg Prod.fst hspot
      have hbucket : integer r'.bucket = integer r.bucket := congrArg Prod.snd hspot
      rw [reservationFields_bucket hf, reservationFields_bucket hf'] at hbucket
      have hp : r'.policy = r.policy := congrArg WindowKey.policy hkey
      have hw : r'.window = r.window := congrArg WindowKey.window hkey
      unfold ReservationWire.identity
      rw [hp, hw, Option.some.inj hbucket]
    · intro r' hr'
      rcases List.mem_cons.mp hr' with rfl | hr'
      · exact ⟨f, hf, not_not.mp hamount, hseen⟩
      · obtain ⟨f', hf', hamount', hfresh⟩ := hrest r' hr'
        refine ⟨f', hf', hamount', ?_⟩
        intro hmem
        exact hfresh (List.mem_cons_of_mem _ hmem)

theorem validReservationEnvelope_spec {expected : Int}
    (h : validReservationEnvelope rs expected = true) :
    (rs.map spot).Nodup ∧ ∀ r ∈ rs, ∃ f, reservationFields r = some f := by
  unfold validReservationEnvelope at h
  split at h
  · cases h
  obtain ⟨hnodup, hfields⟩ := envelopeOk_spec h
  refine ⟨hnodup, ?_⟩
  intro r hr
  obtain ⟨f, hf, -⟩ := hfields r hr
  exact ⟨f, hf⟩

-- ===== the buckets

/-- Every bucket counts a safe amount. -/
def Counted (K : Keyspace) : Prop :=
  ∀ w bucket value, K.hget w bucket = some value → 0 ≤ value ∧ value ≤ maxSafe

theorem parsed_le (K : Keyspace) (w : WindowKey) (bucket : Nat) : K.parsed w bucket ≤ maxSafe := by
  unfold Keyspace.parsed
  cases h : (K.hget w bucket).bind integer with
  | none => exact Nat.zero_le _
  | some n =>
    obtain ⟨value, -, hvalue⟩ := Option.bind_eq_some_iff.mp h
    exact (integer_eq_some.mp hvalue).2

/-- In a counted keyspace the checks read what `HINCRBY` adds to. -/
theorem Counted.parsed (hK : Counted K) (w : WindowKey) (bucket : Nat) :
    (K.parsed w bucket : Int) = (K.hget w bucket).getD 0 := by
  unfold Keyspace.parsed
  cases h : K.hget w bucket with
  | none => rfl
  | some value =>
    obtain ⟨h₀, h₁⟩ := hK w bucket value h
    rw [Option.bind_some, integer_of_bounds h₀ h₁]
    simp [Int.toNat_of_nonneg h₀]

theorem hget_hincrby (K : Keyspace) (w w' : WindowKey) (bucket bucket' : Nat) (delta : Int) :
    (K.hincrby w bucket delta).1.hget w' bucket' = if w' = w ∧ bucket' = bucket then
          some ((K.hget w bucket).getD 0 + delta)
        else K.hget w' bucket' := by
  show (Function.update K.budget w _ w').lookup bucket' = _
  by_cases hw : w' = w
  · subst hw
    rw [Function.update_self, lookup_insert_eq]
    simp [Keyspace.hget]
  · rw [Function.update_of_ne hw, if_neg (fun h => hw h.1)]
    rfl

/-- One addition keeps every bucket safe. -/
theorem Counted.hincrby (hK : Counted K) {w : WindowKey} {bucket : Nat}
    {delta : Int} (h₀ : 0 ≤ (K.hget w bucket).getD 0 + delta)
    (h₁ : (K.hget w bucket).getD 0 + delta ≤ maxSafe) :
    Counted (K.hincrby w bucket delta).1 := by
  intro w' bucket' value hvalue
  rw [hget_hincrby] at hvalue
  split at hvalue
  · cases hvalue
    exact ⟨h₀, h₁⟩
  · exact hK w' bucket' value hvalue

/-- Every bucket of a vector can take its addition. -/
def Room (K : Keyspace) (delta : Fields → Int) (rs : List (ReservationWire Int)) : Prop :=
  ∀ r ∈ rs, ∃ f, reservationFields r = some f ∧ 0 ≤ (K.hget r.key f.bucket).getD 0 + delta f
    ∧ (K.hget r.key f.bucket).getD 0 + delta f ≤ maxSafe

/-- Additions that ran to the end, and touched no record. -/
def Added (K : Keyspace) (res : Keyspace × Bool) : Prop :=
  res.2 = true ∧ Counted res.1 ∧ res.1.records = K.records

/-- Where every bucket has room and no two reservations share one, the
additions run to the end. -/
theorem addEach_ok {delta : Fields → Int} (hK : Counted K)
    (hnodup : (rs.map spot).Nodup) (hroom : Room K delta rs) : Added K (addEach delta rs K) := by
  induction rs generalizing K with
  | nil => exact ⟨rfl, hK, rfl⟩
  | cons r rest ih =>
    obtain ⟨f, hf, h₀, h₁⟩ := hroom r List.mem_cons_self
    rw [List.map_cons, List.nodup_cons] at hnodup
    have hnext : (K.hincrby r.key f.bucket (delta f)).2
        = (K.hget r.key f.bucket).getD 0 + delta f := rfl
    have hstep : addEach delta (r :: rest) K
        = addEach delta rest (K.hincrby r.key f.bucket (delta f)).1 := by
      rw [addEach, hf]
      show (if (integer (K.hincrby r.key f.bucket (delta f)).2).isNone
        then _ else _) = _
      rw [hnext, integer_of_bounds h₀ h₁]
      rfl
    rw [hstep]
    refine ih (hK.hincrby h₀ h₁) hnodup.2 ?_
    intro r' hr'
    obtain ⟨f', hf', hroom'⟩ := hroom r' (List.mem_cons_of_mem _ hr')
    refine ⟨f', hf', ?_⟩
    rw [hget_hincrby, if_neg]
    · exact hroom'
    · intro hsame
      refine hnodup.1 (List.mem_map.mpr ⟨r', hr', ?_⟩)
      show (r'.key, integer r'.bucket) = (r.key, integer r.bucket)
      rw [reservationFields_bucket hf, reservationFields_bucket hf', hsame.1, hsame.2]

/-- What `increment_reservations` needs is what
`can_increment_reservations` tests. -/
theorem room_of_canIncrement (hK : Counted K) (h : canIncrementReservations K rs = true) :
    Room K (fun f => f.amount) rs := by
  intro r hr
  have hr := List.all_eq_true.mp h r hr
  split at hr
  · cases hr
  rename_i f hf
  have hparsed := hK.parsed r.key f.bucket
  have hle := of_decide_eq_true hr
  have hamount := (integer_eq_some.mp (reservationFields_spec hf).2.1).2
  refine ⟨f, hf, ?_, ?_⟩
  · rw [← hparsed]
    show (0 : Int) ≤ K.parsed r.key f.bucket + (f.amount : Int)
    omega
  · rw [← hparsed]
    show (K.parsed r.key f.bucket : Int) + (f.amount : Int) ≤ maxSafe
    omega

theorem incrementReservations_ok (hK : Counted K) (hnodup : (rs.map spot).Nodup)
    (h : canIncrementReservations K rs = true) : Added K (incrementReservations rs K) :=
  addEach_ok hK hnodup (room_of_canIncrement hK h)

theorem room_of_canReconcile {actual : Nat} (hK : Counted K) (h : canReconcile K rs actual = true) :
    Room K (fun f => actual - f.amount) rs := by
  intro r hr
  have hr := List.all_eq_true.mp h r hr
  split at hr
  · cases hr
  rename_i f hf
  have hparsed := hK.parsed r.key f.bucket
  have hle := parsed_le K r.key f.bucket
  simp only [Bool.and_eq_true, decide_eq_true_eq] at hr
  refine ⟨f, hf, ?_, ?_⟩
  · rw [← hparsed]
    show (0 : Int) ≤ K.parsed r.key f.bucket + ((actual : Int) - f.amount)
    omega
  · rw [← hparsed]
    show (K.parsed r.key f.bucket : Int) + ((actual : Int) - f.amount) ≤ maxSafe
    omega

/-- A settlement happens in full or not at all. -/
theorem reconcile_cases (hK : Counted K) (hnodup : (rs.map spot).Nodup) (actual : Int) :
    reconcile rs actual K = (K, false) ∨ Added K (reconcile rs actual K) := by
  unfold reconcile
  split
  · exact .inl rfl
  split
  · rename_i hcan
    exact .inr (addEach_ok hK hnodup (room_of_canReconcile hK hcan))
  · exact .inl rfl

-- ===== the records

/-- A record whose reservations count in distinct fields, each of which
survives being printed and read. -/
def Stable (r : LuaRecord) : Prop :=
  ∀ rs, r.reservations = some rs → (rs.map spot).Nodup
    ∧ ∀ r ∈ rs, luaNumber (cjsonLiteral r.bucket) = r.bucket

/-- Storing a stable record keeps it stable. -/
theorem Stable.stored {r : LuaRecord} (h : Stable r) : Stable r.encode.decode := by
  intro rs' hrs'
  rw [LuaRecord.decode_encode_reservations] at hrs'
  obtain ⟨rs, hrs, rfl⟩ := Option.map_eq_some_iff.mp hrs'
  obtain ⟨hnodup, hstable⟩ := h rs hrs
  have hspot : ∀ r ∈ rs, spot (r.map (luaNumber ∘ cjsonLiteral)) = spot r := by
    intro r hr
    show (r.key, integer (luaNumber (cjsonLiteral r.bucket))) = (r.key, integer r.bucket)
    rw [hstable r hr]
  refine ⟨?_, ?_⟩
  · rw [List.map_map, show rs.map (spot ∘ _) = rs.map spot from
      List.map_congr_left hspot]
    exact hnodup
  · intro r' hr'
    obtain ⟨r, hr, rfl⟩ := List.mem_map.mp hr'
    show luaNumber (cjsonLiteral (luaNumber (cjsonLiteral r.bucket)))
      = luaNumber (cjsonLiteral r.bucket)
    rw [hstable r hr, hstable r hr]

/-- What every reachable keyspace keeps: safe buckets, and records that
name the buckets they were charged to. -/
structure Wf (K : Keyspace) : Prop where
  counted : Counted K
  stable : ∀ key text, K.records.lookup key = some text → Stable text.decode

theorem Wf.empty : Wf Keyspace.empty where
  counted := by
    intro w bucket value h
    cases h
  stable := by
    intro key text h
    cases h

/-- The record that an action reads is stable. -/
theorem Wf.found (hK : Wf K) {key token : String} {text : RecordText}
    (h : operationStatus K key token = .ok (record, text)) :
    Stable record := by
  unfold operationStatus getRecord at h
  cases hlookup : K.records.lookup key with
  | none =>
    rw [hlookup] at h
    cases h
  | some encoded =>
    rw [hlookup] at h
    dsimp only at h
    split at h
    · cases h
    · cases h
    · rename_i record' encoded' hfound
      split at hfound
      · cases hfound
        split at h
        · cases h
        · cases h
          exact hK.stable key text hlookup
      · cases hfound

/-- Writing a stable record keeps a well-formed keyspace so. -/
theorem Wf.setRecord {K' : Keyspace} (hK : Wf K) {key : String}
    (hcounted : Counted K') (hrecords : K'.records = K.records)
    (hrecord : Stable record) :
    Wf (setRecord K' key record).1 where
  counted := hcounted
  stable := by
    intro key' text h
    have h : (K'.records.insert key record.encode).lookup key' = some text := h
    rw [lookup_insert_eq] at h
    split at h
    · cases h
      exact hrecord.stored
    · rw [hrecords] at h
      exact hK.stable key' text h

-- ===== the actions

/-- Every bucket of a vector is printed without loss. -/
def ExactBuckets (rs : Option (List (ReservationWire Int))) : Prop :=
  ∀ xs, rs = some xs → ∀ r ∈ xs, cjsonInt r.bucket = r.bucket

/-- A vector whose envelope was accepted can be stored. -/
theorem stable_of_envelope {r : LuaRecord} {expected : Int} (hrs : r.reservations = some rs)
    (h : validReservationEnvelope rs expected = true)
    (hexact : ExactBuckets (some rs)) : Stable r := by
  intro rs' hrs'
  cases hrs.symm.trans hrs'
  obtain ⟨hnodup, hfields⟩ := validReservationEnvelope_spec h
  refine ⟨hnodup, ?_⟩
  intro r hr
  obtain ⟨f, hf⟩ := hfields r hr
  exact luaNumber_cjsonLiteral (reservationFields_bucket hf) (hexact rs rfl r hr)

/-- An answer that either left the keyspace alone or reports what it
did, and then left a well-formed one if the call's numbers are exact. -/
def Settles (exact : Prop) (K : Keyspace) (res : Keyspace × Reply) :
    Prop :=
  res.1 = K ∨ (res.2.status.accepted = true ∧ (exact → Wf res.1))

theorem Settles.wf {exact : Prop} {res : Keyspace × Reply}
    (h : Settles exact K res) (hK : Wf K) (hexact : exact) : Wf res.1 := by
  rcases h with h | ⟨-, h⟩
  · rw [h]
    exact hK
  · exact h hexact

theorem Settles.unchanged {exact : Prop} {res : Keyspace × Reply}
    (h : Settles exact K res) (hrefused : res.2.status.accepted = false) :
    res.1 = K := by
  rcases h with h | ⟨haccepted, -⟩
  · exact h
  · rw [hrefused] at haccepted
    cases haccepted

theorem Settles.both {exact clean : Prop} {res : Keyspace × Reply} (h : Settles True K res)
    (hK : Wf K) : (exact → Wf res.1) ∧ (clean → res.2.status.accepted = false → res.1 = K) :=
  ⟨fun _ => h.wf hK trivial, fun _ => h.unchanged⟩

/-- From the reservations on, `begin` writes only when it creates. -/
theorem beginNew_settles (c : BeginCall) (clock : Clock) (incoming : LuaRecord) (hK : Wf K) :
    Settles (ExactBuckets incoming.reservations) K (beginNew c clock incoming K) := by
  unfold beginNew
  split
  · exact .inl rfl
  rename_i rs hrs
  split
  · exact .inl rfl
  split
  · exact .inl rfl
  rename_i requested hrequested
  split
  · exact .inl rfl
  rename_i henvelope
  have henvelope : validReservationEnvelope rs requested = true :=
    by simpa using henvelope
  split
  · exact .inl rfl
  split
  · exact .inl rfl
  rename_i hcan
  have hcan : canIncrementReservations K rs = true := by
    simpa using hcan
  obtain ⟨hadded, hcounted, hrecords⟩ :=
    incrementReservations_ok hK.counted (validReservationEnvelope_spec henvelope).1 hcan
  simp only [hadded, Bool.not_true, Bool.false_eq_true, if_false]
  refine .inr ⟨rfl, ?_⟩
  intro hexact
  have hstable : Stable { incoming with
      created := clock.nowString
      updated := clock.nowString } :=
    stable_of_envelope hrs henvelope (hrs ▸ hexact)
  have hstored : Wf (setRecord _ c.recordKey _).1 := hK.setRecord hcounted hrecords hstable
  exact ⟨hstored.counted, hstored.stable⟩

theorem actionMarkDispatching_settles {c : DispatchCall} (hK : Wf K) :
    Settles True K (actionMarkDispatching c clock K) := by
  unfold actionMarkDispatching
  split
  · exact .inl rfl
  split
  · exact .inl rfl
  rename_i record text hfound
  have hrecord := hK.found hfound
  split
  · split <;> exact .inl rfl
  split
  · exact .inl rfl
  split
  · exact .inl rfl
  dsimp only
  split
  · exact .inl rfl
  · refine .inr ⟨rfl, fun _ => ?_⟩
    exact hK.setRecord hK.counted rfl hrecord

theorem settledReservations_eq {keyCount : Nat}
    (h : settledReservations record keyCount = some rs) :
    record.reservations = some rs :=
  (Option.filter_eq_some_iff.mp h).1

theorem actionComplete_settles {c : CompleteCall} (hK : Wf K) :
    Settles True K (actionComplete c clock K) := by
  unfold actionComplete
  split
  · exact .inl rfl
  split
  · exact .inl rfl
  rename_i record text hfound
  have hrecord := hK.found hfound
  split
  · exact .inl rfl
  split
  · exact .inl rfl
  split
  · rename_i actual attempt result rs _ _ _ hrs
    have hrs := settledReservations_eq hrs
    rcases reconcile_cases hK.counted (hrecord rs hrs).1 actual with
      hleft | ⟨hdone, hcounted, hrecords⟩
    · simp only [hleft, Bool.not_false, if_true]
      exact .inl rfl
    · simp only [hdone, Bool.not_true, Bool.false_eq_true, if_false]
      refine .inr ⟨rfl, fun _ => ?_⟩
      exact hK.setRecord hcounted hrecords hrecord
  · exact .inl rfl

theorem actionFail_settles {c : FailCall} (hK : Wf K) : Settles True K (actionFail c clock K) := by
  unfold actionFail
  split
  · exact .inl rfl
  split
  · exact .inl rfl
  rename_i record text hfound
  have hrecord := hK.found hfound
  split
  · exact .inl rfl
  split
  · exact .inl rfl
  split
  · rename_i incurred attempt rs _ _ hrs
    have hrs := settledReservations_eq hrs
    split
    · exact .inl rfl
    split
    · refine .inr ⟨rfl, fun _ => ?_⟩
      exact hK.setRecord hK.counted rfl hrecord
    rcases reconcile_cases hK.counted (hrecord rs hrs).1 incurred with
      hleft | ⟨hdone, hcounted, hrecords⟩
    · simp only [hleft, Bool.not_false, if_true]
      exact .inl rfl
    · simp only [hdone, Bool.not_true, Bool.false_eq_true, if_false]
      refine .inr ⟨rfl, fun _ => ?_⟩
      exact hK.setRecord hcounted hrecords hrecord
  · exact .inl rfl

-- ===== begin and continue

theorem Wf.of_records {K' : Keyspace} (hK : Wf K) (hcounted : Counted K')
    (hrecords : K'.records = K.records) :
    Wf K' where
  counted := hcounted
  stable := hrecords ▸ hK.stable

/-- A new vector that can be counted: its windows' sums, and every
bucket with the amount it is to take, stay safe integers. -/
def Fits (K : Keyspace) (rs : List (ReservationWire Int)) (now : Nat) :
    Prop :=
  (∀ r ∈ rs, ∃ active, activeFor K r now = .ok active) ∧ canIncrementReservations K rs = true

theorem checkLoop_error {requested now : Nat} {reply : Reply}
    (hactive : ∀ r ∈ rs, ∃ active, activeFor K r now = .ok active)
    (h : checkLoop K requested now rs = .error reply) :
    reply.status = .denied := by
  induction rs with
  | nil => cases h
  | cons r rest ih =>
    obtain ⟨active, hr⟩ := hactive r List.mem_cons_self
    rw [checkLoop, hr] at h
    dsimp only at h
    split at h
    · cases h
      rfl
    · exact ih (fun r hr => hactive r (List.mem_cons_of_mem _ hr)) h

/-- Once the old reservation is released, `continue` writes only when it
reports, and reports whenever the new vector can be counted. -/
theorem continueNew_settles (c : ContinueCall) (clock : Clock)
    {remaining : Nat} (incurred : Nat) (outcome : OutcomeWire NumberLiteral)
    (hK : Wf K) (hrecord : Stable record)
    (henvelope : validReservationEnvelope rs remaining = true) :
    let res := continueNew c clock record rs remaining incurred outcome K
    Settles (ExactBuckets (some rs)) K res ∧ (remaining ≤ maxSafe → Fits K rs clock.nowMicros →
        res.2.status.accepted = true) := by
  unfold continueNew
  split
  · rename_i reply hreply
    split
    · refine ⟨.inr ⟨rfl, fun _ => ?_⟩, fun _ _ => rfl⟩
      exact hK.setRecord hK.counted rfl hrecord
    rename_i hstatus
    refine ⟨.inl rfl, ?_⟩
    intro hremaining hfits
    unfold checkReservations at hreply
    rw [integer_eq_some.mpr ⟨rfl, hremaining⟩] at hreply
    exact absurd (checkLoop_error hfits.1 hreply) hstatus
  · split
    · rename_i hcan
      refine ⟨.inl rfl, ?_⟩
      intro _ hfits
      rw [keys_keyspace, hfits.2] at hcan
      cases hcan
    · rename_i hcan
      have hcan : canIncrementReservations K rs = true := by
        simpa using hcan
      obtain ⟨hadded, hcounted, hrecords⟩ :=
        incrementReservations_ok hK.counted (validReservationEnvelope_spec henvelope).1 hcan
      simp only [hadded, Bool.not_true, Bool.false_eq_true, if_false]
      refine ⟨.inr ⟨rfl, ?_⟩, fun _ _ => rfl⟩
      intro hexact
      exact hK.setRecord hcounted hrecords (stable_of_envelope rfl henvelope hexact)

/-- The vector that a `continue` call asks for. -/
def ContinueCall.vector (c : ContinueCall) : Option (List (ReservationWire Int)) :=
  c.reservations.table.map (List.map (ReservationWire.map luaNumber))

/-- The new vector of a `continue` can be counted once the record's own
reservation is released. -/
def ContinueCall.Fits (c : ContinueCall) (clock : Clock) (K : Keyspace) : Prop :=
  ∀ record text old outcome rs, operationStatus K c.recordKey c.token = .ok (record, text) →
    record.reservations = some old → c.outcome = some outcome →
    c.vector = some rs →
    Admission.Fits (reconcile old outcome.incurred K).1 rs clock.nowMicros

/-- `continue` keeps a well-formed keyspace so, and writes only when it
reports if the new vector can be counted. -/
theorem actionContinue_settles {c : ContinueCall} (hK : Wf K) :
    (ExactBuckets c.vector → Wf (actionContinue c clock K).1) ∧ (c.Fits clock K →
        (actionContinue c clock K).2.status.accepted = false →
        (actionContinue c clock K).1 = K) := by
  have hleave : ∀ {reply : Reply}, (ExactBuckets c.vector → Wf K)
      ∧ (c.Fits clock K → reply.status.accepted = false → K = K) :=
    fun {_} => ⟨fun _ => hK, fun _ _ => rfl⟩
  unfold actionContinue
  split
  · exact hleave
  split
  · exact hleave
  rename_i record text hfound
  have hrecord := hK.found hfound
  split
  · exact hleave
  split
  · rename_i outcome rs houtcome hvector
    split
    · exact hleave
    split
    · rename_i remaining incurred hremaining hincurred
      split
      · exact hleave
      rename_i old hold
      split
      · exact hleave
      rename_i hchecks
      simp only [not_or, Bool.not_eq_true, Bool.not_eq_false'] at hchecks
      obtain ⟨-, -, -, -, henvelope⟩ := hchecks
      rcases reconcile_cases hK.counted (hrecord old hold).1 incurred with
        hleft | ⟨hdone, hcounted, hrecords⟩
      · rw [hleft]
        exact hleave
      · simp only [hdone, Bool.not_true, Bool.false_eq_true, if_false]
        have hnew := continueNew_settles c clock incurred
          outcome (hK.of_records hcounted hrecords) hrecord
          henvelope
        refine ⟨?_, ?_⟩
        · intro hexact
          exact hnew.1.wf (hK.of_records hcounted hrecords) (hvector ▸ hexact)
        · intro hfits hrefused
          have hfit := hfits record text old outcome rs hfound hold houtcome hvector
          rw [(integer_eq_some.mp hincurred).1] at hfit
          rw [hnew.2 (integer_eq_some.mp hremaining).2 hfit]
            at hrefused
          cases hrefused
    · exact hleave
  · exact hleave

/-- A scope index names a record that is still there. -/
def BeginCall.Indexed (c : BeginCall) (K : Keyspace) : Prop :=
  ∀ key, K.index.lookup c.scopeIndex = some key → ∃ text, K.records.lookup key = some text

/-- The vector that a `begin` call asks for. -/
def BeginCall.vector (c : BeginCall) : Option (List (ReservationWire Int)) :=
  c.incoming.bind fun text => text.decode.reservations

/-- `begin` keeps a well-formed keyspace so, and writes only when it
reports if the index it finds names a record. -/
theorem actionBegin_settles {c : BeginCall} (hK : Wf K) :
    (ExactBuckets c.vector → Wf (actionBegin c clock K).1) ∧ (c.Indexed K →
        (actionBegin c clock K).2.status.accepted = false →
        (actionBegin c clock K).1 = K) := by
  have hleave : ∀ {reply : Reply}, (ExactBuckets c.vector → Wf K)
      ∧ (c.Indexed K → reply.status.accepted = false → K = K) :=
    fun {_} => ⟨fun _ => hK, fun _ _ => rfl⟩
  unfold actionBegin
  split
  · exact hleave
  split
  · exact hleave
  rename_i text htext
  have hvector : c.vector = text.decode.reservations := by
    rw [BeginCall.vector, htext]
    rfl
  dsimp only
  split
  · exact hleave
  split
  · have hnew := beginNew_settles c clock text.decode hK
    exact ⟨fun hexact => hnew.wf hK (hvector ▸ hexact), fun _ => hnew.unchanged⟩
  · rename_i existingKey hindex
    split
    · split <;> exact hleave
    · exact hleave
    · rename_i hmissing
      have hK' : Wf { K with index := K.index.erase c.scopeIndex } := ⟨hK.counted, hK.stable⟩
      have hnew := beginNew_settles c clock text.decode hK'
      refine ⟨fun hexact => hnew.wf hK' (hvector ▸ hexact), ?_⟩
      intro hindexed
      obtain ⟨stored, hstored⟩ := hindexed existingKey hindex
      unfold getRecord at hmissing
      rw [keys_keyspace, hstored] at hmissing
      dsimp only at hmissing
      split at hmissing <;> cases hmissing

-- ===== runs

/-- A call whose buckets are printed without loss. -/
def Call.Exact : Call → Prop
  | .begin c => ExactBuckets c.vector
  | .continue c => ExactBuckets c.vector
  | _ => True

/-- A step whose call, if it is one, is exact. -/
def Step.Exact : Step → Prop
  | .call c _ => c.Exact
  | _ => True

/-- A call that meets no index without a record, and asks for nothing
that cannot be counted. -/
def Call.Clean (clock : Clock) (K : Keyspace) : Call → Prop
  | .begin c => c.Indexed K
  | .continue c => c.Fits clock K
  | _ => True

/-- Every call keeps a well-formed keyspace so; a clean one that is
refused leaves it as it is. -/
theorem Call.run_settles {c : Call} (hK : Wf K) : (c.Exact → Wf (c.run clock K).1)
      ∧ (c.Clean clock K → (c.run clock K).2.status.accepted = false → (c.run clock K).1 = K) := by
  cases c with
  | begin c => exact actionBegin_settles hK
  | markDispatching c => exact (actionMarkDispatching_settles hK).both hK
  | «continue» c => exact actionContinue_settles hK
  | complete c => exact (actionComplete_settles hK).both hK
  | fail c => exact (actionFail_settles hK).both hK

/-- A key that vanishes takes no bucket out of its bounds. -/
theorem Wf.perform (hK : Wf K) {s : Step} (hexact : s.Exact) : Wf (s.perform K).1 := by
  cases s with
  | call c clock => exact (Call.run_settles hK).1 hexact
  | indexExpires key => exact ⟨hK.counted, hK.stable⟩
  | recordExpires key =>
    refine ⟨hK.counted, ?_⟩
    intro key' text h
    have h : (K.records.erase key).lookup key' = some text := h
    rw [lookup_erase_eq] at h
    split at h
    · cases h
    · exact hK.stable key' text h
  | budgetExpires w =>
    refine ⟨?_, hK.stable⟩
    intro w' bucket value h
    have h : (Function.update K.budget w ∅ w').lookup bucket = some value := h
    by_cases hw : w' = w
    · subst hw
      rw [Function.update_self] at h
      cases h
    · rw [Function.update_of_ne hw] at h
      exact hK.counted w' bucket value h

/-- The keyspace after a list of steps. -/
def reached (steps : List Step) : Keyspace :=
  runAll Step.perform Keyspace.empty steps

/-- In every run whose calls name their buckets exactly, a clean call
that is refused leaves every record, index and budget as it was. -/
theorem refused_call_changes_nothing {steps : List Step}
    (hexact : ∀ s ∈ steps, s.Exact) {c : Call} {clock : Clock}
    (hclean : c.Clean clock (reached steps))
    (hrefused : (c.run clock (reached steps)).2.status.accepted = false) :
    (c.run clock (reached steps)).1 = reached steps := by
  have hwf : Wf (reached steps) :=
    runAll_invariant Wf.empty fun s hs K hK => hK.perform (hexact s hs)
  exact (Call.run_settles hwf).2 hclean hrefused

-- ===== a release that is kept

/-- An hour of minutes, from JSON digits. -/
def sampleReservation (policy : String) (bucket amount limit : Int) :
    ReservationWire NumberLiteral :=
  ⟨policy, "hour", .plain bucket, .plain amount, .plain limit,
    .plain (60 * 10 ^ 9), .plain (3600 * 10 ^ 9)⟩

/-- A new operation's record. -/
def sampleIncoming (id : String) (reserved : Int)
    (r : ReservationWire NumberLiteral) : RecordText where
  id := id
  scopeKey := id
  digest := String.ofList (List.replicate 64 'a')
  state := .reserved
  reserved := reserved
  incurred := 0
  final := 0
  reservations := .array [r]
  config := "v1"
  price := "v1"
  attempt := some ((AttemptWire.map .plain) .blank)
  result := none
  token := id
  lease := ""
  created := .stamp 0 0
  updated := .stamp 0 0
  expires := ""

def sampleClock : Clock := ⟨1700000000, 0, by decide⟩

def sampleBegin (id : String) (reserved : Int) (r : ReservationWire NumberLiteral) : Step :=
  .call (.begin ⟨"scope " ++ id, "operation " ++ id, id, 4,
    some (sampleIncoming id reserved r), 60⟩) sampleClock

/-- One operation fills a bucket that has left its window; another is
charged to the current minute and dispatched. -/
def sampleSteps : List Step :=
  [sampleBegin "full" maxSafe (sampleReservation "team" 0 maxSafe maxSafe),
    sampleBegin "small" 5 (sampleReservation "user" 28333333 5 10),
    .call (.markDispatching ⟨"small", "small",
      some ((AttemptWire.map .plain) .blank), ""⟩) sampleClock]

/-- The second operation's next attempt asks for the full bucket. -/
def sampleContinue : Call :=
  .continue ⟨"small", 4, "small", some ⟨.rejected, 0, none⟩, 1,
    .array [sampleReservation "team" 0 1 10], "", ""⟩

/-- The second operation's budget is lost. -/
def sampleLoss : List Step :=
  sampleSteps ++ [.budgetExpires ⟨"user", "hour"⟩]

theorem sampleBegin_exact {id policy : String}
    {reserved bucket amount limit : Int} (h : bucket.natAbs < 10 ^ 14) :
    (sampleBegin id reserved (sampleReservation policy bucket amount limit)).Exact := by
  intro xs hxs r hr
  cases hxs
  obtain rfl := List.mem_singleton.mp hr
  have hdouble : luaDouble bucket = bucket := luaDouble_of_le (by omega)
  show cjsonInt (luaDouble bucket) = luaDouble bucket
  rw [hdouble]
  exact cjsonInt_of_lt h

theorem sampleLoss_exact : ∀ s ∈ sampleLoss, s.Exact := by
  intro s hs
  simp only [sampleLoss, sampleSteps, List.cons_append, List.nil_append,
    List.mem_cons, List.not_mem_nil, or_false] at hs
  rcases hs with rfl | rfl | rfl | rfl
  · exact sampleBegin_exact (by decide)
  · exact sampleBegin_exact (by decide)
  · trivial
  · trivial

/-- The dispatched operation settles after its budget was lost. -/
def sampleComplete : Call :=
  .complete ⟨"small", 3, "small", 3, some none, some ((AttemptWire.map .plain) .blank)⟩

theorem refused_complete_changes_nothing :
    (sampleComplete.run sampleClock (reached sampleLoss)).2.status = .stateUnavailable
      ∧ (sampleComplete.run sampleClock (reached sampleLoss)).1 = reached sampleLoss :=
  ⟨by decide +kernel, refused_call_changes_nothing sampleLoss_exact
    trivial (by decide +kernel)⟩

/-- The refused `continue` has released the old reservation, and the
record is still dispatching. -/
theorem refused_continue_releases :
    let K := reached sampleSteps
    let answer := sampleContinue.run sampleClock K
    answer.2.status = .stateUnavailable ∧ K.hget ⟨"user", "hour"⟩ 28333333 = some 5
      ∧ answer.1.hget ⟨"user", "hour"⟩ 28333333 = some 0
      ∧ (answer.1.records.lookup "small").map OperationWire.state = some .dispatching := by
  decide +kernel

end LlmTemporalWorker.Admission
