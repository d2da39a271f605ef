/-
One settlement event under the ledger's invariants.

# One event

Settling a reservation takes its old charge out and puts its new one
in. `ItemOk` is what staging has verified of an event; from it, one
turn of the applying loop cannot raise, and moves the sum by exactly
the difference of the two charges (`slack_applyItem`).

# Two events

Staging reads the record and the keyspace before any event of the
batch is applied, and events of one batch settle different
reservations, which sit at different places. So what was verified of a
later event still holds when its turn comes (`ItemOk.of_applyItem`).
-/
import LlmTemporalWorker.Budget.Proofs.Claim

namespace LlmTemporalWorker.Budget

open Lib

-- ===== the transition

/-- What the rule of one event guarantees. -/
structure Transition (claimed : Bool) (x : HeldReservation) (e : Event)
    (newReserved newAccounted : Nat) : Prop where
  revision : ∃ revision, durableInt e.reservationRevision = some revision
    ∧ (durableInt x.reservationRevision).getD 0 < revision
  kind : e.kind ≠ .reserve
  open_ : x.status ≠ .finalized
  claim : (e.kind = .release ↔ claimed = false)
  retain : e.kind = .retainAmbiguous → x.status = .reserved ∧ newReserved = x.reservedNano
      ∧ newAccounted = x.accountedNano ∧ e.accountedIncreaseNano = 0
  replace : e.kind ≠ .retainAmbiguous → newReserved = 0 ∧ e.reservedDecreaseNano = x.reservedNano
      ∧ e.accountedDecreaseNano = x.accountedNano
      ∧ newAccounted = luaAdd x.accountedNano e.accountedIncreaseNano - x.accountedNano
  safe : newReserved + newAccounted ≤ maxSafe

variable {x : HeldReservation}

theorem kindVerdict_none {e : Event} (h : kindVerdict e x = none) :
    e.kind ≠ .reserve ∧ (e.kind = .retainAmbiguous → x.status = .reserved
        ∧ e.reservedDecreaseNano = 0 ∧ e.accountedIncreaseNano = 0
        ∧ e.accountedDecreaseNano = 0) := by
  unfold kindVerdict at h
  cases hk : e.kind <;> simp only [hk] at h <;> simp_all

theorem stageTransition_ok {claimed : Bool} {e : Event}
    {newReserved newAccounted : Nat}
    (h : stageTransition claimed x e = .ok (newReserved, newAccounted)) :
    Transition claimed x e newReserved newAccounted := by
  unfold stageTransition at h
  split at h
  · rename_i revision rd ai ad oldR oldA hrev hrd hai had hoR hoA
    obtain ⟨hrd', -⟩ := durableInt_eq_some.mp hrd
    obtain ⟨hai', -⟩ := durableInt_eq_some.mp hai
    obtain ⟨had', -⟩ := durableInt_eq_some.mp had
    obtain ⟨hoR', hoRs⟩ := durableInt_eq_some.mp hoR
    obtain ⟨hoA', hoAs⟩ := durableInt_eq_some.mp hoA
    obtain rfl : rd = e.reservedDecreaseNano := by omega
    obtain rfl : ai = e.accountedIncreaseNano := by omega
    obtain rfl : ad = e.accountedDecreaseNano := by omega
    obtain rfl : oldR = x.reservedNano := by omega
    obtain rfl : oldA = x.accountedNano := by omega
    split at h
    · cases h
    split at h
    · cases h
    rename_i hfin
    split at h
    · cases h
    split at h
    · cases h
    split at h
    · cases h
    rename_i hkind
    obtain ⟨hkind', hretain⟩ := kindVerdict_none hkind
    split at h
    · cases h
    rename_i hdeltas
    dsimp only at h
    split at h
    · cases h
    obtain ⟨rfl, rfl⟩ := h
    refine ⟨⟨revision, hrev, by omega⟩, hkind', hfin, ?_, ?_, ?_, by omega⟩
    · cases claimed <;> simp_all
    · intro hk
      obtain ⟨hst, h1, h2, h3⟩ := hretain hk
      refine ⟨hst, by omega, ?_, h2⟩
      rw [h2, h3, luaAdd_of_le (by omega)]
      omega
    · intro hk
      have hd : e.reservedDecreaseNano = x.reservedNano
          ∧ e.accountedDecreaseNano = x.accountedNano := by
        by_contra hne
        exact hdeltas ⟨hk, not_and_or.mp hne⟩
      refine ⟨by omega, hd.1, hd.2, ?_⟩
      rw [hd.2]
  · cases h

/-- What the keyspace checks of one event guarantee. -/
structure Balance (K : Keyspace) (r : Record) (x : HeldReservation)
    (newTotal : Nat) : Prop where
  member : 0 < x.total → retained r.claimed x = false → (K.zscore x.key
      (durableExpiryMember r.fingerprint x.bucket x.total)).isSome
  score : ∃ score, durableInt x.windowExpiresMillis = some score
  charged : (x.total : Int) ≤ K.sum x.key x.bucket
  capped : K.sum x.key x.bucket - x.total + newTotal ≤ maxSafe

theorem stageBalance_none {K : Keyspace} {r : Record} {newTotal : Nat}
    (hsafe : newTotal ≤ maxSafe) (h : stageBalance K r x newTotal = none) :
    Balance K r x newTotal := by
  unfold stageBalance at h
  split at h
  · cases h
  rename_i hmember
  split at h
  · cases h
  rename_i hscore
  split at h
  · cases h
  rename_i current hcur
  obtain ⟨hc, -⟩ := durableInt_eq_some.mp hcur
  split at h
  · cases h
  split at h
  · cases h
  refine ⟨?_, ?_, by omega, by omega⟩
  · intro hpos hret
    by_contra hnone
    refine hmember ⟨hpos, ?_, by simpa using hnone⟩
    cases hcl : r.claimed with
    | false => simp
    | true =>
      right
      rw [retained, hcl] at hret
      simp at hret
      exact hret
  · exact Option.ne_none_iff_exists'.mp (by simpa using hscore)

-- ===== one event

/-- What staging has verified of an event. -/
structure ItemOk (K : Keyspace) (r : Record) (s : Staged) : Prop where
  located : r.reservations[s.index]? = some s.reservation
  named : s.event.names s.reservation = true
  transition : Transition r.claimed s.reservation s.event s.newReserved s.newAccounted
  balance : Balance K r s.reservation s.newTotal

section Apply

variable {K : Keyspace} {r : Record} {s : Staged}

/-- A staged event cannot raise. -/
theorem ItemOk.applyItem_some (h : ItemOk K r s) :
    (applyItem K r s).2 = some (settleRecord r s) := by
  obtain ⟨score, hscore⟩ := h.balance.score
  unfold applyItem addCharge
  by_cases h0 : s.newTotal = 0
  · simp [h0]
  by_cases hk : s.event.kind = .retainAmbiguous
  · simp [h0, hk]
  · simp [h0, hk, hscore]

variable {score n : Nat} {x : HeldReservation} {op : OperationKey}
  (hscore : durableInt s.reservation.windowExpiresMillis = some score)

include hscore in
/-- The keyspace an applied event leaves. -/
theorem applyItem_fst :
    (applyItem K r s).1 =
      let K₁ := dropCharge K r.fingerprint s.reservation
      let x := s.reservation
      if s.newTotal = 0 then K₁
      else if s.event.kind = .retainAmbiguous then
        K₁.hincrby x.key x.bucket s.newTotal
      else
        (K₁.hincrby x.key x.bucket s.newTotal).zadd x.key score
          (durableExpiryMember r.fingerprint x.bucket s.newTotal) := by
  unfold applyItem addCharge
  by_cases h0 : s.newTotal = 0
  · simp [h0]
  by_cases hk : s.event.kind = .retainAmbiguous
  · simp [h0, hk]
  · simp [h0, hk, hscore]

section Drop

variable (K : Keyspace) (fp : String) (x : HeldReservation) (n : Nat) (w : WindowKey)
  (P : Nat → Bool)

/-- Dropping a charge takes it out of its sum. -/
theorem sum_dropCharge (b : Nat) : (dropCharge K fp x).sum w b = K.sum w b
      - if w = x.key ∧ b = x.bucket then (x.total : Int) else 0 := by
  unfold dropCharge
  split
  · rw [sum_congr (hash_zrem ..), sum_hincrbyDropZero]
    split <;> omega
  have : x.total = 0 := by omega
  rw [this]
  split <;> simp

theorem zscore_dropCharge (m : Member) :
    (dropCharge K fp x).zscore w m = if 0 < x.total ∧ w = x.key
          ∧ m = durableExpiryMember fp x.bucket x.total then none
        else K.zscore w m := by
  unfold dropCharge
  by_cases h0 : 0 < x.total
  · rw [if_pos h0, zscore_zrem, zscore_congr (expiry_hincrbyDropZero ..)]
    simp [h0]
  · rw [if_neg h0, if_neg (fun h => h0 h.1)]

@[simp] theorem records_dropCharge : (dropCharge K fp x).records = K.records := by
  unfold dropCharge
  split <;> simp

/-- An amount counted at a reservation's place. -/
def weightAt (x : HeldReservation) (w : WindowKey) (P : Nat → Bool) (n : Nat) : Int :=
  if w = x.key ∧ P x.bucket then (n : Int) else 0

/-- A member of a reservation counted at its place, if the set has it. -/
def presenceAt (K : Keyspace) (fp : String) (x : HeldReservation)
    (n : Nat) (w : WindowKey) (P : Nat → Bool) : Int :=
  if w = x.key then
    presence K x.key (durableExpiryMember fp x.bucket n) P
  else 0

theorem retainedWeight_eq (w : WindowKey) (P : Nat → Bool) (claimed : Bool) (x : HeldReservation) :
    retainedWeight w P claimed x = if retained claimed x = true then weightAt x w P x.total
        else 0 := by
  unfold retainedWeight weightAt
  by_cases hret : retained claimed x = true
  · simp only [hret, true_and, if_true, eq_comm]
  · simp [hret]

theorem presenceAt_nonneg : 0 ≤ presenceAt K fp x n w P := by
  unfold presenceAt
  split
  · exact presence_nonneg ..
  · omega

variable {K fp x n} in
theorem presenceAt_of_some (h : 0 < n →
      (K.zscore x.key (durableExpiryMember fp x.bucket n)).isSome) (w : WindowKey)
    (P : Nat → Bool) :
    presenceAt K fp x n w P = weightAt x w P n := by
  unfold presenceAt weightAt
  by_cases hw : w = x.key
  · rcases Nat.eq_zero_or_pos n with rfl | hn
    · have hle := presence_le K x.key (durableExpiryMember fp x.bucket 0) P
      have hge := presence_nonneg K x.key (durableExpiryMember fp x.bucket 0) P
      rw [memberWeight_member] at hle
      omega
    · rw [presence_of_some (h hn), memberWeight_member]
      simp [hw]
  · rw [if_neg hw, if_neg (fun h => hw h.1)]

variable {K fp x n} in
theorem presenceAt_of_none (h : K.zscore x.key (durableExpiryMember fp x.bucket n) = none)
    (w : WindowKey) (P : Nat → Bool) : presenceAt K fp x n w P = 0 := by
  unfold presenceAt
  rw [presence_of_none h, ite_self]

/-- Dropping a charge: the sum falls by all of it, the set by the
member if it was there. -/
theorem slack_dropCharge : slack (dropCharge K fp x) w P = slack K w P
      - weightAt x w P x.total + presenceAt K fp x x.total w P := by
  unfold dropCharge
  by_cases h0 : 0 < x.total
  · have hpres : presence (K.hincrbyDropZero x.key x.bucket (-(x.total : Int))) x.key
        (durableExpiryMember fp x.bucket x.total) P
        = presence K x.key (durableExpiryMember fp x.bucket x.total)
          P := by
      rw [presence, presence, zscore_congr (expiry_hincrbyDropZero ..)]
    rw [if_pos h0, slack, slack, sumTotal_congr (hash_zrem ..),
      sumTotal_hincrbyDropZero, memberTotal_zrem,
      memberTotal_congr (expiry_hincrbyDropZero ..),
      retainedTotal_congr (records_zrem ..),
      retainedTotal_congr (records_hincrbyDropZero ..), hpres,
      weightAt, presenceAt]
    split <;> split <;> omega
  · rw [if_neg h0, presenceAt_of_some (fun hpos => absurd hpos h0)]
    omega

end Drop

include hscore in
/-- Adding a charge: the sum rises by all of it, the set too unless the
charge is retained without a member. -/
theorem slack_applyItem_fst (w : WindowKey) (P : Nat → Bool) :
    slack (applyItem K r s).1 w P = slack (dropCharge K r.fingerprint s.reservation) w P
        + if s.event.kind = .retainAmbiguous then
            weightAt s.reservation w P s.newTotal
          else if s.newTotal = 0 then 0
          else
            presenceAt (dropCharge K r.fingerprint s.reservation)
              r.fingerprint s.reservation s.newTotal w P := by
  rw [applyItem_fst hscore]
  generalize dropCharge K r.fingerprint s.reservation = K₁
  by_cases h0 : s.newTotal = 0
  · simp [h0, weightAt]
  have hsum : ∀ K' : Keyspace, K'.hash = (K₁.hincrby s.reservation.key s.reservation.bucket
        s.newTotal).hash →
      sumTotal K' w P = sumTotal K₁ w P + weightAt s.reservation w P s.newTotal := by
    intro K' hK'
    rw [sumTotal_congr hK', sumTotal_hincrby, weightAt]
  rw [if_neg h0, if_neg h0]
  by_cases hk : s.event.kind = .retainAmbiguous
  · rw [if_pos hk, if_pos hk, slack, slack, hsum _ rfl, memberTotal_congr (expiry_hincrby ..),
      retainedTotal_congr (records_hincrby ..)]
    omega
  · rw [if_neg hk, if_neg hk, slack, slack, hsum _ (hash_zadd ..),
      memberTotal_zadd, memberTotal_congr (expiry_hincrby ..),
      retainedTotal_congr (records_zadd ..),
      retainedTotal_congr (records_hincrby ..), weightAt, presenceAt,
      memberWeight_member]
    have hpres : presence (K₁.hincrby s.reservation.key
        s.reservation.bucket s.newTotal) s.reservation.key
        (durableExpiryMember r.fingerprint s.reservation.bucket s.newTotal) P
        = presence K₁ s.reservation.key (durableExpiryMember r.fingerprint s.reservation.bucket
            s.newTotal) P := rfl
    by_cases hw : w = s.reservation.key
    · simp only [hw, true_and, if_true]
      split <;> omega
    · simp only [hw, false_and, if_false]
      omega

/-- What a settled record retains differs by the one reservation. -/
theorem retainedIn_settleRecord (hloc : r.reservations[s.index]? = some s.reservation)
    (w : WindowKey) (P : Nat → Bool) :
    retainedIn w P (settleRecord r s) = retainedIn w P r + retainedWeight w P r.claimed s.settled
      - retainedWeight w P r.claimed s.reservation :=
  sum_map_set hloc s.settled _

/-- An ambiguous charge stays retained, every other one ends. -/
theorem Transition.retained_settled {claimed : Bool} (hwf : s.reservation.status = .reserved →
      0 < s.reservation.reservedNano)
    (h : Transition claimed s.reservation s.event s.newReserved s.newAccounted) :
    retained claimed s.settled = true ↔ s.event.kind = .retainAmbiguous := by
  have hset : s.settled.reservedNano = s.newReserved := rfl
  constructor
  · intro hret
    by_contra hk
    have h0 := (h.replace hk).1
    rw [retained, hset, h0] at hret
    simp at hret
  · intro hk
    obtain ⟨hst, hres, -⟩ := h.retain hk
    have hclaimed : claimed = true := by
      cases hc : claimed with
      | true => rfl
      | false =>
        have := h.claim.mpr hc
        rw [hk] at this
        cases this
    have := hwf hst
    rw [retained, hset, hres, hclaimed]
    simpa using this

@[simp] theorem records_applyItem (K : Keyspace) (r : Record) (s : Staged) :
    (applyItem K r s).1.records = K.records := by
  have hadd : ∀ K : Keyspace, (addCharge K r.fingerprint s).1.records = K.records := by
    intro K
    unfold addCharge
    dsimp only
    split
    · rfl
    split
    · rfl
    split <;> rfl
  have hsame := hadd (dropCharge K r.fingerprint s.reservation)
  rw [records_dropCharge] at hsame
  unfold applyItem
  split <;> rename_i heq <;> rw [heq] at hsame <;> exact hsame

/-- The balance of an applied event: nothing is lost, and what is gained
are members that should not have been there. -/
theorem slack_applyItem (hr : K.records.lookup op = some r)
    (hwf : RecordWf r) (h : ItemOk K r s) (w : WindowKey) (P : Nat → Bool) :
    slack ((applyItem K r s).1.setRecord op (settleRecord r s)) w P
      = slack K w P + (if retained r.claimed s.reservation = true then
            presenceAt K r.fingerprint s.reservation s.reservation.total w P
          else 0)
        + if s.event.kind = .retainAmbiguous ∨ s.newTotal = 0 then 0
          else
            presenceAt (dropCharge K r.fingerprint s.reservation)
              r.fingerprint s.reservation s.newTotal w P := by
  obtain ⟨score, hscore⟩ := h.balance.score
  have hx : s.reservation ∈ r.reservations := List.mem_of_getElem? h.located
  have hset := h.transition.retained_settled fun hst => by
    obtain ⟨hres, -, hpos⟩ := hwf.fresh _ hx hst
    omega
  have hret : retainedTotal ((applyItem K r s).1.setRecord op (settleRecord r s)) w P
      = retainedTotal (applyItem K r s).1 w P + (if s.event.kind = .retainAmbiguous then
            weightAt s.reservation w P s.newTotal else 0)
        - (if retained r.claimed s.reservation = true then
            weightAt s.reservation w P s.reservation.total else 0) := by
    rw [retainedTotal_setRecord (by rw [records_applyItem]; exact hr),
      retainedIn_settleRecord h.located, retainedWeight_eq,
      retainedWeight_eq,
      show weightAt s.settled w P s.settled.total = weightAt s.reservation w P s.newTotal from rfl]
    simp only [hset]
    omega
  have hbook : slack ((applyItem K r s).1.setRecord op (settleRecord r s)) w P
      = slack (applyItem K r s).1 w P - (if s.event.kind = .retainAmbiguous then
            weightAt s.reservation w P s.newTotal else 0)
        + (if retained r.claimed s.reservation = true then
            weightAt s.reservation w P s.reservation.total else 0) := by
    rw [slack, hret, slack]
    show sumTotal (applyItem K r s).1 w P - memberTotal (applyItem K r s).1 w P - _ = _
    omega
  have hold : retained r.claimed s.reservation = false →
      presenceAt K r.fingerprint s.reservation s.reservation.total w P
        = weightAt s.reservation w P s.reservation.total := fun hret0 =>
    presenceAt_of_some (fun hpos => h.balance.member hpos hret0) w P
  rw [hbook, slack_applyItem_fst hscore, slack_dropCharge]
  cases hret0 : retained r.claimed s.reservation with
  | true =>
    simp only [if_true]
    by_cases hk : s.event.kind = .retainAmbiguous
    · simp only [hk, if_true, true_or]
      omega
    · simp only [hk, if_false, false_or]
      omega
  | false =>
    rw [hold hret0]
    by_cases hk : s.event.kind = .retainAmbiguous
    · simp only [hk, if_true, true_or]
      omega
    · simp only [hk, if_false, false_or]
      omega

include hscore in
theorem sum_applyItem (w : WindowKey) (b : Nat) :
    (applyItem K r s).1.sum w b = K.sum w b
      + if w = s.reservation.key ∧ b = s.reservation.bucket then
          (s.newTotal : Int) - s.reservation.total
        else 0 := by
  have hdrop := sum_dropCharge K r.fingerprint s.reservation w b
  rw [applyItem_fst hscore]
  split
  · rename_i h0
    rw [hdrop, h0]
    split
    · omega
    · omega
  · have hadd : ((dropCharge K r.fingerprint s.reservation).hincrby
        s.reservation.key s.reservation.bucket s.newTotal).sum w b
        = K.sum w b + if w = s.reservation.key ∧ b = s.reservation.bucket then
              (s.newTotal : Int) - s.reservation.total
            else 0 := by
      rw [sum_hincrby, hdrop]
      split <;> omega
    split
    · exact hadd
    · exact hadd

include hscore in
theorem zscore_applyItem (w : WindowKey) (m : Member) :
    (applyItem K r s).1.zscore w m = if (s.newTotal ≠ 0 ∧ s.event.kind ≠ .retainAmbiguous)
          ∧ w = s.reservation.key
          ∧ m = durableExpiryMember r.fingerprint s.reservation.bucket s.newTotal then some score
        else (dropCharge K r.fingerprint s.reservation).zscore w m := by
  rw [applyItem_fst hscore]
  by_cases h0 : s.newTotal = 0
  · rw [if_pos h0, if_neg (fun h => h.1.1 h0)]
  rw [if_neg h0]
  by_cases hk : s.event.kind = .retainAmbiguous
  · rw [if_pos hk, if_neg (fun h => h.1.2 hk)]
    rfl
  rw [if_neg hk, zscore_zadd]
  simp only [ne_eq, h0, hk, not_false_eq_true, true_and]
  rfl

include hscore in
/-- Another place's sum and members are left alone. -/
theorem applyItem_other_place {y : HeldReservation} (hne : y.place ≠ s.reservation.place)
    (fp : String) (n : Nat) :
    (applyItem K r s).1.sum y.key y.bucket = K.sum y.key y.bucket
      ∧ (applyItem K r s).1.zscore y.key (durableExpiryMember fp y.bucket n)
        = K.zscore y.key (durableExpiryMember fp y.bucket n) := by
  constructor
  · rw [sum_applyItem hscore, if_neg, add_zero]
    rintro ⟨hk, hb⟩
    exact hne (Prod.ext hk hb)
  · rw [zscore_applyItem hscore, if_neg, zscore_dropCharge, if_neg]
    · rintro ⟨-, hk, hm⟩
      exact hne (Prod.ext hk (congrArg Member.bucket hm))
    · rintro ⟨-, hk, hm⟩
      exact hne (Prod.ext hk (congrArg Member.bucket hm))

-- ===== keeping the records

/-- A settled record is well formed. -/
theorem RecordWf.settle (hwf : RecordWf r) (h : ItemOk K r s) : RecordWf (settleRecord r s) where
  places := by
    show ((r.reservations.set s.index s.settled).map _).Nodup
    rw [map_set_of_eq h.located (by rfl)]
    exact hwf.places
  fresh := by
    intro y hy hst
    rcases List.mem_or_eq_of_mem_set hy with hy | rfl
    · exact hwf.fresh y hy hst
    · -- no kind of event leaves the status `reserved`
      have : s.event.kind.settles = .reserved := hst
      cases hk : s.event.kind <;> rw [hk] at this <;> cases this
  safe := by
    intro y hy
    rcases List.mem_or_eq_of_mem_set hy with hy | rfl
    · exact hwf.safe y hy
    · exact h.transition.safe

/-- Two reservations of one record are at two places. -/
theorem RecordWf.place_ne (hwf : RecordWf r) {i j : Nat}
    {y : HeldReservation} (hx : r.reservations[i]? = some x)
    (hy : r.reservations[j]? = some y) (hne : i ≠ j) :
    x.place ≠ y.place := by
  intro he
  have hmap : ∀ {k : Nat} {z : HeldReservation}, r.reservations[k]? = some z →
      (r.reservations.map HeldReservation.place)[k]? = some z.place := by
    intro k z hz
    rw [List.getElem?_map, hz]
    rfl
  have hlt := (List.getElem?_eq_some_iff.mp (hmap hx)).1
  refine hne ((List.getElem?_inj hlt hwf.places).mp ?_)
  rw [hmap hx, hmap hy, he]

/-- Settling one reservation leaves what was verified of another. -/
theorem ItemOk.of_applyItem {s' : Staged} (hwf : RecordWf r)
    (h : ItemOk K r s) (h' : ItemOk K r s') (hne : s'.index ≠ s.index) :
    ItemOk (applyItem K r s).1 (settleRecord r s) s' := by
  obtain ⟨score, hscore⟩ := h.balance.score
  have hplace := hwf.place_ne h'.located h.located hne
  have hframe := fun n => applyItem_other_place (K := K) (r := r) hscore hplace r.fingerprint n
  refine ⟨?_, h'.named, h'.transition, ⟨?_, h'.balance.score, ?_, ?_⟩⟩
  · show (r.reservations.set s.index s.settled)[s'.index]? = _
    rw [List.getElem?_set_ne (fun he => hne he.symm)]
    exact h'.located
  · intro hpos hret
    have := (hframe s'.reservation.total).2
    show ((applyItem K r s).1.zscore _ (durableExpiryMember r.fingerprint _ _)).isSome
    rw [this]
    exact h'.balance.member hpos hret
  · rw [(hframe 0).1]
    exact h'.balance.charged
  · rw [(hframe 0).1]
    exact h'.balance.capped

/-- An applied event keeps the ledger sound. -/
theorem Sound.applyItem (hK : Sound K) (hr : K.records.lookup op = some r) (h : ItemOk K r s) :
    Sound ((applyItem K r s).1.setRecord op (settleRecord r s)) where
  wf := forall_setRecord (p := fun _ => RecordWf) ((hK.wf hr).settle h) fun hr' =>
    hK.wf (records_applyItem K r s ▸ hr')
  members := by
    intro w m sc hm
    obtain ⟨score, hscore⟩ := h.balance.score
    have hm' : (Budget.applyItem K r s).1.zscore w m = some sc := hm
    rw [zscore_applyItem hscore] at hm'
    split at hm'
    · rename_i hnew
      rw [hnew.2.2]
      exact h.transition.safe
    · rw [zscore_dropCharge] at hm'
      split at hm'
      · cases hm'
      · exact hK.members hm'
  covered := fun w P => by
    rw [slack_applyItem hr (hK.wf hr) h]
    have hcov := hK.covered w P
    have h1 := presenceAt_nonneg K r.fingerprint s.reservation s.reservation.total w P
    have h2 := presenceAt_nonneg (dropCharge K r.fingerprint s.reservation) r.fingerprint
      s.reservation s.newTotal w P
    split <;> split <;> omega
  capped := fun w b => by
    obtain ⟨score, hscore⟩ := h.balance.score
    show (Budget.applyItem K r s).1.sum w b ≤ maxSafe
    rw [sum_applyItem hscore]
    split
    · rename_i he
      rw [he.1, he.2]
      have := h.balance.capped
      omega
    · have := hK.capped w b
      omega

/-- In the exact ledger a member at a reservation's place with its
record's fingerprint carries that reservation's charge. -/
theorem Exact.member_total {owner : String → OperationKey}
    (hK : Exact owner K) (hr : K.records.lookup op = some r)
    (hx : x ∈ r.reservations) (hm : (K.zscore x.key
      (durableExpiryMember r.fingerprint x.bucket n)).isSome) :
    n = x.total ∧ 0 < x.total ∧ retained r.claimed x = false := by
  obtain ⟨sc, hsc⟩ := Option.isSome_iff_exists.mp hm
  obtain ⟨op', r', x', hr', hx', hmx, hkey, hpos, hret⟩ := hK.backed hsc
  have hfp : r.fingerprint = r'.fingerprint := congrArg Member.fingerprint hmx
  have hb : x.bucket = x'.bucket := congrArg Member.bucket hmx
  obtain ⟨-, rfl, rfl⟩ := hK.unique hr hr' hx hx' hfp (Prod.ext hkey.symm hb)
  exact ⟨congrArg Member.amount hmx, hpos, hret⟩

/-- An applied event keeps the ledger exact. -/
theorem Exact.applyItem {owner : String → OperationKey} (hK : Exact owner K)
    (hr : K.records.lookup op = some r) (h : ItemOk K r s) :
    Exact owner ((applyItem K r s).1.setRecord op (settleRecord r s)) := by
  obtain ⟨score, hscore⟩ := h.balance.score
  have hx : s.reservation ∈ r.reservations := List.mem_of_getElem? h.located
  have hset := h.transition.retained_settled fun hst => by
    obtain ⟨hres, -, hpos⟩ := (hK.wf hr).fresh _ hx hst
    omega
  refine
    { toSound := hK.toSound.applyItem hr h
      owned := forall_setRecord (r := settleRecord r s)
        (p := fun op r => owner r.fingerprint = op) (show owner r.fingerprint = op from hK.owned hr)
        fun hr' => hK.owned (records_applyItem K r s ▸ hr')
      backed := ?_
      balanced := ?_ }
  · intro w m sc hm
    have hm' : (Budget.applyItem K r s).1.zscore w m = some sc := hm
    rw [zscore_applyItem hscore] at hm'
    split at hm'
    · -- the new member is the settled reservation's
      rename_i hnew
      obtain ⟨⟨hpos, hk⟩, hw, hmn⟩ := hnew
      refine ⟨op, settleRecord r s, s.settled, lookup_setRecord_self .., ?_, hmn, hw.symm,
        Nat.pos_of_ne_zero hpos, ?_⟩
      · exact List.mem_set (List.getElem?_eq_some_iff.mp h.located).1 _
      · cases hret : retained r.claimed s.settled with
        | false => exact hret
        | true => exact absurd (hset.mp hret) hk
    · rw [zscore_dropCharge] at hm'
      split at hm'
      · cases hm'
      rename_i hold
      refine (hK.backed hm').setRecord (records_applyItem K r s) fun r' hr' => ?_
      cases hr'.symm.trans hr
      rintro ⟨x, hx', hmx, hkey, hpos, hret⟩
      -- the settled reservation's old member is gone
      refine ⟨x, ?_, hmx, hkey, hpos, hret⟩
      obtain ⟨i, hi⟩ := List.mem_iff_getElem?.mp hx'
      refine List.mem_iff_getElem?.mpr ⟨i, ?_⟩
      show (r.reservations.set s.index s.settled)[i]? = some x
      rw [List.getElem?_set_ne]
      · exact hi
      · rintro rfl
        cases hi.symm.trans h.located
        exact hold ⟨hpos, hkey.symm, hmx⟩
  · intro w P
    rw [slack_applyItem hr (hK.wf hr) h, hK.balanced w P]
    have hstale : retained r.claimed s.reservation = true →
        presenceAt K r.fingerprint s.reservation s.reservation.total w P = 0 := by
      intro hret
      refine presenceAt_of_none ?_ w P
      rw [← Option.not_isSome_iff_eq_none]
      intro hm
      rw [(hK.member_total hr hx hm).2.2] at hret
      cases hret
    have hfresh : presenceAt (dropCharge K r.fingerprint s.reservation) r.fingerprint
        s.reservation s.newTotal w P = 0 := by
      refine presenceAt_of_none ?_ w P
      rw [zscore_dropCharge]
      split
      · rfl
      rename_i hold
      rw [← Option.not_isSome_iff_eq_none]
      intro hm
      obtain ⟨htot, hpos, -⟩ := hK.member_total hr hx hm
      exact hold ⟨hpos, rfl, by rw [htot]⟩
    rw [hfresh, ite_self]
    split
    · rename_i hret
      rw [hstale hret]
      rfl
    · rfl

end Apply

end LlmTemporalWorker.Budget
