/-
What the in-memory ledger's operations do to its bucket values.

The ledger is read through `Ledger.value`, a number for every place.
Charging and releasing a reservation are local steps on it: each reads
and changes the value of the reservation's own place (`addReservation_local`,
`reconcileOne_local`). What a whole vector of reservations does then
follows from the rules for loops of local steps.
-/
import LlmTemporalWorker.Admission.Memory

namespace LlmTemporalWorker.Admission.Memory

open Lib Budget Pricing

variable {ledger : Ledger} {r : WindowReservation}
  {rs : List WindowReservation} {amount actual : Int}

-- ===== values

theorem place_eq_iff {p q : Place} : p = q ↔ windowOf p = windowOf q ∧ p.bucket = q.bucket := by
  cases p
  cases q
  simp [windowOf, and_assoc]

theorem value_setValue (ledger : Ledger) (p : Place) (v : Int) :
    (ledger.setValue p v).value = Function.update ledger.value p v := by
  funext q
  unfold Ledger.value Ledger.entry Ledger.setValue
  rw [lookup_insert_eq]
  by_cases hq : q = p
  · subst hq
    rw [if_pos rfl, Function.update_self, Option.bind_some, lookup_insert_eq, if_pos rfl]
    rfl
  · rw [Function.update_of_ne hq]
    split
    · rename_i hkey
      have hbucket : q.bucket ≠ p.bucket := fun hb =>
        hq (place_eq_iff.mpr ⟨hkey, hb⟩)
      rw [Option.bind_some, lookup_insert_eq, if_neg hbucket, hkey]
      cases ledger.buckets.lookup (windowOf p) <;> rfl
    · rfl

/-- The bookkeeping of a window shows in no value. -/
theorem value_opened (ledger : Ledger) (r : WindowReservation) :
    (ledger.opened r).value = ledger.value := by
  funext q
  unfold Ledger.value Ledger.entry Ledger.opened
  split
  · rename_i hnone
    rw [lookup_insert_eq]
    split
    · rename_i hkey
      rw [hkey, Option.isNone_iff_eq_none.mp hnone]
      rfl
    · rfl
  · rfl

-- ===== local steps

/-- What `addReservation` makes of the value of its bucket. -/
def charge (amount current : Int) : Except StoreError Int :=
  if amount < 0 ∨ !microValid amount then
    .error (.other "invalid reservation amount")
  else (addMicro current amount).mapError .other

/-- What one turn of `reconcile` makes of it. -/
def settle (actual amount current : Int) : Except StoreError Int :=
  match charge 0 current with
  | .error e => .error e
  | .ok current =>
    if current < amount then .error .stateUnavailable
    else if 0 < actual then
      (addMicro (current - amount) actual).mapError .other
    else .ok (current - amount)

theorem addReservation_local (amount : WindowReservation → Int) :
    LocalStep Ledger.value place (fun r => charge (amount r))
      (fun r => Ledger.addReservation (amount r) r) := by
  refine .of_cases fun r ledger => ?_
  unfold charge Ledger.addReservation
  split
  · exact .inl ⟨_, rfl, rfl, rfl⟩
  dsimp only
  rw [value_opened]
  cases addMicro (ledger.value (place r)) (amount r) with
  | error e => exact .inl ⟨_, rfl, rfl, value_opened ledger r⟩
  | ok v =>
    refine .inr ⟨v, rfl, rfl, ?_⟩
    rw [value_setValue, value_opened]

theorem charge_zero_ok {current v : Int} (h : charge 0 current = .ok v) : v = current := by
  unfold charge at h
  cases hadd : addMicro current 0 with
  | error e =>
    rw [hadd] at h
    cases h
  | ok w =>
    rw [hadd] at h
    cases h
    obtain ⟨-, -, -, hv⟩ := addMicro_ok_iff.mp hadd
    omega

theorem reconcileOne_local (actual : Int) :
    LocalStep Ledger.value place (fun r => settle actual r.amount)
      (Ledger.reconcileOne actual) := by
  have hadd := addReservation_local fun _ => 0
  refine .of_cases fun r ledger => ?_
  unfold settle Ledger.reconcileOne
  have houtcome := hadd.outcome r ledger
  cases hc : charge 0 (ledger.value (place r)) with
  | error e =>
    -- the value of the bucket is out of range
    have hread := hadd.unchanged hc
    rw [hc] at houtcome
    generalize ledger.addReservation 0 r = next at houtcome hread ⊢
    obtain ⟨opened, outcome⟩ := next
    cases houtcome
    exact .inl ⟨e, rfl, rfl, hread⟩
  | ok v =>
    have hread := hadd.changed hc
    rw [charge_zero_ok hc, Function.update_eq_self] at hread
    cases charge_zero_ok hc
    rw [hc] at houtcome
    generalize ledger.addReservation 0 r = next at houtcome hread ⊢
    obtain ⟨opened, outcome⟩ := next
    cases houtcome
    dsimp only
    rw [hread]
    split
    · exact .inl ⟨_, rfl, rfl, hread⟩
    split
    · cases addMicro (ledger.value (place r) - r.amount) actual with
      | error e => exact .inl ⟨_, rfl, rfl, hread⟩
      | ok w =>
        refine .inr ⟨w, rfl, rfl, ?_⟩
        rw [value_setValue, hread]
    · refine .inr ⟨_, rfl, rfl, ?_⟩
      rw [value_setValue, hread]

-- ===== vectors

theorem microValid_iff {money : Int} :
    microValid money = true ↔ 0 ≤ money ∧ money ≤ nanoUsdSafeLimit := by
  simp [microValid]

theorem charge_ok {current : Int} (ha : 0 ≤ amount) (hc : 0 ≤ current)
    (hroom : current + amount ≤ nanoUsdSafeLimit) :
    charge amount current = .ok (current + amount) := by
  have hvalid : microValid amount = true := microValid_iff.mpr ⟨ha, by omega⟩
  have hneg : ¬(amount < 0 ∨ (!microValid amount) = true) := by
    rw [hvalid]
    simp only [Bool.not_true, Bool.false_eq_true, or_false]
    omega
  rw [charge, if_neg hneg, addMicro_ok_iff.mpr ⟨hc, ha, hroom, rfl⟩]
  rfl

theorem settle_ok {current : Int} (ha : 0 ≤ amount)
    (hcovered : amount ≤ current) (hc : current ≤ nanoUsdSafeLimit)
    (hactual : 0 ≤ actual)
    (hroom : current - amount + actual ≤ nanoUsdSafeLimit) :
    settle actual amount current = .ok (current - amount + actual) := by
  have hzero : charge 0 current = .ok current := by
    rw [charge_ok le_rfl (by omega) (by omega)]
    simp
  rw [settle, hzero]
  dsimp only
  rw [if_neg (by omega)]
  split
  · rw [addMicro_ok_iff.mpr ⟨by omega, hactual, hroom, rfl⟩]
    rfl
  · have h0 : actual = 0 := by omega
    rw [h0, Int.add_zero]

/-- Values with a vector of reservations charged. -/
def charged (rs : List WindowReservation) (values : Place → Int) : Place → Int :=
  revalue place (fun r v => v + r.amount) rs values

/-- Values with a vector of reservations replaced by a cost. -/
def settled (rs : List WindowReservation) (actual : Int) (values : Place → Int) : Place → Int :=
  revalue place (fun r v => v - r.amount + actual) rs values

/-- A vector is charged when every bucket has room for its amount. -/
theorem addReservations_ok (hnd : (rs.map place).Nodup)
    (hrs : ∀ r ∈ rs, 0 ≤ r.amount ∧ 0 ≤ ledger.value (place r)
      ∧ ledger.value (place r) + r.amount ≤ nanoUsdSafeLimit) :
    (ledger.addReservations rs).2 = .ok ()
      ∧ (ledger.addReservations rs).1.value = charged rs ledger.value := by
  refine (addReservation_local (·.amount)).untilError_ok hnd ?_
  intro r hr
  obtain ⟨ha, hc, hroom⟩ := hrs r hr
  exact charge_ok ha hc hroom

/-- A vector is released when every bucket holds its amount and has room
for the cost that replaces it. -/
theorem reconcile_ok (hnd : (rs.map place).Nodup) (h0 : 0 ≤ actual)
    (hsafe : actual ≤ nanoUsdSafeLimit)
    (hrs : ∀ r ∈ rs, 0 ≤ r.amount ∧ r.amount ≤ ledger.value (place r)
      ∧ ledger.value (place r) ≤ nanoUsdSafeLimit
      ∧ ledger.value (place r) - r.amount + actual ≤ nanoUsdSafeLimit) :
    (ledger.reconcile rs actual).2 = .ok () ∧ (ledger.reconcile rs actual).1.value
        = settled rs actual ledger.value := by
  have hvalid : microValid actual = true := microValid_iff.mpr ⟨h0, hsafe⟩
  have hneg : ¬(actual < 0 ∨ (!microValid actual) = true) := by
    rw [hvalid]
    simp only [Bool.not_true, Bool.false_eq_true, or_false]
    omega
  rw [Ledger.reconcile, if_neg hneg]
  refine (reconcileOne_local actual).untilError_ok hnd ?_
  intro r hr
  obtain ⟨ha, hcovered, hc, hroom⟩ := hrs r hr
  exact settle_ok ha hcovered hc h0 hroom

/-- Ledgers that agree on the places of a vector release it alike. -/
theorem reconcile_agree {other : Ledger} {places : Place → Prop}
    (hagree : ∀ p, places p → ledger.value p = other.value p)
    (hrs : ∀ r ∈ rs, places (place r)) (actual : Int) :
    (ledger.reconcile rs actual).2 = (other.reconcile rs actual).2
      ∧ ∀ p, places p → (ledger.reconcile rs actual).1.value p
        = (other.reconcile rs actual).1.value p := by
  unfold Ledger.reconcile
  split
  · exact ⟨rfl, hagree⟩
  · exact (reconcileOne_local actual).untilError_agree hagree hrs

-- ===== sweep

theorem floorDiv_eq {value divisor : Int} (h : 0 < divisor) :
    floorDiv value divisor = value / divisor := by
  have hdiv := Int.mul_tdiv_add_tmod value divisor
  have hlt := Int.tmod_lt_of_pos value h
  have hgt : -divisor < value.tmod divisor := Int.lt_tmod_of_pos value h
  unfold floorDiv
  dsimp only
  rw [decide_eq_false (p := divisor < 0) (by omega)]
  symm
  split
  · rename_i hneg
    have hneg : value.tmod divisor < 0 := by simpa using hneg.2
    refine ((Int.ediv_emod_unique (r := value.tmod divisor + divisor)
      h).mpr ⟨?_, by omega, by omega⟩).1
    rw [Int.mul_sub, Int.mul_one]
    omega
  · rename_i hnonneg
    have hnonneg : 0 ≤ value.tmod divisor := by
      by_contra hlow
      exact hnonneg ⟨by omega, by simpa using hlow⟩
    exact ((Int.ediv_emod_unique h).mpr ⟨by omega, hnonneg, hlt⟩).1

/-- An `int64`. -/
def InInt64 (n : Int) : Prop := -2 ^ 63 ≤ n ∧ n < 2 ^ 63

instance (n : Int) : Decidable (InInt64 n) := inferInstanceAs (Decidable (_ ∧ _))

theorem wrap64_eq {n : Int} (h : InInt64 n) : wrap64 n = n := by
  obtain ⟨hlow, hhigh⟩ := h
  unfold wrap64
  rw [Int.bmod_eq_of_le_mul_two] <;> omega

/-- Where nothing wraps, the window begins its length before its end. -/
theorem firstBucket_eq {at_ duration bucket : Int} (hat : InInt64 at_)
    (hstart : InInt64 (at_ - duration)) (hpos : 0 < bucket) :
    firstBucket at_ duration bucket = (at_ - duration) / bucket := by
  rw [firstBucket, wrap64_eq hat, wrap64_eq hstart, floorDiv_eq hpos]

/-- The sweep drops the entry of a place only when no operation left
names it and its bucket has left the widest window of its key. -/
theorem entry_swept (ledger : Ledger) (now : Int) (inUse : List Place) (p : Place) :
    (ledger.swept now inUse).entry p = ledger.entry p
      ∨ (p ∉ inUse ∧ (ledger.swept now inUse).entry p = none
        ∧ ∃ g, ledger.geometry.lookup (windowOf p) = some g ∧ g.mixed = false
          ∧ p.bucket < firstBucket now g.durationNanos g.bucketNanos) := by
  unfold Ledger.entry Ledger.swept
  rw [lookup_filterMap]
  cases hb : ledger.buckets.lookup (windowOf p) with
  | none => exact .inl rfl
  | some buckets =>
    rw [Option.bind_some]
    cases hg : ledger.geometry.lookup (windowOf p) with
    | none => exact .inl rfl
    | some g =>
      dsimp only
      split
      · exact .inl rfl
      rename_i hmixed
      -- what the sweep keeps of the window, read at the bucket
      have hkept : ∀ kept : FMap Int Int,
          ((if kept.entries.length = 0 then none else some kept).bind
            (·.lookup p.bucket)) = kept.lookup p.bucket := by
        intro kept
        split
        · rename_i hlen
          have hempty : kept = ∅ := AList.ext (List.length_eq_zero_iff.mp hlen)
          rw [hempty]
          rfl
        · rfl
      rw [hkept, lookup_filterMap, Option.bind_some]
      cases hv : buckets.lookup p.bucket with
      | none => exact .inl rfl
      | some v =>
        split
        · exact .inl rfl
        rename_i hdrop
        rw [not_or] at hdrop
        refine .inr ⟨hdrop.2, rfl, g, rfl, ?_, ?_⟩
        · simpa using hmixed
        · exact Int.not_le.mp hdrop.1

end LlmTemporalWorker.Admission.Memory
