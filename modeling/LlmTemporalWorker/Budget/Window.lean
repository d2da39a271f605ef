/-
Reserving in a window (pricing/money.go, budget/window.go).

A window limits what is spent in the buckets it covers. `CanReserve`
adds them up and asks whether an amount still fits; `RetryAfter` says
how long to wait until it does, by letting the oldest buckets leave the
window one after another.

Times and products are in the range of `int64`, where the model's
integers and the machine's agree.
-/
import LlmTemporalWorker.Budget.Policy
import LlmTemporalWorker.Lib.SlidingWindow
import LlmTemporalWorker.Pricing.Cost

namespace LlmTemporalWorker.Pricing

-- ===== micro-dollars

/-- `MicroUSD.Sub`. -/
def subMicro (money other : Int) : Except String Int :=
  if money < 0 ∨ other < 0 ∨ nanoUsdSafeLimit < money
      ∨ nanoUsdSafeLimit < other ∨ money < other then
    .error "microUSD subtraction would be negative"
  else .ok (money - other)

/-- A loop that adds values to a total. -/
def addAllMicro (total : Int) (values : List Int) : Except String Int :=
  values.foldlM addMicro total

/-- It passes when no value is negative and the sum is in range. -/
theorem addAllMicro_ok_iff {total sum : Int} {values : List Int}
    (htotal : 0 ≤ total) (hsafe : total ≤ nanoUsdSafeLimit) :
    addAllMicro total values = .ok sum ↔ (∀ value ∈ values, 0 ≤ value)
        ∧ total + values.sum ≤ nanoUsdSafeLimit
        ∧ sum = total + values.sum := by
  unfold addAllMicro
  induction values generalizing total with
  | nil =>
    simp only [List.foldlM_nil, pure, Except.pure, Except.ok.injEq, List.not_mem_nil, List.sum_nil]
    constructor
    · rintro rfl
      exact ⟨fun _ h => h.elim, by omega, by omega⟩
    · intro h
      omega
  | cons value rest ih =>
    rw [List.foldlM_cons, List.sum_cons]
    constructor
    · intro h
      obtain ⟨next, hnext, h⟩ := Lib.bind_ok h
      obtain ⟨-, hvalue, hroom, rfl⟩ := addMicro_ok_iff.mp hnext
      obtain ⟨hall, hle, rfl⟩ := (ih (by omega) hroom).mp h
      refine ⟨List.forall_mem_cons.mpr ⟨hvalue, hall⟩, by omega, by omega⟩
    · rintro ⟨hall, hle, rfl⟩
      obtain ⟨hvalue, hrest⟩ := List.forall_mem_cons.mp hall
      have hsum : 0 ≤ rest.sum := List.sum_nonneg hrest
      have hroom : total + value ≤ nanoUsdSafeLimit := by omega
      rw [addMicro_ok_iff.mpr ⟨htotal, hvalue, hroom, rfl⟩]
      exact (ih (by omega) hroom).mpr ⟨hrest, by omega, by omega⟩

end LlmTemporalWorker.Pricing

namespace LlmTemporalWorker.Budget

open Lib Pricing

-- ===== windows

variable (window : Window)

/-- `ActiveSum`: a bucket that is not there holds nothing. -/
def Window.activeSum (buckets : Int → Int) (at_ : Int) : Except String Int := do
  let (first, last) ← window.range at_
  addAllMicro 0 ((visited first last).map buckets)

/-- The test that `CanReserve` and `RetryAfter` share. -/
def Window.fits (amount active : Int) : Bool :=
  !(decide (window.limit < active)
    || decide (window.limit - active < amount))

/-- `CanReserve`: the decision and what is active. -/
def Window.canReserve (buckets : Int → Int) (amount at_ : Int) : Except String (Bool × Int) := do
  let active ← window.activeSum buckets at_
  if amount < 0 ∨ nanoUsdSafeLimit < amount then
    throw "reservation is outside safe range"
  return (window.fits amount active, active)

/-- The loop of `RetryAfter`. -/
def Window.retryLoop (window : Window) (buckets : Int → Int)
    (amount at_ : Int) : List Int → Int → Except String Int
  | [], _ => .ok maxInt64
  | index :: rest, active =>
    if buckets index = 0 then
      window.retryLoop buckets amount at_ rest active
    else do
      let active ← subMicro active (buckets index)
      if window.fits amount active then
        return max 0 ((index + 1) * window.bucket + window.duration - at_)
      window.retryLoop buckets amount at_ rest active

/-- `RetryAfter`: nothing to wait for, a wait, or the longest duration. -/
def Window.retryAfter (buckets : Int → Int) (amount at_ : Int) : Except String Int := do
  let (ok, active) ← window.canReserve buckets amount at_
  if ok then
    return 0
  let (first, last) ← window.range at_
  window.retryLoop buckets amount at_ (visited first last) active

-- ===== decisions

variable {window : Window} {buckets : Int → Int} {amount at_ : Int}

theorem Window.range_eq (hb : 0 < window.bucket) (at_ : Int) :
    window.range at_ = .ok (windowFirst window.duration window.bucket at_,
        windowLast window.bucket at_) := by
  unfold Window.range floorDiv
  rw [if_neg (by omega), if_neg (by omega)]
  rfl

/-- What is spent in the window at a time. -/
noncomputable def Window.active (buckets : Int → Int) (at_ : Int) : Int :=
  ∑ i ∈ Finset.Icc (windowFirst window.duration window.bucket at_)
    (windowLast window.bucket at_), buckets i

theorem Window.fits_iff : window.fits amount at_ = true
      ↔ at_ ≤ window.limit ∧ at_ + amount ≤ window.limit := by
  unfold Window.fits
  simp only [Bool.not_eq_true', Bool.or_eq_false_iff, decide_eq_false_iff_not]
  omega

/-- What a decision was made on. -/
structure Window.Decided (window : Window) (buckets : Int → Int)
    (amount at_ : Int) : Prop where
  bucket : 0 < window.bucket
  amount : 0 ≤ amount ∧ amount ≤ nanoUsdSafeLimit
  nonneg : ∀ i, windowFirst window.duration window.bucket at_ ≤ i →
    i ≤ windowLast window.bucket at_ → 0 ≤ buckets i
  safe : window.active buckets at_ ≤ nanoUsdSafeLimit

theorem Window.range_error (hb : ¬0 < window.bucket) (at_ : Int) : window.range at_
      = .error "floor division divisor must be positive" := by
  unfold Window.range floorDiv
  rw [if_pos (by omega)]
  rfl

theorem Window.activeSum_ok_iff {sum : Int} (hb : 0 < window.bucket) :
    window.activeSum buckets at_ = .ok sum
      ↔ (∀ i, windowFirst window.duration window.bucket at_ ≤ i →
          i ≤ windowLast window.bucket at_ → 0 ≤ buckets i)
        ∧ window.active buckets at_ ≤ nanoUsdSafeLimit
        ∧ sum = window.active buckets at_ := by
  unfold Window.activeSum Window.active
  rw [window.range_eq hb]
  refine (addAllMicro_ok_iff (Int.le_refl 0) (by decide)).trans ?_
  rw [sum_visited, Int.zero_add]
  simp only [List.forall_mem_map, mem_visited, and_imp]

theorem Window.canReserve_ok_iff {ok : Bool} {active : Int} :
    window.canReserve buckets amount at_ = .ok (ok, active) ↔ window.Decided buckets amount at_
        ∧ active = window.active buckets at_
        ∧ ok = window.fits amount (window.active buckets at_) := by
  constructor
  · intro h
    obtain ⟨sum, hsum, h⟩ := bind_ok h
    have hb : 0 < window.bucket := by
      by_contra hb
      unfold Window.activeSum at hsum
      rw [window.range_error hb] at hsum
      cases hsum
    obtain ⟨hnonneg, hsafe, rfl⟩ := (Window.activeSum_ok_iff hb).mp hsum
    obtain ⟨hamount, h⟩ := refusal_ok h
    cases h
    exact ⟨⟨hb, by omega, hnonneg, hsafe⟩, rfl, rfl⟩
  · rintro ⟨hdecided, rfl, rfl⟩
    have hsum := (Window.activeSum_ok_iff hdecided.bucket).mpr ⟨hdecided.nonneg, hdecided.safe, rfl⟩
    have hamount := hdecided.amount
    unfold Window.canReserve
    rw [hsum]
    simp only [bind, Except.bind]
    rw [if_neg (by omega)]
    rfl

-- ===== waiting

/-- No bucket after the current one holds anything. -/
def Window.NothingAhead (buckets : Int → Int) (at_ : Int) : Prop :=
  ∀ i, windowLast window.bucket at_ < i → buckets i = 0

/-- Later, what is spent is what is left of the window of now. -/
theorem Window.active_later {later : Int}
    (hahead : window.NothingAhead buckets at_) (hb : 0 < window.bucket)
    (h : at_ ≤ later) :
    window.active buckets later = ∑ i ∈ Finset.Icc (windowFirst window.duration window.bucket later)
        (windowLast window.bucket at_), buckets i := by
  symm
  refine Finset.sum_subset ?_ ?_
  · have hlast := windowLast_mono hb h
    exact Finset.Icc_subset_Icc_right hlast
  · intro i hi hout
    rw [Finset.mem_Icc] at hi hout
    exact hahead i (by omega)

/-- A decision can be made at every later time. -/
theorem Window.Decided.later {later : Int} (hdecided : window.Decided buckets amount at_)
    (hahead : window.NothingAhead buckets at_) (h : at_ ≤ later) :
    window.Decided buckets amount later := by
  have hfirst : windowFirst window.duration window.bucket at_
      ≤ windowFirst window.duration window.bucket later :=
    windowFirst_mono hdecided.bucket h
  refine ⟨hdecided.bucket, hdecided.amount, ?_, ?_⟩
  · intro i hi _
    by_cases hcurrent : i ≤ windowLast window.bucket at_
    · exact hdecided.nonneg i (by omega) hcurrent
    · rw [hahead i (by omega)]
  · rw [Window.active_later hahead hdecided.bucket h]
    refine Int.le_trans (Finset.sum_le_sum_of_subset_of_nonneg
      (Finset.Icc_subset_Icc_left hfirst) ?_) hdecided.safe
    intro i hi _
    rw [Finset.mem_Icc] at hi
    exact hdecided.nonneg i hi.1 hi.2

/-- What is left in the window of now from a bucket on. -/
noncomputable def Window.left (buckets : Int → Int) (at_ first : Int) :
    Int :=
  ∑ i ∈ Finset.Icc first (windowLast window.bucket at_), buckets i

/-- With less spent, what fitted still fits. -/
theorem Window.fits_anti {less more : Int} (h : less ≤ more)
    (hfits : window.fits amount more = true) :
    window.fits amount less = true := by
  rw [Window.fits_iff] at *
  omega

variable {first : Int}
  (hnonneg : ∀ i, first ≤ i → i ≤ windowLast window.bucket at_ → 0 ≤ buckets i)

include hnonneg in
theorem Window.left_anti {second : Int} (h : first ≤ second) :
    window.left buckets at_ second ≤ window.left buckets at_ first := by
  refine Finset.sum_le_sum_of_subset_of_nonneg (Finset.Icc_subset_Icc_left h) fun i hi _ => ?_
  rw [Finset.mem_Icc] at hi
  exact hnonneg i hi.1 hi.2

include hnonneg in
theorem Window.left_nonneg : 0 ≤ window.left buckets at_ first := by
  refine Finset.sum_nonneg fun i hi => ?_
  rw [Finset.mem_Icc] at hi
  exact hnonneg i hi.1 hi.2

include hnonneg in
/-- Where the loop of `RetryAfter` stops: at the first bucket whose end
leaves room, or nowhere, when nothing leaves room. -/
theorem Window.retryLoop_stops
    (hsafe : window.left buckets at_ first ≤ nanoUsdSafeLimit)
    (hfull : window.fits amount (window.left buckets at_ first) = false) :
    (∃ i, first ≤ i ∧ i ≤ windowLast window.bucket at_
        ∧ window.fits amount (window.left buckets at_ (i + 1)) = true
        ∧ window.fits amount (window.left buckets at_ i) = false
        ∧ window.retryLoop buckets amount at_ (visited first (windowLast window.bucket at_))
            (window.left buckets at_ first)
          = .ok (max 0 ((i + 1) * window.bucket + window.duration - at_)))
      ∨ (window.fits amount 0 = false ∧ window.retryLoop buckets amount at_
            (visited first (windowLast window.bucket at_))
            (window.left buckets at_ first)
          = .ok maxInt64) := by
  induction first using visited_induction (windowLast window.bucket at_) with
  | done first h =>
    have hnone : window.left buckets at_ first = 0 := by
      rw [Window.left, Finset.Icc_eq_empty (by omega), Finset.sum_empty]
    rw [hnone] at hfull ⊢
    rw [visited_of_lt h]
    exact Or.inr ⟨hfull, rfl⟩
  | turn first h ih =>
    have hrest : ∀ i, first + 1 ≤ i → i ≤ windowLast window.bucket at_ → 0 ≤ buckets i := by
      intro i hi hle
      exact hnonneg i (by omega) hle
    have hsplit : window.left buckets at_ first
        = buckets first + window.left buckets at_ (first + 1) :=
      sum_Icc_of_le buckets h
    have hfirst := hnonneg first (Int.le_refl _) h
    have hleft := Window.left_nonneg hrest
    rw [visited_of_le h, Window.retryLoop]
    by_cases hzero : buckets first = 0
    · -- an empty bucket is passed over
      have hsame : window.left buckets at_ first = window.left buckets at_ (first + 1) := by omega
      rw [if_pos hzero, hsame]
      rw [hsame] at hfull hsafe
      rcases ih hrest hsafe hfull with ⟨i, hi, hstop⟩ | hnone
      · exact Or.inl ⟨i, (by omega : first ≤ i), hstop⟩
      · exact Or.inr hnone
    · have hsub : subMicro (window.left buckets at_ first) (buckets first)
          = .ok (window.left buckets at_ (first + 1)) := by
        unfold subMicro
        rw [if_neg (by omega)]
        congr 1
        omega
      rw [if_neg hzero, hsub]
      simp only [bind, Except.bind]
      cases hfits : window.fits amount (window.left buckets at_ (first + 1)) with
      | true => exact Or.inl ⟨first, Int.le_refl _, h, hfits, hfull, rfl⟩
      | false =>
        rcases ih hrest (by omega) hfits with ⟨i, hi, hstop⟩ | hnone
        · exact Or.inl ⟨i, (by omega : first ≤ i), hstop⟩
        · exact Or.inr hnone

/-- The window ends its wait: a bucket leaves exactly when a whole
duration has passed since its end. -/
theorem windowFirst_expires {duration bucket i : Int} (hb : 0 < bucket) :
    windowFirst duration bucket ((i + 1) * bucket + duration) = i + 1 := by
  rw [windowFirst, Int.add_sub_cancel, Int.mul_ediv_cancel _ hb.ne']

/-- `RetryAfter` is exact. An amount that does not fit now fits after
the wait it returns and at no earlier time, as long as nothing else is
spent; it returns the longest duration exactly for an amount over the
limit. -/
theorem retryAfter_exact {active : Int} (hahead : window.NothingAhead buckets at_)
    (hrange : window.bucket + window.duration < maxInt64)
    (hdenied : window.canReserve buckets amount at_ = .ok (false, active)) :
    ∃ wait, window.retryAfter buckets amount at_ = .ok wait ∧ (wait < maxInt64 →
        (∃ then_, window.canReserve buckets amount (at_ + wait) = .ok (true, then_))
          ∧ ∀ time, at_ ≤ time → time < at_ + wait → ∃ then_, window.canReserve buckets amount time
              = .ok (false, then_))
      ∧ (wait = maxInt64 ↔ window.limit < amount) := by
  obtain ⟨hdecided, rfl, hfull⟩ := Window.canReserve_ok_iff.mp hdenied
  have hb := hdecided.bucket
  have hamount := hdecided.amount
  have hretry : window.retryAfter buckets amount at_ = window.retryLoop buckets amount at_
        (visited (windowFirst window.duration window.bucket at_)
          (windowLast window.bucket at_)) (window.active buckets at_) := by
    unfold Window.retryAfter
    rw [hdenied, window.range_eq hb]
    rfl
  rcases Window.retryLoop_stops hdecided.nonneg hdecided.safe hfull.symm
    with ⟨i, hfirst, hlast, hfits, hbefore, hloop⟩ | ⟨hnone, hloop⟩
  · -- bucket `i` leaves the window after now, and soon enough
    have hlate : at_ < (i + 1) * window.bucket + window.duration := by
      by_contra hle
      have := (lt_windowFirst_iff hb).mpr (Int.not_lt.mp hle)
      omega
    have hsoon : (i + 1) * window.bucket ≤ at_ + window.bucket := by
      have := Int.mul_le_of_le_ediv hb hlast
      rw [Int.add_mul, Int.one_mul]
      omega
    have hrest : ∀ j, i + 1 ≤ j → j ≤ windowLast window.bucket at_ → 0 ≤ buckets j := by
      intro j hj hle
      exact hdecided.nonneg j (by omega) hle
    have hleft := Window.left_nonneg hrest
    have hwait : max 0 ((i + 1) * window.bucket + window.duration - at_)
        = (i + 1) * window.bucket + window.duration - at_ := by omega
    rw [hwait] at hloop
    refine ⟨_, hretry.trans hloop, fun _ => ⟨?_, ?_⟩, ?_⟩
    · -- when it has left, the rest is what is spent
      have hend : at_ + ((i + 1) * window.bucket + window.duration - at_)
          = (i + 1) * window.bucket + window.duration := by omega
      rw [hend]
      refine ⟨_, Window.canReserve_ok_iff.mpr ⟨hdecided.later hahead (by omega), rfl, ?_⟩⟩
      rw [Window.active_later hahead hb (by omega), windowFirst_expires hb]
      exact hfits.symm
    · -- until then it counts, and with it too much is spent
      intro time hfrom huntil
      refine ⟨_, Window.canReserve_ok_iff.mpr ⟨hdecided.later hahead hfrom, rfl, ?_⟩⟩
      have hstart : windowFirst window.duration window.bucket at_
          ≤ windowFirst window.duration window.bucket time :=
        windowFirst_mono hb hfrom
      have hcounts : windowFirst window.duration window.bucket time ≤ i := by
        by_contra hgone
        have := (lt_windowFirst_iff hb).mp (Int.not_le.mp hgone)
        omega
      have hmore : window.left buckets at_ i ≤ window.left buckets at_
          (windowFirst window.duration window.bucket time) := by
        refine Window.left_anti ?_ hcounts
        intro j hj hle
        exact hdecided.nonneg j (by omega) hle
      rw [Window.active_later hahead hb hfrom]
      cases hroom : window.fits amount (window.left buckets at_
          (windowFirst window.duration window.bucket time)) with
      | false => exact hroom.symm
      | true =>
        rw [Window.fits_anti hmore hroom] at hbefore
        cases hbefore
    · rw [Window.fits_iff] at hfits
      omega
  · refine ⟨_, hretry.trans hloop, fun h => absurd h (Int.lt_irrefl _), ?_⟩
    have hover : ¬(0 ≤ window.limit ∧ 0 + amount ≤ window.limit) := by
      rw [← Window.fits_iff, hnone]
      exact Bool.false_ne_true
    exact ⟨fun _ => by omega, fun _ => rfl⟩

/-- A window of three buckets' length, and a limit of forty. -/
def sampleWindow : Window := ⟨"w", 30, 10, .zero, 40⟩

/-- Fifteen in each of the first three buckets. -/
def sampleBuckets (i : Int) : Int := if 0 ≤ i ∧ i ≤ 2 then 15 else 0

/-- Ten more fit once the first bucket has left, a whole duration after
its end. -/
theorem retryAfter_exact_sample : ∃ wait, sampleWindow.retryAfter sampleBuckets 10 25 = .ok wait
      ∧ wait = 15
      ∧ (∃ then_, sampleWindow.canReserve sampleBuckets 10 (25 + wait) = .ok (true, then_)) := by
  have hahead : sampleWindow.NothingAhead sampleBuckets 25 := by
    intro i hi
    have hlast : windowLast sampleWindow.bucket 25 = 2 := by decide
    exact if_neg (by omega)
  obtain ⟨wait, hretry, hexact, -⟩ := retryAfter_exact hahead
    (by decide) (show sampleWindow.canReserve sampleBuckets 10 25
      = .ok (false, 45) by rfl)
  have hwait : sampleWindow.retryAfter sampleBuckets 10 25 = .ok 15 := by
    rfl
  cases hretry
  exact ⟨15, hwait, rfl, (hexact (by decide)).1⟩

end LlmTemporalWorker.Budget
