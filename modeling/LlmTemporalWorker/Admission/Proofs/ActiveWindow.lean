/-
The active window in the two admission stores.

The Redis Function divides microseconds in doubles, the memory store
divides nanoseconds in integers, and the budget package has a third
text of the same window. For bounds of whole milliseconds and times the
Function can count they visit the same buckets, so from the same bucket
contents the stores admit and deny alike.

# Two steps

Below 2^53 microseconds the doubles do not show: `active_for` in doubles
is `active_for` in integers (`activeForDouble_eq`). A window of whole
milliseconds is then the same window in either unit
(`luaRange_of_whole`), and both loops add up its values.
-/
import LlmTemporalWorker.Admission.Double
import LlmTemporalWorker.Admission.Store
import LlmTemporalWorker.Admission.Proofs.AllOrNothing
import LlmTemporalWorker.Admission.Proofs.MemoryLedger

namespace LlmTemporalWorker.Admission

open Lib Budget Pricing

-- ===== sums

/-- The sum of `active_for` over values in some order. -/
def sumValues : List Int → Nat → Option Nat
  | [], active => some active
  | value :: rest, active =>
    match integer value with
    | none => none
    | some parsed =>
      if maxSafe < active + parsed then none
      else sumValues rest (active + parsed)

theorem activeSum_eq (entries : List (Σ _ : Nat, Int)) (active : Nat) :
    activeSum entries active = sumValues (entries.map (·.2)) active := by
  induction entries generalizing active with
  | nil => rfl
  | cons e rest ih =>
    rw [List.map_cons, activeSum, sumValues]
    cases integer e.2 with
    | none => rfl
    | some parsed =>
      dsimp only
      rw [ih]

theorem sumFields_eq (field : Int → Option Int) (indexes : List Int) (active : Nat) :
    sumFields field indexes active = match sumValues (indexes.filterMap field) active with
        | none => .error .stateUnavailable
        | some sum => .ok sum := by
  induction indexes generalizing active with
  | nil => rfl
  | cons index rest ih =>
    rw [List.filterMap_cons, sumFields]
    cases field index with
    | none => exact ih active
    | some value =>
      dsimp only
      rw [sumValues]
      cases integer value with
      | none => rfl
      | some parsed =>
        dsimp only
        rw [← Nat.cast_add]
        by_cases hover : maxSafe < active + parsed
        · rw [if_pos (maxSafe_lt_luaDouble.mpr hover), if_pos hover]
        have hmax : maxSafe < 2 ^ 53 := by decide
        rw [if_neg (mt maxSafe_lt_luaDouble.mp hover), if_neg hover, luaDouble_of_le (by omega),
          Int.toNat_natCast, ih]

/-- The order of the values does not matter. -/
theorem sumValues_perm {values values' : List Int} (h : values.Perm values') (active : Nat) :
    sumValues values active = sumValues values' active := by
  induction h generalizing active with
  | nil => rfl
  | cons value _ ih =>
    rw [sumValues, sumValues]
    cases integer value with
    | none => rfl
    | some parsed =>
      dsimp only
      rw [ih]
  | swap a b rest =>
    simp only [sumValues]
    cases integer a with
    | none => cases integer b <;> simp
    | some x =>
      cases integer b with
      | none => simp
      | some y =>
        dsimp only
        rw [Nat.add_right_comm active y x]
        -- either order is refused when the three together are
        by_cases hall : maxSafe < active + x + y
        · simp [hall]
        have hx : ¬maxSafe < active + x := by omega
        have hy : ¬maxSafe < active + y := by omega
        rw [if_neg hx, if_neg hy]
  | trans _ _ ih ih' => exact (ih active).trans (ih' active)

/-- Visiting the indexes of a window finds the fields that lie in it. -/
theorem filterMap_field_perm (K : Keyspace) (w : WindowKey) (first last : Int) :
    ((visited first last).filterMap (K.field w)).Perm (((K.budget w).entries.filter fun e =>
        first ≤ (e.1 : Int) && (e.1 : Int) ≤ last).map (·.2)) := by
  -- compare the fields with their indexes, of which each occurs once
  let tagged (index : Int) : Option (Int × Int) := (K.field w index).map (index, ·)
  have hfields : (visited first last).filterMap (K.field w)
      = ((visited first last).filterMap tagged).map (·.2) := by
    rw [List.map_filterMap]
    congr 1
    funext index
    simp only [tagged, Option.map_map]
    cases K.field w index <;> rfl
  have hentries : ((K.budget w).entries.filter fun e =>
        first ≤ (e.1 : Int) && (e.1 : Int) ≤ last).map (·.2)
      = (((K.budget w).entries.filter fun e =>
        first ≤ (e.1 : Int) && (e.1 : Int) ≤ last).map fun e => ((e.1 : Int), e.2)).map (·.2) := by
    rw [List.map_map]
    rfl
  rw [hfields, hentries]
  refine List.Perm.map _ ((List.perm_ext_iff_of_nodup ?_ ?_).mpr ?_)
  · refine (nodup_visited first last).filterMap ?_
    intro index index' pair h h'
    obtain ⟨_, -, rfl⟩ := Option.map_eq_some_iff.mp h
    obtain ⟨_, -, heq⟩ := Option.map_eq_some_iff.mp h'
    exact (congrArg Prod.fst heq).symm
  · refine ((K.budget w).nodupKeys.nodup.filter _).map ?_
    rintro ⟨key, value⟩ ⟨key', value'⟩ heq
    obtain ⟨hkey, hvalue⟩ := Prod.mk.injEq .. ▸ heq
    obtain rfl : key = key' := by exact_mod_cast hkey
    obtain rfl : value = value' := hvalue
    rfl
  · rintro ⟨index, value⟩
    simp only [List.mem_filterMap, List.mem_map, List.mem_filter,
      mem_visited, tagged, Option.map_eq_some_iff, Prod.mk.injEq,
      Bool.and_eq_true, decide_eq_true_eq]
    constructor
    · rintro ⟨_, ⟨hfirst, hlast⟩, _, hfield, rfl, rfl⟩
      unfold Keyspace.field at hfield
      split at hfield
      · cases hfield
      rename_i hneg
      have hcast : ((Int.toNat _ : Nat) : Int) = _ := Int.toNat_of_nonneg (not_lt.mp hneg)
      refine ⟨⟨_, _⟩, ⟨mem_entries_iff.mpr hfield, ?_, ?_⟩, hcast, rfl⟩
      · rw [hcast]
        exact hfirst
      · rw [hcast]
        exact hlast
    · rintro ⟨⟨key, found⟩, ⟨hmem, hfirst, hlast⟩, rfl, rfl⟩
      refine ⟨(key : Int), ⟨hfirst, hlast⟩, found, ?_, rfl, rfl⟩
      exact mem_entries_iff.mp hmem

/-- In doubles and in integers `active_for` is the same. -/
theorem activeForDouble_eq (K : Keyspace) (r : ReservationWire Int)
    {now : Nat} (hnow : now < 2 ^ 53) :
    activeForDouble K r now = activeFor K r now := by
  unfold activeForDouble activeFor
  cases hfields : reservationFields r with
  | none => rfl
  | some f =>
    obtain ⟨-, -, -, hb, hd⟩ := reservationFields_spec hfields
    have hb := (integer_eq_some.mp hb).2
    have hd := (integer_eq_some.mp hd).2
    dsimp only
    rw [luaRange_eq hb hd hnow]
    by_cases hpos : ((f.bucketNs + 999) / 1000 : Nat) = 0 ∨ ((f.durationNs + 999) / 1000 : Nat) = 0
    · rw [if_pos hpos, if_pos (by omega)]
    rw [if_neg hpos, if_neg (by omega)]
    dsimp only
    rewrite [sumFields_eq, sumValues_perm (filterMap_field_perm K r.key _ _), ← activeSum_eq]
    cases activeSum _ _ <;> rfl

/-- And so is `check_reservations`. -/
theorem checkReservationsDouble_eq (K : Keyspace)
    (rs : List (ReservationWire Int)) (requested : Int) {now : Nat}
    (hnow : now < 2 ^ 53) :
    checkReservationsDouble K rs requested now = checkReservations K rs requested now := by
  unfold checkReservationsDouble checkReservations
  cases integer requested with
  | none => rfl
  | some value =>
    dsimp only
    induction rs with
    | nil => rfl
    | cons r rest ih =>
      rewrite [checkLoopDouble, checkLoop, activeForDouble_eq K r hnow, ih]
      cases activeFor K r now <;> rfl

-- ===== reservations

/-- A reservation as the Function gets it. -/
def luaReservation (r : WindowReservation) : ReservationWire Int :=
  ReservationWire.map luaNumber (encodeReservation r)

/-- A reservation that the Function accepts. -/
structure Sized (r : WindowReservation) : Prop where
  policy : boundedString r.policyId 256 = true
  window : boundedString r.windowId 256 = true
  limit : 0 < r.limit ∧ r.limit ≤ maxSafe
  amount : 0 ≤ r.amount ∧ r.amount ≤ maxSafe
  bucket : 0 ≤ r.bucket ∧ r.bucket ≤ maxSafe
  bucketNanos : 0 < r.bucketNanos ∧ r.bucketNanos ≤ maxSafe
  durationNanos : 0 < r.durationNanos ∧ r.durationNanos ≤ maxSafe

/-- Its window has bounds of whole milliseconds. -/
def WholeMillis (r : WindowReservation) : Prop :=
  r.bucketNanos % 1000000 = 0 ∧ r.durationNanos % 1000000 = 0

/-- The window of a reservation. -/
def reservedWindow (r : WindowReservation) : Window :=
  ⟨r.windowId, r.durationNanos, r.bucketNanos, r.limitUsd, r.limit⟩

variable {r : WindowReservation}

theorem luaReservation_eq (h : Sized r) :
    luaReservation r = ⟨r.policyId, r.windowId, r.bucket, r.amount,
      r.limit, r.bucketNanos, r.durationNanos⟩ := by
  have hmax : maxSafe < 2 ^ 53 := by decide
  have hread : ∀ {v : Int}, 0 ≤ v → v ≤ maxSafe → luaNumber (.plain v) = v := fun h₀ h₁ =>
    luaDouble_of_le (by omega)
  obtain ⟨-, -, ⟨hl, hl'⟩, ⟨ha, ha'⟩, ⟨hb, hb'⟩, ⟨hn, hn'⟩, ⟨hd, hd'⟩⟩ := h
  simp only [luaReservation, encodeReservation, ReservationWire.map,
    hread hl.le hl', hread ha ha', hread hb hb', hread hn.le hn',
    hread hd.le hd']

theorem reservationFields_sized (h : Sized r) : reservationFields (luaReservation r)
      = some ⟨r.limit.toNat, r.amount.toNat, r.bucket.toNat,
        r.bucketNanos.toNat, r.durationNanos.toNat⟩ := by
  rw [luaReservation_eq h]
  obtain ⟨hp, hw, ⟨hl, hl'⟩, ⟨ha, ha'⟩, ⟨hb, hb'⟩, ⟨hn, hn'⟩, ⟨hd, hd'⟩⟩ := h
  unfold reservationFields
  rw [hp, hw, integer_of_bounds hl.le hl', integer_of_bounds ha ha',
    integer_of_bounds hb hb', integer_of_bounds hn.le hn',
    integer_of_bounds hd.le hd']
  have hpos : ¬(r.limit.toNat = 0 ∨ r.bucketNanos.toNat = 0 ∨ r.durationNanos.toNat = 0) := by omega
  simp only [Bool.and_self, Bool.not_true, Bool.false_eq_true, if_false,
    Option.bind_eq_bind, Option.bind_some, if_neg hpos]

-- ===== window

/-- A window of whole milliseconds is the same in microseconds. -/
theorem luaRange_of_whole (h : Sized r) (hwhole : WholeMillis r)
    {now : Nat} (hnow : now < 2 ^ 53) :
    luaRange r.bucketNanos r.durationNanos now
      = some (windowFirst r.durationNanos r.bucketNanos (now * 1000),
        windowLast r.bucketNanos (now * 1000)) := by
  have hceil : ∀ n : Nat, (n * 1000 + 999) / 1000 = n := fun n => by omega
  obtain ⟨-, -, -, -, -, ⟨hn, hn'⟩, ⟨hd, hd'⟩⟩ := h
  obtain ⟨hnw, hdw⟩ := hwhole
  -- both bounds in microseconds
  obtain ⟨b, hb⟩ : ∃ b : Nat, r.bucketNanos = (b * 1000 : Nat) :=
    ⟨(r.bucketNanos / 1000).toNat, by omega⟩
  obtain ⟨d, hdur⟩ : ∃ d : Nat, r.durationNanos = (d * 1000 : Nat) :=
    ⟨(r.durationNanos / 1000).toNat, by omega⟩
  rw [hb, hdur, luaRange_eq (by omega) (by omega) hnow, hceil, hceil,
    if_neg (by omega), windowFirst, windowLast]
  have hunit : (0 : Int) < 1000 := by decide
  push_cast
  rw [← Int.sub_mul, Int.mul_ediv_mul_of_pos_left _ _ hunit, Int.mul_ediv_mul_of_pos_left _ _ hunit]

/-- Values in range add up in any loop that counts them. -/
theorem sumValues_of_range {values : List Int} {active : Nat}
    (hrange : ∀ v ∈ values, 0 ≤ v) (hsum : active + values.sum ≤ maxSafe) :
    sumValues values active = some (active + values.sum).toNat := by
  induction values generalizing active with
  | nil => simp [sumValues]
  | cons v rest ih =>
    obtain ⟨hv, hrest⟩ := List.forall_mem_cons.mp hrange
    have h0 : 0 ≤ rest.sum := List.sum_nonneg hrest
    rw [List.sum_cons] at hsum ⊢
    rw [sumValues, integer_of_bounds hv (by omega)]
    dsimp only
    rw [if_neg (by omega), ih hrest (by omega)]
    congr 1
    omega

theorem sum_filterMap_field (field : Int → Option Int) (indexes : List Int) :
    (indexes.filterMap field).sum = (indexes.map fun i => (field i).getD 0).sum := by
  induction indexes with
  | nil => rfl
  | cons index rest ih =>
    rw [List.filterMap_cons, List.map_cons, List.sum_cons, ← ih]
    cases field index with
    | none | some => simp

-- ===== contents

/-- A hash and a ledger that hold the same values. -/
def SameContents (K : Keyspace) (ledger : Memory.Ledger) : Prop :=
  ∀ policy window index, ledger.value ⟨policy, window, index⟩
    = (K.field ⟨policy, window⟩ index).getD 0

/-- The values of a reservation's window in a ledger. -/
def windowValues (ledger : Memory.Ledger) (r : WindowReservation) (index : Int) : Int :=
  ledger.value ⟨r.policyId, r.windowId, index⟩

variable {K : Keyspace} {ledger : Memory.Ledger}

/-- What both stores find active. -/
theorem activeForDouble_sized (h : Sized r) (hwhole : WholeMillis r)
    {now : Nat} (hnow : now < 2 ^ 53) (hsame : SameContents K ledger)
    (hvalues : ∀ index, 0 ≤ windowValues ledger r index)
    (hsum : (reservedWindow r).active (windowValues ledger r) (now * 1000) ≤ maxSafe) :
    activeForDouble K (luaReservation r) now
      = .ok ((reservedWindow r).active (windowValues ledger r) (now * 1000)).toNat := by
  have hkey : (luaReservation r).key = ⟨r.policyId, r.windowId⟩ := by
    rfl
  have hread : ∀ index, (K.field ⟨r.policyId, r.windowId⟩ index).getD 0
      = windowValues ledger r index := fun index =>
    (hsame r.policyId r.windowId index).symm
  -- the fields in the window add up to the window's total
  have htotal : ((visited (windowFirst r.durationNanos r.bucketNanos (now * 1000))
      (windowLast r.bucketNanos (now * 1000))).filterMap (K.field ⟨r.policyId, r.windowId⟩)).sum
      = (reservedWindow r).active (windowValues ledger r) (now * 1000) := by
    rw [sum_filterMap_field, Window.active, ← sum_visited]
    simp only [hread]
    rfl
  unfold activeForDouble
  rw [reservationFields_sized h]
  dsimp only
  rw [Int.toNat_of_nonneg h.bucketNanos.1.le, Int.toNat_of_nonneg h.durationNanos.1.le,
    luaRange_of_whole h hwhole hnow, hkey]
  dsimp only
  rw [sumFields_eq, sumValues_of_range ?_ (by rw [htotal]; omega), htotal]
  · simp
  · intro v hv
    obtain ⟨index, -, hfield⟩ := List.mem_filterMap.mp hv
    have := hvalues index
    rw [← hread, hfield] at this
    exact this

/-- A denial as the Function sends it. -/
def denialSent (d : Denial) : DenialWire NumberLiteral :=
  DenialWire.map cjsonLiteral ⟨d.policyId, d.windowId, d.limit, d.active, d.requested⟩

/-- The Function's reply to a decision of the memory store. -/
def replyTo : Option Denial → Except Reply Unit
  | none => .ok ()
  | some d => .error ⟨.denied, none, some (denialSent d)⟩

/-- At a time that the Function can count, the memory store visits the
buckets of the window: nothing wraps. -/
theorem memory_range (h : Sized r) {now : Nat} (hnow : now < 2 ^ 53) :
    Memory.firstBucket (now * 1000) r.durationNanos r.bucketNanos
        = windowFirst r.durationNanos r.bucketNanos (now * 1000)
      ∧ Memory.floorDiv (Memory.wrap64 (now * 1000)) r.bucketNanos
        = windowLast r.bucketNanos (now * 1000) := by
  have hmax : (maxSafe : Int) < 2 ^ 53 := by decide
  have hd := h.durationNanos
  have hat : Memory.InInt64 (now * 1000) := ⟨by omega, by omega⟩
  rw [Memory.firstBucket_eq hat ⟨by omega, by omega⟩ h.bucketNanos.1, Memory.wrap64_eq hat,
    Memory.floorDiv_eq h.bucketNanos.1]
  exact ⟨rfl, rfl⟩

/-- One turn of the two checks. -/
theorem checks_alike_cons {rs : List WindowReservation} (h : Sized r)
    (hwhole : WholeMillis r) {now : Nat} (hnow : now < 2 ^ 53)
    (hsame : SameContents K ledger)
    (hvalues : ∀ index, 0 ≤ windowValues ledger r index)
    (hsum : (reservedWindow r).active (windowValues ledger r) (now * 1000) ≤ maxSafe)
    (hrest : checkLoopDouble K r.amount.toNat now (rs.map luaReservation)
      = replyTo (ledger.checkReservations (now * 1000) rs)) :
    checkLoopDouble K r.amount.toNat now ((r :: rs).map luaReservation)
      = replyTo (ledger.checkReservations (now * 1000) (r :: rs)) := by
  have hactive := activeForDouble_sized h hwhole hnow hsame hvalues hsum
  have hb := h.bucketNanos.1
  -- the memory store adds up the same total
  have hmemory : addAllMicro 0 ((visited
      (Memory.firstBucket (now * 1000) r.durationNanos r.bucketNanos)
      (Memory.floorDiv (Memory.wrap64 (now * 1000)) r.bucketNanos)).map
        fun index => ledger.value ⟨r.policyId, r.windowId, index⟩)
      = .ok ((reservedWindow r).active (windowValues ledger r) (now * 1000)) := by
    rw [(memory_range h hnow).1, (memory_range h hnow).2]
    refine (addAllMicro_ok_iff le_rfl (by decide)).mpr ⟨?_, ?_, ?_⟩
    · intro value hvalue
      obtain ⟨index, -, rfl⟩ := List.mem_map.mp hvalue
      exact hvalues index
    · rw [Int.zero_add, sum_visited]
      exact hsum
    · rw [Int.zero_add, sum_visited]
      rfl
  have hlimit : integer (luaReservation r).limit = some r.limit.toNat :=
    (reservationFields_spec (reservationFields_sized h)).2.2.1
  have hactive0 : 0 ≤ (reservedWindow r).active (windowValues ledger r)
      (now * 1000) := Finset.sum_nonneg fun index _ => hvalues index
  generalize (reservedWindow r).active (windowValues ledger r)
    (now * 1000) = active at hactive hmemory hactive0 hsum
  have hl := h.limit
  have ha := h.amount
  have hd := h.durationNanos.1
  rw [List.map_cons, checkLoopDouble, hactive]
  unfold Memory.Ledger.checkReservations
  rw [if_neg (by omega)]
  dsimp only
  rw [hmemory, hlimit, Option.getD_some]
  dsimp only
  by_cases hdeny : r.limit < active ∨ r.limit - active < r.amount
  · rw [if_pos (by omega), if_pos hdeny]
    show _ = Except.error _
    have hdenial : denial (luaReservation r) active.toNat r.amount.toNat
        = denialSent (Memory.denialOf r active) := by
      unfold denial denialSent Memory.denialOf
      rw [hlimit, Option.getD_some, Int.toNat_of_nonneg hl.1.le,
        Int.toNat_of_nonneg hactive0, Int.toNat_of_nonneg ha.1,
        luaReservation_eq h]
    rw [hdenial]
  · rw [if_neg (by omega), if_neg hdeny]
    exact hrest

/-- The two admission stores agree on the active window. For every
vector of reservations that the Function accepts, with bounds of whole
milliseconds, for the same bucket contents with values and sums in the
safe range, and for every time the Function can count: the Function
visits the buckets of `Window.Range`, which are those that the memory
store visits, and replies what the memory store decides. -/
theorem stores_agree_on_active_window (K : Keyspace)
    (ledger : Memory.Ledger) (rs : List WindowReservation)
    (requested : Int) (clock : Clock)
    (hsized : ∀ r ∈ rs, Sized r) (hwhole : ∀ r ∈ rs, WholeMillis r)
    (hrequested : 0 ≤ requested ∧ requested ≤ maxSafe)
    (hamount : ∀ r ∈ rs, r.amount = requested)
    (htime : clock.nowMicros < 2 ^ 53) (hsame : SameContents K ledger)
    (hvalues : ∀ r ∈ rs, ∀ index, 0 ≤ windowValues ledger r index)
    (hsums : ∀ r ∈ rs, (reservedWindow r).active (windowValues ledger r)
      (clock.nowMicros * 1000) ≤ maxSafe) :
    (∀ r ∈ rs, ∃ first last, luaRange r.bucketNanos r.durationNanos clock.nowDouble
          = some (first, last)
        ∧ (reservedWindow r).range (clock.nowMicros * 1000) = .ok (first, last)
        ∧ Memory.firstBucket (clock.nowMicros * 1000) r.durationNanos r.bucketNanos = first
        ∧ Memory.floorDiv (Memory.wrap64 (clock.nowMicros * 1000)) r.bucketNanos = last)
    ∧ checkReservationsDouble K (rs.map luaReservation) requested clock.nowDouble
      = replyTo (ledger.checkReservations (clock.nowMicros * 1000) rs) := by
  rw [nowDouble_eq htime]
  generalize clock.nowMicros = now at htime hsums ⊢
  constructor
  · intro r hr
    have hb := (hsized r hr).bucketNanos.1
    exact ⟨_, _, luaRange_of_whole (hsized r hr) (hwhole r hr) htime,
      Window.range_eq hb _, memory_range (hsized r hr) htime⟩
  · rw [checkReservationsDouble, integer_of_bounds hrequested.1 hrequested.2]
    induction rs with
    | nil => rfl
    | cons r rest ih =>
      obtain ⟨hs, hsized⟩ := List.forall_mem_cons.mp hsized
      obtain ⟨hw, hwhole⟩ := List.forall_mem_cons.mp hwhole
      obtain ⟨ha, hamount⟩ := List.forall_mem_cons.mp hamount
      obtain ⟨hv, hvalues⟩ := List.forall_mem_cons.mp hvalues
      obtain ⟨hsum, hsums⟩ := List.forall_mem_cons.mp hsums
      subst ha
      exact checks_alike_cons hs hw htime hsame hv hsum (ih hsized hwhole hamount hvalues hsums)

/-- A reservation in a window of days. -/
def dayReservation (days : Int) : WindowReservation :=
  { policyId := "policy", windowId := "window", bucket := 0, amount := 3
    limit := 7, amountUsd := .zero, limitUsd := .zero
    bucketNanos := 86400 * 10 ^ 9, durationNanos := days * 86400 * 10 ^ 9 }

/-- A time within the second day. -/
def dayClock : Clock := ⟨100000, 0, Clock.zero_micros⟩

/-- Five micro-dollars in the first day, in both stores. -/
def dayKeyspace : Keyspace :=
  (Keyspace.empty.hincrby ⟨"policy", "window"⟩ 0 5).1

def dayLedger : Memory.Ledger :=
  Memory.Ledger.empty.setValue ⟨"policy", "window", 0⟩ 5

theorem checkReservationsDouble_eq_day :
    checkReservationsDouble dayKeyspace [luaReservation (dayReservation 1)] 3 dayClock.nowMicros
      = checkReservations dayKeyspace [luaReservation (dayReservation 1)] 3 dayClock.nowMicros :=
  checkReservationsDouble_eq _ _ _ (by decide)

theorem sameContents_day : SameContents dayKeyspace dayLedger := by
  intro policy window index
  rw [dayLedger, Memory.value_setValue]
  by_cases hp : (⟨policy, window, index⟩ : Place) = ⟨"policy", "window", 0⟩
  · cases hp
    decide +kernel
  · rw [Function.update_of_ne hp]
    unfold Keyspace.field
    split
    · rfl
    have hget : dayKeyspace.hget ⟨policy, window⟩ index.toNat
        = (Function.update Keyspace.empty.budget ⟨"policy", "window"⟩
          ((∅ : FMap Nat Int).insert 0 5) ⟨policy, window⟩).lookup index.toNat := rfl
    rw [hget, Function.update_apply]
    split
    · rename_i hkey
      have hne : index.toNat ≠ 0 := by
        intro h0
        cases hkey
        exact hp (by rw [show index = 0 by omega])
      rw [lookup_insert_eq, if_neg hne]
      rfl
    · rfl

theorem stores_agree_on_active_window_day : dayLedger.checkReservations (dayClock.nowMicros * 1000)
        [dayReservation 1]
      = some ⟨"policy", "window", 7, 5, 3⟩
    ∧ checkReservationsDouble dayKeyspace [luaReservation (dayReservation 1)] 3 dayClock.nowDouble
      = replyTo (dayLedger.checkReservations (dayClock.nowMicros * 1000) [dayReservation 1]) := by
  refine ⟨by decide +kernel, (stores_agree_on_active_window dayKeyspace
    dayLedger [dayReservation 1] 3 dayClock ?_ ?_ (by decide) ?_
    (by decide) sameContents_day ?_ ?_).2⟩
  · intro r hr
    cases List.mem_singleton.mp hr
    constructor <;> decide
  · intro r hr
    cases List.mem_singleton.mp hr
    exact ⟨by decide, by decide⟩
  · intro r hr
    cases List.mem_singleton.mp hr
    rfl
  · intro r hr index
    cases List.mem_singleton.mp hr
    unfold windowValues dayLedger
    rw [Memory.value_setValue, Function.update_apply]
    split
    · decide
    · exact le_rfl
  · intro r hr
    cases List.mem_singleton.mp hr
    decide +kernel

/-- The Function refuses a window of 105 days, which the memory store
admits. -/
theorem long_window_refused_by_function : WholeMillis (dayReservation 105)
      ∧ checkReservationsDouble Keyspace.empty
          [luaReservation (dayReservation 105)] 3 dayClock.nowDouble
        = .error (.bare .invalidReservation)
      ∧ Memory.Ledger.empty.checkReservations (dayClock.nowMicros * 1000)
          [dayReservation 105] = none := by
  refine ⟨⟨by decide, by decide⟩, ?_, by decide +kernel⟩
  have hfields : reservationFields (luaReservation (dayReservation 105)) = none := by decide +kernel
  rw [checkReservationsDouble, integer_of_bounds (by decide) (by decide)]
  dsimp only
  rw [checkLoopDouble, activeForDouble, hfields]

end LlmTemporalWorker.Admission
