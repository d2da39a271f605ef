/-
The ledger's roundings against exact dollars.

Charges are rounded up and limits down, and every sum covers its
charges. So what a window's live reservations and accounted spend are
worth in exact dollars is at most its nano-dollar sum (`exactTotal_le`),
and right after an acceptance that is at most the request's limit.

The one place where the Function could lose a nano-dollar is its sum
`old_accounted + accounted_increase`, which is a double: past 2⁵³ it
is rounded. `settlesExactly` says that a turn does not do that, and
`addsExactly` that no turn of a run does.
-/
import LlmTemporalWorker.Budget.Books
import LlmTemporalWorker.Budget.Proofs.Conservation

namespace LlmTemporalWorker.Budget

open Lib Pricing

-- ===== live charges in nanos

variable (K : Keyspace) (w : WindowKey)

/-- The reservations of a record whose charge is in the window's expiry
set and not retained besides. -/
def memberedIn (r : Record) : List HeldReservation :=
  r.reservations.filter fun x =>
    x.key = w && !retained r.claimed x && 0 < x.total && (K.zscore x.key
        (durableExpiryMember r.fingerprint x.bucket x.total)).isSome

/-- What the live charges of a window come to in nano-dollars. -/
def liveTotal : Int :=
  total (fun _ r => (r.reservations.map fun x =>
    if x.key = w ∧ liveCharge K r x then (x.total : Int) else 0).sum)
      K.records

private theorem sum_live_eq (r : Record) (xs : List HeldReservation) :
    (xs.map fun x => if x.key = w ∧ liveCharge K r x
        then (x.total : Int) else 0).sum
      = ((xs.filter fun x =>
          x.key = w && !retained r.claimed x && 0 < x.total
            && (K.zscore x.key (durableExpiryMember r.fingerprint x.bucket
              x.total)).isSome).map fun x => (x.total : Int)).sum
        + (xs.map (retainedWeight w everyBucket r.claimed)).sum := by
  induction xs with
  | nil => rfl
  | cons x rest ih =>
    rw [List.map_cons, List.sum_cons, ih, List.filter_cons,
      List.map_cons, List.sum_cons, retainedWeight, liveCharge,
      ← retained]
    cases hret : retained r.claimed x <;> by_cases hw : x.key = w <;>
      by_cases hpos : 0 < x.total <;>
      cases hm : (K.zscore x.key (durableExpiryMember r.fingerprint x.bucket x.total)).isSome <;>
      simp [hw, hpos, everyBucket] <;> omega

theorem liveTotal_eq : liveTotal K w = total (fun _ r => ((memberedIn K w r).map
          fun x => (x.total : Int)).sum) K.records
        + retainedTotal K w everyBucket := by
  rw [retainedTotal, ← total_add]
  apply total_congr
  intro op r _
  exact sum_live_eq K w r r.reservations

variable {K K₀ : Keyspace} {r : Record} {x : HeldReservation}
  {owner : String → OperationKey} {index : Nat} {op gen : String}
  {expiresAt now : Int} {a : ReserveArgs} {e : Event} {B : Books}
  {spent : Nat → Nat} {t : Turn} {c : Call} {st : Staging}

theorem mem_memberedIn {w : WindowKey} (h : x ∈ memberedIn K w r) :
    x ∈ r.reservations ∧ x.key = w ∧ ∃ s, K.zscore w
      (durableExpiryMember r.fingerprint x.bucket x.total) = some s := by
  obtain ⟨hx, hcond⟩ := List.mem_filter.mp h
  simp only [Bool.and_eq_true, decide_eq_true_eq] at hcond
  obtain ⟨⟨⟨rfl, -⟩, -⟩, hm⟩ := hcond
  exact ⟨hx, rfl, Option.isSome_iff_exists.mp hm⟩

/-- Two reservations of one record have two members. -/
theorem RecordWf.members_nodup {w : WindowKey} (h : RecordWf r) : ((memberedIn K w r).map fun x =>
      durableExpiryMember r.fingerprint x.bucket x.total).Nodup := by
  refine List.Nodup.map_on ?_ ((List.Nodup.of_map _ h.places).filter _)
  intro x hx y hy heq
  obtain ⟨hx, hxw, -⟩ := mem_memberedIn hx
  obtain ⟨hy, hyw, -⟩ := mem_memberedIn hy
  have hb : x.bucket = y.bucket := congrArg Member.bucket heq
  apply List.inj_on_of_nodup_map h.places hx hy
  rw [HeldReservation.place, HeldReservation.place, hxw, hyw, hb]

/-- Distinct reservations have distinct members, so the members cover
the charges that they stand for. -/
theorem Exact.membered_le (h : Exact owner K) (w : WindowKey) :
    total (fun _ r => ((memberedIn K w r).map fun x => (x.total : Int)).sum) K.records
      ≤ memberTotal K w everyBucket := by
  have hpairs := total_sum_eq (fun (_ : OperationKey) r => (memberedIn K w r).map fun x => (r, x))
    (fun p : Record × HeldReservation => (p.2.total : Int)) K.records
  simp only [List.map_map, Function.comp_def] at hpairs
  rw [hpairs]
  refine sum_map_le_total (g := fun p =>
    durableExpiryMember p.1.fingerprint p.2.bucket p.2.total) ?_ ?_ ?_
  · rw [List.map_flatMap]
    simp only [List.map_map, Function.comp_def]
    rw [List.nodup_flatMap]
    refine ⟨fun e he => (h.wf (mem_entries_iff.mp he)).members_nodup, ?_⟩
    refine List.Pairwise.imp_of_mem ?_ (List.nodupKeys_iff_pairwise.mp K.records.nodupKeys)
    -- a member in both would have one fingerprint and two owners
    intro e f he hf hne m hme hmf
    obtain ⟨x, -, hx⟩ := List.mem_map.mp hme
    obtain ⟨y, -, hy⟩ := List.mem_map.mp hmf
    have hfp : e.2.fingerprint = f.2.fingerprint := congrArg Member.fingerprint (hx.trans hy.symm)
    apply hne
    rw [← h.owned (mem_entries_iff.mp he), hfp, h.owned (mem_entries_iff.mp hf)]
  · intro p hp _
    obtain ⟨e, -, hp⟩ := List.mem_flatMap.mp hp
    obtain ⟨x, hx, rfl⟩ := List.mem_map.mp hp
    obtain ⟨-, -, s, hs⟩ := mem_memberedIn hx
    exact ⟨s, hs, le_of_eq (by simp [memberWeight_member, everyBucket])⟩
  · intro m s _
    rw [memberWeight]
    split <;> omega

/-- The sums cover the live charges. -/
theorem Exact.liveTotal_le (h : Exact owner K) (w : WindowKey) :
    liveTotal K w ≤ sumTotal K w everyBucket := by
  have hbal := h.balanced w everyBucket
  have hmem := h.membered_le w
  rw [slack] at hbal
  rw [liveTotal_eq]
  omega

-- ===== what a request rounds

/-- What one turn of the canonical loop guarantees. -/
structure Rounded (v : WindowReservation) (r : Reservation) : Prop where
  key : r.key = ⟨v.policyId, v.windowId⟩
  amount : r.amountUsd ≤ nanoUsdScaleFactor * r.amountNano
  limit : ∃ limit, durableUsd v.limitUsd v.limit = .ok limit
    ∧ nanoUsdScaleFactor * r.limitNano ≤ limit.units

theorem positiveUsd_ok {field : String} {exact usd : Usd} {legacy : Int}
    (h : positiveUsd index field exact legacy = .ok usd) :
    durableUsd exact legacy = .ok usd := by
  unfold positiveUsd at h
  split at h
  · cases h
  rename_i u hu
  split at h
  · cases h
  · rw [hu, Except.ok.inj h]

theorem amountNanoOf_ok {nano : Nat} {amount : Usd} (h : amountNanoOf index amount = .ok nano) :
    amount.units ≤ nanoUsdScaleFactor * nano := by
  unfold amountNanoOf at h
  split at h
  · cases h
  rename_i n hn
  cases h
  exact le_ceilNanoUsd hn

theorem limitNanoOf_ok {nano : Nat} {limit : Usd} (h : limitNanoOf index limit = .ok nano) :
    nanoUsdScaleFactor * nano ≤ limit.units := by
  unfold limitNanoOf at h
  split at h
  · cases h
  rename_i n hn
  split at h
  · cases h
  · cases h
    exact floorNanoUsd_le hn

variable {H : Host}

theorem canonicalReservation_ok {v : WindowReservation} {r : Reservation}
    (h : canonicalReservation H op gen expiresAt now index v = .ok r) :
    Rounded v r := by
  obtain ⟨-, -, h⟩ := bind_ok h
  obtain ⟨amount, -, h⟩ := bind_ok h
  obtain ⟨limit, hlimit, h⟩ := bind_ok h
  obtain ⟨amountNano, hamount, h⟩ := bind_ok h
  obtain ⟨limitNano, hfloor, h⟩ := bind_ok h
  cases h
  exact ⟨rfl, amountNanoOf_ok hamount, limit, positiveUsd_ok hlimit, limitNanoOf_ok hfloor⟩

theorem canonicalLoop_ok {vs : List WindowReservation}
    {buckets seen : List String} {rs : List Reservation}
    (h : canonicalLoop H op gen expiresAt now index vs buckets seen
      = .ok rs) : List.Forall₂ Rounded vs rs := by
  induction vs generalizing index buckets seen rs with
  | nil =>
    cases h
    exact .nil
  | cons v rest ih =>
    obtain ⟨r, hr, h⟩ := bind_ok h
    dsimp only at h
    split at h
    · cases h
    split at h
    · cases h
    obtain ⟨tail, htail, h⟩ := bind_ok h
    cases h
    exact .cons (canonicalReservation_ok hr) (ih htail)

theorem canonicalDurableReservations_ok {vs : List WindowReservation}
    {rs : List Reservation}
    (h : canonicalDurableReservations H op gen vs expiresAt now = .ok rs) :
    ∃ rs', List.Forall₂ Rounded vs rs' ∧ rs.Perm rs' := by
  obtain ⟨rs', hloop, h⟩ := bind_ok h
  cases h
  exact ⟨rs', canonicalLoop_ok hloop, List.perm_insertionSort _ _⟩

theorem acceptCall_ok {m : Materializer} {clock : AcceptClock}
    {request : ReserveRequest} (h : acceptCall H m clock request = .ok a) :
    ∃ rs', List.Forall₂ Rounded request.reservations rs' ∧ a.reservations.Perm rs' := by
  obtain ⟨-, -, h⟩ := bind_ok h
  dsimp only at h
  split at h
  · cases h
  split at h
  · cases h
  obtain ⟨rs, hrs, h⟩ := bind_ok h
  cases h
  exact canonicalDurableReservations_ok hrs

/-- Every reservation of an accept call is charged at least its exact
amount. -/
theorem acceptCall_amount {m : Materializer} {clock : AcceptClock}
    {request : ReserveRequest} (h : acceptCall H m clock request = .ok a)
    {r : Reservation} (hr : r ∈ a.reservations) :
    r.amountUsd ≤ nanoUsdScaleFactor * r.amountNano := by
  obtain ⟨rs', hround, hperm⟩ := acceptCall_ok h
  obtain ⟨v, -, hv⟩ := exists_of_forall₂_right hround (hperm.mem_iff.mp hr)
  exact hv.amount

/-- An event on the wire accounts for at least its exact increase. -/
theorem wireEvent_increase {c : CompletionEvent} (h : wireEvent H c = .ok e) :
    c.accountedIncreaseUsd.units ≤ nanoUsdScaleFactor * e.accountedIncreaseNano := by
  obtain ⟨reserved, -, h⟩ := bind_ok h
  obtain ⟨increase, hincrease, h⟩ := bind_ok h
  obtain ⟨decrease, -, h⟩ := bind_ok h
  cases h
  unfold deltaNano at hincrease
  split at hincrease
  · cases hincrease
  rename_i n hn
  cases hincrease
  exact le_ceilNanoUsd hn

theorem exactIncrease_le (request : ReconcileRequest) (e : Event) : exactIncrease H request e
      ≤ nanoUsdScaleFactor * e.accountedIncreaseNano := by
  unfold exactIncrease
  cases hfind : request.events.find? fun c =>
      (wireEvent H c).toOption == some e with
  | none => exact Nat.zero_le _
  | some c =>
    have hc := List.find?_some hfind
    apply wireEvent_increase
    cases hw : wireEvent H c with
    | error err =>
      rw [hw] at hc
      cases hc
    | ok e' =>
      rw [hw] at hc
      have he : e' = e := by simpa [Except.toOption] using hc
      rw [he]

-- ===== priced books

/-- Every charge of the books is at least its exact amount. -/
structure Priced (B : Books) : Prop where
  amount : ∀ {op r x}, B.keyspace.records.lookup op = some r → x ∈ r.reservations →
    x.amountUsd ≤ nanoUsdScaleFactor * x.amountNano
      ∧ (x.reservedNano = x.amountNano ∨ x.reservedNano = 0)
  spent : ∀ {op r i x}, B.keyspace.records.lookup op = some r → r.reservations[i]? = some x →
    B.spent op i ≤ nanoUsdScaleFactor * x.accountedNano
  unspent : ∀ {op}, B.keyspace.records.lookup op = none → ∀ i, B.spent op i = 0

theorem priced_empty : Priced Books.empty where
  amount := by
    intro op r x h
    cases h
  spent := by
    intro op r i x h
    cases h
  unspent := fun _ _ => rfl

/-- Priced books, in terms of one record's charges. -/
structure PricedRecord (spent : Nat → Nat) (r : Record) : Prop where
  amount : ∀ x ∈ r.reservations, x.amountUsd ≤ nanoUsdScaleFactor * x.amountNano
      ∧ (x.reservedNano = x.amountNano ∨ x.reservedNano = 0)
  spent : ∀ i x, r.reservations[i]? = some x → spent i ≤ nanoUsdScaleFactor * x.accountedNano

variable {op : OperationKey}

theorem Priced.record (h : Priced B)
    (hr : B.keyspace.records.lookup op = some r) :
    PricedRecord (B.spent op) r :=
  ⟨fun _ hx => h.amount hr hx, fun _ _ hx => h.spent hr hx⟩

/-- Printing a record changes no charge. -/
theorem PricedRecord.encode (h : PricedRecord spent r) : PricedRecord spent (durableEncode r) := by
  constructor
  · intro x hx
    obtain ⟨y, hy, rfl⟩ := List.mem_map.mp hx
    exact h.amount y hy
  · intro i x hx
    obtain ⟨y, hy, rfl⟩ := getElem?_durableEncode hx
    exact h.spent i y hy

theorem Priced.of_records (h : Priced B)
    (hrec : K.records = B.keyspace.records) : Priced ⟨K, B.spent⟩ := by
  constructor
  · intro op r x hr hx
    exact h.amount (hrec ▸ hr) hx
  · intro op r i x hr hx
    exact h.spent (hrec ▸ hr) hx
  · intro op hnone
    exact h.unspent (hrec ▸ hnone)

/-- Writing one priced record keeps the books priced. -/
theorem Priced.write (h : Priced B) {spent : OperationKey → Nat → Nat}
    (hrec : K.records = B.keyspace.records.insert op r)
    (hother : ∀ op', op' ≠ op → spent op' = B.spent op')
    (hr : PricedRecord (spent op) r) : Priced ⟨K, spent⟩ := by
  have hlookup : ∀ op', K.records.lookup op'
      = if op' = op then some r else B.keyspace.records.lookup op' := by
    intro op'
    rw [hrec, lookup_insert_eq]
  constructor
  · intro op' r' x hr' hx
    rw [hlookup] at hr'
    split at hr'
    · cases hr'
      exact hr.amount x hx
    · exact h.amount hr' hx
  · intro op' r' i x hr' hx
    dsimp only at hr' ⊢
    rw [hlookup] at hr'
    split at hr'
    · rename_i heq
      cases hr'
      rw [heq]
      exact hr.spent i x hx
    · rename_i hne
      rw [hother op' hne]
      exact h.spent hr' hx
  · intro op' hnone i
    dsimp only at hnone ⊢
    rw [hlookup] at hnone
    split at hnone
    · cases hnone
    rename_i hne
    rw [hother op' hne]
    exact h.unspent hnone i

-- ===== the turns

/-- Under exact addition a settled reservation accounts for at least its
event's increase. -/
theorem Transition.increase_le {claimed : Bool}
    {newReserved newAccounted : Nat}
    (h : Transition claimed x e newReserved newAccounted)
    (hadd : luaAdd x.accountedNano e.accountedIncreaseNano
      = x.accountedNano + e.accountedIncreaseNano) :
    e.accountedIncreaseNano ≤ newAccounted := by
  by_cases hk : e.kind = .retainAmbiguous
  · rw [(h.retain hk).2.2.2]
    exact Nat.zero_le _
  · rw [(h.replace hk).2.2.2, hadd]
    omega

theorem Transition.reserved {claimed : Bool}
    {newReserved newAccounted : Nat}
    (h : Transition claimed x e newReserved newAccounted) :
    newReserved = x.reservedNano ∨ newReserved = 0 := by
  by_cases hk : e.kind = .retainAmbiguous
  · exact Or.inl (h.retain hk).2.1
  · exact Or.inr (h.replace hk).1

/-- A batch of exact additions leaves a priced record. -/
theorem PricedRecord.settle {es : List Event} {b : Batch}
    (h : PricedRecord spent r) (hb : Batched K r es b)
    (hadd : ∀ s ∈ b.staged, luaAdd s.reservation.accountedNano s.event.accountedIncreaseNano
        = s.reservation.accountedNano + s.event.accountedIncreaseNano)
    (request : ReconcileRequest) :
    PricedRecord (settledSpent H request b.staged spent) (b.staged.foldl settleRecord r) := by
  constructor
  · intro x hx
    obtain ⟨i, hi⟩ := List.mem_iff_getElem?.mp hx
    rcases hb.settled_cases hi with ⟨s, hs, -, -, rfl⟩ | ⟨-, hx⟩
    · have hok := hb.items s hs
      obtain ⟨hamount, hres⟩ := h.amount _ (List.mem_of_getElem? hok.located)
      refine ⟨hamount, ?_⟩
      show s.newReserved = s.reservation.amountNano ∨ s.newReserved = 0
      rcases hok.transition.reserved with heq | heq
      · rw [heq]
        exact hres
      · exact Or.inr heq
    · exact h.amount x (List.mem_of_getElem? hx)
  · intro i x hi
    rw [settledSpent]
    rcases hb.settled_cases hi with ⟨s, hs, hfind, -, rfl⟩ | ⟨hfind, hx⟩
    · rw [hfind]
      calc exactIncrease H request s.event
          ≤ nanoUsdScaleFactor * s.event.accountedIncreaseNano := exactIncrease_le request s.event
        _ ≤ nanoUsdScaleFactor * s.newAccounted :=
            Nat.mul_le_mul_left _ ((hb.items s hs).transition.increase_le (hadd s hs))
    · rw [hfind]
      exact h.spent i x hx

/-- Only a settlement changes an accounted amount. -/
theorem Turn.spent_of_not_ok (h : ∀ r, (Budget.perform ⟨t.time, c⟩ B.keyspace).2 ≠ .ok r) :
    t.spent H c B = B.spent := by
  unfold Turn.spent
  split
  · rename_i request a _
    have hnil : appliedEvents a B.keyspace = [] := by
      unfold appliedEvents
      split
      · rename_i hok _
        exact absurd hok (h _)
      · rfl
    funext op
    rw [spend, hnil]
    split <;> rfl
  · rfl

/-- The request behind a call. -/
theorem Turn.call_cases (h : t.call H = .ok c) :
    (∃ clock request a, t.request = .accept clock request
        ∧ acceptCall H t.worker clock request = .ok a ∧ c = .reserve a)
      ∨ (∃ request a, t.request = .claim request
        ∧ claimCall t.worker request = .ok a ∧ c = .claim a)
      ∨ (∃ request a, t.request = .reconcile request
        ∧ reconcileCall H t.worker request = .ok a ∧ c = .reconcile a)
      ∨ ∃ args, t.request = .publish args ∧ c = .authority args := by
  unfold Turn.call at h
  split at h
  · rename_i clock request hreq
    obtain ⟨a, ha, rfl⟩ := map_ok h
    exact Or.inl ⟨clock, request, a, hreq, ha, rfl⟩
  · rename_i request hreq
    obtain ⟨a, ha, rfl⟩ := map_ok h
    exact Or.inr (Or.inl ⟨request, a, hreq, ha, rfl⟩)
  · rename_i request hreq
    obtain ⟨a, ha, rfl⟩ := map_ok h
    exact Or.inr (Or.inr (Or.inl ⟨request, a, hreq, ha, rfl⟩))
  · rename_i args hreq
    cases h
    exact Or.inr (Or.inr (Or.inr ⟨args, hreq, rfl⟩))

theorem Turn.accept_of_call (h : t.call H = .ok (.reserve a)) : ∃ clock request,
      t.request = .accept clock request ∧ acceptCall H t.worker clock request = .ok a := by
  rcases Turn.call_cases h with ⟨clock, request, a', hreq, ha, hc⟩
    | ⟨request, a', -, -, hc⟩ | ⟨request, a', -, -, hc⟩ | ⟨args, -, hc⟩
  · cases hc
    exact ⟨clock, request, hreq, ha⟩
  · cases hc
  · cases hc
  · cases hc

theorem Turn.reconcile_of_call {a : ReconcileArgs} (h : t.call H = .ok (.reconcile a)) : ∃ request,
      t.request = .reconcile request := by
  rcases Turn.call_cases h with ⟨clock, request, a', -, -, hc⟩
    | ⟨request, a', -, -, hc⟩ | ⟨request, a', hreq, -, hc⟩
    | ⟨args, -, hc⟩
  · cases hc
  · cases hc
  · exact ⟨request, hreq⟩
  · cases hc

/-- A fresh record is priced as its request is. -/
theorem pricedRecord_accepted {now : Nat} (hadm : Admitting now K₀ a.reservations K st)
    (hamount : ∀ r ∈ a.reservations, r.amountUsd ≤ nanoUsdScaleFactor * r.amountNano)
    (hspent : ∀ i, spent i = 0) :
    PricedRecord spent (acceptedRecord a st) := by
  constructor
  · intro x hx
    obtain ⟨r, hr, expires, we, -, rfl⟩ := hadm.passed_of_mem hx
    exact ⟨hamount r hr, Or.inl rfl⟩
  · intro i x _
    rw [hspent]
    exact Nat.zero_le _

theorem settlesExactly_ok {a : ReconcileArgs} (h : settlesExactly H t K = true)
    (hcall : t.call H = .ok (.reconcile a))
    (hr : K.records.lookup a.key = some r) (he : e ∈ a.events)
    (hx : x ∈ r.reservations) (hnames : e.names x = true) :
    luaAdd x.accountedNano e.accountedIncreaseNano = x.accountedNano + e.accountedIncreaseNano := by
  rw [settlesExactly, hcall] at h
  dsimp only at h
  rw [hr, Option.all_some, List.all_eq_true] at h
  have hall := List.all_eq_true.mp (h e he) x hx
  rw [hnames] at hall
  simpa using hall

theorem addsExactly_ok {turns pre post : List Turn}
    (h : addsExactly H turns = true) (hturns : turns = pre ++ t :: post) :
    settlesExactly H t (books H pre).keyspace = true := by
  have hat := List.all_eq_true.mp h pre.length (List.mem_range.mpr (by simp [hturns]))
  have hget : turns[pre.length]? = some t := by simp [hturns]
  have htake : turns.take pre.length = pre := by simp [hturns]
  rw [hget, htake, Option.all_some] at hat
  exact hat

/-- A turn of exact additions keeps the books priced. -/
theorem Priced.perform (h : Priced B) (hK : Sound B.keyspace)
    (hexact : settlesExactly H t B.keyspace = true) :
    Priced (t.perform H B).1 := by
  unfold Turn.perform
  split
  · exact h
  rename_i c hcall
  have heff := hK.perform_effect ⟨t.time, c⟩
  have hsame := Turn.spent_of_not_ok (H := H) (t := t) (c := c) (B := B)
  generalize hreply : (Budget.perform ⟨t.time, c⟩ B.keyspace).2 = reply at heff hsame
  generalize (Budget.perform ⟨t.time, c⟩ B.keyspace).1 = K' at heff ⊢
  cases heff with
  | refused hrefuse =>
    rw [hsame (by rintro r rfl; cases hrefuse)]
    exact h
  | replayed _ _ _ =>
    rw [hsame (by rintro r h; cases h)]
    exact h
  | authorized _ hauth _ =>
    rw [hsame (by rintro r rfl; rcases hauth with h | h <;> cases h)]
    exact h.of_records rfl
  | cleaned _ _ hclean hrefuse =>
    rw [hsame (by rintro r rfl; rcases hrefuse with h | ⟨h, -⟩ <;> cases h)]
    exact h.of_records hclean.records
  | accepted hc hnone hadm =>
    cases hc
    obtain ⟨clock, request, -, haccept⟩ := Turn.accept_of_call hcall
    rw [hsame (by rintro r h; cases h)]
    refine h.write ?_ (fun _ _ => rfl) (pricedRecord_accepted hadm
        (fun _ => acceptCall_amount haccept) (h.unspent hnone)).encode
    rw [acceptedKeyspace, records_setRecord, records_foldl_charge, hadm.cleaned.records]
  | @claimed a r hc hr _ =>
    rw [hsame (by rintro r h; cases h)]
    have hrec : ((unlease r B.keyspace).setRecord a.key (claimedRecord r)).records
        = B.keyspace.records.insert a.key (claimedRecord r) := by
      rw [records_setRecord, records_unlease]
    apply h.write hrec (fun _ _ => rfl)
    exact PricedRecord.encode ⟨(h.record hr).amount, (h.record hr).spent⟩
  | @settled a r b hc hr hst hb =>
    cases hc
    obtain ⟨request, hreq⟩ := Turn.reconcile_of_call hcall
    have happlied := appliedEvents_of_ok hr hst hreply
    have hspent : t.spent H (.reconcile a) B = spend H request a B.keyspace B.spent := by
      simp only [Turn.spent, hreq]
    rw [hspent]
    have hrec : (settledKeyspace a.key r b B.keyspace).records
        = B.keyspace.records.insert a.key (durableEncode (b.staged.foldl settleRecord r)) := by
      rw [settledKeyspace, records_setRecord, records_applyAll]
    apply h.write hrec
    · intro op hop
      rw [spend, if_neg hop]
    · have hadd : ∀ s ∈ b.staged, luaAdd s.reservation.accountedNano
          s.event.accountedIncreaseNano = s.reservation.accountedNano
            + s.event.accountedIncreaseNano := fun s hs =>
        settlesExactly_ok hexact hcall hr (hb.fresh s hs).1
          (List.mem_of_getElem? (hb.items s hs).located)
          (hb.items s hs).named
      rw [spend, if_pos rfl, happlied]
      exact ((h.record hr).settle hb hadd request).encode

-- ===== the limit

/-- A reservation is worth at most its nano-dollars. -/
theorem Priced.exactCharge_le (h : Priced B)
    (hr : B.keyspace.records.lookup op = some r) {i : Nat}
    (hx : r.reservations[i]? = some x) :
    exactCharge (B.spent op i) x ≤ nanoUsdScaleFactor * x.total := by
  have hspent := h.spent hr hx
  obtain ⟨hamount, hres⟩ := h.amount hr (List.mem_of_getElem? hx)
  rw [exactCharge, HeldReservation.total, Nat.mul_add]
  split
  · rcases hres with heq | heq
    · rw [heq]
      omega
    · omega
  · omega

/-- What a window is worth is at most its live charges. -/
theorem Priced.exactTotal_le (h : Priced B) (w : WindowKey) :
    exactTotal B w ≤ nanoUsdScaleFactor * liveTotal B.keyspace w := by
  rw [liveTotal, ← total_mul]
  apply total_le_total
  intro op r hr
  have hfst := List.zipIdx_map_fst 0 r.reservations
  conv_rhs => rw [← hfst, List.map_map]
  rw [← List.sum_map_mul_left]
  apply List.sum_le_sum
  intro p hp
  rw [Function.comp_apply]
  split
  · have hle := h.exactCharge_le hr (List.mem_zipIdx_iff_getElem?.mp hp)
    exact_mod_cast hle
  · simp

/-- What an acceptance adds to the sums. -/
theorem sumTotal_foldl_charge (fp : String) (score : Nat)
    (xs : List HeldReservation) (K : Keyspace) (w : WindowKey)
    (P : Nat → Bool) :
    sumTotal (xs.foldl (charge fp score) K) w P = sumTotal K w P + amountIn w P xs := by
  induction xs generalizing K with
  | nil => simp [amountIn]
  | cons x rest ih =>
    rw [List.foldl_cons, ih, sumTotal_charge, amountIn, amountIn, List.map_cons, List.sum_cons]
    simp only [eq_comm (a := w)]
    omega

/-- Every reservation of an acceptance fits its window's limit. -/
theorem Admitting.sumTotal_le {now : Nat}
    (h : Admitting now K₀ a.reservations K st) {r : Reservation}
    (hr : r ∈ a.reservations) :
    sumTotal (acceptedKeyspace a st K) r.key everyBucket ≤ r.limitNano := by
  obtain ⟨x, hx, expires, we, -, rfl⟩ := exists_of_forall₂_left h.passed hr
  have hfits := h.fits hx
  rw [acceptedKeyspace, sumTotal_congr (hash_setRecord ..), sumTotal_foldl_charge]
  exact hfits

theorem perform_of_call (h : t.call H = .ok c) (B : Books) : t.perform H B
      = (⟨(Budget.perform ⟨t.time, c⟩ B.keyspace).1, t.spent H c B⟩,
        some (Budget.perform ⟨t.time, c⟩ B.keyspace).2) := by
  rw [Turn.perform, h]

/-- A turn does to the keyspace what its call does, if it makes one. -/
theorem Exact.turn (h : Exact owner B.keyspace) (hown : ∀ a, t.call H = .ok (.reserve a) →
      owner a.fingerprint = a.key) :
    Exact owner (t.perform H B).1.keyspace := by
  cases hcall : t.call H with
  | error e =>
    rw [Turn.perform, hcall]
    exact h
  | ok c =>
    rw [perform_of_call hcall]
    apply h.perform
    intro a ha
    apply hown
    rw [hcall]
    exact congrArg _ ha

theorem timedCall_eq (h : t.call H = .ok c) : t.timedCall H = some (⟨t.time, c⟩ : TimedCall) := by
  rw [Turn.timedCall, h]

/-- The books of a run of exact additions are exact and priced. -/
theorem books_sound {turns : List Turn} (hown : ∀ t ∈ turns, ∀ a, t.call H = .ok (.reserve a) →
      owner a.fingerprint = a.key)
    (hexact : addsExactly H turns = true) :
    Exact owner (books H turns).keyspace ∧ Priced (books H turns) := by
  refine runAll_invariant_at (I := fun B => Exact owner B.keyspace ∧ Priced B)
    ⟨exact_empty owner, priced_empty⟩ ?_
  intro pre t post hturns hB
  obtain ⟨hK, hpriced⟩ := hB
  exact ⟨hK.turn (hown t (by simp [hturns])),
    hpriced.perform hK.toSound (addsExactly_ok hexact hturns)⟩

/-- A reservation is live once it is accepted. -/
theorem Admitting.live {now : Nat} (h : Admitting now K₀ a.reservations K st) {y : HeldReservation}
    (hy : y ∈ (durableEncode (acceptedRecord a st)).reservations) :
    liveCharge (acceptedKeyspace a st K) (durableEncode (acceptedRecord a st)) y = true := by
  obtain ⟨hres, hacc, hpos, -, x, hx, rfl⟩ := h.fresh hy
  have htotal : x.encode.total = x.amountNano := by
    rw [HeldReservation.total, hres, hacc]
    rfl
  have hscore : (acceptedKeyspace a st K).zscore x.key
      (durableExpiryMember a.fingerprint x.bucket x.amountNano) = some st.startBy := by
    exact zscore_foldl_charge_of_mem (Or.inl hx)
  have hsome : ((acceptedKeyspace a st K).zscore x.encode.key
      (durableExpiryMember (durableEncode (acceptedRecord a st)).fingerprint
        x.encode.bucket x.encode.total)).isSome = true := by
    rw [htotal]
    exact Option.isSome_iff_exists.mpr ⟨_, hscore⟩
  have hposTotal : 0 < x.encode.total := by
    rw [htotal]
    exact hpos
  rw [liveCharge, hsome, decide_eq_true hposTotal]
  rfl

/-- No over-admission in exact dollars. Right after a turn whose call
creates an accepted record, every reservation of the record is live,
and in every window that the request names, the live reservations and
the accounted spend of all operations come to at most the request's
exact limit. -/
theorem accepted_within_exact_limit (turns : List Turn) (t : Turn)
    (clock : AcceptClock) (request : ReserveRequest) (record : Record)
    (hdistinct : FingerprintsDistinct ((turns ++ [t]).filterMap (Turn.timedCall H)))
    (hexact : addsExactly H turns = true)
    (hreq : t.request = .accept clock request)
    (hacc : (t.perform H (books H turns)).2 = some (.accepted record)) :
    (∀ x ∈ record.reservations, liveCharge (t.perform H (books H turns)).1.keyspace record x)
      ∧ ∀ v ∈ request.reservations, ∃ limit, durableUsd v.limitUsd v.limit = .ok limit
          ∧ exactTotal (t.perform H (books H turns)).1 ⟨v.policyId, v.windowId⟩ ≤ limit.units := by
  obtain ⟨owner, hown⟩ := hdistinct.exists_owner
  have hown' : ∀ u ∈ turns ++ [t], ∀ a, u.call H = .ok (.reserve a) →
      owner a.fingerprint = a.key := fun u hu a ha =>
    hown _ (List.mem_filterMap.mpr ⟨u, hu, timedCall_eq ha⟩) a rfl
  obtain ⟨hK, hpriced⟩ := books_sound (fun u hu => hown' u (List.mem_append_left _ hu)) hexact
  have hmap : t.call H = (acceptCall H t.worker clock request).map Call.reserve := by
    rw [Turn.call, hreq]
  cases haccept : acceptCall H t.worker clock request with
  | error e =>
    rw [Turn.perform, hmap, haccept] at hacc
    cases hacc
  | ok a =>
    have hcall : t.call H = .ok (.reserve a) := by
      rw [hmap, haccept]
      rfl
    have hK' := hK.turn (hown' t (by simp))
    have hpriced' := hpriced.perform hK.toSound (t := t) (by rw [settlesExactly, hcall])
    rw [perform_of_call hcall] at hacc hK' hpriced' ⊢
    have heff := hK.toSound.perform_effect ⟨t.time, .reserve a⟩
    rw [Option.some.inj hacc] at heff
    generalize (Budget.perform ⟨t.time, .reserve a⟩
      (books H turns).keyspace).1 = K' at heff hK' hpriced' ⊢
    cases heff with
    | refused hrefuse => cases hrefuse
    | cleaned _ _ _ hrefuse => rcases hrefuse with h | ⟨h, -⟩ <;> cases h
    | authorized _ hauth _ => rcases hauth with h | h <;> cases h
    | accepted hc _ hadm =>
      cases hc
      refine ⟨fun x hx => hadm.live hx, ?_⟩
      intro v hv
      obtain ⟨rs, hround, hperm⟩ := acceptCall_ok haccept
      obtain ⟨r, hr, hrv⟩ := exists_of_forall₂_left hround hv
      obtain ⟨limit, hlimit, hfloor⟩ := hrv.limit
      refine ⟨limit, hlimit, ?_⟩
      have hnano : liveTotal (acceptedKeyspace a _ _) r.key ≤ r.limitNano :=
        (hK'.liveTotal_le r.key).trans (hadm.sumTotal_le (hperm.mem_iff.mpr hr))
      rw [← hrv.key]
      calc exactTotal _ r.key
          ≤ nanoUsdScaleFactor * liveTotal _ r.key := hpriced'.exactTotal_le r.key
        _ ≤ nanoUsdScaleFactor * (r.limitNano : Int) :=
            Int.mul_le_mul_of_nonneg_left hnano (by decide)
        _ ≤ limit.units := by exact_mod_cast hfloor

theorem sampleDigest_hex : isHexDigest sampleDigest = true := by decide

theorem otherDigest_hex : isHexDigest otherDigest = true := by decide

/-- A host that tells two operations apart. -/
def sampleHost : Host where
  sha256 := fun text => if text = "second" then ⟨otherDigest, otherDigest_hex⟩
    else ⟨sampleDigest, sampleDigest_hex⟩
  marshalRequest := fun wire => wire.operationId
  marshalEvent := fun event => event.eventId
  rfc3339Nano := fun t => toString t

def sampleWorker : Materializer := ⟨"generation", "incarnation", none⟩

/-- One reservation of one bucket, in exact dollars: an amount of
`nano` nano-dollars under a limit of ten. -/
def sampleRequest (operation : String) (nano : Nat)
    (h : nano * 10 ^ 9 ≤ 10 ^ 38 - 1) : ReserveRequest where
  operationId := operation
  generationId := "generation"
  expiresAt := zeroTime
  reservations := [{
    policyId := "team"
    windowId := "daily"
    bucket := 1
    amount := 0
    limit := 0
    amountUsd := ⟨nano * 10 ^ 9, h⟩
    limitUsd := ⟨10 * 10 ^ 9, by decide⟩
    bucketNanos := 3600000000000
    durationNanos := 86400000000000 }]

def sampleClock : AcceptClock :=
  ⟨3600 * 10 ^ 9, 3600 * 10 ^ 9, 3600 * 10 ^ 9⟩

/-- The exact cost of the first operation, known at last. -/
def sampleCompletion (cost : Usd) : CompletionEvent where
  eventId := "completion"
  generationId := "generation"
  operationId := "first"
  windowId := "daily"
  bucketStart := 3600000000000
  reservationRevision := 2
  kind := .finalizeExact
  reservedDecreaseUsd := ⟨3 * 10 ^ 9, by decide⟩
  accountedIncreaseUsd := cost
  accountedDecreaseUsd := Usd.zero
  actualCostUsd := some cost
  costStatus := .exact
  unknownReasonCode := ""
  occurredAt := 3602000000000

/-- The first operation reserves three nano-dollars, runs, and costs
`cost`. -/
def sampleTurns (cost : Usd) : List Turn :=
  [⟨sampleWorker, ⟨3600, 0⟩, .accept sampleClock (sampleRequest "first" 3 (by decide))⟩,
    ⟨sampleWorker, ⟨3601, 0⟩, .claim ⟨"first", "generation", "incarnation"⟩⟩,
    ⟨sampleWorker, ⟨3602, 0⟩, .reconcile ⟨"first", "generation",
      "incarnation", [sampleCompletion cost]⟩⟩]

/-- A second operation is accepted beside five nano-dollars of spend. -/
def sampleTurn : Turn :=
  ⟨sampleWorker, ⟨3603, 0⟩, .accept sampleClock (sampleRequest "second" 4 (by decide))⟩

/-- The record a reply says was created. -/
def Reply.created : Reply → Option Record
  | .accepted r => some r
  | _ => none

theorem created_eq_some {reply : Reply} (h : reply.created = some r) : reply = .accepted r := by
  cases reply with
  | accepted r' =>
    cases h
    rfl
  | _ => cases h

theorem accepted_within_exact_limit_sample : ∃ record,
      (sampleTurn.perform sampleHost (books sampleHost (sampleTurns ⟨5 * 10 ^ 9, by decide⟩))).2
        = some (.accepted record)
      ∧ ∀ v ∈ (sampleRequest "second" 4 (by decide)).reservations,
        ∃ limit, durableUsd v.limitUsd v.limit = .ok limit
          ∧ exactTotal (sampleTurn.perform sampleHost (books sampleHost
              (sampleTurns ⟨5 * 10 ^ 9, by decide⟩))).1
            ⟨v.policyId, v.windowId⟩ ≤ limit.units := by
  have hsome : ((sampleTurn.perform sampleHost (books sampleHost
      (sampleTurns ⟨5 * 10 ^ 9, by decide⟩))).2.bind
        Reply.created).isSome = true := by
    decide +kernel
  obtain ⟨record, hrecord⟩ := Option.isSome_iff_exists.mp hsome
  obtain ⟨reply, hreply, hcreated⟩ := Option.bind_eq_some_iff.mp hrecord
  rw [created_eq_some hcreated] at hreply
  exact ⟨record, hreply, (accepted_within_exact_limit _ sampleTurn
    sampleClock _ record (by decide +kernel) (by decide +kernel) rfl
    hreply).2⟩

/-- The reply carries an accepted record. -/
def Reply.carriesAccepted : Reply → Bool
  | .accepted _ | .existing _ => true
  | _ => false

/-- A replayed reserve answers with its accepted record whatever has
been spent since: here twelve nano-dollars under a limit of ten. -/
theorem replay_above_exact_limit :
    let turns := sampleTurns ⟨12 * 10 ^ 9, by decide⟩
    let replay : Turn := ⟨sampleWorker, ⟨3603, 0⟩,
      .accept sampleClock (sampleRequest "first" 3 (by decide))⟩
    let result := replay.perform sampleHost (books sampleHost turns)
    result.2.map Reply.carriesAccepted = some true
      ∧ exactTotal result.1 ⟨"team", "daily"⟩ = 12 * 10 ^ 9
      ∧ ∀ v ∈ (sampleRequest "first" 3 (by decide)).reservations,
        v.limitUsd.units = 10 * 10 ^ 9 := by
  decide +kernel

end LlmTemporalWorker.Budget
