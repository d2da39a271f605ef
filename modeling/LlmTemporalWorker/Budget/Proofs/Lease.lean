/-
One claim, no refund, no reuse.

A lease is open while its record is unclaimed, every reservation is
still reserved, and every member is still in its expiry set. `LeaseGone`
is the negation of that for a stored record. It is stable: the flag is
never lowered, a status never returns to reserved, and a member that is
gone comes back only through a reserve of the same operation, which the
stored record prevents, or through a settlement, which moves the status.

After the claim the charge is in the record and in the sums only, and
stays there until an event other than `retain_ambiguous` settles it
(`Held`).
-/
import LlmTemporalWorker.Budget.Proofs.Conservation
import LlmTemporalWorker.Budget.Proofs.History

namespace LlmTemporalWorker.Budget

open Lib

-- ===== gone leases

/-- The operation's lease cannot be claimed. -/
def LeaseGone (op : OperationKey) (K : Keyspace) : Prop :=
  ∃ r, K.records.lookup op = some r ∧ (r.claimed = true ∨ ∃ x ∈ r.reservations,
      x.status ≠ .reserved ∨ K.zscore x.key (claimMember r x) = none)

variable {K : Keyspace} {c : TimedCall} {a : ClaimArgs} {r : Record}
  {i : Nat} {x : HeldReservation} {op : OperationKey}

/-- What a successful claim has found and what it leaves. -/
theorem Sound.claimed (h : Sound K) (hcall : c.call = .claim a)
    (hreply : (Budget.perform c K).2 = .claimed) :
    ∃ r, K.records.lookup a.key = some r ∧ Claimable c.time K r ∧ (Budget.perform c K).1
        = (unlease r K).setRecord a.key (claimedRecord r) := by
  have heff := h.perform_effect c
  rw [hreply] at heff
  generalize (Budget.perform c K).1 = K' at heff ⊢
  cases heff with
  | refused hrefuse => cases hrefuse
  | cleaned _ _ _ hrefuse => rcases hrefuse with h | ⟨h, -⟩ <;> cases h
  | claimed hcall' hr hc =>
    rw [hcall] at hcall'
    cases hcall'
    exact ⟨_, hr, hc, rfl⟩
  | authorized _ hreply _ => rcases hreply with h | h <;> cases h

theorem LeaseGone.not_claimed (h : LeaseGone a.key K) (hK : Sound K)
    (hcall : c.call = .claim a) : (perform c K).2 ≠ .claimed := by
  intro hreply
  obtain ⟨r, hr, hc, -⟩ := hK.claimed hcall hreply
  obtain ⟨r', hr', hgone⟩ := h
  obtain rfl : r' = r := Option.some.inj (hr'.symm.trans hr)
  rcases hgone with hclaimed | ⟨x, hx, hstatus | hnone⟩
  · rw [hc.unclaimed] at hclaimed
    cases hclaimed
  · exact hstatus (hc.leases x hx).1
  · have hsome := (hc.leases x hx).2
    rw [hnone] at hsome
    cases hsome

/-- A reservation whose member is gone, through a batch on its own
record: it is settled, or its member stays gone. -/
theorem Batched.member_gone {es : List Event} {b : Batch} (hb : Batched K r es b) (hwf : RecordWf r)
    (hx : r.reservations[i]? = some x)
    (hnone : K.zscore x.key (claimMember r x) = none) (op : OperationKey) :
    ∃ y, (b.staged.foldl settleRecord r).reservations[i]? = some y
      ∧ (y.status ≠ .reserved ∨ (settledKeyspace op r b K).zscore x.key
        (claimMember r x) = none) := by
  have hrule := applyAll_rule (C := fun K' r' => RecordWf r' ∧ r'.fingerprint = r.fingerprint
      ∧ ∃ y, r'.reservations[i]? = some y ∧ y.place = x.place
        ∧ (y.status ≠ .reserved ∨ K'.zscore x.key (claimMember r x) = none))
    ?_ hwf ⟨hwf, rfl, x, hx, rfl, Or.inr hnone⟩ hb.items hb.indices
  · obtain ⟨-, -, y, hy, -, hgone⟩ := hrule.2
    exact ⟨y, hy, hgone⟩
  · rintro K' r' s ⟨hwf', hfp, y, hy, hplace, hgone⟩ hs
    refine ⟨hwf'.settle hs, hfp, ?_⟩
    have hset : (settleRecord r' s).reservations = r'.reservations.set s.index s.settled := rfl
    by_cases hi : s.index = i
    · -- the event settles this very reservation
      subst hi
      obtain rfl : s.reservation = y := Option.some.inj (hs.located.symm.trans hy)
      refine ⟨s.settled, ?_, hplace, Or.inl ?_⟩
      · rw [hset, List.getElem?_set_self' , hs.located]
        rfl
      · show s.event.kind.settles ≠ .reserved
        cases s.event.kind <;> decide
    · refine ⟨y, ?_, hplace, ?_⟩
      · rw [hset, List.getElem?_set_ne hi]
        exact hy
      · refine hgone.imp id fun hnone' => ?_
        obtain ⟨score, hscore⟩ := hs.balance.score
        have hne : x.place ≠ s.reservation.place := by
          rw [← hplace]
          exact hwf'.place_ne hy hs.located (fun he => hi he.symm)
        have hframe := (applyItem_other_place (K := K') (r := r') hscore
          hne r.fingerprint x.amountNano).2
        rw [claimMember] at hnone' ⊢
        rw [hframe]
        exact hnone'

/-- A lease that is gone stays gone. -/
theorem LeaseGone.perform {owner : String → OperationKey}
    (h : LeaseGone op K) (hK : Exact owner K) (henc : Encoded K)
    (c : TimedCall)
    (hown : ∀ a, c.call = .reserve a → owner a.fingerprint = a.key) :
    LeaseGone op (Budget.perform c K).1 := by
  have heff := hK.toSound.perform_effect c
  obtain ⟨r, hr, hgone⟩ := h
  obtain ⟨r', hr', hev⟩ := heff.evolves hK.toSound henc hr
  refine ⟨r', hr', ?_⟩
  rcases hgone with hclaimed | ⟨x, hx, hstatus | hnone⟩
  · exact Or.inl (hev.claimed hclaimed)
  · obtain ⟨y, hy, hxy⟩ := exists_of_forall₂_left hev.reservations hx
    exact Or.inr ⟨y, hy, Or.inl (hxy.open_ hstatus)⟩
  -- the member is gone: look at the same reservation after the call
  obtain ⟨i, hi⟩ := List.mem_iff_getElem?.mp hx
  obtain ⟨y, hy, hxy⟩ := getElem?_of_forall₂ hev.reservations hi
  have hmem : claimMember r' y = claimMember r x := by
    have hb : y.bucket = x.bucket := congrArg Reservation.bucket hxy.request
    have ha : y.amountNano = x.amountNano := congrArg Reservation.amountNano hxy.request
    rw [claimMember, claimMember, hev.fingerprint, hb, ha]
  have hkey : y.key = x.key := congrArg Reservation.key hxy.request
  suffices hgone : y.status ≠ .reserved
      ∨ (Budget.perform c K).1.zscore x.key (claimMember r x) = none by
    refine Or.inr ⟨y, List.mem_of_getElem? hy, ?_⟩
    rw [hkey, hmem]
    exact hgone
  have hshrink : ∀ {K'}, Cleaned c.time.millis K K' → K'.zscore x.key (claimMember r x) = none := by
    intro K' hclean
    by_contra hsome
    obtain ⟨s, hs⟩ := Option.ne_none_iff_exists'.mp hsome
    rw [hclean.shrinks hs] at hnone
    cases hnone
  generalize (Budget.perform c K).2 = reply at heff
  generalize (Budget.perform c K).1 = K' at heff hr' ⊢
  cases heff with
  | refused | replayed | authorized => exact Or.inr hnone
  | cleaned _ _ hclean _ => exact Or.inr (hshrink hclean)
  | @accepted a K₁ st hcall hnone' hadm =>
    right
    have hop : c.call.key ≠ some op := by
      intro hop
      rw [hcall] at hop
      cases hop
      cases hnone'.symm.trans hr
    have hfp := hK.fingerprint_ne hr hop hown
    rw [hcall] at hfp
    rw [acceptedKeyspace, zscore_congr (expiry_setRecord ..),
      zscore_foldl_charge (fun he => hfp (congrArg some he.symm))]
    exact hshrink hadm.cleaned
  | @claimed a r₀ hcall hr₀ hc =>
    right
    rw [zscore_congr (expiry_setRecord ..), zscore_unlease, hnone]
    exact ite_self _
  | @settled a r₀ b hcall hr₀ _ hb =>
    by_cases hop : c.call.key = some op
    · rw [hcall] at hop
      cases hop
      obtain rfl : r₀ = r := Option.some.inj (hr₀.symm.trans hr)
      obtain ⟨z, hz, hgone⟩ := hb.member_gone (hK.wf hr) hi hnone a.key
      refine hgone.imp (fun hstatus => ?_) id
      -- the stored reservation is this one, printed
      obtain rfl : durableEncode (b.staged.foldl settleRecord r₀) = r' :=
        Option.some.inj ((lookup_setRecord_self ..).symm.trans hr')
      obtain ⟨z', hz', rfl⟩ := getElem?_durableEncode hy
      obtain rfl := Option.some.inj (hz.symm.trans hz')
      exact hstatus
    · right
      have hfp := hK.fingerprint_ne hr hop hown
      rw [hcall, Call.fingerprint, hr₀] at hfp
      rw [hb.zscore_settled (hK.wf hr₀) _ (fun he => hfp (congrArg some he.symm))]
      exact hnone

-- ===== held charges

/-- The kinds that end a reservation's reserved part after a claim:
finalize, resolve and unknown settlements. -/
def JournalKind.discharges : JournalKind → Bool
  | .finalizeExact | .finalizeUnknown | .resolveUnknownExact => true
  | _ => false

/-- The operation is claimed and its reservation `i` still reserves the
full amount it was accepted with. -/
def Held (op : OperationKey) (i : Nat) (x₀ : HeldReservation) (K : Keyspace) : Prop :=
  ∃ r x, K.records.lookup op = some r ∧ r.claimed = true
    ∧ r.reservations[i]? = some x ∧ x.toReservation = x₀.toReservation
    ∧ x.reservedNano = x.amountNano

/-- An applied event that does not discharge a claimed reservation
leaves its reserved part. -/
theorem Transition.keeps_reserved {e : Event}
    {newReserved newAccounted : Nat}
    (h : Transition true x e newReserved newAccounted)
    (hkind : e.kind.discharges = false) : newReserved = x.reservedNano := by
  have hretain : e.kind = .retainAmbiguous := by
    have hreserve := h.kind
    have hrelease : e.kind ≠ .release := fun hk => by
      cases h.claim.mp hk
    cases hk : e.kind with
    | retainAmbiguous => rfl
    | reserve => exact absurd hk hreserve
    | release => exact absurd hk hrelease
    | finalizeExact | finalizeUnknown | resolveUnknownExact => rw [hk] at hkind; cases hkind
  exact (h.retain hretain).2.1

theorem Held.perform {x₀ : HeldReservation} (h : Held op i x₀ K)
    (hK : Sound K) (henc : Encoded K) (c : TimedCall)
    (hno : ∀ a, c.call = .reconcile a → a.key = op → ∀ s ∈ appliedEvents a K, s.index = i →
        s.event.kind.discharges = false) :
    Held op i x₀ (Budget.perform c K).1 := by
  have heff := hK.perform_effect c
  obtain ⟨r, x, hr, hclaimed, hi, hreq, hres⟩ := h
  obtain ⟨r', hr', hev⟩ := heff.evolves hK henc hr
  obtain ⟨y, hy, hxy⟩ := getElem?_of_forall₂ hev.reservations hi
  have hamount : y.amountNano = x.amountNano := congrArg Reservation.amountNano hxy.request
  refine ⟨r', y, hr', hev.claimed hclaimed, hy, hxy.request.trans hreq, ?_⟩
  rw [hamount, ← hres]
  generalize hreply : (Budget.perform c K).2 = reply at heff
  rcases heff.record op with hsame | ⟨r'', hr'', hw⟩
  · rw [hsame, hr] at hr'
    cases hr'
    rw [hi] at hy
    cases hy
    rfl
  cases hr''.symm.trans hr'
  cases hw with
  | accepted _ hnone => cases hnone.symm.trans hr
  | claimed _ hr₀ hc =>
    cases hr₀.symm.trans hr
    rw [hc.unclaimed] at hclaimed
    cases hclaimed
  | @settled a _ b hcall hr₀ hst hb =>
    cases hr₀.symm.trans hr
    obtain ⟨z, hz, rfl⟩ := getElem?_durableEncode hy
    show z.reservedNano = x.reservedNano
    rcases hb.settled_cases hz with ⟨s, hs, -, hsi, rfl⟩ | ⟨-, hz⟩
    · have hloc := (hb.items s hs).located
      rw [hsi, hi] at hloc
      obtain rfl := Option.some.inj hloc
      have happlied := appliedEvents_of_ok hr hst
        (by rw [Budget.perform, hcall] at hreply; exact hreply)
      have htrans := (hb.items s hs).transition
      rw [hclaimed] at htrans
      exact htrans.keeps_reserved (hno a hcall rfl s (happlied ▸ hs) hsi)
    · rw [hi] at hz
      cases hz
      rfl

-- ===== runs

theorem LeaseGone.run {owner : String → OperationKey} (h : LeaseGone op K)
    (hK : Exact owner K) (henc : Encoded K) {calls : List TimedCall}
    (hown : ∀ c ∈ calls, ∀ a, c.call = .reserve a → owner a.fingerprint = a.key) :
    LeaseGone op (runAll Budget.perform K calls) := by
  refine (runAll_invariant (I := fun K => Exact owner K ∧ Encoded K
    ∧ LeaseGone op K) ⟨hK, henc, h⟩ ?_).2.2
  rintro c hc K' ⟨hK', henc', hgone⟩
  exact ⟨hK'.perform c (hown c hc), (hK'.toSound.perform_effect c).encoded henc',
    hgone.perform hK' henc' c (hown c hc)⟩

theorem Held.run {x₀ : HeldReservation} (h : Held op i x₀ K) (hK : Sound K)
    (henc : Encoded K) {calls : List TimedCall}
    (hno : ∀ p e q a, calls = p ++ e :: q → e.call = .reconcile a → a.key = op →
      ∀ s ∈ appliedEvents a (runAll Budget.perform K p), s.index = i →
        s.event.kind.discharges = false) :
    Held op i x₀ (runAll Budget.perform K calls) := by
  refine (runAll_invariant_at (I := fun K => Sound K ∧ Encoded K
    ∧ Held op i x₀ K) ⟨hK, henc, h⟩ ?_).2.2
  rintro p e q hcalls ⟨hK', henc', hheld⟩
  exact ⟨hK'.perform e, (hK'.perform_effect e).encoded henc',
    hheld.perform hK' henc' e fun a => hno p e q a hcalls⟩

/-- A successful claim leaves a claimed record and no open lease. -/
theorem Sound.leaseGone_of_claimed (h : Sound K) (hcall : c.call = .claim a)
    (hreply : (Budget.perform c K).2 = .claimed) :
    LeaseGone a.key (Budget.perform c K).1 := by
  obtain ⟨r, -, -, hK'⟩ := h.claimed hcall hreply
  rw [hK']
  exact ⟨claimedRecord r, lookup_setRecord_self .., Or.inl rfl⟩

/-- A successful claim holds every reservation of the record. -/
theorem Sound.held_of_claimed (h : Sound K) (henc : Encoded K)
    (hcall : c.call = .claim a) (hreply : (Budget.perform c K).2 = .claimed)
    (hr : K.records.lookup a.key = some r)
    (hx : r.reservations[i]? = some x) :
    Held a.key i x (Budget.perform c K).1 ∧ 0 < x.amountNano := by
  obtain ⟨r', hr', hc, hK'⟩ := h.claimed hcall hreply
  obtain rfl : r' = r := Option.some.inj (hr'.symm.trans hr)
  have hmem := List.mem_of_getElem? hx
  obtain ⟨hres, -, hpos⟩ := (h.wf hr).fresh x hmem (hc.leases x hmem).1
  refine ⟨⟨claimedRecord r', x, ?_, rfl, ?_, rfl, hres⟩, hpos⟩
  · rw [hK']
    exact lookup_setRecord_self ..
  · show (r'.reservations.map HeldReservation.encode)[i]? = some x
    rw [List.getElem?_map, hx, Option.map_some, encode_of_durableEncode (henc hr) hmem]

/-- The effect of a reconcile that applies an event. -/
theorem Sound.settled_of_applied (h : Sound K) {a : ReconcileArgs}
    (hcall : c.call = .reconcile a) {s : Staged}
    (hs : s ∈ appliedEvents a K) :
    ∃ r b, K.records.lookup a.key = some r ∧ Batched K r a.events b ∧ s ∈ b.staged
      ∧ (Budget.perform c K).1 = settledKeyspace a.key r b K := by
  obtain ⟨r', hok⟩ := exists_ok_of_mem_appliedEvents hs
  have hreply : (Budget.perform c K).2 = .ok r' := by
    rw [Budget.perform, hcall]
    exact hok
  have heff := h.perform_effect c
  rw [hreply] at heff
  generalize (Budget.perform c K).1 = K' at heff ⊢
  cases heff with
  | refused hrefuse => cases hrefuse
  | cleaned _ _ _ hrefuse => rcases hrefuse with h | ⟨h, -⟩ <;> cases h
  | @settled a' r b hcall' hr hst hb =>
    rw [hcall] at hcall'
    cases hcall'
    rw [appliedEvents_of_ok hr hst hok] at hs
    exact ⟨r, b, hr, hb, hs, rfl⟩
  | authorized _ hreply _ => rcases hreply with h | h <;> cases h

/-- A settlement leaves no open lease. -/
theorem Sound.leaseGone_of_applied (h : Sound K) {a : ReconcileArgs}
    (hcall : c.call = .reconcile a) {s : Staged}
    (hs : s ∈ appliedEvents a K) :
    LeaseGone a.key (Budget.perform c K).1 := by
  obtain ⟨r, b, hr, hb, hsb, hK'⟩ := h.settled_of_applied hcall hs
  rw [hK']
  refine ⟨_, lookup_setRecord_self .., Or.inr ⟨s.settled.encode, ?_, ?_⟩⟩
  · apply List.mem_map_of_mem
    apply List.mem_of_getElem? (i := s.index)
    rw [getElem?_foldl_settleRecord hb.indices, find?_of_nodup hb.indices hsb,
      (hb.items s hsb).located]
    rfl
  · left
    show s.event.kind.settles ≠ .reserved
    cases s.event.kind <;> decide

/-- A reserve of an operation that has a record changes nothing. -/
theorem Sound.reserve_replayed (h : Sound K) {a : ReserveArgs}
    (hcall : c.call = .reserve a) (hr : K.records.lookup a.key = some r) :
    (Budget.perform c K).1 = K := by
  have heff := h.perform_effect c
  generalize (Budget.perform c K).2 = reply at heff
  generalize (Budget.perform c K).1 = K' at heff ⊢
  cases heff with
  | refused | replayed => rfl
  | cleaned hcall' hnone _ _ | accepted hcall' hnone _ =>
    rw [hcall] at hcall'
    cases hcall'
    cases hnone.symm.trans hr
  | claimed hcall' _ _ | settled hcall' _ _ _ | authorized hcall' _ _ =>
    rw [hcall] at hcall'
    cases hcall'

/-- An accepting reserve stores the record it answers with. -/
theorem Sound.lookup_of_accepted (h : Sound K) {a : ReserveArgs}
    {record : Record} (hcall : c.call = .reserve a)
    (hreply : (Budget.perform c K).2 = .accepted record) :
    (Budget.perform c K).1.records.lookup a.key = some record := by
  have heff := h.perform_effect c
  rw [hreply] at heff
  generalize (Budget.perform c K).1 = K' at heff ⊢
  cases heff with
  | refused hrefuse => cases hrefuse
  | cleaned _ _ _ hrefuse => rcases hrefuse with h | ⟨h, -⟩ <;> cases h
  | accepted hcall' _ _ =>
    rw [hcall] at hcall'
    cases hcall'
    exact lookup_setRecord_self ..
  | authorized _ hreply _ => rcases hreply with h | h <;> cases h

-- ===== the theorem

/-- For any two calls of a run, `d` after `c`: a claim succeeds at most
once per operation; not after the lease's start-by time has passed, not
after a release was applied, and not after a member of the lease is
gone; after a claim no release is applied, and every reservation is
part of its bucket's sum with its full amount until an event that
finalizes, resolves or gives it up as unknown; and a reserve that
follows an accepted one changes nothing. -/
theorem one_claim_no_refund_no_reuse (pre mid : List TimedCall) (c d : TimedCall)
    (h : FingerprintsDistinct (pre ++ c :: mid ++ [d])) :
    (∀ a b, c.call = .claim a → d.call = .claim b → a.key = b.key →
        answer pre c = .claimed → answer (pre ++ c :: mid) d ≠ .claimed)
      ∧ (∀ b, d.call = .claim b → answer (pre ++ c :: mid) d = .claimed →
        ∃ r, (ledger (pre ++ c :: mid)).records.lookup b.key = some r
          ∧ d.time.millis < r.startByMillis
          ∧ ∀ a record, c.call = .reserve a → a.key = b.key → answer pre c = .accepted record →
            r.startByMillis = record.startByMillis)
      ∧ (∀ a b s, c.call = .reconcile a → d.call = .claim b →
        a.key = b.key → s ∈ appliedEvents a (ledger pre) →
        s.event.kind = .release →
        answer (pre ++ c :: mid) d ≠ .claimed)
      ∧ (∀ b r x, d.call = .claim b → (ledger (pre ++ [c])).records.lookup b.key = some r →
        x ∈ r.reservations →
        (ledger (pre ++ [c])).zscore x.key (claimMember r x) = none →
        answer (pre ++ c :: mid) d ≠ .claimed)
      ∧ (∀ a b s, c.call = .claim a → d.call = .reconcile b →
        a.key = b.key → answer pre c = .claimed →
        s ∈ appliedEvents b (ledger (pre ++ c :: mid)) →
        s.event.kind ≠ .release)
      ∧ (∀ a r i x₀, c.call = .claim a → answer pre c = .claimed →
        (ledger pre).records.lookup a.key = some r →
        r.reservations[i]? = some x₀ →
        (∀ p e q b, mid = p ++ e :: q → e.call = .reconcile b → b.key = a.key →
          ∀ s ∈ appliedEvents b (ledger (pre ++ c :: p)), s.index = i →
            s.event.kind.discharges = false) →
        ∃ r' x, (ledger (pre ++ c :: mid)).records.lookup a.key = some r'
            ∧ r'.reservations[i]? = some x
            ∧ x.toReservation = x₀.toReservation
            ∧ x.reservedNano = x₀.amountNano
            ∧ unmembered (ledger (pre ++ c :: mid)) r' x = true
            ∧ (ledger (pre ++ c :: mid)).sum x.key x.bucket
              = memberTotal (ledger (pre ++ c :: mid)) x.key (· == x.bucket)
                + unmemberedTotal (ledger (pre ++ c :: mid)) x.key x.bucket)
      ∧ (∀ a b record, c.call = .reserve a → d.call = .reserve b →
        b.key = a.key → answer pre c = .accepted record →
        (perform d (ledger (pre ++ c :: mid))).1 = ledger (pre ++ c :: mid)) := by
  obtain ⟨owner, hown⟩ := h.exists_owner
  have hstate : ∀ calls, (∀ e ∈ calls, e ∈ pre ++ c :: mid ++ [d]) →
      Exact owner (ledger calls) := fun calls hcalls =>
    runAll_invariant (exact_empty owner) fun e he K hK =>
      hK.perform e (hown e (hcalls e he))
  have hpre := hstate pre (by simp +contextual)
  have hc := hstate (pre ++ [c]) (by simp +contextual [or_imp])
  have hmid := hstate (pre ++ c :: mid) (by simp +contextual [or_imp])
  have hgone : ∀ op, LeaseGone op (ledger (pre ++ [c])) →
      LeaseGone op (ledger (pre ++ c :: mid)) := by
    intro op hop
    rw [ledger_cons]
    exact hop.run hc (sound_ledger _).2 fun e he =>
      hown e (by simp [he])
  have hlater : ∀ {op r}, (ledger (pre ++ [c])).records.lookup op = some r →
      ∃ r', (ledger (pre ++ c :: mid)).records.lookup op = some r' ∧ Evolves r r' := by
    intro op r hr
    rw [ledger_cons]
    exact evolves_runAll hc.toSound (sound_ledger _).2 hr mid
  refine ⟨?_, ?_, ?_, ?_, ?_, ?_, ?_⟩
  · intro a b hca hdb hkey hclaimed
    apply LeaseGone.not_claimed _ hmid.toSound hdb
    apply hgone
    rw [← hkey, ledger_snoc]
    exact hpre.toSound.leaseGone_of_claimed hca hclaimed
  · intro b hdb hclaimed
    obtain ⟨r, hr, hcl, -⟩ := hmid.toSound.claimed hdb hclaimed
    refine ⟨r, hr, hcl.inTime, ?_⟩
    intro a record hca hkey hacc
    have hstored := hpre.toSound.lookup_of_accepted hca hacc
    rw [← ledger_snoc, hkey] at hstored
    obtain ⟨r', hr', hev⟩ := hlater hstored
    obtain rfl : r' = r := Option.some.inj (hr'.symm.trans hr)
    exact hev.startBy
  · intro a b s hca hdb hkey hs _
    apply LeaseGone.not_claimed _ hmid.toSound hdb
    apply hgone
    rw [← hkey, ledger_snoc]
    exact hpre.toSound.leaseGone_of_applied hca hs
  · intro b r x hdb hr hx hnone
    apply LeaseGone.not_claimed _ hmid.toSound hdb
    apply hgone
    exact ⟨r, hr, Or.inr ⟨x, hx, Or.inr hnone⟩⟩
  · intro a b s hca hdb hkey hclaimed hs hrelease
    obtain ⟨r₀, -, -, hK'⟩ := hpre.toSound.claimed hca hclaimed
    have hfirst : (ledger (pre ++ [c])).records.lookup a.key = some (claimedRecord r₀) := by
      rw [ledger_snoc, hK']
      exact lookup_setRecord_self ..
    obtain ⟨r', hr', hev⟩ := hlater hfirst
    obtain ⟨r, batch, hr, hb, hsb, -⟩ := hmid.toSound.settled_of_applied hdb hs
    rw [← hkey] at hr
    obtain rfl : r' = r := Option.some.inj (hr'.symm.trans hr)
    have hunclaimed := (hb.items s hsb).transition.claim.mp hrelease
    rw [hev.claimed rfl] at hunclaimed
    cases hunclaimed
  · intro a r i x₀ hca hclaimed hr hx₀ hno
    obtain ⟨hheld, hpos⟩ := hpre.toSound.held_of_claimed (sound_ledger _).2 hca hclaimed hr hx₀
    rw [← ledger_snoc] at hheld
    have hrun : Held a.key i x₀ (ledger (pre ++ c :: mid)) := by
      rw [ledger_cons]
      refine hheld.run hc.toSound (sound_ledger _).2 ?_
      intro p e q b hmid' he hkey
      rw [← ledger_cons]
      exact hno p e q b hmid' he hkey
    obtain ⟨r', x, hr', hclaimed', hx, hreq, hres⟩ := hrun
    have hamount : x.amountNano = x₀.amountNano := congrArg Reservation.amountNano hreq
    refine ⟨r', x, hr', hx, hreq, hres.trans hamount, ?_, hmid.sum_eq x.key x.bucket⟩
    rw [hmid.unmembered_eq hr' (List.mem_of_getElem? hx), retained,
      hclaimed', hres, hamount, decide_eq_true hpos]
    rfl
  · intro a b record hca hdb hkey hacc
    have hstored := hpre.toSound.lookup_of_accepted hca hacc
    rw [← ledger_snoc, ← hkey] at hstored
    obtain ⟨r', hr', -⟩ := hlater hstored
    exact hmid.toSound.reserve_replayed hdb hr'

theorem one_claim_no_refund_no_reuse_sample :
    answer [⟨⟨3600, 0⟩, .reserve (sampleReserve "first" sampleDigest 3)⟩]
        ⟨⟨3601, 0⟩, .claim (sampleClaim "first")⟩ = .claimed
      ∧ answer [⟨⟨3600, 0⟩, .reserve (sampleReserve "first" sampleDigest 3)⟩,
          ⟨⟨3601, 0⟩, .claim (sampleClaim "first")⟩]
        ⟨⟨3600, 5⟩, .claim (sampleClaim "first")⟩ ≠ .claimed :=
  ⟨by decide +kernel, (one_claim_no_refund_no_reuse
    [⟨⟨3600, 0⟩, .reserve (sampleReserve "first" sampleDigest 3)⟩] []
    ⟨⟨3601, 0⟩, .claim (sampleClaim "first")⟩
    ⟨⟨3600, 5⟩, .claim (sampleClaim "first")⟩ (by decide)).1
      (sampleClaim "first") (sampleClaim "first") rfl rfl rfl
      (by decide +kernel)⟩

end LlmTemporalWorker.Budget
