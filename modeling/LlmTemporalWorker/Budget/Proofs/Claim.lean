/-
`durable_claim` under the ledger's invariants.

A claim moves a charge from one book to the other: the operation's
members leave the expiry sets, and its reservations start to be
retained. Every lease is verified before the first member goes, so both
sides move by the request's amounts and the sums, which the claim does
not touch, stay right.
-/
import LlmTemporalWorker.Budget.Proofs.Admission

namespace LlmTemporalWorker.Budget

open Lib

-- ===== the verdict

/-- What a claim has verified when it succeeds. -/
structure Claimable (t : RedisTime) (K : Keyspace) (r : Record) : Prop where
  unclaimed : r.claimed = false
  inTime : t.millis < r.startByMillis
  leases : ∀ x ∈ r.reservations, x.status = .reserved ∧ (K.zscore x.key (claimMember r x)).isSome

variable {t : RedisTime} {a : ClaimArgs} {K : Keyspace} {r : Record}
  {op : OperationKey}

theorem claimVerdict_claimed (h : claimVerdict t a K r = .claimed) : Claimable t K r := by
  unfold claimVerdict at h
  split at h
  · cases h
  split at h
  · cases h
  split at h
  · cases h
  split at h
  · cases h
  split at h
  · cases h
  rename_i hclaimed
  split at h
  · cases h
  rename_i startBy hstart
  obtain ⟨hs, -⟩ := durableInt_eq_some.mp hstart
  split at h
  · cases h
  split at h
  · cases h
  rename_i hall
  refine ⟨by simpa using hclaimed, by omega, ?_⟩
  intro x hx
  have hx' := List.all_eq_true.mp (by simpa using hall) x hx
  simpa [leaseHeld] using hx'

theorem claimVerdict_refuses (h : claimVerdict t a K r ≠ .claimed) :
    (claimVerdict t a K r).refuses = true := by
  unfold claimVerdict at h ⊢
  grind [Reply.refuses]

/-- The record a claim stores. -/
def claimedRecord (r : Record) : Record :=
  durableEncode { r with claimed := true }

/-- Everything `durable_claim` can do. -/
theorem durableClaim_cases (t : RedisTime) (a : ClaimArgs) (K : Keyspace) :
    (∃ reply, durableClaim t a K = (K, reply) ∧ reply.refuses = true)
      ∨ ∃ r, K.records.lookup a.key = some r ∧ Claimable t K r ∧ durableClaim t a K
          = ((unlease r K).setRecord a.key (claimedRecord r), .claimed) := by
  unfold durableClaim
  split
  · exact Or.inl ⟨_, rfl, rfl⟩
  split
  · exact Or.inl ⟨_, rfl, rfl⟩
  rename_i r hr
  split
  · rename_i hv
    exact Or.inr ⟨r, hr, claimVerdict_claimed hv, rfl⟩
  · rename_i hv
    exact Or.inl ⟨_, rfl, claimVerdict_refuses hv⟩

-- ===== taking leases out

@[simp] theorem records_unlease (r : Record) (K : Keyspace) : (unlease r K).records = K.records :=
  foldl_keeps (g := Keyspace.records) (fun _ _ _ => by rfl) K

@[simp] theorem hash_unlease (r : Record) (K : Keyspace) : (unlease r K).hash = K.hash :=
  foldl_keeps (g := Keyspace.hash) (fun _ _ _ => by rfl) K

@[simp] theorem authority_unlease (r : Record) (K : Keyspace) :
    (unlease r K).authority = K.authority :=
  foldl_keeps (g := Keyspace.authority) (fun _ _ _ => by rfl) K

private theorem zscore_foldl_zrem (r : Record)
    (xs : List HeldReservation) (K : Keyspace) (w : WindowKey)
    (m : Member) :
    (xs.foldl (fun K x => K.zrem x.key (claimMember r x)) K).zscore w m
      = if (w, m) ∈ xs.map fun x => (x.key, claimMember r x) then none
        else K.zscore w m := by
  induction xs generalizing K with
  | nil => simp
  | cons x rest ih =>
    rw [List.foldl_cons, ih, zscore_zrem, List.map_cons]
    simp only [List.mem_cons, Prod.mk.injEq]
    by_cases hrest : (w, m) ∈ rest.map fun x => (x.key, claimMember r x)
    · rw [if_pos hrest, if_pos (Or.inr hrest)]
    rw [if_neg hrest]
    by_cases hx : w = x.key ∧ m = claimMember r x
    · rw [if_pos hx, if_pos (Or.inl hx)]
    rw [if_neg hx, if_neg]
    rintro (h | h)
    · exact hx h
    · exact hrest h

/-- A claim takes exactly its own members out. -/
theorem zscore_unlease (r : Record) (K : Keyspace) (w : WindowKey) (m : Member) :
    (unlease r K).zscore w m = if (w, m) ∈ r.reservations.map fun x => (x.key, claimMember r x)
        then none else K.zscore w m :=
  zscore_foldl_zrem r r.reservations K w m

/-- Members at distinct places, all present, take their amounts along. -/
private theorem memberTotal_foldl_zrem (r : Record) (w : WindowKey)
    (P : Nat → Bool) (xs : List HeldReservation) (K : Keyspace)
    (hnd : (xs.map HeldReservation.place).Nodup)
    (hin : ∀ x ∈ xs, (K.zscore x.key (claimMember r x)).isSome) :
    memberTotal (xs.foldl (fun K x => K.zrem x.key (claimMember r x)) K) w P
      = memberTotal K w P - amountIn w P xs := by
  induction xs generalizing K with
  | nil => simp [amountIn]
  | cons x rest ih =>
    rw [List.map_cons, List.nodup_cons] at hnd
    have hx := hin x List.mem_cons_self
    have hrest : ∀ y ∈ rest, ((K.zrem x.key (claimMember r x)).zscore y.key
          (claimMember r y)).isSome := by
      intro y hy
      rw [zscore_zrem, if_neg]
      · exact hin y (List.mem_cons_of_mem _ hy)
      · rintro ⟨hk, hm⟩
        have hb : y.bucket = x.bucket := congrArg Member.bucket hm
        have hp : y.place = x.place := Prod.ext hk hb
        exact hnd.1 (hp ▸ List.mem_map_of_mem hy)
    have hcons : amountIn w P (x :: rest)
        = (if x.key = w ∧ P x.bucket then (x.amountNano : Int) else 0)
          + amountIn w P rest := by
      simp [amountIn]
    rw [List.foldl_cons, ih _ hnd.2 hrest, memberTotal_zrem,
      presence_of_some hx, claimMember, memberWeight_member, hcons]
    by_cases hw : w = x.key
    · simp only [hw, true_and, if_true]
      omega
    · rw [if_neg hw, if_neg (fun h => hw h.1.symm)]
      omega

/-- A claimed record retains all it reserved. -/
theorem retainedIn_claimedRecord (hwf : RecordWf r) (hc : Claimable t K r)
    (w : WindowKey) (P : Nat → Bool) :
    retainedIn w P (claimedRecord r) = amountIn w P r.reservations := by
  rw [claimedRecord, retainedIn_durableEncode]
  unfold retainedIn amountIn
  congr 1
  refine List.map_congr_left fun x hx => ?_
  obtain ⟨hres, hacc, hpos⟩ := hwf.fresh x hx (hc.leases x hx).1
  have htotal : x.total = x.amountNano := by
    rw [HeldReservation.total, hres, hacc, add_zero]
  have hpos' : 0 < x.reservedNano := by omega
  simp [retainedWeight, retained, hpos', htotal]

-- ===== balance

/-- A claim moves the charge from the members to the retained. -/
theorem slack_claim (hr : K.records.lookup op = some r) (hwf : RecordWf r)
    (hc : Claimable t K r) (w : WindowKey) (P : Nat → Bool) :
    slack ((unlease r K).setRecord op (claimedRecord r)) w P = slack K w P := by
  have hmem : memberTotal ((unlease r K).setRecord op (claimedRecord r))
      w P = memberTotal K w P - amountIn w P r.reservations :=
    memberTotal_foldl_zrem r w P r.reservations K hwf.places fun x hx => (hc.leases x hx).2
  have hret : retainedTotal ((unlease r K).setRecord op (claimedRecord r)) w P
      = retainedTotal K w P + amountIn w P r.reservations := by
    rw [retainedTotal_setRecord (by rw [records_unlease]; exact hr),
      retainedIn_claimedRecord hwf hc, retainedIn_unclaimed hc.unclaimed,
      retainedTotal_congr (records_unlease ..)]
    omega
  have hsum : sumTotal ((unlease r K).setRecord op (claimedRecord r)) w P = sumTotal K w P :=
    sumTotal_congr (by rw [hash_setRecord, hash_unlease]) w P
  rw [slack, slack, hsum, hmem, hret]
  omega

theorem RecordWf.claimed (h : RecordWf r) : RecordWf (claimedRecord r) :=
  (sameBook_encode { r with claimed := true }).recordWf ⟨h.places, h.fresh, h.safe⟩

/-- A claim keeps the ledger sound. -/
theorem Sound.claim (h : Sound K) (hr : K.records.lookup op = some r) (hc : Claimable t K r) :
    Sound ((unlease r K).setRecord op (claimedRecord r)) where
  wf := forall_setRecord (p := fun _ => RecordWf) (h.wf hr).claimed fun hr' =>
    h.wf (records_unlease r K ▸ hr')
  members := by
    intro w m s hm
    have hm' : (unlease r K).zscore w m = some s := hm
    rw [zscore_unlease] at hm'
    split at hm'
    · cases hm'
    · exact h.members hm'
  covered := fun w P => by
    rw [slack_claim hr (h.wf hr) hc]
    exact h.covered w P
  capped := fun w b => by
    rw [sum_congr (show _ = K.hash by rw [hash_setRecord, hash_unlease])]
    exact h.capped w b

/-- A claim keeps the ledger exact: the members that stay belong to
other operations. -/
theorem Exact.claim {owner : String → OperationKey} (h : Exact owner K)
    (hr : K.records.lookup op = some r) (hc : Claimable t K r) :
    Exact owner ((unlease r K).setRecord op (claimedRecord r)) where
  toSound := h.toSound.claim hr hc
  owned := forall_setRecord (r := claimedRecord r) (p := fun op r => owner r.fingerprint = op)
    (show owner r.fingerprint = op from h.owned hr) fun hr' => h.owned (records_unlease r K ▸ hr')
  backed := by
    intro w m s hm
    have hm' : (unlease r K).zscore w m = some s := hm
    rw [zscore_unlease] at hm'
    split at hm'
    · cases hm'
    rename_i hout
    refine (h.backed hm').setRecord (records_unlease r K) fun r' hr' => ?_
    cases hr'.symm.trans hr
    -- a member of the claimed record would have been taken out
    rintro ⟨x, hx, hmx, hkey, -⟩
    obtain ⟨hres, hacc, -⟩ := (h.wf hr).fresh x hx (hc.leases x hx).1
    refine absurd (List.mem_map.mpr ⟨x, hx, Prod.ext hkey ?_⟩) hout
    rw [hmx, HeldReservation.total, hres, hacc, add_zero]
    rfl
  balanced := fun w P => by
    rw [slack_claim hr (h.wf hr) hc]
    exact h.balanced w P

end LlmTemporalWorker.Budget
