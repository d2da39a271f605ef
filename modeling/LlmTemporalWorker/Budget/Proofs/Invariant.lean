/-
The ledger's invariants, and expiry cleanup under them.

# Two strengths

`Sound` is what admission and settlement need to be safe: every sum
covers the charges it is kept for. `Exact` is what holds as long as no
key is ever lost: every sum is nothing but those charges, and every
expiry member belongs to the record whose fingerprint it carries. A
ledger that lost keys and was rebuilt is `Sound` and no longer `Exact`,
so the facts about single actions are proved from the weaker one
wherever they hold there.

# Cleanup as a relation

`Cleaned now K K'` says everything an expiry cleanup at reading `now`
can do: members go, only expired ones, and each takes its own amount
out of its own bucket. The relation is a preorder, so it also describes
the admission loop, which cleans up one window after another.
-/
import LlmTemporalWorker.Budget.Proofs.Totals
import LlmTemporalWorker.Lib.Lists

namespace LlmTemporalWorker.Budget

open Lib

-- ===== invariants

/-- Where a reservation is charged. -/
def HeldReservation.place (x : HeldReservation) : WindowKey × Nat :=
  (x.key, x.bucket)

/-- What the Function maintains of a record by itself. -/
structure RecordWf (r : Record) : Prop where
  places : (r.reservations.map HeldReservation.place).Nodup
  fresh : ∀ x ∈ r.reservations, x.status = .reserved →
    x.reservedNano = x.amountNano ∧ x.accountedNano = 0 ∧ 0 < x.amountNano
  safe : ∀ x ∈ r.reservations, x.total ≤ maxSafe

/-- Every sum covers the charges it is kept for. -/
structure Sound (K : Keyspace) : Prop where
  wf : ∀ {op r}, K.records.lookup op = some r → RecordWf r
  members : ∀ {w m s}, K.zscore w m = some s → m.amount ≤ maxSafe
  covered : ∀ w P, 0 ≤ slack K w P
  capped : ∀ w b, K.sum w b ≤ maxSafe

/-- An expiry member carries the charge of a reservation that is not
retained without one. -/
def Backed (K : Keyspace) (w : WindowKey) (m : Member) : Prop :=
  ∃ op r x, K.records.lookup op = some r ∧ x ∈ r.reservations
    ∧ m = durableExpiryMember r.fingerprint x.bucket x.total
    ∧ x.key = w ∧ 0 < x.total ∧ retained r.claimed x = false

/-- Every sum is its charges and nothing else. `owner` names the
operation a fingerprint stands for. -/
structure Exact (owner : String → OperationKey) (K : Keyspace) : Prop
    extends Sound K where
  owned : ∀ {op r}, K.records.lookup op = some r → owner r.fingerprint = op
  backed : ∀ {w m s}, K.zscore w m = some s → Backed K w m
  balanced : ∀ w P, slack K w P = 0

theorem exact_empty (owner : String → OperationKey) : Exact owner Keyspace.empty where
  wf := nofun
  members := nofun
  covered := fun _ _ => le_rfl
  capped := fun _ _ => show (0 : Int) ≤ maxSafe by decide
  owned := nofun
  backed := nofun
  balanced := fun _ _ => rfl

-- ===== the books

/-- Two reservations that the books cannot tell apart. -/
structure SameCharge (x y : HeldReservation) : Prop where
  key : x.key = y.key
  bucket : x.bucket = y.bucket
  amount : x.amountNano = y.amountNano
  reserved : x.reservedNano = y.reservedNano
  accounted : x.accountedNano = y.accountedNano
  status : x.status = y.status

variable {x : HeldReservation} {r r' : Record} {K : Keyspace}
  {w : WindowKey} {m : Member} {now : Nat}

theorem SameCharge.total {y : HeldReservation} (h : SameCharge x y) : x.total = y.total := by
  rw [HeldReservation.total, HeldReservation.total, h.reserved, h.accounted]

/-- Two records that the books cannot tell apart: the revisions, the
times and the events may differ. -/
structure SameBook (r r' : Record) : Prop where
  fingerprint : r.fingerprint = r'.fingerprint
  claimed : r.claimed = r'.claimed
  charges : List.Forall₂ SameCharge r.reservations r'.reservations

theorem SameBook.refl (r : Record) : SameBook r r := ⟨rfl, rfl, List.forall₂_same.mpr fun _ _ =>
    ⟨rfl, rfl, rfl, rfl, rfl, rfl⟩⟩

/-- Printing changes no book. -/
theorem sameBook_encode (r : Record) : SameBook r (durableEncode r) := by
  refine ⟨rfl, rfl, ?_⟩
  show List.Forall₂ _ r.reservations (r.reservations.map HeldReservation.encode)
  rw [List.forall₂_map_right_iff]
  exact List.forall₂_same.mpr fun _ _ => ⟨rfl, rfl, rfl, rfl, rfl, rfl⟩

theorem SameBook.symm (h : SameBook r r') : SameBook r' r := by
  refine ⟨h.fingerprint.symm, h.claimed.symm, h.charges.flip.imp ?_⟩
  intro x y hxy
  exact ⟨hxy.key.symm, hxy.bucket.symm, hxy.amount.symm,
    hxy.reserved.symm, hxy.accounted.symm, hxy.status.symm⟩

theorem SameBook.exists_book (h : SameBook r r') (hx : x ∈ r.reservations) :
    ∃ y ∈ r'.reservations, SameCharge x y :=
  exists_of_forall₂_left h.charges hx

/-- A book is a function of the charges. -/
theorem SameBook.map_eq (h : SameBook r r') {α : Type*}
    {f g : HeldReservation → α} (hfg : ∀ {x y}, SameCharge x y → f x = g y) :
    r.reservations.map f = r'.reservations.map g := by
  have hch := h.charges
  generalize r.reservations = xs at hch
  generalize r'.reservations = ys at hch
  induction hch with
  | nil => rfl
  | cons hxy _ ih => rw [List.map_cons, List.map_cons, hfg hxy, ih]

theorem SameBook.retainedIn (h : SameBook r r') (w : WindowKey) (P : Nat → Bool) :
    retainedIn w P r' = retainedIn w P r := by
  unfold Budget.retainedIn
  rw [h.map_eq (g := retainedWeight w P r'.claimed)]
  intro x y hxy
  rw [retainedWeight, retainedWeight, retained, retained, h.claimed,
    hxy.reserved, hxy.key, hxy.bucket, hxy.total]

theorem SameBook.recordWf (h : SameBook r r') (hwf : RecordWf r) : RecordWf r' where
  places := by
    rw [← h.map_eq (f := HeldReservation.place)]
    · exact hwf.places
    · intro x y hxy
      exact Prod.ext hxy.key hxy.bucket
  fresh := by
    intro y hy hst
    obtain ⟨x, hx, hyx⟩ := h.symm.exists_book hy
    rw [hyx.reserved, hyx.amount, hyx.accounted]
    exact hwf.fresh x hx (hyx.status ▸ hst)
  safe := by
    intro y hy
    obtain ⟨x, hx, hyx⟩ := h.symm.exists_book hy
    rw [hyx.total]
    exact hwf.safe x hx

-- ===== storing a record

variable {op : OperationKey}

/-- A fact about every record, after one is stored. -/
theorem forall_setRecord {p : OperationKey → Record → Prop} (hr : p op r)
    (h : ∀ {op' r'}, K.records.lookup op' = some r' → p op' r') {op' : OperationKey}
    (hr' : (K.setRecord op r).records.lookup op' = some r') : p op' r' := by
  rw [records_setRecord, lookup_insert_eq] at hr'
  split at hr'
  · rename_i he
    rw [← Option.some.inj hr', he]
    exact hr
  · exact h hr'

theorem lookup_setRecord_self (K : Keyspace) (op : OperationKey)
    (r : Record) : (K.setRecord op r).records.lookup op = some r := by
  rw [records_setRecord, lookup_insert_eq, if_pos rfl]

/-- The reservation that a member carries the charge of. -/
def Backs (w : WindowKey) (m : Member) (r : Record) : Prop :=
  ∃ x ∈ r.reservations, m = durableExpiryMember r.fingerprint x.bucket x.total
    ∧ x.key = w ∧ 0 < x.total ∧ retained r.claimed x = false

/-- A member is backed when a record is stored, if a record that it was
backed by is replaced by one that backs it. -/
theorem Backed.setRecord {K' : Keyspace} (h : Backed K w m) (hrecords : K'.records = K.records)
    (hsame : ∀ r', K.records.lookup op = some r' → Backs w m r' → Backs w m r) :
    Backed (K'.setRecord op r) w m := by
  obtain ⟨op', r', x, hr', hx⟩ := h
  by_cases hop : op' = op
  · subst hop
    obtain ⟨y, hy⟩ := hsame r' hr' ⟨x, hx⟩
    exact ⟨op', r, y, lookup_setRecord_self .., hy⟩
  · refine ⟨op', r', x, ?_, hx⟩
    rw [records_setRecord, lookup_insert_eq, if_neg hop, hrecords]
    exact hr'

-- ===== reading balance

/-- A member's amount is in its bucket's sum. -/
theorem Sound.amount_le_sum (h : Sound K) (hm : (K.zscore w m).isSome) :
    (m.amount : Int) ≤ K.sum w m.bucket := by
  obtain ⟨s, hs⟩ := Option.isSome_iff_exists.mp hm
  have hcov := h.covered w (· == m.bucket)
  have hle := memberWeight_le_memberTotal hs (· == m.bucket)
  have hret := retainedTotal_nonneg K w (· == m.bucket)
  rw [slack, sumTotal_bucket] at hcov
  simp only [memberWeight, beq_self_eq_true, if_true] at hle
  omega

theorem Sound.sum_nonneg (h : Sound K) (w : WindowKey) (b : Nat) : 0 ≤ K.sum w b := by
  have hcov := h.covered w (· == b)
  have hmem := memberTotal_nonneg K w (· == b)
  have hret := retainedTotal_nonneg K w (· == b)
  rw [slack, sumTotal_bucket] at hcov
  omega

/-- In the exact ledger a fingerprint and a place name one reservation
of one record. -/
theorem Exact.unique {owner : String → OperationKey} (h : Exact owner K)
    {op op' : OperationKey} {x' : HeldReservation}
    (hr : K.records.lookup op = some r)
    (hr' : K.records.lookup op' = some r') (hx : x ∈ r.reservations)
    (hx' : x' ∈ r'.reservations) (hfp : r.fingerprint = r'.fingerprint)
    (hplace : x.place = x'.place) : op = op' ∧ r = r' ∧ x = x' := by
  have hop : op = op' := by
    rw [← h.owned hr, ← h.owned hr', hfp]
  subst hop
  have hrr : r = r' := Option.some.inj (hr.symm.trans hr')
  subst hrr
  exact ⟨rfl, rfl, List.inj_on_of_nodup_map (h.wf hr).places hx hx' hplace⟩

-- ===== cleanup

/-- What an expiry cleanup at reading `now` can do. -/
structure Cleaned (now : Nat) (K K' : Keyspace) : Prop where
  records : K'.records = K.records
  authority : K'.authority = K.authority
  shrinks : ∀ {w m s}, K'.zscore w m = some s → K.zscore w m = some s
  keeps : ∀ {w m s}, K.zscore w m = some s → now < s → K'.zscore w m = some s
  slack : ∀ w P, slack K' w P = slack K w P
  sums : ∀ w b, K'.sum w b ≤ K.sum w b

theorem Cleaned.refl (now : Nat) (K : Keyspace) : Cleaned now K K :=
  ⟨rfl, rfl, fun h => h, fun h _ => h, fun _ _ => rfl, fun _ _ => le_rfl⟩

theorem Cleaned.trans {K₁ K₂ K₃ : Keyspace} (h₁ : Cleaned now K₁ K₂) (h₂ : Cleaned now K₂ K₃) :
    Cleaned now K₁ K₃ where
  records := h₂.records.trans h₁.records
  authority := h₂.authority.trans h₁.authority
  shrinks := fun h => h₁.shrinks (h₂.shrinks h)
  keeps := fun h hlt => h₂.keeps (h₁.keeps h hlt) hlt
  slack := fun w P => (h₂.slack w P).trans (h₁.slack w P)
  sums := fun w b => (h₂.sums w b).trans (h₁.sums w b)

/-- Cleanup keeps the ledger sound. -/
theorem Sound.of_cleaned {K' : Keyspace} (h : Sound K) (hc : Cleaned now K K') : Sound K' where
  wf := fun hr => h.wf (hc.records ▸ hr)
  members := fun hm => h.members (hc.shrinks hm)
  covered := fun w P => by
    rw [hc.slack]
    exact h.covered w P
  capped := fun w b => (hc.sums w b).trans (h.capped w b)

/-- Cleanup keeps the ledger exact. -/
theorem Exact.of_cleaned {owner : String → OperationKey} {K' : Keyspace}
    (h : Exact owner K) (hc : Cleaned now K K') :
    Exact owner K' where
  toSound := h.toSound.of_cleaned hc
  owned := fun hr => h.owned (hc.records ▸ hr)
  backed := fun hm => by
    obtain ⟨op, r, x, hr, hx⟩ := h.backed (hc.shrinks hm)
    exact ⟨op, r, x, hc.records ▸ hr, hx⟩
  balanced := fun w P => by
    rw [hc.slack]
    exact h.balanced w P

/-- Taking back one member of the set moves sum and member alike. -/
theorem slack_takeBack (hm : (K.zscore w m).isSome) (w' : WindowKey) (P : Nat → Bool) :
    slack ((K.hincrbyDropZero w m.bucket (-(m.amount : Int))).zrem w m) w' P = slack K w' P := by
  have hsum := sumTotal_hincrbyDropZero K w w' m.bucket (-(m.amount : Int)) P
  have hmem := memberTotal_zrem (K.hincrbyDropZero w m.bucket (-(m.amount : Int))) w w' m P
  rw [presence_of_some (by
      rw [zscore_congr (expiry_hincrbyDropZero ..)]
      exact hm),
    memberTotal_congr (expiry_hincrbyDropZero ..)] at hmem
  rw [slack, slack, sumTotal_congr (hash_zrem ..), hsum, hmem,
    retainedTotal_congr (records_zrem ..),
    retainedTotal_congr (records_hincrbyDropZero ..)]
  by_cases hw : w' = w
  · simp only [hw, true_and, if_true, memberWeight]
    split <;> omega
  · rw [if_neg (fun h => hw h.1), if_neg hw]
    omega

theorem zscore_takeBack (w' : WindowKey) (m' : Member) (d : Int) :
    ((K.hincrbyDropZero w m.bucket d).zrem w m).zscore w' m'
      = if w' = w ∧ m' = m then none else K.zscore w' m' := by
  rw [zscore_zrem, zscore_congr (expiry_hincrbyDropZero ..)]

/-- Taking back an expired member is a cleanup. -/
theorem cleaned_takeBack {s : Nat} (hm : K.zscore w m = some s) (hs : s ≤ now) : Cleaned now K
      ((K.hincrbyDropZero w m.bucket (-(m.amount : Int))).zrem w m) where
  records := by simp
  authority := by simp
  shrinks := by
    intro w' m' s' h
    rw [zscore_takeBack] at h
    split at h
    · cases h
    · exact h
  keeps := by
    intro w' m' s' h hlt
    rw [zscore_takeBack, if_neg]
    · exact h
    · rintro ⟨rfl, rfl⟩
      rw [hm] at h
      have := Option.some.inj h
      omega
  slack := slack_takeBack (by rw [hm]; rfl)
  sums := fun w' b' => by
    rw [sum_congr (hash_zrem ..), sum_hincrbyDropZero]
    split <;> omega

/-- The members read are in the set, expired, and read once. -/
theorem mem_due {set : FMap Member Nat} (h : m ∈ due now set) :
    ∃ s, set.lookup m = some s ∧ s ≤ now := by
  obtain ⟨e, he, rfl⟩ := List.mem_map.mp h
  have hmem := List.mem_of_mem_take he
  rw [List.mem_insertionSort] at hmem
  obtain ⟨hin, hle⟩ := List.mem_filter.mp hmem
  exact ⟨e.2, mem_entries_iff.mp hin, of_decide_eq_true hle⟩

theorem due_nodup (now : Nat) (set : FMap Member Nat) : (due now set).Nodup := by
  unfold due
  rw [List.map_take]
  refine List.Nodup.sublist (List.take_sublist _ _) ?_
  have hperm := (List.perm_insertionSort expiryLe
    (set.entries.filter fun e => e.2 ≤ now)).map Sigma.fst
  rw [hperm.nodup_iff]
  refine List.Nodup.sublist ?_ set.nodupKeys
  exact (List.filter_sublist ..).map Sigma.fst

/-- One turn of the cleanup loop that passes takes its member back. -/
theorem cleanupMembers_cons {rest : List Member} (h : m.parses = true)
    (hcap : m.amount ≤ maxSafe) (hle : (m.amount : Int) ≤ K.sum w m.bucket)
    (hsum : K.sum w m.bucket ≤ maxSafe) :
    cleanupMembers w (m :: rest) K = cleanupMembers w rest
        ((K.hincrbyDropZero w m.bucket (-(m.amount : Int))).zrem w m) := by
  obtain ⟨n, hn⟩ : ∃ n : Nat, K.sum w m.bucket = n := ⟨(K.sum w m.bucket).toNat, by omega⟩
  rw [cleanupMembers, hn, durableInt_natCast hcap, durableInt_natCast (by omega)]
  simp only [h, Bool.true_and, decide_eq_true_eq]
  rw [if_pos (by omega)]

/-- The cleanup loop only takes expired members back. -/
theorem cleaned_cleanupMembers {ms : List Member} (hnd : ms.Nodup)
    (hms : ∀ m ∈ ms, ∃ s, K.zscore w m = some s ∧ s ≤ now) :
    Cleaned now K (cleanupMembers w ms K).1 := by
  induction ms generalizing K with
  | nil => exact Cleaned.refl now K
  | cons m rest ih =>
    rw [cleanupMembers]
    split
    · rename_i value current hvalue hcurrent
      split
      · obtain ⟨s, hs, hsn⟩ := hms m List.mem_cons_self
        obtain ⟨hv, -⟩ := durableInt_eq_some.mp hvalue
        have hva : value = m.amount := by omega
        subst hva
        refine (cleaned_takeBack hs hsn).trans (ih (List.nodup_cons.mp hnd).2 ?_)
        intro m' hm'
        obtain ⟨s', hs', hsn'⟩ := hms m' (List.mem_cons_of_mem _ hm')
        refine ⟨s', ?_, hsn'⟩
        rw [zscore_takeBack, if_neg]
        · exact hs'
        · rintro ⟨-, rfl⟩
          exact (List.nodup_cons.mp hnd).1 hm'
      · exact Cleaned.refl now K
    · exact Cleaned.refl now K

theorem cleaned_durableCleanup (now : Nat) (w : WindowKey)
    (K : Keyspace) : Cleaned now K (durableCleanup w now K).1 :=
  cleaned_cleanupMembers (due_nodup _ _) fun _ hm => mem_due hm

/-- The cleanup loop never stops early in a sound ledger whose members
it can split. -/
theorem Sound.cleanupMembers_ok {ms : List Member} (h : Sound K) (hnd : ms.Nodup)
    (hms : ∀ m ∈ ms, (K.zscore w m).isSome) (hparse : ∀ m ∈ ms, m.parses = true) :
    (cleanupMembers w ms K).2 = true := by
  induction ms generalizing K with
  | nil => rfl
  | cons m rest ih =>
    have hm := hms m List.mem_cons_self
    obtain ⟨s, hs⟩ := Option.isSome_iff_exists.mp hm
    rw [cleanupMembers_cons (hparse m List.mem_cons_self) (h.members hs) (h.amount_le_sum hm)
      (h.capped w m.bucket)]
    refine ih (h.of_cleaned (cleaned_takeBack hs le_rfl)) (List.nodup_cons.mp hnd).2 ?_
      fun m' hm' => hparse m' (List.mem_cons_of_mem _ hm')
    intro m' hm'
    rw [zscore_takeBack, if_neg]
    · exact hms m' (List.mem_cons_of_mem _ hm')
    · rintro ⟨-, rfl⟩
      exact (List.nodup_cons.mp hnd).1 hm'

/-- Cleanup succeeds in a sound ledger whose members it can split. -/
theorem Sound.durableCleanup_ok (h : Sound K)
    (hparse : ∀ {w m s}, K.zscore w m = some s → m.parses = true) (w : WindowKey) (now : Nat) :
    (durableCleanup w now K).2 = true := by
  refine h.cleanupMembers_ok (due_nodup _ _) ?_ ?_
  · intro m hm
    obtain ⟨s, hs, -⟩ := mem_due hm
    rw [Keyspace.zscore, hs]
    rfl
  · intro m hm
    obtain ⟨s, hs, -⟩ := mem_due hm
    exact hparse (w := w) hs

end LlmTemporalWorker.Budget
