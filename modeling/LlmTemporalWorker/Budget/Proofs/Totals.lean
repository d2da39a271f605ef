/-
The three totals of the ledger, and what each Redis command does to
them.

A charge is kept twice: in a bucket's sum, and either as an expiry
member or as a claimed reservation that has not been settled. The
ledger is in balance when the first equals the second and the third
together, `slack K w P = 0`. The totals run over the buckets a
predicate `P` selects: one bucket, or a whole window.

Every later proof about an action composes the lemmas of this file; no
later proof opens a command's definition.
-/
import LlmTemporalWorker.Budget.Reconcile

namespace LlmTemporalWorker.Budget

open Lib

-- ===== the totals

/-- The sum fields of a window's selected buckets. -/
def sumTotal (K : Keyspace) (w : WindowKey) (P : Nat → Bool) : Int :=
  total (fun b v => if P b then v else 0) (K.hash w).sums

/-- A member's amount, if its bucket is selected. -/
def memberWeight (P : Nat → Bool) (m : Member) : Int :=
  if P m.bucket then m.amount else 0

theorem memberWeight_member (P : Nat → Bool) (fp : String) (bucket amount : Nat) :
    memberWeight P (durableExpiryMember fp bucket amount)
      = if P bucket then (amount : Int) else 0 := rfl

/-- The amounts of a window's expiry members. -/
def memberTotal (K : Keyspace) (w : WindowKey) (P : Nat → Bool) : Int :=
  total (fun m _ => memberWeight P m) (K.expiry w)

/-- A reservation is retained without an expiry member: its operation
is claimed and not settled. -/
def retained (claimed : Bool) (x : HeldReservation) : Bool :=
  claimed && 0 < x.reservedNano

/-- What a retained reservation counts for in a window. -/
def retainedWeight (w : WindowKey) (P : Nat → Bool) (claimed : Bool) (x : HeldReservation) : Int :=
  if retained claimed x ∧ x.key = w ∧ P x.bucket then x.total else 0

/-- What a record retains in a window. -/
def retainedIn (w : WindowKey) (P : Nat → Bool) (r : Record) : Int :=
  (r.reservations.map (retainedWeight w P r.claimed)).sum

/-- What all records retain in a window. -/
def retainedTotal (K : Keyspace) (w : WindowKey) (P : Nat → Bool) : Int :=
  total (fun _ r => retainedIn w P r) K.records

/-- What the sums hold beyond the charges they are kept for. -/
def slack (K : Keyspace) (w : WindowKey) (P : Nat → Bool) : Int :=
  sumTotal K w P - memberTotal K w P - retainedTotal K w P

-- ===== frames

section Frames

variable (K : Keyspace) (w w' : WindowKey) (b s : Nat) (d : Int)
  (m : Member) (op : OperationKey) (r : Record) (P : Nat → Bool)

@[simp] theorem records_hincrby : (K.hincrby w b d).records = K.records := rfl

@[simp] theorem records_zadd : (K.zadd w s m).records = K.records := rfl

@[simp] theorem records_zrem : (K.zrem w m).records = K.records := rfl

@[simp] theorem records_setRecord : (K.setRecord op r).records = K.records.insert op r := rfl

@[simp] theorem records_hincrbyDropZero : (K.hincrbyDropZero w b d).records = K.records := by
  unfold Keyspace.hincrbyDropZero
  dsimp only
  split <;> rfl

@[simp] theorem expiry_hincrby : (K.hincrby w b d).expiry = K.expiry := rfl

@[simp] theorem expiry_setRecord : (K.setRecord op r).expiry = K.expiry := rfl

@[simp] theorem expiry_hincrbyDropZero : (K.hincrbyDropZero w b d).expiry = K.expiry := by
  unfold Keyspace.hincrbyDropZero
  dsimp only
  split <;> rfl

@[simp] theorem hash_zadd : (K.zadd w s m).hash = K.hash := rfl

@[simp] theorem hash_zrem : (K.zrem w m).hash = K.hash := rfl

@[simp] theorem hash_setRecord : (K.setRecord op r).hash = K.hash := rfl

@[simp] theorem authority_hincrby : (K.hincrby w b d).authority = K.authority := rfl

@[simp] theorem authority_zadd : (K.zadd w s m).authority = K.authority := rfl

@[simp] theorem authority_zrem : (K.zrem w m).authority = K.authority := rfl

@[simp] theorem authority_setRecord : (K.setRecord op r).authority = K.authority := rfl

@[simp] theorem authority_hincrbyDropZero : (K.hincrbyDropZero w b d).authority = K.authority := by
  unfold Keyspace.hincrbyDropZero
  dsimp only
  split <;> rfl

end Frames

variable {K K' : Keyspace} {w : WindowKey} {m : Member}

/-- The totals only read the key family they are about. -/
theorem sumTotal_congr (h : K'.hash = K.hash) (w : WindowKey) (P : Nat → Bool) :
    sumTotal K' w P = sumTotal K w P := by
  rw [sumTotal, sumTotal, h]

theorem memberTotal_congr (h : K'.expiry = K.expiry) (w : WindowKey) (P : Nat → Bool) :
    memberTotal K' w P = memberTotal K w P := by
  rw [memberTotal, memberTotal, h]

theorem retainedTotal_congr (h : K'.records = K.records) (w : WindowKey) (P : Nat → Bool) :
    retainedTotal K' w P = retainedTotal K w P := by
  rw [retainedTotal, retainedTotal, h]

-- ===== sums

/-- A sum only reads the hashes. -/
theorem sum_congr (h : K'.hash = K.hash) (w : WindowKey) (b : Nat) : K'.sum w b = K.sum w b := by
  rw [Keyspace.sum, Keyspace.sum, h]

/-- A score only reads the expiry sets. -/
theorem zscore_congr (h : K'.expiry = K.expiry) (w : WindowKey) (m : Member) :
    K'.zscore w m = K.zscore w m := by
  rw [Keyspace.zscore, Keyspace.zscore, h]

section Commands

variable (K : Keyspace) (w w' : WindowKey) (b b' s : Nat) (d : Int) (m m' : Member) (P : Nat → Bool)

theorem hash_setHash (h : BudgetHash) :
    (K.setHash w h).hash w' = if w' = w then h else K.hash w' := by
  show Function.update K.hash w h w' = _
  rw [Function.update_apply]

theorem expiry_setExpiry (e : FMap Member Nat) :
    (K.setExpiry w e).expiry w' = if w' = w then e else K.expiry w' := by
  show Function.update K.expiry w e w' = _
  rw [Function.update_apply]

/-- The total of one bucket is its sum field. -/
theorem sumTotal_bucket : sumTotal K w (· == b) = K.sum w b := by
  rw [sumTotal, ← total_erase_add _ _ b, total_congr (g := fun _ _ => 0), total_zero]
  · rw [Keyspace.sum, FMap.getD]
    cases (K.hash w).sums.lookup b <;> simp
  · intro b' v hv
    rw [lookup_erase_eq] at hv
    split at hv
    · cases hv
    · rename_i hne
      simp [hne]

/-- The window's sums after `HINCRBY`. -/
theorem sumTotal_hincrby :
    sumTotal (K.hincrby w b d) w' P = sumTotal K w' P + if w' = w ∧ P b then d else 0 := by
  unfold sumTotal Keyspace.hincrby
  rw [hash_setHash]
  by_cases hw : w' = w
  · subst hw
    rw [if_pos rfl, total_insert_eq, Keyspace.sum, FMap.getD]
    cases (K.hash w').sums.lookup b <;> cases P b <;> simp
    omega
  · rw [if_neg hw, if_neg (fun h => hw h.1)]
    omega

/-- Deleting a bucket whose sum is zero changes no sum. -/
theorem sumTotal_hdelBucket (h0 : K.sum w b = 0) :
    sumTotal (K.hdelBucket w b) w' P = sumTotal K w' P := by
  unfold sumTotal Keyspace.hdelBucket
  rw [hash_setHash]
  by_cases hw : w' = w
  · subst hw
    rw [Keyspace.sum, FMap.getD] at h0
    rw [if_pos rfl, total_erase]
    cases hb : (K.hash w').sums.lookup b <;> simp_all
  · rw [if_neg hw]

theorem sumTotal_hincrbyDropZero :
    sumTotal (K.hincrbyDropZero w b d) w' P = sumTotal K w' P + if w' = w ∧ P b then d else 0 := by
  unfold Keyspace.hincrbyDropZero
  dsimp only
  split
  next h0 => rw [sumTotal_hdelBucket _ _ _ _ _ h0, sumTotal_hincrby]
  · rw [sumTotal_hincrby]

theorem sumTotal_hsetLimit : sumTotal (K.hsetLimit w b s) w' P = sumTotal K w' P := by
  unfold sumTotal Keyspace.hsetLimit
  rw [hash_setHash]
  split
  next hw => rw [hw]
  · rfl

/-- One sum field after `HINCRBY`. -/
theorem sum_hincrby :
    (K.hincrby w b d).sum w' b' = K.sum w' b' + if w' = w ∧ b' = b then d else 0 := by
  rw [← sumTotal_bucket, ← sumTotal_bucket, sumTotal_hincrby]
  simp only [beq_iff_eq, eq_comm (a := b)]

theorem sum_hincrbyDropZero :
    (K.hincrbyDropZero w b d).sum w' b' = K.sum w' b' + if w' = w ∧ b' = b then d else 0 := by
  rw [← sumTotal_bucket, ← sumTotal_bucket, sumTotal_hincrbyDropZero]
  simp only [beq_iff_eq, eq_comm (a := b)]

theorem sum_hsetLimit : (K.hsetLimit w b s).sum w' b' = K.sum w' b' := by
  rw [← sumTotal_bucket, ← sumTotal_bucket, sumTotal_hsetLimit]

-- ===== members

/-- `ZSCORE` after `ZADD`. -/
theorem zscore_zadd :
    (K.zadd w s m).zscore w' m' = if w' = w ∧ m' = m then some s else K.zscore w' m' := by
  unfold Keyspace.zscore Keyspace.zadd
  rw [expiry_setExpiry]
  by_cases hw : w' = w
  · subst hw
    rw [if_pos rfl, lookup_insert_eq]
    simp
  · rw [if_neg hw, if_neg (fun h => hw h.1)]

/-- `ZSCORE` after `ZREM`. -/
theorem zscore_zrem :
    (K.zrem w m).zscore w' m' = if w' = w ∧ m' = m then none else K.zscore w' m' := by
  unfold Keyspace.zscore Keyspace.zrem
  rw [expiry_setExpiry]
  by_cases hw : w' = w
  · subst hw
    rw [if_pos rfl, lookup_erase_eq]
    simp
  · rw [if_neg hw, if_neg (fun h => hw h.1)]

/-- What a member counts for if the set has it. -/
def presence (K : Keyspace) (w : WindowKey) (m : Member) (P : Nat → Bool) : Int :=
  if (K.zscore w m).isSome then memberWeight P m else 0

theorem presence_eq : presence K w m P
    = ((K.expiry w).lookup m).elim 0 fun _ => memberWeight P m := by
  rw [presence, Keyspace.zscore]
  cases (K.expiry w).lookup m <;> rfl

variable {K w m} in
theorem presence_of_some (h : (K.zscore w m).isSome) (P : Nat → Bool) :
    presence K w m P = memberWeight P m :=
  if_pos h

variable {K w m} in
theorem presence_of_none (h : K.zscore w m = none) (P : Nat → Bool) : presence K w m P = 0 := by
  rw [presence, h]
  rfl

/-- `ZADD` adds the member's amount unless the set had it. -/
theorem memberTotal_zadd : memberTotal (K.zadd w s m) w' P = memberTotal K w' P
      + if w' = w then memberWeight P m - presence K w m P else 0 := by
  unfold memberTotal Keyspace.zadd
  rw [expiry_setExpiry]
  by_cases hw : w' = w
  · subst hw
    rw [if_pos rfl, if_pos rfl, presence_eq, total_insert_eq]
    omega
  · rw [if_neg hw, if_neg hw]
    omega

/-- `ZREM` takes the member's amount if the set had it. -/
theorem memberTotal_zrem : memberTotal (K.zrem w m) w' P
      = memberTotal K w' P - if w' = w then presence K w m P else 0 := by
  unfold memberTotal Keyspace.zrem
  rw [expiry_setExpiry]
  by_cases hw : w' = w
  · subst hw
    rw [if_pos rfl, if_pos rfl, presence_eq, total_erase]
  · rw [if_neg hw, if_neg hw]
    omega

theorem memberWeight_nonneg (P : Nat → Bool) (m : Member) : 0 ≤ memberWeight P m := by
  unfold memberWeight
  split <;> omega

theorem presence_nonneg : 0 ≤ presence K w m P := by
  unfold presence
  split
  · exact memberWeight_nonneg P m
  · omega

theorem presence_le : presence K w m P ≤ memberWeight P m := by
  unfold presence
  split
  · omega
  · exact memberWeight_nonneg P m

theorem memberTotal_nonneg : 0 ≤ memberTotal K w P :=
  total_nonneg fun m _ _ => memberWeight_nonneg P m

end Commands

/-- A member's amount is part of the member total. -/
theorem memberWeight_le_memberTotal {s : Nat} (h : K.zscore w m = some s) (P : Nat → Bool) :
    memberWeight P m ≤ memberTotal K w P :=
  le_total (f := fun m _ => memberWeight P m) (fun m _ _ => memberWeight_nonneg P m) h

-- ===== records

theorem retainedWeight_nonneg (w : WindowKey) (P : Nat → Bool)
    (claimed : Bool) (x : HeldReservation) :
    0 ≤ retainedWeight w P claimed x := by
  unfold retainedWeight
  split <;> omega

theorem retainedIn_nonneg (w : WindowKey) (P : Nat → Bool) (r : Record) : 0 ≤ retainedIn w P r := by
  refine List.sum_nonneg fun v hv => ?_
  obtain ⟨x, -, rfl⟩ := List.mem_map.mp hv
  exact retainedWeight_nonneg w P r.claimed x

theorem retainedTotal_nonneg (K : Keyspace) (w : WindowKey)
    (P : Nat → Bool) : 0 ≤ retainedTotal K w P :=
  total_nonneg fun _ r _ => retainedIn_nonneg w P r

/-- An unclaimed record retains nothing. -/
theorem retainedIn_unclaimed {r : Record} (h : r.claimed = false)
    (w : WindowKey) (P : Nat → Bool) : retainedIn w P r = 0 := by
  unfold retainedIn
  have hz : r.reservations.map (retainedWeight w P r.claimed)
      = r.reservations.map fun _ => (0 : Int) := by
    refine List.map_congr_left fun x _ => ?_
    simp [retainedWeight, retained, h]
  rw [hz]
  simp

/-- A new record adds what it retains. -/
theorem retainedTotal_setRecord_new {op : OperationKey}
    (hnew : K.records.lookup op = none) (r : Record) (w : WindowKey)
    (P : Nat → Bool) :
    retainedTotal (K.setRecord op r) w P = retainedTotal K w P + retainedIn w P r := by
  show total _ (K.records.insert op r) = _
  rw [total_insert_eq, hnew]
  exact Int.sub_zero _

/-- A replaced record moves the total by its own difference. -/
theorem retainedTotal_setRecord {op : OperationKey} {old : Record}
    (hold : K.records.lookup op = some old) (r : Record) (w : WindowKey)
    (P : Nat → Bool) :
    retainedTotal (K.setRecord op r) w P
      = retainedTotal K w P + retainedIn w P r - retainedIn w P old := by
  show total _ (K.records.insert op r) = _
  rw [total_insert_eq, hold]
  rfl

/-- What a record retains does not depend on its printed numbers. -/
theorem retainedIn_durableEncode (w : WindowKey) (P : Nat → Bool)
    (r : Record) : retainedIn w P (durableEncode r) = retainedIn w P r := by
  unfold retainedIn durableEncode
  rw [List.map_map]
  rfl

end LlmTemporalWorker.Budget
