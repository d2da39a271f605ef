/-
What one call can do to a sound ledger, said once.

`Effect c K K' reply` lists the seven things a call can come to: refuse
and write nothing, replay an accepted record, clean up and refuse,
accept, claim, settle, move the authority marker. `perform_effect` is
the only place where the actions are taken apart; invariants, frames and histories are
case analyses over `Effect`.
-/
import LlmTemporalWorker.Budget.Proofs.Batch
import LlmTemporalWorker.Budget.Run

namespace LlmTemporalWorker.Budget

open Lib

-- ===== effects

/-- The keyspace a settled batch leaves. -/
def settledKeyspace (op : OperationKey) (r : Record) (b : Batch) (K : Keyspace) : Keyspace :=
  (applyAll b.staged K r).1.setRecord op (durableEncode (b.staged.foldl settleRecord r))

/-- Everything a call can do. -/
inductive Effect (c : TimedCall) (K : Keyspace) :
    Keyspace → Reply → Prop
  | refused {reply : Reply} (hrefuse : reply.refuses = true) : Effect c K K reply
  | replayed {a : ReserveArgs} {r : Record} (hcall : c.call = .reserve a)
      (hr : K.records.lookup a.key = some r)
      (hsame : r.fingerprint = a.fingerprint) :
      Effect c K K (.existing r)
  | cleaned {a : ReserveArgs} {K' : Keyspace} {reply : Reply} (hcall : c.call = .reserve a)
      (hnone : K.records.lookup a.key = none)
      (hclean : Cleaned c.time.millis K K')
      (hrefuse : reply.refuses = true
        ∨ reply = .stateUnavailable .cleanup ∧ CleanupFails c.time.millis K) :
      Effect c K K' reply
  | accepted {a : ReserveArgs} {K' : Keyspace} {st : Staging} (hcall : c.call = .reserve a)
      (hnone : K.records.lookup a.key = none)
      (hadm : Admitting c.time.millis K a.reservations K' st) (hvalid : a.valid = true) :
      Effect c K (acceptedKeyspace a st K') (.accepted (durableEncode (acceptedRecord a st)))
  | claimed {a : ClaimArgs} {r : Record} (hcall : c.call = .claim a)
      (hr : K.records.lookup a.key = some r)
      (hc : Claimable c.time K r) :
      Effect c K ((unlease r K).setRecord a.key (claimedRecord r)) .claimed
  | settled {a : ReconcileArgs} {r : Record} {b : Batch} (hcall : c.call = .reconcile a)
      (hr : K.records.lookup a.key = some r)
      (hst : stageAll K r a.events ⟨[], ∅, []⟩ = .ok b)
      (hb : Batched K r a.events b) :
      Effect c K (settledKeyspace a.key r b K) (.ok (durableEncode (b.staged.foldl settleRecord r)))
  | authorized {a : AuthorityArgs} {authority : Option Authority}
      {reply : Reply} (hcall : c.call = .authority a)
      (hreply : reply = .ready ∨ reply = .preparing)
      (hkeep : ∀ {m}, K.authority = some (.ready m) → authority = some (.ready m)) :
      Effect c K { K with authority := authority } reply

theorem durableAuthority_cases (a : AuthorityArgs) (K : Keyspace) :
    (∃ reply, durableAuthority a K = (K, reply) ∧ reply.refuses = true)
      ∨ ∃ authority reply, durableAuthority a K = ({ K with authority := authority }, reply)
        ∧ (reply = .ready ∨ reply = .preparing)
        ∧ ∀ {m}, K.authority = some (.ready m) → authority = some (.ready m) := by
  unfold durableAuthority
  split
  · exact Or.inl ⟨_, rfl, rfl⟩
  split
  · exact Or.inr ⟨K.authority, _, rfl, Or.inl rfl, id⟩
  split
  · exact Or.inl ⟨_, rfl, rfl⟩
  · split
    · exact Or.inr ⟨K.authority, _, rfl, Or.inr rfl, id⟩
    · split
      · rename_i hnone
        refine Or.inr ⟨_, _, rfl, Or.inr rfl, ?_⟩
        intro m hready
        rw [hready] at hnone
        cases hnone
      · exact Or.inl ⟨_, rfl, rfl⟩
  · split
    · rename_i hprep
      refine Or.inr ⟨_, _, rfl, Or.inl rfl, ?_⟩
      intro m hready
      rw [hready] at hprep
      simp at hprep
    · exact Or.inl ⟨_, rfl, rfl⟩

theorem replayReserve_cases (a : ReserveArgs) (r : Record) :
    (replayReserve a r = .existing r ∧ r.fingerprint = a.fingerprint)
      ∨ (replayReserve a r).refuses = true := by
  unfold replayReserve
  grind [Reply.refuses]

variable {K K' : Keyspace} {s : Staged} {r : Record} {c : TimedCall}
  {reply : Reply} {m : Member}

/-- The actions, taken apart. -/
theorem Sound.perform_effect (h : Sound K) (c : TimedCall) :
    Effect c K (perform c K).1 (perform c K).2 := by
  unfold perform
  split
  · rename_i a hcall
    rcases durableReserve_cases c.time a K with
      ⟨reply, hres, ⟨r, hr, rfl⟩ | href⟩ | ⟨hnone, K', e, hall, hres⟩
        | ⟨hnone, hvalid, K', st, hadm, hres⟩
    · rw [hres]
      rcases replayReserve_cases a r with ⟨hrep, hfp⟩ | href
      · rw [hrep]
        exact .replayed hcall hr hfp
      · exact .refused href
    · rw [hres]
      exact .refused href
    · have hc := cleaned_admitAll c.time.millis a a.reservations K
        ⟨[], ∅, c.time.millis + 15 * 60 * 1000, []⟩
      rw [hall] at hc
      rw [hres]
      exact .cleaned hcall hnone hc (admitAll_error hall)
    · rw [hres]
      exact .accepted hcall hnone hadm hvalid
  · rename_i a hcall
    rcases durableClaim_cases c.time a K with
      ⟨reply, hres, hrefuse⟩ | ⟨r, hr, hc, hres⟩
    · rw [hres]
      exact .refused hrefuse
    · rw [hres]
      exact .claimed hcall hr hc
  · rename_i a hcall
    rcases durableReconcile_cases a K with
      ⟨reply, hres, hrefuse⟩ | ⟨r, b, hr, -, -, -, hst, hb, hres⟩
    · rw [hres]
      exact .refused hrefuse
    · rw [hres, commitBatch_of_sound h hr hb]
      exact .settled hcall hr hst hb
  · rename_i a hcall
    rcases durableAuthority_cases a K with
      ⟨reply, hres, hrefuse⟩ | ⟨authority, reply, hres, hreply, hkeep⟩
    · rw [hres]
      exact .refused hrefuse
    · rw [hres]
      exact .authorized hcall hreply hkeep

theorem exists_ok_of_mem_appliedEvents {a : ReconcileArgs} (hs : s ∈ appliedEvents a K) :
    ∃ r, (durableReconcile a K).2 = .ok r := by
  unfold appliedEvents at hs
  split at hs
  · rename_i r' r hok _
    exact ⟨r', hok⟩
  · cases hs

/-- The events of a settled batch are the staged ones. -/
theorem appliedEvents_of_ok {a : ReconcileArgs} {r' : Record} {b : Batch}
    (hr : K.records.lookup a.key = some r)
    (hst : stageAll K r a.events ⟨[], ∅, []⟩ = .ok b)
    (hok : (durableReconcile a K).2 = .ok r') :
    appliedEvents a K = b.staged := by
  rw [appliedEvents, hok, hr]
  dsimp only
  rw [hst]

-- ===== invariants

/-- One call keeps the ledger sound. -/
theorem Sound.perform (h : Sound K) (c : TimedCall) : Sound (Budget.perform c K).1 := by
  have heff := h.perform_effect c
  generalize (Budget.perform c K).2 = reply at heff
  generalize (Budget.perform c K).1 = K₁ at heff ⊢
  cases heff with
  | refused | replayed => exact h
  | cleaned _ _ hclean _ => exact h.of_cleaned hclean
  | accepted _ hnone hadm =>
    exact (h.of_cleaned hadm.cleaned).accepted hadm (by rw [hadm.cleaned.records]; exact hnone)
  | claimed _ hr hc => exact h.claim hr hc
  | settled _ hr _ hb => exact (h.applyAll hr hb.items hb.indices).2
  | authorized _ _ _ => exact ⟨h.wf, h.members, h.covered, h.capped⟩

/-- One call keeps the ledger exact. -/
theorem Exact.perform {owner : String → OperationKey} (h : Exact owner K) (c : TimedCall)
    (hown : ∀ a, c.call = .reserve a → owner a.fingerprint = a.key) :
    Exact owner (Budget.perform c K).1 := by
  have heff := h.toSound.perform_effect c
  generalize (Budget.perform c K).2 = reply at heff
  generalize (Budget.perform c K).1 = K₁ at heff ⊢
  cases heff with
  | refused | replayed => exact h
  | cleaned _ _ hclean _ => exact h.of_cleaned hclean
  | accepted hcall hnone hadm =>
    exact (h.of_cleaned hadm.cleaned).accepted hadm
      (by rw [hadm.cleaned.records]; exact hnone) (hown _ hcall)
  | claimed _ hr hc => exact h.claim hr hc
  | settled _ hr _ hb => exact h.applyAll hr hb.items hb.indices
  | authorized _ _ _ =>
    exact ⟨⟨h.wf, h.members, h.covered, h.capped⟩, h.owned, h.backed, h.balanced⟩

/-- The operation each fingerprint of a run stands for. -/
theorem FingerprintsDistinct.exists_owner {calls : List TimedCall}
    (h : FingerprintsDistinct calls) :
    ∃ owner : String → OperationKey, ∀ c ∈ calls, ∀ a,
      c.call = .reserve a → owner a.fingerprint = a.key := by
  -- an operation reserved under the fingerprint, if there is one
  have hex : ∀ fp : String, ∃ op : OperationKey, ∀ c ∈ calls, ∀ a,
      c.call = .reserve a → a.fingerprint = fp → op = a.key := by
    intro fp
    by_cases hany : ∃ c ∈ calls, ∃ a, c.call = .reserve a ∧ a.fingerprint = fp
    · obtain ⟨d, hd, b, hb, hfp⟩ := hany
      refine ⟨b.key, fun c hc a ha hfp' => h d hd c hc b a hb ha ?_⟩
      exact hfp.trans hfp'.symm
    · exact ⟨⟨"", ""⟩, fun c hc a ha hfp =>
        absurd ⟨c, hc, a, ha, hfp⟩ hany⟩
  choose owner howner using hex
  exact ⟨owner, fun c hc a ha => howner _ c hc a ha rfl⟩

/-- Every ledger a run reaches is exact. -/
theorem exact_ledger {calls : List TimedCall} (h : FingerprintsDistinct calls) :
    ∃ owner, Exact owner (ledger calls) ∧ ∀ c ∈ calls, ∀ a, c.call = .reserve a →
        owner a.fingerprint = a.key := by
  obtain ⟨owner, hown⟩ := h.exists_owner
  refine ⟨owner, runAll_invariant (exact_empty owner) ?_, hown⟩
  intro c hc K hK
  exact hK.perform c (hown c hc)

-- ===== frames

theorem lookup_setRecord_ne {op op' : OperationKey} (h : op' ≠ op) (r : Record) :
    (K.setRecord op r).records.lookup op' = K.records.lookup op' := by
  rw [records_setRecord, lookup_insert_eq, if_neg h]

theorem records_foldl_charge (fp : String) (score : Nat)
    (xs : List HeldReservation) (K : Keyspace) :
    (xs.foldl (charge fp score) K).records = K.records :=
  foldl_keeps (g := Keyspace.records) (fun _ _ _ => by rfl) K

theorem records_applyAll (items : List Staged) (K : Keyspace)
    (r : Record) : (applyAll items K r).1.records = K.records := by
  induction items generalizing K r with
  | nil => rfl
  | cons s rest ih =>
    have hrec := records_applyItem K r s
    rw [applyAll]
    split
    · rename_i happ
      rw [happ] at hrec
      rw [ih]
      exact hrec
    · rename_i happ
      rw [happ] at hrec
      exact hrec

/-- The record that a call writes under its key. -/
inductive Written (c : TimedCall) (K : Keyspace) : OperationKey → Record → Reply → Prop
  | accepted {a : ReserveArgs} {K' : Keyspace} {st : Staging} (hcall : c.call = .reserve a)
      (hnone : K.records.lookup a.key = none)
      (hadm : Admitting c.time.millis K a.reservations K' st) (hvalid : a.valid = true) :
      Written c K a.key (durableEncode (acceptedRecord a st))
        (.accepted (durableEncode (acceptedRecord a st)))
  | claimed {a : ClaimArgs} {r : Record} (hcall : c.call = .claim a)
      (hr : K.records.lookup a.key = some r) (hc : Claimable c.time K r) :
      Written c K a.key (claimedRecord r) .claimed
  | settled {a : ReconcileArgs} {r : Record} {b : Batch} (hcall : c.call = .reconcile a)
      (hr : K.records.lookup a.key = some r)
      (hst : stageAll K r a.events ⟨[], ∅, []⟩ = .ok b) (hb : Batched K r a.events b) :
      Written c K a.key (durableEncode (b.staged.foldl settleRecord r))
        (.ok (durableEncode (b.staged.foldl settleRecord r)))

/-- A call leaves what is stored under a key, or writes there. -/
theorem Effect.record (h : Effect c K K' reply) (op : OperationKey) :
    K'.records.lookup op = K.records.lookup op
      ∨ ∃ r', K'.records.lookup op = some r' ∧ Written c K op r' reply := by
  have hset : ∀ {K₁ : Keyspace} {op' r'}, K₁.records = K.records → Written c K op' r' reply →
      (K₁.setRecord op' r').records.lookup op = K.records.lookup op
        ∨ ∃ r'', (K₁.setRecord op' r').records.lookup op = some r'' ∧ Written c K op r'' reply := by
    intro K₁ op' r' hrec hw
    rw [records_setRecord, lookup_insert_eq, hrec]
    by_cases hop : op = op'
    · subst hop
      exact .inr ⟨r', if_pos rfl, hw⟩
    · exact .inl (if_neg hop)
  cases h with
  | refused | replayed | authorized => exact .inl rfl
  | cleaned _ _ hclean _ => exact .inl (by rw [hclean.records])
  | accepted hcall hnone hadm hvalid =>
    exact hset (by rw [records_foldl_charge, hadm.cleaned.records])
      (.accepted hcall hnone hadm hvalid)
  | claimed hcall hr hc => exact hset (records_unlease ..) (.claimed hcall hr hc)
  | settled hcall hr hst hb => exact hset (records_applyAll ..) (.settled hcall hr hst hb)

/-- A call touches no record but its own. -/
theorem Effect.records (h : Effect c K K' reply) {op : OperationKey} (hop : c.call.key ≠ some op) :
    K'.records.lookup op = K.records.lookup op := by
  rcases h.record op with hsame | ⟨r', -, hw⟩
  · exact hsame
  · cases hw with
    | accepted hcall | claimed hcall | settled hcall =>
      rw [hcall] at hop
      exact absurd rfl hop

theorem authority_foldl_charge (fp : String) (score : Nat)
    (xs : List HeldReservation) (K : Keyspace) :
    (xs.foldl (charge fp score) K).authority = K.authority :=
  foldl_keeps (g := Keyspace.authority) (fun _ _ _ => by rfl) K

theorem authority_applyItem (h : ItemOk K r s) : (applyItem K r s).1.authority = K.authority := by
  obtain ⟨score, hscore⟩ := h.balance.score
  rw [applyItem_fst hscore]
  have hdrop : (dropCharge K r.fingerprint s.reservation).authority = K.authority := by
    unfold dropCharge
    split <;> simp
  split
  · exact hdrop
  · split <;> simp [hdrop]

/-- A marker that is ready stays ready. -/
theorem Effect.authority (h : Effect c K K' reply) (hK : Sound K)
    {m : String} (hready : K.authority = some (.ready m)) :
    K'.authority = some (.ready m) := by
  cases h with
  | refused | replayed => exact hready
  | cleaned _ _ hclean _ => exact hclean.authority.trans hready
  | accepted _ _ hadm =>
    rw [acceptedKeyspace, authority_setRecord, authority_foldl_charge, hadm.cleaned.authority]
    exact hready
  | claimed _ _ _ =>
    rw [authority_setRecord, authority_unlease]
    exact hready
  | settled _ hr _ hb =>
    have hsame := (applyAll_rule (C := fun K' _ => K'.authority = K.authority)
      (fun hC hs => (authority_applyItem hs).trans hC) (hK.wf hr) rfl
      hb.items hb.indices).2
    exact hsame.trans hready
  | authorized _ _ hkeep => exact hkeep hready

theorem zscore_foldl_charge {fp : String} {score : Nat}
    (hne : m.fingerprint ≠ fp) (w : WindowKey) (xs : List HeldReservation)
    (K : Keyspace) :
    (xs.foldl (charge fp score) K).zscore w m = K.zscore w m := by
  refine foldl_keeps (g := fun K => K.zscore w m) (fun K x _ => ?_) K
  rw [zscore_charge, if_neg]
  rintro ⟨-, rfl⟩
  exact hne rfl

theorem zscore_unlease_ne (hne : m.fingerprint ≠ r.fingerprint) (K : Keyspace) (w : WindowKey) :
    (unlease r K).zscore w m = K.zscore w m := by
  rw [zscore_unlease, if_neg]
  intro hmem
  obtain ⟨x, -, hx⟩ := List.mem_map.mp hmem
  have hm := congrArg Prod.snd hx
  exact hne (congrArg Member.fingerprint hm).symm

theorem zscore_applyItem_ne (h : ItemOk K r s)
    (hne : m.fingerprint ≠ r.fingerprint) (w : WindowKey) :
    (applyItem K r s).1.zscore w m = K.zscore w m := by
  obtain ⟨score, hscore⟩ := h.balance.score
  rw [zscore_applyItem hscore, if_neg, zscore_dropCharge, if_neg]
  · rintro ⟨-, -, rfl⟩
    exact hne rfl
  · rintro ⟨-, -, rfl⟩
    exact hne rfl

/-- A batch leaves the members of other fingerprints alone. -/
theorem Batched.zscore_settled {es : List Event} {b : Batch}
    (hb : Batched K r es b) (hwf : RecordWf r) (op : OperationKey)
    (hne : m.fingerprint ≠ r.fingerprint) (w : WindowKey) :
    (settledKeyspace op r b K).zscore w m = K.zscore w m :=
  (applyAll_rule (C := fun K' r' => r'.fingerprint = r.fingerprint ∧ K'.zscore w m = K.zscore w m)
    (fun hC hs => ⟨hC.1, by
      rw [zscore_applyItem_ne hs (hC.1 ▸ hne)]
      exact hC.2⟩)
    hwf ⟨rfl, rfl⟩ hb.items hb.indices).2.2

/-- The fingerprint a call acts under. -/
def Call.fingerprint (K : Keyspace) : Call → Option String
  | .reserve a => some a.fingerprint
  | .claim a => (K.records.lookup a.key).map Record.fingerprint
  | .reconcile a => (K.records.lookup a.key).map Record.fingerprint
  | .authority _ => none

/-- Of other fingerprints' members a call removes only those that have
expired, and only if it is a reserve. -/
theorem Effect.members (h : Effect c K K' reply) (hK : Sound K)
    {w : WindowKey} {s : Nat} (hm : K.zscore w m = some s)
    (hne : c.call.fingerprint K ≠ some m.fingerprint) :
    K'.zscore w m = some s ∨ (s ≤ c.time.millis ∧ ∃ a, c.call = .reserve a) := by
  cases h with
  | refused | replayed | authorized => exact Or.inl hm
  | cleaned hcall _ hclean _ =>
    rcases Nat.lt_or_ge c.time.millis s with hlive | hexp
    · exact Or.inl (hclean.keeps hm hlive)
    · exact Or.inr ⟨hexp, _, hcall⟩
  | accepted hcall _ hadm =>
    rcases Nat.lt_or_ge c.time.millis s with hlive | hexp
    · left
      rw [hcall] at hne
      rw [acceptedKeyspace, zscore_congr (expiry_setRecord ..),
        zscore_foldl_charge (fun he => hne (congrArg some he.symm))]
      exact hadm.cleaned.keeps hm hlive
    · exact Or.inr ⟨hexp, _, hcall⟩
  | claimed hcall hr _ =>
    rw [hcall, Call.fingerprint, hr] at hne
    left
    show (unlease _ K).zscore w m = some s
    rw [zscore_unlease_ne (fun he => hne (congrArg some he.symm))]
    exact hm
  | settled hcall hr _ hb =>
    rw [hcall, Call.fingerprint, hr] at hne
    left
    rw [hb.zscore_settled (hK.wf hr) _ (fun he => hne (congrArg some he.symm))]
    exact hm

end LlmTemporalWorker.Budget
