/-
What `recoveredRecord` rebuilds.

The rebuilt reservations are the canonical ones of the request, in their
order, each at its own place and advanced by the saved event of its
window and bucket. A saved operation that was never settled is at
revision one, and one that was settled is claimed and at revision two,
so every rebuilt record is one that merges can rely on (`SavedWf`).
-/
import LlmTemporalWorker.Budget.Recoverer
import LlmTemporalWorker.Budget.Proofs.ExactUsd
import LlmTemporalWorker.Budget.Proofs.Restore

namespace LlmTemporalWorker.Budget

open Lib Pricing

variable {H : Host}

-- ===== places

/-- Where a canonical reservation is charged. -/
def Reservation.place (r : Reservation) : WindowKey × Nat :=
  (r.key, r.bucket)

/-- The identity text of a place, the key of the map `seen`. -/
def placeIdentity (p : WindowKey × Nat) : String :=
  p.1.policy ++ "\x00" ++ p.1.window ++ "\x00" ++ toString (p.2 : Int)

variable {gen : String} {expiresAt now : Int} {rs : List Reservation}
  {op : BudgetRecoveryOperation} {d : RecoveredOperation}

theorem canonicalReservation_place {op : String} {index : Nat}
    {v : WindowReservation} {r : Reservation}
    (h : canonicalReservation H op gen expiresAt now index v = .ok r) :
    placeIdentity r.place = v.policyId ++ "\x00" ++ v.windowId ++ "\x00" ++ toString v.bucket := by
  obtain ⟨_, hbounds, h⟩ := bind_ok h
  obtain ⟨amount, -, h⟩ := bind_ok h
  obtain ⟨limit, -, h⟩ := bind_ok h
  obtain ⟨amountNano, -, h⟩ := bind_ok h
  obtain ⟨limitNano, -, h⟩ := bind_ok h
  cases h
  have hbucket : 0 ≤ v.bucket := by
    unfold WindowReservation.checkBounds at hbounds
    split at hbounds
    · cases hbounds
    split at hbounds
    · cases hbounds
    · omega
  show v.policyId ++ "\x00" ++ v.windowId ++ "\x00" ++ toString ((v.bucket.toNat : Nat) : Int) = _
  rw [Int.toNat_of_nonneg hbucket]

theorem canonicalLoop_places {op : String} {index : Nat}
    {vs : List WindowReservation} {buckets seen : List String}
    (h : canonicalLoop H op gen expiresAt now index vs buckets seen = .ok rs) :
    (rs.map fun r => placeIdentity r.place).Nodup ∧ ∀ r ∈ rs, placeIdentity r.place ∉ seen := by
  induction vs generalizing index buckets seen rs with
  | nil =>
    cases h
    exact ⟨List.nodup_nil, nofun⟩
  | cons v rest ih =>
    obtain ⟨r, hr, h⟩ := bind_ok h
    dsimp only at h
    split at h
    · cases h
    split at h
    · cases h
    rename_i hfresh
    obtain ⟨tail, htail, h⟩ := bind_ok h
    cases h
    obtain ⟨hnd, hseen⟩ := ih htail
    rw [← canonicalReservation_place hr] at hfresh hseen
    constructor
    · rw [List.map_cons, List.nodup_cons]
      refine ⟨?_, hnd⟩
      intro hmem
      obtain ⟨r', hr', heq⟩ := List.mem_map.mp hmem
      exact hseen r' hr' (heq ▸ List.mem_cons_self)
    · intro r' hr'
      rcases List.mem_cons.mp hr' with rfl | hr'
      · exact hfresh
      · exact fun hmem => hseen r' hr' (List.mem_cons_of_mem _ hmem)

/-- Canonical reservations are charged at distinct places. -/
theorem canonicalDurableReservations_places {op : String}
    {vs : List WindowReservation}
    (h : canonicalDurableReservations H op gen vs expiresAt now = .ok rs) :
    (rs.map Reservation.place).Nodup := by
  obtain ⟨rs', hloop, h⟩ := bind_ok h
  cases h
  have hnd := (canonicalLoop_places hloop).1
  have hmap : (rs'.map fun r => placeIdentity r.place)
      = (rs'.map Reservation.place).map placeIdentity := by
    rw [List.map_map]
    rfl
  rw [hmap] at hnd
  have hplaces := List.Nodup.of_map _ hnd
  exact ((List.perm_insertionSort _ rs').map Reservation.place).nodup_iff.mpr hplaces

-- ===== the rebuilding

/-- What one turn of `recoveredRecord` makes of a canonical
reservation. -/
def Rebuilt (op : BudgetRecoveryOperation) (settled : FMap String CompletionEvent)
    (value : Reservation) (x : HeldReservation) : Prop :=
  ∃ expiry, recoveredReservation op settled
    { value with
      windowExpiresMillis := expiry
      expiresMillis := unixMilli op.startBy } = .ok x

theorem mem_of_lookup_foldl_insert {κ ν ι : Type*} [DecidableEq κ]
    {f : ι → κ} {g : ι → ν} {es : List ι} {m : FMap κ ν} {k : κ} {v : ν}
    (h : (es.foldl (fun acc e => acc.insert (f e) (g e)) m).lookup k = some v) :
    m.lookup k = some v ∨ ∃ e ∈ es, f e = k ∧ g e = v := by
  induction es generalizing m with
  | nil => exact Or.inl h
  | cons e rest ih =>
    rcases ih h with hm | ⟨e', he', hk, hv⟩
    · rw [lookup_insert_eq] at hm
      split at hm
      · rename_i hk
        exact Or.inr ⟨e, List.mem_cons_self, hk.symm, Option.some.inj hm⟩
      · exact Or.inl hm
    · exact Or.inr ⟨e', List.mem_cons_of_mem _ he', hk, hv⟩

theorem recoveredLoop_ok {events : FMap String ReservationEvent}
    {settled : FMap String CompletionEvent} {at₀ at₁ : Int}
    {xs : List HeldReservation} (h : recoveredLoop op events settled rs at₀ = .ok (xs, at₁)) :
    List.Forall₂ (Rebuilt op settled) rs xs := by
  induction rs generalizing at₀ xs with
  | nil =>
    cases h
    exact .nil
  | cons value rest ih =>
    rw [recoveredLoop] at h
    split at h
    · cases h
    obtain ⟨expiry, -, h⟩ := bind_ok h
    obtain ⟨x, hx, h⟩ := bind_ok h
    obtain ⟨⟨tail, at₂⟩, htail, h⟩ := bind_ok h
    cases h
    exact .cons ⟨expiry, hx⟩ (ih htail)

/-- A rebuilt reservation is the canonical one, at revision one or at that
of the event that settled it. -/
theorem recoveredReservation_ok {settled : FMap String CompletionEvent}
    {value : Reservation} {x : HeldReservation}
    (h : recoveredReservation op settled value = .ok x) :
    x.toReservation = value ∧ (x.reservationRevision = 1 ∨ ∃ event,
      settled.lookup (settledKey value.windowId value.bucketStartNanos) = some event
        ∧ x.reservationRevision = event.reservationRevision.toNat) := by
  unfold recoveredReservation at h
  split at h
  · rename_i event hevent
    split at h
    · cases h
    split at h
    · cases h
    cases h
    exact ⟨rfl, Or.inr ⟨event, hevent, rfl⟩⟩
  · split at h
    · cases h
    · cases h
      exact ⟨rfl, Or.inl rfl⟩

/-- `recoveredRecord`, taken apart. -/
structure RecoveredFrom (H : Host) (op : BudgetRecoveryOperation)
    (rs : List Reservation) (d : RecoveredOperation) : Prop where
  canonical : canonicalDurableReservations H op.request.operationId
    op.request.generationId op.request.reservations op.request.expiresAt
    op.startedAt = .ok rs
  claimed : d.claimed = op.claimed
  reservations : List.Forall₂ (Rebuilt op (op.settlementEvents.foldl (fun acc e =>
      acc.insert (settledKey e.windowId e.bucketStart) e) ∅))
    rs d.reservations

theorem recoveredRecord_ok (h : recoveredRecord H op = .ok d) : ∃ rs, RecoveredFrom H op rs d := by
  unfold recoveredRecord at h
  split at h
  · cases h
  obtain ⟨rs, hrs, h⟩ := bind_ok h
  obtain ⟨_, -, h⟩ := bind_ok h
  obtain ⟨⟨xs, occurred⟩, hloop, h⟩ := bind_ok h
  cases h
  exact ⟨rs, hrs, rfl, recoveredLoop_ok hloop⟩

-- ===== what merges rely on

/-- A saved settlement's events are at revision two. -/
theorem Saved.revision_two (h : Saved op) {event : CompletionEvent}
    (he : event ∈ op.settlementEvents) :
    op.claimed = true ∧ event.reservationRevision = 2 := by
  unfold BudgetRecoveryOperation.settlementEvents at he
  split at he
  · cases he
  rename_i s hs
  obtain ⟨hclaimed, hall⟩ := h.settled s hs
  obtain ⟨reserved, hmem, -, -, hrev, -⟩ := exists_of_forall₂_right hall he
  rw [h.accepted reserved hmem] at hrev
  exact ⟨hclaimed, hrev⟩

theorem RecoveredFrom.revision (h : RecoveredFrom H op rs d)
    (hsaved : Saved op) {x : HeldReservation} (hx : x ∈ d.reservations) :
    x.reservationRevision = 1 ∨ op.claimed = true ∧ x.reservationRevision = 2 := by
  obtain ⟨value, -, expiry, hbuilt⟩ := exists_of_forall₂_right h.reservations hx
  rcases (recoveredReservation_ok hbuilt).2 with hrev | ⟨event, hevent, hrev⟩
  · exact Or.inl hrev
  · rcases mem_of_lookup_foldl_insert hevent with hnil | ⟨e, he, -, rfl⟩
    · cases hnil
    · obtain ⟨hclaimed, htwo⟩ := hsaved.revision_two he
      rw [htwo] at hrev
      exact Or.inr ⟨hclaimed, hrev⟩

theorem RecoveredFrom.places (h : RecoveredFrom H op rs d) :
    d.reservations.map HeldReservation.place = rs.map Reservation.place := by
  have hall := h.reservations
  generalize d.reservations = xs at hall
  clear h
  induction hall with
  | nil => rfl
  | cons hx _ ih =>
    obtain ⟨expiry, hbuilt⟩ := hx
    have hsame := (recoveredReservation_ok hbuilt).1
    rw [List.map_cons, List.map_cons, ih, HeldReservation.place, hsame]
    rfl

/-- A rebuilt record is one that merges can rely on. -/
theorem savedWf_of_recovered (hsaved : Saved op)
    (h : recoveredRecord H op = .ok d) : SavedWf d := by
  obtain ⟨rs, hfrom⟩ := recoveredRecord_ok h
  constructor
  · intro x hx
    rcases hfrom.revision hsaved hx with h | h <;> omega
  · intro hclaimed x hx _
    rcases hfrom.revision hsaved hx with h | ⟨h, -⟩
    · exact h
    · rw [← hfrom.claimed, hclaimed] at h
      cases h
  · rw [hfrom.places]
    exact canonicalDurableReservations_places hfrom.canonical
  · intro x hx
    apply cjsonNumber_of_lt
    rcases hfrom.revision hsaved hx with h | ⟨-, h⟩ <;> rw [h] <;> decide

end LlmTemporalWorker.Budget
