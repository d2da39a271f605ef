/-
Conservation: every sum field of the durable ledger is the charges it
is kept for, and nothing else.

A charge is kept in two places. While an operation may still expire or
is settled, the other place is a member of the expiry set; while it is
claimed and not settled, the other place is its record. `Exact` holds
along every run (`exact_ledger`), and this file reads it off bucket by
bucket.

Cleanup splits the text of a member at its bars, and a reserve takes any
sixty-four bytes for a fingerprint. So cleanup succeeds where no
fingerprint of the run has a bar in it, and a fingerprint with one stops
every reserve on its windows from the end of its lease on.
-/
import LlmTemporalWorker.Budget.Proofs.History

namespace LlmTemporalWorker.Budget

open Lib

-- ===== charges with no member

/-- The expiry set of a reservation's window has a member of this
fingerprint and bucket, of whatever amount. -/
def hasMember (K : Keyspace) (fingerprint : String) (x : HeldReservation) : Bool :=
  (K.expiry x.key).keys.any fun m =>
    m.fingerprint == fingerprint && m.bucket == x.bucket

/-- A claimed reservation that is still reserved and has no member. -/
def unmembered (K : Keyspace) (r : Record) (x : HeldReservation) : Bool :=
  r.claimed && 0 < x.reservedNano && !hasMember K r.fingerprint x

/-- What the reservations with no member come to in a bucket. -/
def unmemberedTotal (K : Keyspace) (w : WindowKey) (b : Nat) : Int :=
  total (fun _ r => (r.reservations.map fun x =>
    if unmembered K r x ∧ x.key = w ∧ x.bucket = b then (x.total : Int)
    else 0).sum) K.records

variable {K : Keyspace} {owner : String → OperationKey}

theorem exists_member_of_hasMember {fp : String} {x : HeldReservation}
    (h : hasMember K fp x = true) :
    ∃ n, (K.zscore x.key (durableExpiryMember fp x.bucket n)).isSome := by
  obtain ⟨m, hm, heq⟩ := List.any_eq_true.mp h
  obtain ⟨hfp, hb⟩ : m.fingerprint = fp ∧ m.bucket = x.bucket := by
    simpa using heq
  refine ⟨m.amount, ?_⟩
  rw [← hfp, ← hb]
  exact AList.lookup_isSome.mpr hm

/-- A retained reservation has no member. -/
theorem Exact.unmembered_eq (h : Exact owner K) {op : OperationKey}
    {r : Record} (hr : K.records.lookup op = some r) {x : HeldReservation}
    (hx : x ∈ r.reservations) :
    unmembered K r x = retained r.claimed x := by
  rw [unmembered, retained]
  cases hm : hasMember K r.fingerprint x with
  | false => simp
  | true =>
    obtain ⟨n, hn⟩ := exists_member_of_hasMember hm
    have hret := (h.member_total hr hx hn).2.2
    rw [retained] at hret
    rw [hret]
    rfl

theorem Exact.unmemberedTotal_eq (h : Exact owner K) (w : WindowKey) (b : Nat) :
    unmemberedTotal K w b = retainedTotal K w (· == b) := by
  apply total_congr
  intro op r hr
  congr 1
  apply List.map_congr_left
  intro x hx
  rw [h.unmembered_eq hr hx, retainedWeight]
  simp

/-- A sum is its members and its claimed reservations without one. -/
theorem Exact.sum_eq (h : Exact owner K) (w : WindowKey) (b : Nat) :
    K.sum w b = memberTotal K w (· == b) + unmemberedTotal K w b := by
  have hbal := h.balanced w (· == b)
  rw [slack, sumTotal_bucket] at hbal
  rw [h.unmemberedTotal_eq]
  omega

-- ===== what a call leaves

/-- A call that finds only members it can split takes them all back. -/
theorem Sound.perform_not_cleanup (h : Sound K)
    (hparse : ∀ {w m s}, K.zscore w m = some s → m.parses = true) (c : TimedCall) :
    (Budget.perform c K).2 ≠ .stateUnavailable .cleanup := by
  have heff := h.perform_effect c
  intro hcl
  rw [hcl] at heff
  generalize (Budget.perform c K).1 = K' at heff
  cases heff with
  | refused hrefuse => cases hrefuse
  | cleaned _ _ _ hrefuse =>
    rcases hrefuse with hrefuse | ⟨-, w, K₁, hclean, hfails⟩
    · cases hrefuse
    · have hok := (h.of_cleaned hclean).durableCleanup_ok
        (fun hm => hparse (hclean.shrinks hm)) w c.time.millis
      rw [hok] at hfails
      cases hfails
  | authorized _ hreply _ => rcases hreply with h | h <;> cases h

/-- A record has the fingerprint it had before a call, or the call is
the reserve that made it. -/
theorem Effect.fingerprint {c : TimedCall} {K' : Keyspace} {reply : Reply}
    (heff : Effect c K K' reply) (hK : Sound K) {op : OperationKey} {r' : Record}
    (hr' : K'.records.lookup op = some r') :
    (∃ r, K.records.lookup op = some r ∧ r'.fingerprint = r.fingerprint)
      ∨ ∃ a, c.call = .reserve a ∧ a.valid = true ∧ r'.fingerprint = a.fingerprint := by
  rcases heff.record op with hsame | ⟨r'', hr'', hw⟩
  · exact .inl ⟨r', hsame.symm.trans hr', rfl⟩
  cases hr''.symm.trans hr'
  cases hw with
  | accepted hcall _ _ hvalid => exact .inr ⟨_, hcall, hvalid, rfl⟩
  | claimed _ hr => exact .inl ⟨_, hr, rfl⟩
  | settled _ hr _ hb => exact .inl ⟨_, hr, (hb.evolves (hK.wf hr)).fingerprint⟩

/-- The fingerprint of every record of a ledger is that of a reserve of
the run. -/
theorem record_fingerprint {calls : List TimedCall} {op : OperationKey} {r : Record}
    (hr : (ledger calls).records.lookup op = some r) :
    ∃ c ∈ calls, ∃ a, c.call = .reserve a ∧ a.valid = true ∧ r.fingerprint = a.fingerprint := by
  have h : (Sound (ledger calls) ∧ Encoded (ledger calls)) ∧
      ∀ {op r}, (ledger calls).records.lookup op = some r → ∃ c ∈ calls, ∃ a,
        c.call = .reserve a ∧ a.valid = true ∧ r.fingerprint = a.fingerprint := by
    refine runAll_invariant (I := fun K => (Sound K ∧ Encoded K) ∧
      ∀ {op r}, K.records.lookup op = some r → ∃ c ∈ calls, ∃ a,
        c.call = .reserve a ∧ a.valid = true ∧ r.fingerprint = a.fingerprint)
      ⟨sound_ledger [], nofun⟩ ?_
    rintro c hc K ⟨⟨hK, henc⟩, hmade⟩
    have heff := hK.perform_effect c
    refine ⟨⟨hK.perform c, heff.encoded henc⟩, fun hr' => ?_⟩
    rcases heff.fingerprint hK hr' with ⟨r, hr, hsame⟩ | ⟨a, hcall, hvalid, hfp⟩
    · rw [hsame]
      exact hmade hr
    · exact ⟨c, hc, a, hcall, hvalid, hfp⟩
  exact h.2 hr

/-- No reserve of a run has a bar in its fingerprint. -/
def Barless (calls : List TimedCall) : Prop :=
  ∀ c ∈ calls, ∀ a, c.call = .reserve a → '|' ∉ a.fingerprint.toList

theorem barless_iff {calls : List TimedCall} :
    Barless calls ↔
      ∀ a ∈ calls.filterMap (·.call.reserveArgs), '|' ∉ a.fingerprint.toList := by
  simp only [List.mem_filterMap, reserveArgs_eq_some]
  exact ⟨fun h a ⟨c, hc, ha⟩ => h c hc a ha, fun h c hc a ha => h a ⟨c, hc, ha⟩⟩

instance (calls : List TimedCall) : Decidable (Barless calls) :=
  decidable_of_iff _ barless_iff.symm

/-- Every member of an exact ledger is a record's, so it can be split
where no fingerprint of the run has a bar. -/
theorem Exact.parses {calls : List TimedCall} (h : Exact owner (ledger calls))
    (hbar : Barless calls) {w : WindowKey} {m : Member} {s : Nat}
    (hm : (ledger calls).zscore w m = some s) : m.parses = true := by
  obtain ⟨op, r, x, hr, -, rfl, -⟩ := h.backed hm
  obtain ⟨c, hc, a, hcall, hvalid, hfp⟩ := record_fingerprint hr
  have hsize : a.fingerprint.utf8ByteSize = 64 := by
    simp only [ReserveArgs.valid, Bool.and_eq_true, beq_iff_eq] at hvalid
    exact hvalid.1.1.1.1.2
  have hne : a.fingerprint ≠ "" := by
    intro h
    rw [h] at hsize
    cases hsize
  show fingerprintParses r.fingerprint = true
  rw [hfp]
  simp [fingerprintParses, hne, hbar c hc a hcall]

/-- A call under another operation acts under another fingerprint. -/
theorem Exact.fingerprint_ne (h : Exact owner K) {c : Call}
    {op : OperationKey} {r : Record} (hr : K.records.lookup op = some r)
    (hop : c.key ≠ some op)
    (hown : ∀ a, c = .reserve a → owner a.fingerprint = a.key) :
    c.fingerprint K ≠ some r.fingerprint := by
  intro heq
  apply hop
  rw [← h.owned hr]
  cases c with
  | reserve a =>
    rw [← Option.some.inj heq, hown a rfl]
    rfl
  | claim | reconcile =>
    obtain ⟨r', hr', hfp⟩ := Option.map_eq_some_iff.mp heq
    rw [← hfp, h.owned hr']
    rfl
  | authority a => cases heq

-- ===== conservation

/-- In every ledger that a run reaches, each sum is the amounts of its
bucket's members and of its claimed reservations with no member. So no
sum is negative, cleanup of any window at any time leaves no sum
negative, and the next call, whatever it is, drives no sum negative,
touches no record but its own, and takes another operation's member only
if it is a reserve and the member has expired. Where no fingerprint of
the run has a bar, cleanup of any window at any time succeeds, and no
next call answers that a cleanup failed. -/
theorem ledger_conservation (calls : List TimedCall) (h : FingerprintsDistinct calls) :
    (∀ w b, (ledger calls).sum w b = memberTotal (ledger calls) w (· == b)
          + unmemberedTotal (ledger calls) w b)
      ∧ (∀ w b, 0 ≤ (ledger calls).sum w b)
      ∧ (∀ w now w' b, 0 ≤ (durableCleanup w now (ledger calls)).1.sum w' b)
      ∧ (∀ c, FingerprintsDistinct (calls ++ [c]) →
          (∀ w b, 0 ≤ (perform c (ledger calls)).1.sum w b)
          ∧ ∀ op r, c.call.key ≠ some op → (ledger calls).records.lookup op = some r →
            (perform c (ledger calls)).1.records.lookup op = some r
            ∧ ∀ w b n s, (ledger calls).zscore w (durableExpiryMember r.fingerprint b n) = some s →
              (perform c (ledger calls)).1.zscore w (durableExpiryMember r.fingerprint b n) = some s
                ∨ (s ≤ c.time.millis ∧ ∃ a, c.call = .reserve a))
      ∧ (Barless calls → (∀ w now, (durableCleanup w now (ledger calls)).2 = true)
          ∧ ∀ c, (perform c (ledger calls)).2 ≠ .stateUnavailable .cleanup) := by
  obtain ⟨_, hK, -⟩ := exact_ledger h
  refine ⟨hK.sum_eq, hK.toSound.sum_nonneg, ?_, ?_, ?_⟩
  · intro w now
    exact (hK.toSound.of_cleaned (cleaned_durableCleanup now w _)).sum_nonneg
  · intro c hc
    refine ⟨(hK.toSound.perform c).sum_nonneg, ?_⟩
    intro op r hop hr
    have heff := hK.toSound.perform_effect c
    refine ⟨(heff.records hop).trans hr, ?_⟩
    intro w b n s hm
    -- the run with `c` at its end has an owner for every fingerprint,
    -- those of the earlier reserves included
    obtain ⟨owner, hown⟩ := hc.exists_owner
    have hexact : Exact owner (ledger calls) :=
      runAll_invariant (exact_empty owner) fun d hd K hK =>
        hK.perform d (hown d (List.mem_append_left _ hd))
    exact heff.members hK.toSound hm (hexact.fingerprint_ne hr hop (hown c (by simp)))
  · intro hbar
    exact ⟨hK.toSound.durableCleanup_ok (hK.parses hbar),
      hK.toSound.perform_not_cleanup (hK.parses hbar)⟩

/-- Two requests of one window. -/
def sampleReservation (event : String) (amount : Nat) : Reservation where
  policyId := "team"
  windowId := "daily"
  bucket := 1
  amountNano := amount
  limitNano := 10
  bucketNanos := 3600000000000
  durationNanos := 86400000000000
  bucketStartNanos := 3600000000000
  windowExpiresMillis := 93600000
  expiresMillis := 4000000
  eventId := event
  amountUsd := amount * 10 ^ 9
  limitUsd := 10 * 10 ^ 9

def sampleReserve (operation fingerprint : String) (amount : Nat) : ReserveArgs where
  generationId := "generation"
  incarnationId := "incarnation"
  operationId := operation
  fingerprint := fingerprint
  ttl := 90000
  occurredAt := "1970-01-01T01:00:00Z"
  reservations := [sampleReservation operation amount]
  authority := none

def sampleClaim (operation : String) : ClaimArgs where
  generationId := "generation"
  incarnationId := "incarnation"
  operationId := operation
  authority := none

def sampleDigest : String :=
  "0123456789abcdef0123456789abcdef0123456789abcdef0123456789abcdef"

def otherDigest : String :=
  "fedcba9876543210fedcba9876543210fedcba9876543210fedcba9876543210"

/-- One operation is claimed, the other only reserved. -/
def sampleCalls : List TimedCall :=
  [⟨⟨3600, 0⟩, .reserve (sampleReserve "first" sampleDigest 3)⟩,
    ⟨⟨3601, 0⟩, .claim (sampleClaim "first")⟩,
    ⟨⟨3602, 0⟩, .reserve (sampleReserve "second" otherDigest 4)⟩]

theorem ledger_conservation_sample : (ledger sampleCalls).sum ⟨"team", "daily"⟩ 1 = 7
      ∧ memberTotal (ledger sampleCalls) ⟨"team", "daily"⟩ (· == 1) = 4
      ∧ unmemberedTotal (ledger sampleCalls) ⟨"team", "daily"⟩ 1 = 3
      ∧ (ledger sampleCalls).sum ⟨"team", "daily"⟩ 1
        = memberTotal (ledger sampleCalls) ⟨"team", "daily"⟩ (· == 1)
          + unmemberedTotal (ledger sampleCalls) ⟨"team", "daily"⟩ 1
      ∧ (durableCleanup ⟨"team", "daily"⟩ 5000000 (ledger sampleCalls)).2 = true := by
  obtain ⟨hsum, -, -, -, hcleanup⟩ := ledger_conservation sampleCalls (by decide)
  exact ⟨by decide +kernel, by decide +kernel, by decide +kernel, hsum _ _,
    (hcleanup (by decide)).1 _ _⟩

/-- Sixty-four bytes with a bar among them. -/
def barredFingerprint : String :=
  "0123456789abcdef0123456789abcdef|123456789abcdef0123456789abcdef"

/-- A reserve under another fingerprint, whose own lease ends later. -/
def laterReserve : ReserveArgs :=
  { sampleReserve "second" otherDigest 4 with
    reservations := [{ sampleReservation "second" 4 with expiresMillis := 5000000 }] }

/-- A fingerprint with a bar is accepted, and from the end of its lease
on no reserve can clean up its window. -/
theorem barred_fingerprint_blocks_reserves :
    FingerprintsDistinct [⟨⟨3600, 0⟩, .reserve (sampleReserve "first" barredFingerprint 3)⟩,
        ⟨⟨4100, 0⟩, .reserve laterReserve⟩]
      ∧ (ledger [⟨⟨3600, 0⟩, .reserve (sampleReserve "first" barredFingerprint 3)⟩]).sum
          ⟨"team", "daily"⟩ 1 = 3
      ∧ answer [⟨⟨3600, 0⟩, .reserve (sampleReserve "first" barredFingerprint 3)⟩]
          ⟨⟨4100, 0⟩, .reserve laterReserve⟩ = .stateUnavailable .cleanup := by
  decide +kernel

end LlmTemporalWorker.Budget
