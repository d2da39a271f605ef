/-
How a record changes over a run.

A record is never removed. Its identity and its request never change,
the claimed flag is only ever raised, a reservation never becomes
reserved again, and a finalized reservation never changes at all
(`Evolves`). Every call keeps this, so any two states of a run are
related by it (`evolves_runAll`).

Stored records are what `cjson` printed, so printing them again changes
nothing (`Encoded`); without that a claim or a settlement could move
fields that it does not mean to touch.
-/
import LlmTemporalWorker.Budget.Proofs.Effect

namespace LlmTemporalWorker.Budget

open Lib

-- ===== stored records

/-- Every stored record is one that was printed. -/
def Encoded (K : Keyspace) : Prop :=
  ∀ {op r}, K.records.lookup op = some r → durableEncode r = r

theorem encoded_empty : Encoded Keyspace.empty := by
  intro op r h
  cases h

variable {r : Record} {K K' : Keyspace}

theorem encode_of_durableEncode (h : durableEncode r = r)
    {x : HeldReservation} (hx : x ∈ r.reservations) : x.encode = x := by
  have hmap : r.reservations.map HeldReservation.encode
      = r.reservations := congrArg Record.reservations h
  have hid : r.reservations.map HeldReservation.encode = r.reservations.map id := by
    rw [hmap, List.map_id]
  exact List.map_inj_left.mp hid x hx

theorem Encoded.setRecord (h : Encoded K) (op : OperationKey) (r : Record) :
    Encoded (K.setRecord op (durableEncode r)) := by
  intro op' r' hr'
  rw [records_setRecord, lookup_insert_eq] at hr'
  split at hr'
  · cases hr'
    exact durableEncode_durableEncode r
  · exact h hr'

theorem Encoded.of_records (h : Encoded K) (hrec : K'.records = K.records) : Encoded K' := by
  intro op r hr
  rw [hrec] at hr
  exact h hr

theorem Effect.encoded {c : TimedCall} {reply : Reply}
    (heff : Effect c K K' reply) (h : Encoded K) : Encoded K' := by
  intro op r hr
  rcases heff.record op with hsame | ⟨r', hr', hw⟩
  · exact h (hsame.symm.trans hr)
  · cases hr'.symm.trans hr
    cases hw <;> exact durableEncode_durableEncode _

-- ===== evolution

/-- A reservation, earlier and later. -/
structure Advances (x y : HeldReservation) : Prop where
  request : y.toReservation = x.toReservation
  open_ : x.status ≠ .reserved → y.status ≠ .reserved
  final : x.status = .finalized → y = x

theorem Advances.refl (x : HeldReservation) : Advances x x := ⟨rfl, id, fun _ => rfl⟩

theorem Advances.trans {x y z : HeldReservation} (h : Advances x y)
    (h' : Advances y z) : Advances x z := by
  refine ⟨h'.request.trans h.request, h'.open_ ∘ h.open_, ?_⟩
  intro hx
  have hy := h.final hx
  exact (h'.final (hy ▸ hx)).trans hy

/-- A record, earlier and later. -/
structure Evolves (r r' : Record) : Prop where
  operation : r'.operationId = r.operationId
  generation : r'.generationId = r.generationId
  incarnation : r'.incarnationId = r.incarnationId
  fingerprint : r'.fingerprint = r.fingerprint
  startBy : r'.startByMillis = r.startByMillis
  claimed : r.claimed = true → r'.claimed = true
  events : ∀ {id fp}, r.events.lookup id = some fp → r'.events.lookup id = some fp
  reservations : List.Forall₂ Advances r.reservations r'.reservations

theorem Evolves.refl (r : Record) : Evolves r r :=
  ⟨rfl, rfl, rfl, rfl, rfl, id, id, List.forall₂_same.mpr fun x _ => Advances.refl x⟩

theorem Evolves.trans {r' r'' : Record} (h : Evolves r r')
    (h' : Evolves r' r'') : Evolves r r'' where
  operation := h'.operation.trans h.operation
  generation := h'.generation.trans h.generation
  incarnation := h'.incarnation.trans h.incarnation
  fingerprint := h'.fingerprint.trans h.fingerprint
  startBy := h'.startBy.trans h.startBy
  claimed := h'.claimed ∘ h.claimed
  events := h'.events ∘ h.events
  reservations := forall₂_trans (R := Advances)
    (fun hxy hyz => hxy.trans hyz) h.reservations h'.reservations

/-- Printing the later record. -/
theorem Evolves.encode {r' : Record} (h : Evolves r r')
    (hr : durableEncode r = r) : Evolves r (durableEncode r') := by
  have hstart : cjsonNumber r.startByMillis = r.startByMillis := congrArg Record.startByMillis hr
  refine ⟨h.operation, h.generation, h.incarnation, h.fingerprint, ?_, h.claimed, h.events, ?_⟩
  · show cjsonNumber r'.startByMillis = r.startByMillis
    rw [h.startBy, hstart]
  · show List.Forall₂ Advances r.reservations (r'.reservations.map HeldReservation.encode)
    rw [List.forall₂_map_right_iff]
    have hall := List.forall₂_and_left _ _ |>.mpr
      ⟨fun x hx => encode_of_durableEncode hr hx, h.reservations⟩
    refine hall.imp ?_
    rintro x y ⟨hx, hxy⟩
    refine ⟨?_, hxy.open_, ?_⟩
    · -- the encoding of a request depends on the request only
      rw [← congrArg HeldReservation.toReservation hx]
      simp only [HeldReservation.encode, hxy.request]
    · intro hfinal
      rw [hxy.final hfinal, hx]

theorem Transition.advances {claimed : Bool} {s : Staged}
    (h : Transition claimed s.reservation s.event s.newReserved
      s.newAccounted) : Advances s.reservation s.settled := by
  refine ⟨rfl, ?_, fun hfinal => absurd hfinal h.open_⟩
  intro _
  show s.event.kind.settles ≠ .reserved
  cases s.event.kind <;> decide

theorem Batched.evolves {es : List Event} {b : Batch} (hb : Batched K r es b) (hwf : RecordWf r) :
    Evolves r (b.staged.foldl settleRecord r) := by
  have hrule := applyAll_rule (C := fun _ r' =>
      r'.operationId = r.operationId ∧ r'.generationId = r.generationId
        ∧ r'.incarnationId = r.incarnationId
        ∧ r'.fingerprint = r.fingerprint
        ∧ r'.startByMillis = r.startByMillis ∧ r'.claimed = r.claimed
        ∧ List.Forall₂ Advances r.reservations r'.reservations)
    ?_ hwf ⟨rfl, rfl, rfl, rfl, rfl, rfl,
      List.forall₂_same.mpr fun x _ => Advances.refl x⟩ hb.items hb.indices
  · obtain ⟨hop, hgen, hinc, hfp, hstart, hclaimed, hres⟩ := hrule.2
    exact ⟨hop, hgen, hinc, hfp, hstart, fun h => hclaimed.trans h, hb.keeps_events, hres⟩
  · rintro K' r' s ⟨hop, hgen, hinc, hfp, hstart, hclaimed, hres⟩ hs
    exact ⟨hop, hgen, hinc, hfp, hstart, hclaimed,
      forall₂_trans (R := Advances) (fun hxy hyz => hxy.trans hyz) hres
        (forall₂_set Advances.refl hs.located hs.transition.advances)⟩

theorem evolves_claimed (r : Record) (h : durableEncode r = r) : Evolves r (claimedRecord r) := by
  have hclaimed : Evolves r { r with claimed := true } :=
    ⟨rfl, rfl, rfl, rfl, rfl, fun _ => rfl, id, List.forall₂_same.mpr fun x _ => Advances.refl x⟩
  exact hclaimed.encode h

/-- One call, from every record's point of view. -/
theorem Effect.evolves {c : TimedCall} {reply : Reply}
    (heff : Effect c K K' reply) (hK : Sound K) (henc : Encoded K)
    {op : OperationKey} (hr : K.records.lookup op = some r) :
    ∃ r', K'.records.lookup op = some r' ∧ Evolves r r' := by
  rcases heff.record op with hsame | ⟨r', hr', hw⟩
  · exact ⟨r, hsame.trans hr, Evolves.refl r⟩
  refine ⟨r', hr', ?_⟩
  cases hw with
  | accepted _ hnone => cases hnone.symm.trans hr
  | claimed _ hr₀ =>
    cases hr₀.symm.trans hr
    exact evolves_claimed r (henc hr)
  | settled _ hr₀ _ hb =>
    cases hr₀.symm.trans hr
    exact (hb.evolves (hK.wf hr)).encode (henc hr)

-- ===== runs

/-- What every state of a run satisfies. -/
theorem sound_runAll (hK : Sound K) (henc : Encoded K) (calls : List TimedCall) :
    Sound (runAll perform K calls) ∧ Encoded (runAll perform K calls) :=
  runAll_invariant (I := fun K => Sound K ∧ Encoded K) ⟨hK, henc⟩
    fun c _ _ h => ⟨h.1.perform c, (h.1.perform_effect c).encoded h.2⟩

theorem sound_ledger (calls : List TimedCall) : Sound (ledger calls) ∧ Encoded (ledger calls) :=
  sound_runAll (exact_empty fun _ => ⟨"", ""⟩).toSound encoded_empty calls

/-- A record of an earlier state, in a later one. -/
theorem evolves_runAll (hK : Sound K) (henc : Encoded K) {op : OperationKey}
    (hr : K.records.lookup op = some r) (calls : List TimedCall) :
    ∃ r', (runAll perform K calls).records.lookup op = some r' ∧ Evolves r r' := by
  refine (runAll_invariant (I := fun K' => Sound K' ∧ Encoded K'
    ∧ ∃ r', K'.records.lookup op = some r' ∧ Evolves r r')
    ⟨hK, henc, r, hr, Evolves.refl r⟩ ?_).2.2
  rintro c - K' ⟨hK', henc', r', hr', hev⟩
  have heff := hK'.perform_effect c
  obtain ⟨r'', hr'', hev'⟩ := heff.evolves hK' henc' hr'
  exact ⟨hK'.perform c, heff.encoded henc', r'', hr'', hev.trans hev'⟩

end LlmTemporalWorker.Budget
