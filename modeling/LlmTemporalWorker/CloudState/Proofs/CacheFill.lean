/-
One starter for every fill, whatever the calls do.

The calls of a key are proved one by one against `fillContract`, each
from the state it finds and with the others free to act between any two
of its operations. What they keep is that the head's history is legal
and that a receipt is the recorded end of its attempt, on hand before
the head goes to someone else.

Two things the calls cannot bear, and `Undisturbed` names them: a Start
or Release that is under way with a time from before its attempt took
the head, and an Acquire that is under way while the ended head of its
own attempt is replaced.
-/
import LlmTemporalWorker.CloudState.Proofs.FillHistory

namespace LlmTemporalWorker.CloudState

open Lib Contract Fills

-- ===== what is seen

variable (a : String) (s : FillStore)

/-- The attempt's end is on record. -/
def Ended (r : FillRecord) (s : FillStore) : Prop :=
  ∃ v ∈ s.history, v.record = r ∧ v.attempt = a ∧ v.terminal = true

/-- The attempt lost an unstarted lease to another attempt. -/
def TakenOver : Prop :=
  ∃ newer w v older, s.history = newer ++ w :: v :: older ∧
    v.attempt = a ∧ v.state = .held ∧ w.attempt ≠ a

/-- The attempt is started and has not ended. -/
def InProgress : Prop :=
  (∃ v ∈ s.history, v.attempt = a ∧ v.state = .started) ∧
    ∀ v ∈ s.history, v.attempt = a → v.terminal = false

/-- The attempt's ended head was replaced. -/
def Replaced : Prop :=
  (∃ r, Ended a r s) ∧ ∀ w ∈ s.history.head?, w.attempt ≠ a

/-- If the attempt took the head, it did so by this time. -/
def HeadBy (now : Int) (s : FillStore) : Prop :=
  ∀ v ∈ s.history, v.attempt = a → v.state = .held → v.writtenAt ≤ now

/-- What a call under way needs from the others. -/
def Undisturbed : FillJob → FillStore → FillStore → Prop
  | .acquire a _, s, s' => ¬Replaced a s → ¬Replaced a s'
  | .start a now, s, s' => HeadBy a now s → HeadBy a now s'
  | .release a now, s, s' => HeadBy a now s → HeadBy a now s'
  | .complete _ _, _, _ => True

/-- The time a call may be made with: an Acquire with one the clock has
reached, a Start or Release with one from after its attempt took the
head. -/
def Timely : FillJob → FillStore → Prop
  | .acquire _ now, s => now ≤ s.clock
  | .start a now, s => HeadBy a now s
  | .release a now, s => HeadBy a now s
  | .complete _ _, _ => True

-- ===== the invariant

variable (leases : Leases)

/-- What holds of a fill's store at all times. Its versions follow one
another lawfully, and an attempt that has ended has a receipt of its end
once it is not the head any more. -/
structure FillInv (s : FillStore) : Prop where
  legal : Legal leases s.history
  clock : ∀ v ∈ s.history, v.writtenAt ≤ s.clock
  valid : ∀ v ∈ s.history, validFillRecord v.record = true
  receipt : ∀ a r, s.receipts a = some r → Ended a r s
  receipted : ∀ a r, Ended a r s → (∀ w ∈ s.history.head?, w.attempt ≠ a) → s.receipts a = some r

/-- Time passes, versions are added, receipts stay. -/
structure FillLater (s s' : FillStore) : Prop where
  clock : s.clock ≤ s'.clock
  history : s.history <:+ s'.history
  receipts : ∀ a r, s.receipts a = some r → s'.receipts a = some r

namespace FillLater

variable {s s' s'' : FillStore}

theorem refl (s : FillStore) : FillLater s s := ⟨Int.le_refl _, List.suffix_refl _, fun _ _ h => h⟩

theorem trans (h : FillLater s s') (h' : FillLater s' s'') : FillLater s s'' :=
  ⟨Int.le_trans h.clock h'.clock, h.history.trans h'.history,
    fun a r hr => h'.receipts a r (h.receipts a r hr)⟩

theorem push (s : FillStore) (r : FillRecord) : FillLater s (s.push r) :=
  ⟨Int.le_refl _, List.suffix_cons _ _, fun _ _ h => h⟩

theorem sealed {r : FillRecord} (h : s.receipts r.attempt = none) : FillLater s (s.sealed r) := by
  refine ⟨Int.le_refl _, List.suffix_refl _, fun a r' hr' => ?_⟩
  have hne : a ≠ r.attempt := by
    rintro rfl
    rw [h] at hr'
    cases hr'
  simpa [FillStore.sealed, hne] using hr'

theorem ended {a : String} {r : FillRecord} (h : FillLater s s')
    (he : Ended a r s) : Ended a r s' := by
  obtain ⟨v, hv, heq⟩ := he
  exact ⟨v, h.history.subset hv, heq⟩

theorem takenOver {a : String} (h : FillLater s s') (ht : TakenOver a s) : TakenOver a s' := by
  obtain ⟨newer, w, v, older, hs, heq⟩ := ht
  obtain ⟨front, hfront⟩ := h.history
  refine ⟨front ++ newer, w, v, older, ?_, heq⟩
  rw [← hfront, hs, List.append_assoc]

end FillLater

theorem Undisturbed.refl (j : FillJob) (s : FillStore) : Undisturbed j s s := by
  cases j <;> simp [Undisturbed]

theorem Undisturbed.trans {j : FillJob} {s s' s'' : FillStore}
    (h : Undisturbed j s s') (h' : Undisturbed j s' s'') :
    Undisturbed j s s'' := by
  cases j with
  | complete a c => trivial
  | acquire a now | start a now | release a now => exact fun hs => h' (h hs)

/-- What a call needs from the others concerns the head alone. -/
theorem undisturbed_of_history {s s' : FillStore}
    (h : s'.history = s.history) (j : FillJob) : Undisturbed j s s' := by
  cases j <;> simp [Undisturbed, Replaced, Ended, HeadBy, h]

-- ===== endings

/-- What a Release or Complete asks for. -/
structure Ending where
  attempt : String
  target : FillState
  completion : FillCompletion
  now : Int

def FillJob.ending : FillJob → Option Ending
  | .release a now => some ⟨a, .released, .zero, now⟩
  | .complete a c => some ⟨a, .finished, c, c.completedAt⟩
  | _ => none

/-- The fill is over for the attempt, by its own end or by losing its
lease. -/
def Over : Option FillRecord → FillStore → Prop
  | some r, s => Ended a r s
  | none, s => TakenOver a s

/-- The answer to an ending once the fill is over. -/
def Ending.verdict (e : Ending) (closing : Option FillRecord) : Except CloudError Unit :=
  if e.target = .finished ∧ !validFillCompletion e.completion then
    .error .invalid
  else if !validFillLease (leases.lease e.attempt) then .error .invalid
  else if !validTime e.now ∨
      e.now < (leases.lease e.attempt).acquiredAt then .error .invalid
  else match closing with
    | some r => matchTerminal r e.target e.completion e.now
    | none => .error .conflict

/-- A storage failure, which says nothing about the fill. -/
def StorageFailure (r : Except CloudError Unit) : Prop :=
  ∃ e, e.isStorage = true ∧ r = .error e

/-- The attempt was granted the fill by an operation. -/
def Granted (s' : FillStore) : Prop :=
  (s'.history = s.history ∨ ∃ v, s'.history = v :: s.history) ∧
    ∃ v, s'.history.head? = some v ∧ v.attempt = a ∧ v.state = .held

/-- The attempt's fill was started by an operation. -/
def Started (s' : FillStore) : Prop :=
  ∃ v, s'.history = v :: s.history ∧ v.attempt = a ∧ v.state = .started

/-- An ending answers as the state it began in decides, and reports
success only of an end on record. -/
structure Answered (e : Ending) (since s' : FillStore)
    (r : Except CloudError Unit) : Prop where
  closing : ∀ closing, Over e.attempt closing since →
    r = e.verdict leases closing ∨ StorageFailure r
  ok : r = .ok () → ∃ record, Ended e.attempt record s' ∧ e.verdict leases (some record) = .ok ()

def FillPost (job : FillJob) (since s s' : FillStore) : FillResult → Prop
  | .acquired r => ∀ a now record, job = .acquire a now → r = .ok ⟨.owned, record⟩ → Granted a s s'
  | .started r => ∀ a now, job = .start a now → r = .ok true → Started a s s'
  | .ended r => ∀ e, job.ending = some e → Answered leases e since s' r

def fillContract : Contract (fillStorage leases).system where
  inv := FillInv leases
  later := FillLater
  acts := fun _ _ _ => True
  keeps := Undisturbed
  post := FillPost leases
  later_refl := FillLater.refl
  later_trans := FillLater.trans
  acts_refl := fun _ _ => trivial
  keeps_refl := Undisturbed.refl
  keeps_trans := Undisturbed.trans

/-- What a call counts on, and the weakest precondition of its program. -/
abbrev Leases.Rely := (fillContract leases).Rely

abbrev Leases.wp {α : Type} := (fillContract leases).wp (α := α)

-- ===== writes that keep it

variable {leases} {s s' s₀ : FillStore} {a : String} {r : FillRecord}

namespace FillInv

/-- The recorded end of an attempt is unique. -/
theorem ended_unique {r' : FillRecord} (h : FillInv leases s)
    (hr : Ended a r s) (hr' : Ended a r' s) : r = r' := by
  obtain ⟨v, hv, rfl, hva, hvt⟩ := hr
  obtain ⟨w, hw, rfl, hwa, hwt⟩ := hr'
  rw [h.legal.terminal_unique hv hw hvt hwt (hva.trans hwa.symm)]

/-- An attempt's end on record while it has the head is the head. -/
theorem head_of_ended {v : Version} (h : FillInv leases s)
    (hr : Ended a r s) (hv : s.history.head? = some v)
    (hva : v.attempt = a) : v.record = r := by
  obtain ⟨w, hw, rfl, hwa, hwt⟩ := hr
  rw [h.legal.eq_head_of_terminal hv hw hwt (hwa.trans hva.symm)]

/-- A new version keeps the invariant if the history stays legal and the
end it covers has its receipt. -/
theorem push (h : FillInv leases s) (hlegal : Legal leases (⟨r, s.clock⟩ :: s.history))
    (hvalid : validFillRecord r = true)
    (hreceipt : ∀ v ∈ s.history.head?, v.terminal = true →
      v.attempt ≠ r.attempt → s.receipts v.attempt = some v.record) :
    FillInv leases (s.push r) where
  legal := hlegal
  clock := List.forall_mem_cons.mpr ⟨Int.le_refl _, h.clock⟩
  valid := List.forall_mem_cons.mpr ⟨hvalid, h.valid⟩
  receipt := fun a r' hr' =>
    (FillLater.push s r).ended (h.receipt a r' hr')
  receipted := by
    intro a r' hr' hother
    have hne : r.attempt ≠ a := hother _ rfl
    obtain ⟨v, hv, rfl, hva, hvt⟩ := hr'
    have hv : v ∈ s.history := (List.mem_cons.mp hv).resolve_left
      fun heq => hne ((congrArg Version.attempt heq).symm.trans hva)
    have hend : Ended a v.record s := ⟨v, hv, rfl, hva, hvt⟩
    by_cases hhead : ∀ w ∈ s.history.head?, w.attempt ≠ a
    · exact h.receipted a _ hend hhead
    push Not at hhead
    obtain ⟨w, hw, hwa⟩ := hhead
    have hvw := h.legal.eq_head_of_terminal hw hv hvt (hva.trans hwa.symm)
    have := hreceipt w hw (hvw ▸ hvt) (hwa.trans_ne hne.symm)
    rw [hwa] at this
    rw [hvw]
    exact this

/-- An attempt that lost its unstarted lease has no head and no end. -/
theorem takenOver (h : FillInv leases s) (ht : TakenOver a s) :
    (∀ v ∈ s.history.head?, v.attempt ≠ a) ∧ ∀ r, ¬Ended a r s := by
  obtain ⟨newer, w, v, older, hhistory, rfl, hheld, hwa⟩ := ht
  have hlegal := h.legal
  rw [hhistory] at hlegal
  have hgone := hlegal.gone hwa
  constructor
  · intro u hu
    refine hgone u ?_
    cases newer with
    | nil | cons => simp_all
  · rintro r ⟨u, hu, -, hua, hut⟩
    have hsplit : newer ++ w :: v :: older = (newer ++ [w]) ++ v :: older :=
      by simp
    rw [hhistory, hsplit] at hu
    have hlegal' : Legal leases (v :: older) := hlegal.suffix ⟨newer ++ [w], hsplit.symm⟩
    rcases List.mem_append.mp hu with hu | hu
    · exact hgone u hu hua
    rcases List.mem_cons.mp hu with rfl | hu
    · simp [Version.terminal, FillRecord.terminal,
        show u.record.state = .held from hheld] at hut
    · exact hlegal'.first_of_held hheld u hu hua

theorem sealed (h : FillInv leases s) (hr : Ended r.attempt r s) : FillInv leases (s.sealed r) where
  legal := h.legal
  clock := h.clock
  valid := h.valid
  receipt := by
    intro a r' hr'
    by_cases ha : a = r.attempt
    · simp only [FillStore.sealed, ha, if_true, Option.some.injEq] at hr'
      rw [ha, ← hr']
      exact hr
    · simp only [FillStore.sealed, ha, if_false] at hr'
      exact h.receipt a r' hr'
  receipted := by
    intro a r' hr' hother
    by_cases ha : a = r.attempt
    · simp only [FillStore.sealed, ha, if_true, Option.some.injEq]
      exact h.ended_unique hr (ha ▸ hr')
    · simp only [FillStore.sealed, ha, if_false]
      exact h.receipted a r' hr' hother

end FillInv

-- ===== reads and writes

section

variable {j : FillJob} {lease : FillLease} {now : Int}

/-- The checks of the arguments that every call begins with. -/
theorem wp_checked {α : Type} {k : FillLease → Fills α}
    {Q : FillStore → FillStore → Except CloudError α → Prop}
    (hinvalid : validFillLease lease = false ∨ ((!validTime now) = true ∨ now < lease.acquiredAt) →
      Q s₀ s (.error .invalid))
    (hvalid : validFillLease lease = true → validTime now = true → lease.acquiredAt ≤ now →
      leases.wp j (k lease).run Q s₀ s) :
    leases.wp j (show Fills α from do
      let lease ← Program.check (normalizeFillLease lease)
      if !validTime now ∨ now < lease.acquiredAt then throw .invalid
      k lease).run Q s₀ s := by
  refine wp_check_bind.mpr ?_
  by_cases hlease : validFillLease lease = true
  · rw [normalizeFillLease, if_pos hlease]
    refine wp_ite (fun htime => hinvalid (.inr htime)) fun htime => ?_
    obtain ⟨hnow, hfrom⟩ := not_or.mp htime
    exact hvalid hlease (by simpa using hnow) (Int.not_lt.mp hfrom)
  · rw [normalizeFillLease, if_neg hlease]
    exact hinvalid (.inl (by simpa using hlease))

/-- What a read of the head finds: the newest version, valid and of this
key. -/
theorem wp_read
    {Q : FillStore → FillStore → Except CloudError (FillRecord × Nat) → Prop}
    (hkey : lease.key = leases.key)
    (hsome : ∀ s' v, leases.Rely j s s' →
      s'.history.head? = some v → Q s' s' (.ok (v.record, s'.history.length)))
    (hnone : ∀ s', leases.Rely j s s' → s'.history = [] → Q s' s' (.error .notFound))
    (hstorage : ∀ s' e, leases.Rely j s s' → e.isStorage = true → Q s' s' (.error e)) :
    leases.wp j (Fills.read lease.key).run Q s₀ s := by
  refine wp_run_bind.mpr ?_
  refine wp_get (fun _ _ => rfl) ?_ ?_ ?_
  · intro s' row hs' hrow
    obtain ⟨record, hhead, rfl⟩ := Option.map_eq_some_iff.mp hrow
    obtain ⟨v, hv, rfl⟩ := Option.map_eq_some_iff.mp hhead
    have hmem := List.mem_of_mem_head? hv
    have hinv : FillInv leases s' := hs'.inv
    have hlease : v.record.lease.key = lease.key := by
      rw [hinv.legal.lease_eq hmem, leases.key_eq, hkey]
    have hgood : ¬(v.record.lease.key ≠ lease.key ∨ (!validFillRecord v.record) = true) := by
      simp [hlease, hinv.valid v hmem]
    dsimp only
    rw [if_neg hgood]
    exact hsome s' v hs' hv
  · intro s' hs' hrow
    exact hnone s' hs' (List.head?_eq_none_iff.mp
      (Option.map_eq_none_iff.mp (Option.map_eq_none_iff.mp hrow)))
  · exact hstorage

variable {Q : FillStore → FillStore → Except CloudError Unit → Prop}

/-- After a seal the receipt is the attempt's end. -/
theorem wp_sealTerminal (hr : Ended r.attempt r s) (hok : ∀ t s', leases.Rely j s s' →
      s'.receipts r.attempt = some r → Q t s' (.ok ()))
    (hstorage : ∀ t s' e, leases.Rely j s s' → e.isStorage = true → Q t s' (.error e)) :
    leases.wp j (sealTerminal r).run Q s₀ s := by
  have hsame : ∀ s' r', leases.Rely j s s' →
      s'.receipts r.attempt = some r' → r = r' := fun s' r' hs' hr' =>
    hs'.inv.ended_unique (hs'.later.ended hr) (hs'.inv.receipt _ _ hr')
  refine wp_observe_bind.mpr ?_
  refine wp_get (fun _ _ => rfl) ?_ ?_ ?_
  · intro s' r' hs' hr'
    obtain rfl := hsame s' r' hs' hr'
    simpa using hok s' s' hs' hr'
  · intro s' hs' hnone
    refine wp_observe_bind.mpr ?_
    have hkept : ∀ t : FillStore, leases.Rely j s t → t.receipts r.attempt = none →
        leases.Rely j s (t.sealed r) := fun t ht hnone =>
      ht.trans ⟨FillInv.sealed ht.inv (ht.later.ended hr), .sealed hnone,
        @undisturbed_of_history t (t.sealed r) rfl j⟩
    refine wp_put (fun _ _ => rfl) ?_ ?_ ?_ ?_
    · intro t u ht hu htu hcond
      have hnone := Option.isNone_iff_eq_none.mp hcond
      exact ⟨FillInv.sealed hu (htu.ended ((hs'.trans ht).later.ended hr)), .sealed hnone, trivial⟩
    · intro t ht hcond
      have hnone := Option.isNone_iff_eq_none.mp hcond
      refine hok t _ (hkept t (hs'.trans ht) hnone) ?_
      simp [FillStore.sealed]
    · intro t ht hcond
      refine wp_run_bind.mpr ?_
      refine wp_get (fun _ _ => rfl) ?_ ?_ ?_
      · intro u r' hu hr'
        have hsu := (hs'.trans ht).trans hu
        obtain rfl := hsame u r' hsu hr'
        simpa using hok u u hsu hr'
      · intro u hu hnone
        -- a receipt that was there does not go away
        obtain ⟨r', hr'⟩ := Option.isSome_iff_exists.mp
          (by simpa using hcond : (t.receipts r.attempt).isSome = true)
        rw [hu.later.receipts _ r' hr'] at hnone
        cases hnone
      · exact fun u e hu he => hstorage u u e ((hs'.trans ht).trans hu) he
    · intro t u e ht he hu
      have hsu : leases.Rely j s u := by
        rcases hu with rfl | ⟨hcond, rfl⟩
        · exact hs'.trans ht
        · exact hkept t (hs'.trans ht) (Option.isNone_iff_eq_none.mp hcond)
      rcases CloudError.isStorage_cases he with rfl | rfl
      all_goals exact hstorage t u _ hsu he
  · intro s' e hs' he
    rcases CloudError.isStorage_cases he with rfl | rfl
    all_goals exact hstorage s' s' _ hs' he

/-- A receipt is read as the attempt's end, or is missing. -/
theorem wp_readTerminal
    {Q : FillStore → FillStore → Except CloudError (Option FillRecord) → Prop}
    (hsome : ∀ s' r, leases.Rely j s s' → s'.receipts a = some r → Q s' s' (.ok (some r)))
    (hnone : ∀ s', leases.Rely j s s' → s'.receipts a = none → Q s' s' (.ok none))
    (hstorage : ∀ s' e, leases.Rely j s s' → e.isStorage = true → Q s' s' (.error e)) :
    leases.wp j (readTerminal (leases.lease a)).run Q s₀ s := by
  have hattempt := leases.attempt_eq a
  refine wp_observe_bind.mpr ?_
  rw [hattempt]
  refine wp_get (fun _ _ => rfl) ?_ ?_ ?_
  · intro s' r hs' hr
    have hinv : FillInv leases s' := hs'.inv
    obtain ⟨v, hv, rfl, hva, hvt⟩ := hinv.receipt a r hr
    have hlease : v.record.lease = leases.lease a := hva ▸ hinv.legal.lease_eq hv
    have hterminal : v.record.terminal = true := hvt
    simpa [hinv.valid v hv, hterminal, hlease, hattempt]
      using hsome s' v.record hs' hr
  · exact fun s' hs' hr => hnone s' hs' hr
  · intro s' e hs' he
    rcases CloudError.isStorage_cases he with rfl | rfl
    all_goals exact hstorage s' _ hs' he

/-- A write of the head that lands only where the history is `h`. -/
theorem wp_pushed {op : FillOp} {value : op.Value} {condition : FillStore → Bool}
    {refusal : CloudError} {h : List Version}
    {Q : FillStore → FillStore → Except CloudError op.Value → Prop}
    (hexec : ∀ fate s, FillStore.exec op fate s =
      writeRow fate (condition s) refusal value s (s.push r))
    (hsame : ∀ t, FillLater s t → condition t = true → t.history = h)
    (hpush : ∀ t, FillInv leases t → FillLater s t → t.history = h → FillInv leases (t.push r))
    (hdone : ∀ s', leases.Rely j s s' → s'.history = h → Q s' (s'.push r) (.ok value))
    (hrefused : ∀ s', leases.Rely j s s' → Q s' s' (.error refusal))
    (hstorage : ∀ s' t e, leases.Rely j s s' → e.isStorage = true → Q s' t (.error e)) :
    leases.wp j (Program.request op).run Q s₀ s := by
  refine wp_put hexec ?_ ?_ ?_ ?_
  · intro s' t hs' ht hst hcond
    have hlater := hs'.later.trans hst
    exact ⟨hpush t ht hlater (hsame t hlater hcond), .push t r, trivial⟩
  · exact fun s' hs' hcond => hdone s' hs' (hsame s' hs'.later hcond)
  · exact fun s' hs' _ => hrefused s' hs'
  · exact fun s' t e hs' he _ => hstorage s' t e hs' he

/-- A version that was seen is replaced only while it is the newest. -/
theorem history_eq_of_seen {h : List Version} (hseen : h <:+ s.history) (t : FillStore)
    (ht : FillLater s t) (hcond : (t.history.length == h.length && h.length != 0) = true) :
    t.history = h := by
  simp only [Bool.and_eq_true, beq_iff_eq] at hcond
  exact ((hseen.trans ht.history).eq_of_length hcond.1.symm).symm

end

-- ===== Acquire

theorem decideFill_owned {current record : FillRecord} {lease : FillLease}
    {now : Int} (h : decideFill current lease now = some ⟨.owned, record⟩) :
    current.lease.attempt = lease.attempt ∧ current.state = .held := by
  unfold decideFill at h
  by_cases hattempt : current.lease.attempt = lease.attempt
  · refine ⟨hattempt, ?_⟩
    rw [if_pos hattempt] at h
    by_cases hlease : current.lease = lease
    · cases hs : current.state <;> simp_all
    · simp [hlease] at h
  · rw [if_neg hattempt] at h
    repeat' split at h
    all_goals simp at h

theorem decideFill_none {v : Version} {lease : FillLease} {now : Int}
    (h : decideFill v.record lease now = none) :
    v.attempt ≠ lease.attempt ∧ Yields v lease now := by
  unfold decideFill at h
  by_cases hattempt : v.record.lease.attempt = lease.attempt
  · rw [if_pos hattempt] at h
    by_cases hlease : v.record.lease = lease
    · cases hs : v.record.state <;> simp_all
    · simp [hlease] at h
  · rw [if_neg hattempt] at h
    refine ⟨hattempt, ?_, ?_, ?_⟩
    · intro hs
      simp [show v.record.state = .started from hs] at h
    · intro hs
      have hs : v.record.state = .held := hs
      simp only [hs] at h
      by_cases hnow : now < v.record.lease.expiresAt
      · simp [hnow] at h
      by_cases hlate : lease.acquiredAt ≤ v.record.updatedAt
      · simp [hnow, hlate] at h
      · exact ⟨Int.not_lt.mp hnow, Int.not_le.mp hlate⟩
    · intro hs
      have hs : v.record.state = .released ∨ v.record.state = .finished := by
        simpa [Version.terminal, FillRecord.terminal] using hs
      by_cases hlate : lease.expiresAt ≤ v.record.updatedAt
      · rcases hs with hs | hs <;> simp [hs, hlate] at h
      · exact Int.not_le.mp hlate

section

variable {now : Int} {again : Fills FillDecision}

theorem validFillRecord_heldRecord {lease : FillLease} (h : validFillLease lease = true) :
    validFillRecord (heldRecord lease) = true := by
  have htime : validTime lease.acquiredAt = true := by
    simp only [validFillLease, Bool.and_eq_true] at h
    exact h.1.1.1.2
  simp [validFillRecord, heldRecord, h, htime]

/-- What an Acquire is proved to return. -/
def AcquirePost (a : String) (s s' : FillStore) (r : Except CloudError FillDecision) : Prop :=
  ∀ record, r = .ok ⟨.owned, record⟩ → Granted a s s'

variable {s s₀ : FillStore}

theorem granted_push : Granted a s (s.push (heldRecord (leases.lease a))) :=
  ⟨.inr ⟨_, rfl⟩, _, rfl, leases.attempt_eq a, rfl⟩

variable (hagain : ∀ s₀ s', leases.Rely (.acquire a now) s s' →
  leases.wp (.acquire a now) again.run (AcquirePost a) s₀ s')

include hagain in
/-- Whatever the write comes to, an Acquire that goes round again does
so in a state that is still open to its attempt. -/
theorem wp_takeHead_after {s' : FillStore} {e : CloudError}
    (hs' : leases.Rely (.acquire a now) s s') :
    leases.wp (.acquire a now) (if retryFillConflict e then again else throw e).run
      (AcquirePost a) s₀ s' := by
  by_cases he : retryFillConflict e = true
  · rw [if_pos he]
    exact hagain s₀ s' hs'
  · rw [if_neg he]
    exact fun record h => nomatch h

include hagain in
theorem wp_takeHead_create (hlease : validFillLease (leases.lease a) = true) :
    leases.wp (.acquire a now) (takeHead (leases.lease a) none again).run (AcquirePost a) s₀ s := by
  refine wp_observe_bind.mpr ?_
  refine wp_pushed (h := []) (fun _ _ => rfl) (fun t _ ht => ?_) ?_ ?_ ?_ ?_
  · exact List.eq_nil_of_length_eq_zero (by simpa using ht)
  · intro t ht _ hempty
    refine ht.push ?_ (validFillRecord_heldRecord hlease) ?_
    · rw [hempty]
      exact .acquire .nil (fun _ hv => nomatch hv) (fun _ hv => nomatch hv) (fun _ hv => nomatch hv)
    · rw [hempty]
      exact fun _ hv => nomatch hv
  · exact fun s' hs' _ record _ => granted_push
  · exact fun s' hs' => wp_takeHead_after hagain hs'
  · intro s' t e hs' he
    rcases CloudError.isStorage_cases he with rfl | rfl
    all_goals exact fun record h => nomatch h

include hagain in
theorem wp_takeHead_replace {v : Version} {h : List Version}
    (hlease : validFillLease (leases.lease a) = true)
    (hseen : v :: h <:+ s.history) (hnow : now ≤ s.clock)
    (hdecide : decideFill v.record (leases.lease a) now = none)
    (hopen : ∀ u ∈ v :: h, u.attempt = a → u.terminal = false)
    (hreceipt : v.terminal = true → s.receipts v.attempt = some v.record) :
    leases.wp (.acquire a now) (takeHead (leases.lease a) (some (v :: h).length) again).run
      (AcquirePost a) s₀ s := by
  obtain ⟨hother, hyields⟩ := decideFill_none hdecide
  rw [leases.attempt_eq] at hother
  refine wp_observe_bind.mpr ?_
  refine wp_pushed (fun _ _ => rfl) (history_eq_of_seen hseen) ?_ ?_ ?_ ?_
  · intro t ht hst hhistory
    have hlegal := ht.legal
    rw [hhistory] at hlegal
    have hclock : now ≤ t.clock := Int.le_trans hnow hst.clock
    have hyields' : Yields v (leases.lease a) t.clock := ⟨hyields.notStarted, fun hheld =>
        ⟨Int.le_trans (hyields.expired hheld).1 hclock, (hyields.expired hheld).2⟩, hyields.ended⟩
    refine ht.push ?_ (validFillRecord_heldRecord hlease) ?_
    · rw [hhistory]
      refine .acquire hlegal (hlegal.fresh rfl hyields' hother hopen) ?_ ?_
      · intro u hu
        obtain rfl := Option.some.inj hu
        exact hyields'
      · intro u hu
        obtain rfl := Option.some.inj hu
        exact ht.clock v (hhistory ▸ List.mem_cons_self)
    · intro u hu huend _
      rw [hhistory] at hu
      obtain rfl := Option.some.inj hu
      exact hst.receipts _ _ (hreceipt huend)
  · exact fun s' hs' _ record _ => granted_push
  · exact fun s' hs' => wp_takeHead_after hagain hs'
  · intro s' t e hs' he
    rcases CloudError.isStorage_cases he with rfl | rfl
    all_goals exact fun record h => nomatch h

/-- An Acquire under way keeps the contract from every state in which
the ended head of its attempt was not replaced. -/
theorem wp_acquireLoop (hlease : validFillLease (leases.lease a) = true)
    (rounds : Nat) (hnow : now ≤ s.clock) (hopen : ¬Replaced a s) :
    leases.wp (.acquire a now) (acquireLoop (leases.lease a) now rounds).run (AcquirePost a)
      s₀ s := by
  induction rounds generalizing s₀ s with
  | zero => exact fun record h => nomatch h
  | succ rounds ih =>
    have hagain : ∀ s', leases.Rely (.acquire a now) s s' →
        ∀ t₀ t, leases.Rely (.acquire a now) s' t →
        leases.wp (.acquire a now) (acquireLoop (leases.lease a) now rounds).run
          (AcquirePost a) t₀ t := by
      intro s' hs' t₀ t ht
      have hst := hs'.trans ht
      exact ih (Int.le_trans hnow hst.later.clock) (hst.keeps hopen)
    refine wp_observe_bind.mpr ?_
    refine wp_read (leases.key_eq a) ?_ ?_ ?_
    · intro s' v hs' hv
      obtain ⟨h, hhistory⟩ := List.head?_eq_some_iff.mp hv
      dsimp only
      cases hdecide : decideFill v.record (leases.lease a) now with
      | some decision =>
        intro record hrecord
        obtain rfl := Except.ok.inj hrecord
        obtain ⟨hattempt, hheld⟩ := decideFill_owned hdecide
        rw [leases.attempt_eq] at hattempt
        exact ⟨.inl rfl, v, hv, hattempt, hheld⟩
      | none =>
        have hother := (decideFill_none hdecide).1
        rw [leases.attempt_eq] at hother
        have hopen' : ∀ u ∈ v :: h, u.attempt = a → u.terminal = false := by
          intro u hu hua
          by_contra hterminal
          refine hs'.keeps hopen ⟨⟨u.record, u, hhistory ▸ hu, rfl, hua,
            by simpa using hterminal⟩, ?_⟩
          intro w hw
          rw [hv] at hw
          obtain rfl := Option.some.inj hw
          exact hother
        have hclock := Int.le_trans hnow hs'.later.clock
        rw [hhistory]
        by_cases hend : v.record.terminal = true
        · have hended : Ended v.record.attempt v.record s' :=
            ⟨v, List.mem_of_mem_head? hv, rfl, rfl, hend⟩
          simp only [hend, if_true]
          refine wp_run_bind.mpr (wp_sealTerminal hended ?_ ?_)
          · intro _ t ht hreceipt
            refine wp_takeHead_replace (hagain t (hs'.trans ht)) hlease ?_ ?_ hdecide hopen'
              fun _ => hreceipt
            · exact hhistory ▸ ht.later.history
            · exact Int.le_trans hclock ht.later.clock
          · exact fun _ t e _ _ record h => nomatch h
        · simp only [hend]
          refine wp_takeHead_replace (hagain s' hs') hlease ?_ hclock hdecide hopen'
            fun hterminal => absurd hterminal hend
          exact hhistory ▸ List.suffix_refl _
    · exact fun s' hs' _ => wp_takeHead_create (hagain s' hs') hlease
    · intro s' e hs' he
      rcases CloudError.isStorage_cases he with rfl | rfl
      all_goals exact fun record h => nomatch h

theorem wp_acquire (hnow : now ≤ s.clock) : leases.wp (.acquire a now)
      (acquire (leases.lease a) now).run (AcquirePost a) s₀ s := by
  refine wp_checked ?_ ?_
  · exact fun _ record h => nomatch h
  intro hlease _ _
  refine wp_run_bind.mpr (wp_readTerminal ?_ ?_ ?_)
  · exact fun s' r _ _ record h => nomatch h
  · intro s' hs' hnone
    refine wp_acquireLoop hlease maxRounds (Int.le_trans hnow hs'.later.clock) ?_
    rintro ⟨⟨r, hr⟩, hother⟩
    rw [FillInv.receipted hs'.inv a r hr hother] at hnone
    cases hnone
  · exact fun s' e _ _ record h => nomatch h

end

-- ===== Start

section

variable {now : Int}

/-- What a Start is proved to return. -/
def StartPost (a : String) (s s' : FillStore) (r : Except CloudError Bool) :
    Prop :=
  r = .ok true → Started a s s'

/-- The owner is whoever has the head. -/
theorem wp_readOwner {j : FillJob}
    {Q : FillStore → FillStore → Except CloudError (FillRecord × Nat) → Prop}
    (howner : ∀ s' v, leases.Rely j s s' → s'.history.head? = some v → v.attempt = a →
      Q s' s' (.ok (v.record, s'.history.length)))
    (hother : ∀ s', leases.Rely j s s' → (∀ v ∈ s'.history.head?, v.attempt ≠ a) →
      Q s' s' (.error .conflict))
    (hnone : ∀ s', leases.Rely j s s' → s'.history = [] → Q s' s' (.error .notFound))
    (hstorage : ∀ s' e, leases.Rely j s s' → e.isStorage = true → Q s' s' (.error e)) :
    leases.wp j (readOwner (leases.lease a)).run Q s₀ s := by
  refine wp_run_bind.mpr (wp_read (leases.key_eq a) ?_ hnone hstorage)
  intro s' v hs' hv
  have hinv : FillInv leases s' := hs'.inv
  have hlease := hinv.legal.lease_eq (List.mem_of_mem_head? hv)
  dsimp only
  by_cases hattempt : v.attempt = a
  · rw [if_neg (by simp [hlease, hattempt])]
    exact howner s' v hs' hv hattempt
  have hne : v.record.lease ≠ leases.lease a := by
    intro heq
    refine hattempt ?_
    rw [Version.attempt, FillRecord.attempt, heq, leases.attempt_eq]
  rw [if_pos hne]
  refine hother s' hs' ?_
  intro w hw
  rw [hv] at hw
  obtain rfl := Option.some.inj hw
  exact hattempt

theorem validFillRecord_started {v : Version}
    (hvalid : validFillRecord v.record = true) (hheld : v.state = .held)
    (htime : validTime now = true) (hfrom : v.record.lease.acquiredAt ≤ now)
    (hto : now < v.record.lease.expiresAt) :
    validFillRecord { v.record with state := .started, updatedAt := now } =
      true := by
  simp only [validFillRecord, show v.record.state = .held from hheld,
    Bool.and_eq_true, beq_iff_eq] at hvalid
  simp [validFillRecord, hvalid.1.1.1, hvalid.2.2, htime, hfrom, hto]

theorem wp_startLoop (htime : validTime now = true)
    (hfrom : (leases.lease a).acquiredAt ≤ now) (rounds : Nat)
    {s₀ s : FillStore} (hby : HeadBy a now s) :
    leases.wp (.start a now) (startLoop (leases.lease a) now rounds).run (StartPost a) s₀ s := by
  induction rounds generalizing s₀ s with
  | zero => exact fun h => by cases h
  | succ rounds ih =>
    refine wp_run_bind.mpr (wp_readOwner ?_ ?_ ?_ ?_)
    · intro s' v hs' hv hattempt
      have hmem := List.mem_of_mem_head? hv
      have hinv : FillInv leases s' := hs'.inv
      have hlease : v.record.lease = leases.lease a := hattempt ▸ hinv.legal.lease_eq hmem
      obtain ⟨h, hhistory⟩ := List.head?_eq_some_iff.mp hv
      refine wp_ite (fun _ h => by cases h) fun hstarted => ?_
      refine wp_ite (fun _ h => by cases h) fun hlate => ?_
      obtain ⟨hheld, hto⟩ := not_or.mp hlate
      have hheld : v.state = .held := not_not.mp hheld
      refine wp_observe_bind.mpr ?_
      rw [hhistory]
      have hseen : v :: h <:+ s'.history := hhistory ▸ List.suffix_refl _
      refine wp_pushed (fun _ _ => rfl) (history_eq_of_seen hseen) ?_ ?_ ?_ ?_
      · intro t ht hst ht'
        have hlegal := ht.legal
        rw [ht'] at hlegal
        have hvt : v ∈ t.history := ht' ▸ List.mem_cons_self
        refine ht.push ?_ (validFillRecord_started (ht.valid v hvt) hheld
          htime (hlease ▸ hfrom) (hlease ▸ Int.not_le.mp hto)) ?_
        · rw [ht']
          exact .advance hlegal (.start hheld
            (hs'.keeps hby v hmem hattempt hheld)) (ht.clock v hvt)
        · intro w hw hwt
          rw [ht'] at hw
          obtain rfl := Option.some.inj hw
          simp [Version.terminal, FillRecord.terminal,
            show v.record.state = .held from hheld] at hwt
      · exact fun t ht _ _ => ⟨_, rfl, hattempt, rfl⟩
      · intro t ht
        exact ih ((hs'.trans ht).keeps hby)
      · intro t u e ht he
        rcases CloudError.isStorage_cases he with rfl | rfl
        all_goals exact fun h => by cases h
    · exact fun s' _ _ h => by cases h
    · exact fun s' _ _ h => by cases h
    · exact fun s' e _ _ h => by cases h

theorem wp_start {s₀ s : FillStore} (hby : HeadBy a now s) : leases.wp (.start a now)
      (start (leases.lease a) now).run (StartPost a) s₀ s := by
  refine wp_checked ?_ ?_
  · exact fun _ h => nomatch h
  · exact fun _ htime hfrom => wp_startLoop htime hfrom maxRounds hby

end

-- ===== Release, Complete

section

variable {e : Ending} {since : FillStore} {j : FillJob}

/-- A release without a completion, or a valid completion. -/
def Ending.Shaped (e : Ending) : Prop :=
  e.target = .released ∧ e.completion = .zero ∨
    e.target = .finished ∧ validFillCompletion e.completion = true ∧
      e.completion.completedAt = e.now

/-- The arguments of an ending that passed its checks. -/
structure Ending.Checked (leases : Leases) (e : Ending) : Prop where
  time : validTime e.now = true
  acquired : (leases.lease e.attempt).acquiredAt ≤ e.now
  lease : validFillLease (leases.lease e.attempt) = true
  shape : e.Shaped

theorem Ending.Shaped.not_refused (h : e.Shaped) : ¬(e.target = .finished ∧
      (!validFillCompletion e.completion) = true) := by
  rintro ⟨htarget, hinvalid⟩
  rcases h with ⟨hreleased, _⟩ | ⟨_, hvalid, _⟩
  · rw [htarget] at hreleased
    cases hreleased
  · simp [hvalid] at hinvalid

/-- The verdict on an ending that passed its checks. -/
theorem Ending.Checked.verdict {closing : Option FillRecord} (h : e.Checked leases) :
    e.verdict leases closing = match closing with
      | some r => matchTerminal r e.target e.completion e.now
      | none => .error .conflict := by
  have htime : ¬((!validTime e.now) = true ∨ e.now < (leases.lease e.attempt).acquiredAt) := by
    simp [h.time, h.acquired]
  unfold Ending.verdict
  rw [if_neg h.shape.not_refused, if_neg (by simp [h.lease]),
    if_neg htime]

/-- A storage failure answers nothing, and nothing is lost by it. -/
theorem answered_storage {x : CloudError} (hx : x.isStorage = true) :
    Answered leases e since s' (.error x) :=
  ⟨fun _ _ => .inr ⟨x, hx, rfl⟩, nofun⟩

/-- The answer read off a receipt. -/
theorem answered_receipt (he : e.Checked leases)
    (hinv : FillInv leases s') (hlater : FillLater since s')
    (hr : s'.receipts e.attempt = some r) :
    Answered leases e since s' (matchTerminal r e.target e.completion e.now) := by
  have hend := hinv.receipt _ _ hr
  refine ⟨fun closing hover => .inl ?_, fun hok => ⟨r, hend, ?_⟩⟩
  · rw [he.verdict]
    cases closing with
    | some r' =>
      rw [hinv.ended_unique hend (hlater.ended hover)]
    | none => exact absurd hend ((hinv.takenOver (hlater.takenOver hover)).2 r)
  · rw [he.verdict]
    exact hok

/-- An ending that finds the fill neither over for its attempt nor in
its own hands may answer anything but success. -/
theorem answered_open {x : CloudError} (hopen : ∀ closing, ¬Over e.attempt closing since) :
    Answered leases e since s' (.error x) :=
  ⟨fun closing hover => absurd hover (hopen closing), nofun⟩

/-- Without the head, a fill that is over is answered with a
conflict if there is no receipt. -/
theorem answered_other {t : FillStore} (he : e.Checked leases)
    (hinv : FillInv leases t) (hlater : FillLater since t)
    (hother : ∀ v ∈ t.history.head?, v.attempt ≠ e.attempt)
    (hts : FillLater t s') (hnone : s'.receipts e.attempt = none) :
    Answered leases e since s' (.error .conflict) := by
  refine ⟨fun closing hover => .inl ?_, nofun⟩
  rw [he.verdict]
  cases closing with
  | none => rfl
  | some r =>
    have hreceipt := hinv.receipted _ r (hlater.ended hover) hother
    rw [hts.receipts _ _ hreceipt] at hnone
    cases hnone

variable {v : Version}

/-- An owner whose head is not terminal has nothing behind it. -/
theorem not_over_of_head (hinv : FillInv leases s')
    (hlater : FillLater since s') (hv : s'.history.head? = some v)
    (hva : v.attempt = e.attempt) (hend : v.terminal = false)
    (closing : Option FillRecord) : ¬Over e.attempt closing since := by
  intro hover
  cases closing with
  | none => exact (hinv.takenOver (hlater.takenOver hover)).1 v hv hva
  | some r =>
    obtain ⟨w, hw, rfl, hwa, hwt⟩ := hlater.ended hover
    have hwv := hinv.legal.eq_head_of_terminal hv hw hwt (hwa.trans hva.symm)
    rw [hwv, hend] at hwt
    cases hwt

/-- The record an ending writes. -/
def Ending.record (e : Ending) (current : FillRecord) : FillRecord :=
  { current with
    state := e.target
    updatedAt := e.now
    completion := e.completion }

theorem Ending.Checked.terminal {current : FillRecord}
    (he : e.Checked leases) : (e.record current).terminal = true := by
  rcases he.shape with ⟨htarget, _⟩ | ⟨htarget, _⟩ <;>
    simp [Ending.record, FillRecord.terminal, htarget]

theorem Ending.Checked.valid (he : e.Checked leases)
    (hlease : v.record.lease = leases.lease e.attempt) :
    validFillRecord (e.record v.record) = true := by
  rcases he.shape with ⟨htarget, hzero⟩ | ⟨htarget, hvalid, hat⟩
  · simp [validFillRecord, Ending.record, hlease, he.lease, he.time, he.acquired, htarget, hzero]
  · simp [validFillRecord, Ending.record, hlease, he.lease, he.time,
      he.acquired, htarget, hvalid, hat]

/-- The head an ending may move on. -/
theorem Ending.Checked.advances (he : e.Checked leases) (hnow : v.record.updatedAt ≤ e.now)
    (hheld : e.target = .released → v.state = .held ∧ v.writtenAt ≤ e.now ∧
      v.record.completion = .zero)
    (hstarted : e.target = .finished → v.state = .started) :
    Advances v (e.record v.record) := by
  rcases he.shape with ⟨htarget, hzero⟩ | ⟨htarget, _, _⟩
  · obtain ⟨hheld, hwritten, hcompletion⟩ := hheld htarget
    have := Advances.release hheld hwritten
    simpa [Ending.record, htarget, hzero, ← hcompletion] using this
  · have := @Advances.finish v e.now e.completion (hstarted htarget) hnow
    simpa [Ending.record, htarget] using this

/-- Looking at the published responses changes nothing. -/
theorem wp_validatePublished {lease : FillLease} {at' : Int}
    {completion : FillCompletion}
    {Q : FillStore → FillStore → Except CloudError Unit → Prop}
    (hQ : ∀ s' r, leases.Rely j s s' → Q s' s' r) :
    leases.wp j (validatePublished lease at' completion).run Q s₀ s := by
  refine wp_run_bind.mpr (wp_get (fun _ _ => rfl) ?_ ?_ ?_)
  · intro s' entry hs' _
    dsimp only
    split
    · exact hQ s' _ hs'
    refine wp_observe_bind.mpr ?_
    refine wp_get (fun _ _ => rfl) ?_ ?_ ?_
    · intro t head ht _
      have hst := hs'.trans ht
      dsimp only
      split
      · exact hQ t _ hst
      split
      · exact hQ t _ hst
      · exact hQ t _ hst
    · exact fun t ht _ => hQ t _ (hs'.trans ht)
    · intro t x ht hx
      rcases CloudError.isStorage_cases hx with rfl | rfl
      all_goals exact hQ t _ (hs'.trans ht)
  · exact fun s' hs' _ => hQ s' _ hs'
  · exact fun s' x hs' _ => hQ s' _ hs'

/-- The receipt decides, or the fill was never over for the attempt. -/
theorem wp_seal_ending {current : FillRecord} (he : e.Checked leases)
    (hend : Ended e.attempt current s) (hlater : FillLater since s)
    (hattempt : current.attempt = e.attempt)
    (hmatch : matchTerminal current e.target e.completion e.now = .ok ()) :
    leases.wp j (sealTerminal current).run (fun _ => Answered leases e since) s₀ s := by
  refine wp_sealTerminal (hattempt ▸ hend) ?_ ?_
  · intro _ s' hs' hreceipt
    rw [← hmatch]
    rw [hattempt] at hreceipt
    exact answered_receipt he hs'.inv (hlater.trans hs'.later) hreceipt
  · exact fun _ s' x _ hx => answered_storage hx

/-- The write of an end over the owner's head, and its seal. -/
theorem wp_writeEnding {h : List Version} {again : Fills Unit}
    (he : e.Checked leases) (hseen : v :: h <:+ s.history)
    (hlater : FillLater since s) (hva : v.attempt = e.attempt)
    (hlease : v.record.lease = leases.lease e.attempt)
    (hnext : Advances v (e.record v.record))
    (hagain : ∀ t₀ t, leases.Rely j s t → leases.wp j again.run
        (fun _ => Answered leases e since) t₀ t) :
    leases.wp j (show Fills Unit from do
      match ← Program.observe
          (write (e.record v.record) (some (v :: h).length)) with
      | .ok _ => sealTerminal (e.record v.record)
      | .error x => if retryFillConflict x then again else throw x).run
      (fun _ => Answered leases e since) s₀ s := by
  have hattempt : (e.record v.record).attempt = e.attempt := hnext.attempt_eq.trans hva
  refine wp_observe_bind.mpr ?_
  refine wp_pushed (fun _ _ => rfl) (history_eq_of_seen hseen) ?_ ?_ ?_ ?_
  · intro t ht hst ht'
    have hlegal := ht.legal
    rw [ht'] at hlegal
    refine ht.push ?_ (he.valid hlease) ?_
    · rw [ht']
      exact .advance hlegal hnext (ht.clock v (ht' ▸ List.mem_cons_self))
    · intro w hw _ hne
      rw [ht'] at hw
      obtain rfl := Option.some.inj hw
      exact absurd (hva.trans hattempt.symm) hne
  · intro s' hs' _
    refine wp_seal_ending he ?_ ?_ hattempt ?_
    · exact ⟨_, List.mem_cons_self, rfl, hattempt, he.terminal⟩
    · exact (hlater.trans hs'.later).trans (.push s' _)
    · simp [matchTerminal, Ending.record]
  · exact fun s' hs' => hagain s' s' hs'
  · intro s' t x hs' hx
    rcases CloudError.isStorage_cases hx with rfl | rfl
    all_goals exact answered_storage hx

theorem wp_finishLoop (he : e.Checked leases) (hkeeps : ∀ s s', leases.Rely j s s' →
      e.target = .released → HeadBy e.attempt e.now s →
      HeadBy e.attempt e.now s')
    (rounds : Nat) {s₀ s : FillStore} (hlater : FillLater since s)
    (hby : e.target = .released → HeadBy e.attempt e.now s)
    (hopen : 0 < rounds ∨ ∀ closing, ¬Over e.attempt closing since) :
    leases.wp j (finishLoop (leases.lease e.attempt) e.target e.completion e.now rounds).run
      (fun _ => Answered leases e since) s₀ s := by
  induction rounds generalizing s₀ s with
  | zero => exact answered_open (hopen.resolve_left (Nat.lt_irrefl 0))
  | succ rounds ih =>
    refine wp_observe_bind.mpr ?_
    refine wp_readOwner ?_ ?_ ?_ ?_
    · intro s' v hs' hv hva
      have hinv : FillInv leases s' := hs'.inv
      have hlater' := hlater.trans hs'.later
      have hmem := List.mem_of_mem_head? hv
      have hlease : v.record.lease = leases.lease e.attempt := hva ▸ hinv.legal.lease_eq hmem
      obtain ⟨h, hhistory⟩ := List.head?_eq_some_iff.mp hv
      dsimp only
      by_cases hsame : v.record.state = e.target ∧
          v.record.updatedAt = e.now ∧ v.record.completion = e.completion
      · -- this very end is on record already
        have hend : v.terminal = true := by
          rcases he.shape with ⟨htarget, _⟩ | ⟨htarget, _⟩ <;>
            simp [Version.terminal, FillRecord.terminal, hsame.1, htarget]
        rw [if_pos hsame]
        refine wp_seal_ending he ⟨v, hmem, rfl, hva, hend⟩ hlater' hva ?_
        simp [matchTerminal, hsame]
      rw [if_neg hsame]
      refine wp_ite (fun _ => ?_) fun hwrong => ?_
      · refine ⟨fun closing hover => .inl ?_, fun h => by cases h⟩
        rw [he.verdict]
        cases closing with
        | none => rfl
        | some r =>
          obtain rfl := hinv.head_of_ended (hlater'.ended hover) hv hva
          refine (if_pos ?_).symm
          by_contra hno
          simp only [not_or, not_not] at hno
          exact hsame ⟨hno.1, hno.2.2, hno.2.1⟩
      simp only [not_or, not_and, not_not] at hwrong
      obtain ⟨hnow, hheld, hstarted⟩ := hwrong
      have hend : v.terminal = false := by
        rcases he.shape with ⟨htarget, _⟩ | ⟨htarget, _⟩
        · simp [Version.terminal, FillRecord.terminal, hheld htarget]
        · simp [Version.terminal, FillRecord.terminal, hstarted htarget]
      have hover := not_over_of_head hinv hlater' hv hva hend
      have hnext : Advances v (e.record v.record) := by
        refine he.advances (Int.not_lt.mp hnow) (fun htarget => ?_) hstarted
        have hheld := hheld htarget
        refine ⟨hheld, ?_, ?_⟩
        · exact hkeeps s s' hs' htarget (hby htarget) v hmem hva hheld
        · rw [hinv.legal.held_eq hmem hheld]
          rfl
      have hwrite : ∀ t₀ t, leases.Rely j s' t → _ :=
        fun t₀ t ht => @wp_writeEnding leases t t₀ e since j v h _ he
          (hhistory ▸ ht.later.history) (hlater'.trans ht.later) hva
          hlease hnext fun u₀ u hu =>
            @ih u₀ u (hlater'.trans (ht.trans hu).later)
              (fun htarget => hkeeps s u (hs'.trans (ht.trans hu)) htarget
                (hby htarget)) (.inr hover)
      rw [hhistory]
      split
      · refine wp_run_bind.mpr (wp_validatePublished ?_)
        intro t r ht
        cases r with
        | ok _ => exact hwrite t t ht
        | error x => exact answered_open hover
      · exact hwrite s' s' (.refl hinv)
    · intro s' hs' hother
      refine wp_run_bind.mpr (wp_readTerminal ?_ ?_ ?_)
      · exact fun t r ht hr => answered_receipt he ht.inv (hlater.trans (hs'.trans ht).later) hr
      · exact fun t ht hnone => answered_other he hs'.inv
          (hlater.trans hs'.later) hother ht.later hnone
      · exact fun t x _ hx => answered_storage hx
    · intro s' hs' hempty
      refine answered_open fun closing hover => ?_
      have hlater' := hlater.trans hs'.later
      cases closing with
      | none =>
        obtain ⟨newer, w, v, older, hhistory, _⟩ := hlater'.takenOver hover
        rw [hempty] at hhistory
        simp at hhistory
      | some r =>
        obtain ⟨v, hv, _⟩ := hlater'.ended hover
        rw [hempty] at hv
        cases hv
    · intro s' x hs' hx
      rcases CloudError.isStorage_cases hx with rfl | rfl
      all_goals exact answered_storage hx

theorem wp_finish (hkeeps : ∀ s s', leases.Rely j s s' →
      e.target = .released → HeadBy e.attempt e.now s →
      HeadBy e.attempt e.now s')
    (hshape : e.Shaped)
    (hby : e.target = .released → HeadBy e.attempt e.now s) :
    leases.wp j (finish (leases.lease e.attempt) e.target e.completion e.now).run
      (fun _ => Answered leases e s) s₀ s := by
  refine wp_checked ?_ ?_
  · intro hinvalid
    refine ⟨fun closing _ => .inl ?_, nofun⟩
    unfold Ending.verdict
    rw [if_neg hshape.not_refused]
    by_cases hlease : validFillLease (leases.lease e.attempt) = true
    · rw [if_neg (by simp [hlease]), if_pos (hinvalid.resolve_left
        (by simp [hlease]))]
    · rw [if_pos (by simpa using hlease)]
  · intro hlease htime hfrom
    have he : e.Checked leases := ⟨htime, hfrom, hlease, hshape⟩
    refine wp_run_bind.mpr (wp_readTerminal ?_ ?_ ?_)
    · exact fun s' r hs' hr => answered_receipt he hs'.inv hs'.later hr
    · exact fun s' hs' _ => wp_finishLoop he hkeeps maxRounds hs'.later
        (fun htarget => hkeeps s s' hs' htarget (hby htarget))
        (.inl (by decide))
    · exact fun s' x _ hx => answered_storage hx

end

-- ===== every call

/-- Every call keeps the contract from every state in which its time is
in order. -/
theorem wp_fillProgram {job : FillJob} (ht : Timely job s) :
    leases.wp job (fillProgram leases job) (FillPost leases job s) s s := by
  cases job with
  | acquire a now =>
    refine wp_bind.mpr (wp_mono (wp_acquire ht) ?_)
    rintro t t' r hr a' now' record hjob
    obtain ⟨rfl, rfl⟩ := FillJob.acquire.inj hjob
    exact hr record
  | start a now =>
    refine wp_bind.mpr (wp_mono (wp_start ht) ?_)
    rintro t t' r hr a' now' hjob
    obtain ⟨rfl, rfl⟩ := FillJob.start.inj hjob
    exact hr
  | release a now =>
    refine wp_bind.mpr (wp_mono (@wp_finish leases s s
      ⟨a, .released, .zero, now⟩ (.release a now) ?_ ?_ ?_) ?_)
    · exact fun s s' hs' _ hby => hs'.keeps hby
    · exact .inl ⟨rfl, rfl⟩
    · exact fun _ => ht
    · rintro t t' r hr e hjob
      obtain rfl := Option.some.inj hjob
      exact hr
  | complete a c =>
    refine wp_bind.mpr ?_
    unfold complete
    by_cases hvalid : validFillCompletion c = true
    · rw [if_neg (by simp [hvalid])]
      refine wp_mono (@wp_finish leases s s
        ⟨a, .finished, c, c.completedAt⟩ (.complete a c) ?_ ?_ ?_) ?_
      · exact fun _ _ _ h => nomatch h
      · exact .inr ⟨rfl, hvalid, rfl⟩
      · exact nofun
      · rintro t t' r hr e hjob
        obtain rfl := Option.some.inj hjob
        exact hr
    · rw [if_pos (by simpa using hvalid)]
      rintro e hjob
      obtain rfl := Option.some.inj hjob
      refine ⟨fun closing _ => .inl ?_, nofun⟩
      unfold Ending.verdict
      rw [if_pos ⟨rfl, by simpa using hvalid⟩]

end LlmTemporalWorker.CloudState
