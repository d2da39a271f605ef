/-
What one merge of a saved operation does.

`Staged outcomes` first: every reservation of the saved operation is
kept as it survived or replaced by the saved one (`MergeStaged`). Then
the writes, read off place by place: the merged record, the members of
the operation's fingerprint, the operation's fields of the floor ledger.
Nothing else is touched.
-/
import LlmTemporalWorker.Budget.Recovery
import LlmTemporalWorker.Budget.Proofs.History

namespace LlmTemporalWorker.Budget

open Lib

-- ===== targets

variable {x y target : HeldReservation} {claimed : Bool}
  {startBy now total index : Nat} {score : Option Nat} {i : MergeInput}
  {K : Keyspace} {outcome : MergeOutcome} {merges : List Merge} {m : Merge}
  {member : Member} {fingerprint : String} {w : WindowKey}

/-- The amounts are read as they stand, and refused if their sum is
not safe. -/
theorem recoveryAmounts_eq_some {a : Nat × Nat} : recoveryAmounts x = some a ↔
      a = (x.reservedNano, x.accountedNano) ∧ x.total ≤ maxSafe := by
  unfold recoveryAmounts HeldReservation.total
  constructor
  · intro h
    split at h
    · rename_i reserved accounted hres hacc
      obtain ⟨hres, -⟩ := durableInt_eq_some.mp hres
      obtain ⟨hacc, haccs⟩ := durableInt_eq_some.mp hacc
      split at h
      · cases h
      cases h
      refine ⟨?_, by omega⟩
      ext <;> dsimp only <;> omega
    · cases h
  · rintro ⟨rfl, hsafe⟩
    rw [durableInt_natCast (by omega), durableInt_natCast (by omega)]
    dsimp only
    rw [if_neg (by omega)]

/-- The score a charge leaves its bucket at; none for one that is
retained until it is settled. -/
def recoveryScore (claimed : Bool) (x : HeldReservation) (startBy : Nat) : Option (Option Nat) :=
  if claimed ∧ 0 < x.reservedNano then some none
  else if 0 < x.reservedNano then some (some startBy)
  else (durableInt x.windowExpiresMillis).map some

/-- `recovery_target`, said without the amounts. -/
theorem recoveryTarget_eq_some : recoveryTarget claimed x startBy now = some (total, score) ↔
      x.total ≤ maxSafe ∧ ((x.total = 0 ∧ total = 0 ∧ score = none) ∨ (0 < x.total ∧ ∃ ends,
            recoveryScore claimed x startBy = some ends
              ∧ if ends.any (· ≤ now) then total = 0 ∧ score = none
                else total = x.total ∧ score = ends)) := by
  unfold recoveryTarget recoveryScore
  by_cases hsafe : x.total ≤ maxSafe
  · rw [recoveryAmounts_eq_some.mpr ⟨rfl, hsafe⟩]
    have htotal : x.reservedNano + x.accountedNano = x.total := rfl
    dsimp only
    rw [htotal]
    by_cases hzero : x.total = 0
    · grind
    have hpos : 0 < x.total := by omega
    simp only [hzero, hsafe, hpos, if_false, false_and, false_or, true_and]
    by_cases hheld : claimed = true ∧ 0 < x.reservedNano
    · simp [if_pos hheld]
      grind
    simp only [if_neg hheld]
    by_cases hres : 0 < x.reservedNano
    · by_cases hend : startBy ≤ now <;> simp [hres, hend] <;> grind
    cases hexp : durableInt x.windowExpiresMillis with
    | none => simp [hres]
    | some ends =>
      by_cases hend : ends ≤ now <;> simp [hres, hend] <;> grind
  · have hnone : recoveryAmounts x = none := by
      rw [Option.eq_none_iff_forall_ne_some]
      intro a ha
      exact hsafe (recoveryAmounts_eq_some.mp ha).2
    rw [hnone]
    simp [hsafe]

/-- Later the same charge is live, or it has ended. -/
theorem recoveryTarget_later {later : Nat}
    (h : recoveryTarget claimed x startBy now = some (total, score))
    (hle : now ≤ later) :
    recoveryTarget claimed x startBy later = some (total, score)
      ∨ recoveryTarget claimed x startBy later = some (0, none) := by
  rw [recoveryTarget_eq_some, recoveryTarget_eq_some]
  obtain ⟨hsafe, hzero | ⟨hpos, ends, hends, hlive⟩⟩ := recoveryTarget_eq_some.mp h
  · exact Or.inl ⟨hsafe, Or.inl hzero⟩
  · by_cases hlate : ends.any (· ≤ later) = true
    · right
      exact ⟨hsafe, Or.inr ⟨hpos, ends, hends, by rw [if_pos hlate]; simp⟩⟩
    · left
      have hearly : ¬ ends.any (· ≤ now) = true := by
        intro hnow
        apply hlate
        cases ends with
        | none => cases hnow
        | some score =>
          simp only [Option.any_some, decide_eq_true_eq] at hnow ⊢
          omega
      rw [if_neg hearly] at hlive
      exact ⟨hsafe, Or.inr ⟨hpos, ends, hends,
        by rw [if_neg hlate]; exact hlive⟩⟩

/-- A live charge is the whole charge. -/
theorem total_of_recoveryTarget (h : recoveryTarget claimed x startBy now = some (total, score)) :
    total = 0 ∧ score = none ∨ total = x.total ∧ 0 < x.total := by
  obtain ⟨-, hzero | ⟨hpos, ends, -, hlive⟩⟩ := recoveryTarget_eq_some.mp h
  · exact Or.inl hzero.2
  · split at hlive
    · exact Or.inl hlive
    · exact Or.inr ⟨hlive.1, hpos⟩

/-- The claimed flag and the start deadline matter for reserved amounts
only. -/
theorem recoveryTarget_congr {claimed' : Bool} {startBy' : Nat}
    (hres : y.reservedNano = x.reservedNano)
    (hacc : y.accountedNano = x.accountedNano)
    (hexp : y.windowExpiresMillis = x.windowExpiresMillis)
    (hlease : 0 < x.reservedNano → claimed' = claimed
      ∧ (claimed = false → startBy' = startBy)) (now : Nat) :
    recoveryTarget claimed' y startBy' now = recoveryTarget claimed x startBy now := by
  unfold recoveryTarget recoveryAmounts
  rw [hres, hacc, hexp]
  split
  · rfl
  rename_i reserved accounted hamounts
  split at hamounts
  · rename_i hr _
    have hreserved := (durableInt_eq_some.mp hr).1
    split at hamounts
    · cases hamounts
    cases hamounts
    by_cases hpos : 0 < reserved
    · obtain ⟨rfl, hstart⟩ := hlease (by omega)
      cases claimed' with
      | true => simp [hpos]
      | false => rw [hstart rfl]
    · simp [hpos]
  · cases hamounts

-- ===== staging

/-- What a reservation to be replaced holds: nothing without a
surviving record. -/
def Replaces (i : MergeInput) (K : Keyspace) (index : Nat)
    (target : HeldReservation) (holds : Nat) (member : Option Member) :
    Prop :=
  (i.existing = none ∧ holds = 0 ∧ member = none)
    ∨ ∃ r x, i.existing = some r ∧ r.reservations[index]? = some x
      ∧ x.place = target.place ∧ x.reservationRevision ≤ maxSafe
      ∧ keeps i r x.reservationRevision target = false
      ∧ recoveryCurrent r x K = some (holds, member)

/-- The two outcomes of staging a reservation. -/
inductive MergeStaged (i : MergeInput) (K : Keyspace) (index : Nat)
    (target : HeldReservation) : MergeOutcome → Prop
  | kept {r : Record} {x : HeldReservation} {live : Nat}
      {score : Option Nat} {repair : Option (Nat × Member)}
      (hex : i.existing = some r) (hx : r.reservations[index]? = some x)
      (hplace : x.place = target.place)
      (hsafe : x.reservationRevision ≤ maxSafe)
      (hkeep : keeps i r x.reservationRevision target = true)
      (hlive : recoveryTarget r.claimed x ((durableInt r.startByMillis).getD i.startBy) i.now
          = some (live, score))
      (hpresent : repair = none → score.isSome → (K.zscore x.key
          (durableExpiryMember r.fingerprint x.bucket live)).isSome)
      (hrepair : ∀ {s m}, repair = some (s, m) → score = some s
          ∧ m = durableExpiryMember r.fingerprint x.bucket live
          ∧ K.zscore x.key m = none) :
      MergeStaged i K index target (.keep x live repair)
  | replaced {holds sum total : Nat} {member : Option Member}
      {score : Option Nat}
      (hold : Replaces i K index target holds member)
      (hlive : recoveryTarget i.claimed target i.startBy i.now = some (total, score))
      (hsum : K.sum target.key target.bucket = (sum : Int))
      (hsafe : sum ≤ maxSafe)
      (hfits : sum - min holds sum + total ≤ maxSafe) :
      MergeStaged i K index target (.replace (min holds sum) member total score)

/-- A kept reservation may have lost its member, which is then put back. -/
theorem stageKeep_ok {r : Record} (h : stageKeep i r x K = .ok outcome)
    (hex : i.existing = some r) (hx : r.reservations[index]? = some x)
    (hplace : x.place = target.place)
    (hsafe : x.reservationRevision ≤ maxSafe)
    (hkeep : keeps i r x.reservationRevision target = true) :
    MergeStaged i K index target outcome := by
  unfold stageKeep at h
  split at h
  · cases h
  · rename_i live hlive
    cases h
    refine .kept hex hx hplace hsafe hkeep hlive ?_ ?_
    · intro _ hsome
      cases hsome
    · intro s m hrep
      cases hrep
  · rename_i live score hlive
    dsimp only at h
    split at h
    · rename_i hpresent
      cases h
      refine .kept hex hx hplace hsafe hkeep hlive (fun _ _ => hpresent) ?_
      intro s m hrep
      cases hrep
    · rename_i habsent
      cases h
      refine .kept hex hx hplace hsafe hkeep hlive ?_ ?_
      · intro hnone
        cases hnone
      · intro s m hrep
        cases hrep
        exact ⟨rfl, rfl, by simpa using habsent⟩

/-- A replaced one gives up at most what its bucket has. -/
theorem stageReplace_ok {holds : Nat} {member : Option Member}
    (h : stageReplace i target holds member K = .ok outcome)
    (hold : Replaces i K index target holds member) :
    MergeStaged i K index target outcome := by
  unfold stageReplace at h
  split at h
  · cases h
  rename_i total score hlive
  split at h
  · cases h
  rename_i sum hsum
  obtain ⟨hsum, hle⟩ := durableInt_eq_some.mp hsum
  split at h
  · cases h
  cases h
  have htotal : total ≤ maxSafe := by
    have hx := (recoveryTarget_eq_some.mp hlive).1
    rcases total_of_recoveryTarget hlive with h | h <;> omega
  exact .replaced hold hlive hsum hle (by omega)

/-- Every reservation that is accepted is kept or replaced. -/
theorem stageMerge_ok (h : stageMerge i K index target = .ok outcome) :
    MergeStaged i K index target outcome := by
  unfold stageMerge at h
  split at h
  · rename_i hex
    exact stageReplace_ok h (Or.inl ⟨hex, rfl, rfl⟩)
  rename_i r hex
  split at h
  · cases h
  rename_i x hx
  split at h
  · cases h
  rename_i hplace
  have hplace : x.place = target.place := by
    simp only [not_or, not_not] at hplace
    simp only [HeldReservation.place, Reservation.key, hplace.1, hplace.2.1, hplace.2.2]
  split at h
  · cases h
  rename_i revision hrev
  obtain ⟨hrev, hsafe⟩ := durableInt_eq_some.mp hrev
  obtain rfl : revision = x.reservationRevision := by omega
  split at h
  · rename_i hkeep
    exact stageKeep_ok h hex hx hplace hsafe hkeep
  rename_i hkeep
  split at h
  · cases h
  rename_i holds member hcur
  exact stageReplace_ok h (Or.inr ⟨r, x, hex, hx, hplace, hsafe, Bool.eq_false_iff.mpr hkeep, hcur⟩)

/-- The staging loop. -/
theorem stageMerges_ok {k : Nat} {targets : List HeldReservation}
    (h : stageMerges i K k targets = .ok merges) :
    List.Forall₂ (fun target m => m.target = target
        ∧ MergeStaged i K m.index m.target m.outcome) targets merges
      ∧ merges.map Merge.index = List.range' k targets.length := by
  induction targets generalizing k merges with
  | nil =>
    cases h
    exact ⟨.nil, rfl⟩
  | cons target rest ih =>
    rw [stageMerges] at h
    cases hstage : stageMerge i K k target with
    | error reply =>
      rw [hstage] at h
      cases h
    | ok outcome =>
      rw [hstage] at h
      cases hrest : stageMerges i K (k + 1) rest with
      | error reply =>
        rw [hrest] at h
        cases h
      | ok tail =>
        rw [hrest] at h
        cases h
        obtain ⟨hall, hindex⟩ := ih hrest
        refine ⟨.cons ⟨rfl, stageMerge_ok hstage⟩ hall, ?_⟩
        rw [List.map_cons, hindex]
        rfl

/-- A staged saved operation. -/
structure StagedMerge (i : MergeInput) (K : Keyspace)
    (merges : List Merge) : Prop where
  targets : merges.map Merge.target = i.saved.reservations
  indices : merges.map Merge.index = List.range merges.length
  staged : ∀ m ∈ merges, MergeStaged i K m.index m.target m.outcome
  fingerprint : ∀ {r}, i.existing = some r → r.fingerprint = i.saved.fingerprint

/-- Merges stand in the order of the saved reservations. -/
theorem StagedMerge.index_eq (h : StagedMerge i K merges) {j : Nat}
    (hm : merges[j]? = some m) : m.index = j := by
  obtain ⟨hj, -⟩ := List.getElem?_eq_some_iff.mp hm
  have hget : (merges.map Merge.index)[j]? = some m.index := by
    rw [List.getElem?_map, hm]
    rfl
  rw [h.indices, List.getElem?_range hj] at hget
  exact (Option.some.inj hget).symm

theorem StagedMerge.nodup (h : StagedMerge i K merges) : (merges.map Merge.index).Nodup := by
  rw [h.indices]
  exact List.nodup_range

/-- A merge is found by its index. -/
theorem StagedMerge.find?_index (h : StagedMerge i K merges) {j : Nat} (hm : merges[j]? = some m) :
    merges.find? (·.index == j) = some m := by
  rw [← h.index_eq hm]
  exact find?_of_nodup h.nodup (List.mem_of_getElem? hm)

-- ===== the members

/-- Where a merge's reservation is charged. -/
def Merge.place (m : Merge) : WindowKey × Nat := m.target.place

/-- The members a merge writes are the operation's own, for the
reservation's own bucket. -/
def Merge.Owns (fingerprint : String) (m : Merge) : Prop :=
  match m.outcome with
  | .keep _ _ repair => ∀ s member, repair = some (s, member) →
      member.fingerprint = fingerprint ∧ member.bucket = m.target.bucket
  | .replace _ member _ _ => ∀ member', member = some member' →
      member'.fingerprint = fingerprint ∧ member'.bucket = m.target.bucket

theorem bucket_of_place (h : x.place = y.place) : x.bucket = y.bucket := congrArg Prod.snd h

theorem key_of_place (h : x.place = y.place) : x.key = y.key := congrArg Prod.fst h

/-- A surviving charge is found under its own member only. -/
theorem member_of_recoveryCurrent {r : Record} {holds : Nat}
    (h : recoveryCurrent r x K = some (holds, some member)) :
    member = durableExpiryMember r.fingerprint x.bucket x.total := by
  unfold recoveryCurrent at h
  split at h
  · cases h
  rename_i reserved accounted hamounts
  obtain ⟨hpair, -⟩ := recoveryAmounts_eq_some.mp hamounts
  cases hpair
  dsimp only at h
  split at h
  · cases h
    rfl
  · split at h <;> cases h

/-- No merge names a member of another operation. -/
theorem StagedMerge.owns (h : StagedMerge i K merges) (hm : m ∈ merges) :
    m.Owns i.saved.fingerprint := by
  have hst := h.staged m hm
  unfold Merge.Owns
  generalize m.outcome = outcome at hst
  cases hst with
  | kept hex _ hplace _ _ _ _ hrepair =>
    intro s member hrep
    obtain ⟨-, rfl, -⟩ := hrepair hrep
    exact ⟨h.fingerprint hex, bucket_of_place hplace⟩
  | replaced hold _ _ _ _ =>
    intro member hmem
    subst hmem
    rcases hold with ⟨-, -, hnone⟩ | ⟨r, x, hex, -, hplace, -, -, hcur⟩
    · cases hnone
    · obtain rfl := member_of_recoveryCurrent hcur
      exact ⟨h.fingerprint hex, bucket_of_place hplace⟩

/-- A merge leaves a member alone that is not its own. -/
theorem zscore_repairMember (hown : m.Owns fingerprint) (hne : ¬ (m.place = (w, member.bucket)
      ∧ member.fingerprint = fingerprint)) (K : Keyspace) :
    (repairMember K m).zscore w member = K.zscore w member := by
  unfold repairMember
  unfold Merge.Owns at hown
  split
  · rename_i x live score member' hout
    rw [hout] at hown
    obtain ⟨hfp, hbucket⟩ := hown _ _ rfl
    rw [zscore_zadd, if_neg]
    rintro ⟨rfl, rfl⟩
    exact hne ⟨Prod.ext rfl hbucket.symm, hfp⟩
  · rfl

/-- A charge writes the members of its fingerprint and place only. -/
theorem zscore_enterCharge (hne : ¬ (x.place = (w, member.bucket)
      ∧ member.fingerprint = fingerprint)) (K : Keyspace) (total : Nat)
    (score : Option Nat) :
    (enterCharge K fingerprint x total score).zscore w member = K.zscore w member := by
  unfold enterCharge
  split
  · cases score with
    | none => exact zscore_congr rfl ..
    | some s =>
      rw [zscore_zadd, if_neg]
      · exact zscore_congr rfl ..
      · rintro ⟨rfl, rfl⟩
        exact hne ⟨rfl, rfl⟩
  · rfl

theorem zscore_replaceCharge (hown : m.Owns fingerprint) (hne : ¬ (m.place = (w, member.bucket)
      ∧ member.fingerprint = fingerprint)) (K : Keyspace) :
    (replaceCharge fingerprint K m).zscore w member = K.zscore w member := by
  unfold replaceCharge
  unfold Merge.Owns at hown
  split
  · rfl
  rename_i current member' total score hout
  rw [hout] at hown
  rw [zscore_enterCharge hne]
  have hrem : ∀ K₁ : Keyspace, (if total = current then K₁
      else K₁.hincrbyDropZero m.target.key m.target.bucket
        ((total : Int) - current)).zscore w member
      = K₁.zscore w member := by
    intro K₁
    split
    · rfl
    · exact zscore_congr (expiry_hincrbyDropZero ..) ..
  rw [hrem]
  cases member' with
  | none => rfl
  | some member' =>
    obtain ⟨hfp, hbucket⟩ := hown member' rfl
    rw [zscore_zrem, if_neg]
    rintro ⟨rfl, rfl⟩
    exact hne ⟨Prod.ext rfl hbucket.symm, hfp⟩

/-- Putting members back removes none. -/
theorem isSome_repairMember (h : (K.zscore w member).isSome) (m : Merge) :
    ((repairMember K m).zscore w member).isSome := by
  unfold repairMember
  split
  · rw [zscore_zadd]
    split
    · rfl
    · exact h
  · exact h

/-- Repairs add members and take none away. -/
theorem isSome_foldl_repairMember (h : (K.zscore w member).isSome) (merges : List Merge) :
    ((merges.foldl repairMember K).zscore w member).isSome := by
  induction merges generalizing K with
  | nil => exact h
  | cons m rest ih => exact ih (isSome_repairMember h m)

/-- A member that a kept reservation lacked is there. -/
theorem isSome_of_repair (hm : m ∈ merges) {live score : Nat}
    (hout : m.outcome = .keep x live (some (score, member))) (K : Keyspace) :
    ((merges.foldl repairMember K).zscore m.target.key member).isSome := by
  induction merges generalizing K with
  | nil => cases hm
  | cons m' rest ih =>
    rcases List.mem_cons.mp hm with rfl | hm
    · rw [List.foldl_cons]
      apply isSome_foldl_repairMember
      unfold repairMember
      rw [hout]
      rw [zscore_zadd, if_pos ⟨rfl, rfl⟩]
      rfl
    · exact ih hm _

/-- Replacing other places' reservations leaves a member alone. -/
theorem zscore_foldl_replaceCharge (hown : ∀ m ∈ merges, m.Owns fingerprint)
    (hne : ∀ m ∈ merges, ¬ ((∃ c mem total score, m.outcome = .replace c mem total score)
      ∧ m.place = (w, member.bucket)
      ∧ member.fingerprint = fingerprint)) (K : Keyspace) :
    (merges.foldl (replaceCharge fingerprint) K).zscore w member = K.zscore w member := by
  refine foldl_keeps (g := fun K => K.zscore w member) (fun K m hm => ?_) K
  cases hout : m.outcome with
  | keep x live repair =>
    unfold replaceCharge
    rw [hout]
  | replace c mem total score =>
    apply zscore_replaceCharge (hown m hm)
    intro h
    exact hne m hm ⟨⟨c, mem, total, score, hout⟩, h⟩

theorem zscore_foldl_repairMember (hown : ∀ m ∈ merges, m.Owns fingerprint)
    (hne : member.fingerprint ≠ fingerprint) (K : Keyspace) :
    (merges.foldl repairMember K).zscore w member = K.zscore w member :=
  foldl_keeps (g := fun K => K.zscore w member)
    (fun K m hm => zscore_repairMember (hown m hm) (fun h => hne h.2) K) K

/-- The member of a replaced reservation is there. -/
theorem isSome_of_replace (hown : ∀ m ∈ merges, m.Owns fingerprint)
    (hplaces : (merges.map Merge.place).Nodup) (hm : m ∈ merges)
    {current score : Nat} {member : Option Member}
    (hout : m.outcome = .replace current member total (some score))
    (hpos : 0 < total) (K : Keyspace) :
    ((merges.foldl (replaceCharge fingerprint) K).zscore m.target.key
      (durableExpiryMember fingerprint m.target.bucket total)).isSome := by
  induction merges generalizing K with
  | nil => cases hm
  | cons m' rest ih =>
    rw [List.map_cons, List.nodup_cons] at hplaces
    have hown' : ∀ m ∈ rest, m.Owns fingerprint := fun m hm => hown m (List.mem_cons_of_mem _ hm)
    rcases List.mem_cons.mp hm with rfl | hm
    · rw [List.foldl_cons, zscore_foldl_replaceCharge hown']
      · unfold replaceCharge enterCharge
        rw [hout]
        dsimp only
        rw [if_pos hpos, zscore_zadd, if_pos ⟨rfl, rfl⟩]
        rfl
      · -- no later reservation is charged at this place
        intro m'' hm'' h
        apply hplaces.1
        exact List.mem_map.mpr ⟨m'', hm'', h.2.1⟩
    · exact ih hown' hplaces.2 hm _

-- ===== sums

/-- What a merge adds to its bucket. -/
def Merge.delta (m : Merge) : Int :=
  match m.outcome with
  | .keep _ _ _ => 0
  | .replace current _ total _ => (total : Int) - current

theorem sum_enterCharge (K : Keyspace) (fp : String) (x : HeldReservation)
    (total : Nat) (score : Option Nat) (w : WindowKey) (b : Nat) :
    (enterCharge K fp x total score).sum w b = K.sum w b := by
  unfold enterCharge
  split
  · cases score with
    | none => exact sum_hsetLimit ..
    | some s => exact (sum_congr rfl w b).trans (sum_hsetLimit ..)
  · rfl

/-- A replaced charge moves its own bucket by the difference. -/
theorem sum_replaceCharge (fp : String) (K : Keyspace) (m : Merge) (w : WindowKey) (b : Nat) :
    (replaceCharge fp K m).sum w b = K.sum w b + if m.place = (w, b) then m.delta else 0 := by
  have hplace : m.place = (w, b) ↔ w = m.target.key ∧ b = m.target.bucket := by
    constructor
    · intro h
      exact ⟨(congrArg Prod.fst h).symm, (congrArg Prod.snd h).symm⟩
    · rintro ⟨rfl, rfl⟩
      rfl
  simp only [hplace]
  unfold replaceCharge Merge.delta
  cases m.outcome with
  | keep surviving live repair => simp
  | replace current member total score =>
    rw [sum_enterCharge]
    have hrem : ∀ K₁ : Keyspace, K₁.hash = K.hash → (if total = current then K₁
          else K₁.hincrbyDropZero m.target.key m.target.bucket ((total : Int) - current)).sum w b
          = K.sum w b + if w = m.target.key ∧ b = m.target.bucket then
            (total : Int) - current else 0 := by
      intro K₁ hhash
      split
      · rename_i heq
        rw [sum_congr hhash, heq]
        simp
      · rw [sum_hincrbyDropZero, sum_congr hhash]
    apply hrem
    split <;> rfl

theorem sum_foldl_repairMember (merges : List Merge) (K : Keyspace) (w : WindowKey) (b : Nat) :
    (merges.foldl repairMember K).sum w b = K.sum w b := by
  refine foldl_keeps (g := fun K => K.sum w b) (fun K m _ => sum_congr ?_ w b) K
  unfold repairMember
  split <;> rfl

/-- No merge takes out of its bucket more than is in it. -/
theorem sum_foldl_replaceCharge_nonneg {fp : String}
    (hplaces : (merges.map Merge.place).Nodup) (hpos : ∀ w b, 0 ≤ K.sum w b)
    (hfits : ∀ m ∈ merges, 0 ≤ K.sum m.target.key m.target.bucket + m.delta)
    (w : WindowKey) (b : Nat) :
    0 ≤ (merges.foldl (replaceCharge fp) K).sum w b := by
  induction merges generalizing K with
  | nil => exact hpos w b
  | cons m rest ih =>
    rw [List.map_cons, List.nodup_cons] at hplaces
    apply ih hplaces.2
    · intro w b
      rw [sum_replaceCharge]
      split
      · rename_i hplace
        have hfit := hfits m List.mem_cons_self
        obtain ⟨rfl, rfl⟩ := Prod.mk.inj hplace
        exact hfit
      · have := hpos w b
        omega
    · intro m' hm'
      rw [sum_replaceCharge, if_neg, add_zero]
      · exact hfits m' (List.mem_cons_of_mem _ hm')
      · -- another place
        intro heq
        apply hplaces.1
        exact List.mem_map.mpr ⟨m', hm', heq.symm⟩

-- ===== frames

/-- What no write of a merge changes before the record is stored. -/
def Keyspace.frame (K : Keyspace) := (K.records, K.authority)

theorem frame_repairMember (K : Keyspace) (m : Merge) : (repairMember K m).frame = K.frame := by
  unfold repairMember
  split <;> rfl

theorem frame_enterCharge (K : Keyspace) (fp : String) (x : HeldReservation) (total : Nat)
    (score : Option Nat) : (enterCharge K fp x total score).frame = K.frame := by
  unfold enterCharge
  split
  · split <;> rfl
  · rfl

theorem frame_replaceCharge (fp : String) (K : Keyspace) (m : Merge) :
    (replaceCharge fp K m).frame = K.frame := by
  unfold replaceCharge
  split
  · rfl
  rw [frame_enterCharge]
  split <;> split <;> simp [Keyspace.frame]

/-- The floor ledger after a merge. -/
theorem lookup_foldl_writeFloor (hnd : (merges.map Merge.index).Nodup)
    (op op' : OperationKey) (j : Nat) (floors : FMap FloorField Floor) :
    (merges.foldl (writeFloor op) floors).lookup (op', j) = if op' = op then
          (merges.find? (·.index == j)).elim (floors.lookup (op', j)) fun m =>
            if 0 < m.total then some ⟨m.target.key, m.target.bucket, m.total, m.target.limitNano⟩
            else none
        else floors.lookup (op', j) := by
  have hwrite : ∀ floors m j, (writeFloor op floors m).lookup (op', j) =
        if op' = op ∧ j = m.index then
          if 0 < m.total then some ⟨m.target.key, m.target.bucket, m.total, m.target.limitNano⟩
          else none
        else floors.lookup (op', j) := by
    intro floors m j
    unfold writeFloor
    split
    · rw [lookup_insert_eq]
      simp only [Prod.mk.injEq]
    · rw [lookup_erase_eq]
      simp only [Prod.mk.injEq]
  by_cases hop : op' = op
  · rw [if_pos hop]
    refine foldl_update (g := fun floors j => floors.lookup (op', j)) (w := fun m _ => _)
      (fun floors m j => ?_) hnd floors j
    simp only [hwrite, hop, true_and]
  · rw [if_neg hop]
    refine foldl_keeps (g := fun floors => floors.lookup (op', j)) (fun floors m _ => ?_) floors
    rw [hwrite, if_neg fun h => hop h.1]

end LlmTemporalWorker.Budget
