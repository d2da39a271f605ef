/-
Cache fills have one starter.

The runs of a key, from a store nobody has filled: any number of calls,
any schedule, operations that fail or land late, acknowledgements that
are lost. What the contract says of single calls becomes what is true of
whole runs (`fills_have_one_starter`), for the runs in which nobody
overtakes an Acquire and no Start or Release carries a stale time
(`Orderly`).

`stalled_acquire_starts_again` is why the first condition is there: an
Acquire that looked for its receipt before there was one, and stalled
until its attempt's fill was over and the next attempt had released the
head, takes the head a second time.
-/
import LlmTemporalWorker.CloudState.Proofs.CacheFill

namespace LlmTemporalWorker.CloudState

open Lib Contract Fills

variable {leases : Leases} {clock : Int} {responses : Responses}

abbrev FillMove (leases : Leases) := Move (fillStorage leases).system

abbrev FillPool (leases : Leases) := Pool (fillStorage leases).system

/-- The calls of one key after a list of moves. -/
def fills (leases : Leases) (clock : Int) (responses : Responses)
    (moves : List (FillMove leases)) : FillPool leases :=
  (Pool.init (S := (fillStorage leases).system) (FillStore.empty clock responses)).run moves

/-- The attempt that a return grants the fill, or lets start it. -/
def granted : FillJob × FillResult → Option String
  | (.acquire a _, .acquired (.ok decision)) =>
    if decision.disposition = .owned then some a else none
  | (.start a _, .started (.ok true)) => some a
  | _ => none

/-- A Start of the attempt that returned true. -/
def startedTrue (a : String) : FillJob × FillResult → Bool
  | (.start b _, .started (.ok true)) => b == a
  | _ => false

/-- The runs in which calls are made with times in order, and no call is
disturbed while it is under way. -/
structure Orderly (leases : Leases) (clock : Int) (responses : Responses)
    (moves : List (FillMove leases)) : Prop where
  timely : ∀ pre job post, moves = pre ++ .start job :: post →
    Timely job (fills leases clock responses pre).state
  undisturbed : ∀ pre m post, moves = pre ++ m :: post →
    ∀ t ∈ (fills leases clock responses pre).threads, t.result? = none →
      Undisturbed t.job (fills leases clock responses pre).state
        (fills leases clock responses (pre ++ [m])).state

theorem fillInv_empty : FillInv leases (.empty clock responses) where
  legal := .nil
  clock := fun _ hv => nomatch hv
  valid := fun _ hv => nomatch hv
  receipt := fun _ _ h => nomatch h
  receipted := by
    rintro a r ⟨v, hv, _⟩
    cases hv

/-- What happens without a call leaves rows and receipts alone. -/
theorem fillEvent_keeps (e : FillEvent) {s : FillStore} (h : FillInv leases s) :
    FillInv leases (e.apply s) ∧ FillLater s (e.apply s) := by
  cases e with
  | tick nanos =>
    have hclock : s.clock ≤ s.clock + nanos := by omega
    refine ⟨⟨h.legal, fun v hv => ?_, h.valid, h.receipt, h.receipted⟩,
      hclock, List.suffix_refl _, fun _ _ hr => hr⟩
    exact Int.le_trans (h.clock v hv) hclock
  | responses now =>
    exact ⟨⟨h.legal, h.clock, h.valid, h.receipt, h.receipted⟩,
      Int.le_refl _, List.suffix_refl _, fun _ _ hr => hr⟩

variable {moves pre : List (FillMove leases)}

theorem holds_empty : (fillContract leases).Holds (Pool.init (S := (fillStorage leases).system)
      (FillStore.empty clock responses)) :=
  Contract.holds_init fillInv_empty

theorem Orderly.admits (h : Orderly leases clock responses moves) :
    (fillContract leases).Admits (Pool.init (FillStore.empty clock responses))
      moves := by
  refine holds_empty.admits fun pre m post heq hpool => ⟨?_, ?_⟩
  · cases m with
    | start job => exact wp_fillProgram (h.timely pre job post heq)
    | event e => exact fillEvent_keeps e hpool.inv
    | act | detach | land => trivial
  · intro i t ht _ hrun
    exact h.undisturbed pre m post heq t (List.mem_of_getElem? ht) hrun

theorem Orderly.holds (h : Orderly leases clock responses moves) :
    (fillContract leases).Holds (fills leases clock responses moves) :=
  holds_empty.run h.admits

/-- An attempt is started no more often than its start is on record, and
that is at most once. -/
theorem Orderly.starts_le_one (h : Orderly leases clock responses moves) (a : String) :
    (fills leases clock responses moves).count (startedTrue a) ≤ 1 := by
  refine Nat.le_trans (holds_empty.run_count h.admits
    (μ := fun s : FillStore => Legal.starts a s.history) ?_ ?_
    (Nat.zero_le _)) ?_
  · intro s s' hlater
    exact List.Sublist.countP_le hlater.history.sublist
  · intro job r since s s' hpost hmark
    obtain ⟨b, now, rfl, rfl, hba⟩ : ∃ b now, job = .start b now ∧
        r = .started (.ok true) ∧ b = a := by
      unfold startedTrue at hmark
      split at hmark
      · rename_i b now heq
        obtain ⟨rfl, rfl⟩ := Prod.mk.inj heq
        exact ⟨b, now, rfl, rfl, by simpa using hmark⟩
      · cases hmark
    obtain ⟨v, hhistory, hva, hstarted⟩ := hpost b now rfl rfl
    simp [Legal.starts, hhistory, hva, hba, hstarted]
  · exact h.holds.inv.legal.starts_le_one

/-- Whoever is granted the fill, or lets it start, has the head right
then, and the head is not an end. -/
theorem head_of_granted {job : FillJob} {r : FillResult} {b : String}
    {since s s' : FillStore} (hpost : FillPost leases job since s s' r)
    (hgranted : granted (job, r) = some b) :
    (s'.history = s.history ∨ ∃ v, s'.history = v :: s.history) ∧
      ∃ v, s'.history.head? = some v ∧ v.attempt = b ∧ v.terminal = false := by
  unfold granted at hgranted
  split at hgranted
  · rename_i a now decision heq
    obtain ⟨rfl, rfl⟩ := Prod.mk.inj heq
    split at hgranted
    · rename_i howned
      obtain rfl := Option.some.inj hgranted
      obtain ⟨hgrows, v, hv, hva, hheld⟩ := hpost a now decision.record rfl (by rw [← howned])
      refine ⟨hgrows, v, hv, hva, ?_⟩
      simp [Version.terminal, FillRecord.terminal,
        show v.record.state = .held from hheld]
    · cases hgranted
  · rename_i a now heq
    obtain ⟨rfl, rfl⟩ := Prod.mk.inj heq
    obtain rfl := Option.some.inj hgranted
    obtain ⟨v, hv, hva, hstarted⟩ := hpost a now rfl rfl
    refine ⟨.inr ⟨v, hv⟩, v, by simp [hv], hva, ?_⟩
    simp [Version.terminal, FillRecord.terminal,
      show v.record.state = .started from hstarted]
  · cases hgranted

/-- While an attempt is started and not ended, nobody else is granted
anything. -/
theorem FillInv.owner_of_inProgress {a b : String} {s s' : FillStore}
    (h : FillInv leases s') (hprogress : InProgress a s)
    (hgrows : s'.history = s.history ∨ ∃ v, s'.history = v :: s.history)
    {w : Version} (hw : s'.history.head? = some w) (hwb : w.attempt = b)
    (hwt : w.terminal = false) : a = b := by
  obtain ⟨⟨v, hv, hva, hstarted⟩, hopen⟩ := hprogress
  have hv' : v ∈ s'.history := by
    rcases hgrows with heq | ⟨u, heq⟩
    · exact heq ▸ hv
    · exact heq ▸ List.mem_cons_of_mem _ hv
  have hopen' : ∀ u ∈ s'.history, u.attempt = v.attempt → u.terminal = false := by
    intro u hu huv
    rcases hgrows with heq | ⟨x, heq⟩
    · exact hopen u (heq ▸ hu) (huv.trans hva)
    · rw [heq] at hu hw
      obtain rfl := Option.some.inj hw
      rcases List.mem_cons.mp hu with rfl | hu
      · exact hwt
      · exact hopen u hu (huv.trans hva)
  rw [← hva, ← hwb, h.legal.eq_head_of_started hw hv' hstarted hopen']

/-- A call that began after an equal one had returned answers as that
one did, or reports a storage failure: if that one succeeded, or began
when the fill was over for its attempt. -/
theorem Orderly.same_answer (h : Orderly leases clock responses moves)
    {pre post : List (FillMove leases)} (hmoves : moves = pre ++ post)
    {t u : Thread (fillStorage leases).system} {i : Nat} {e : Ending}
    {x y : Except CloudError Unit}
    (ht : t ∈ (fills leases clock responses pre).threads)
    (hi : (fills leases clock responses pre).threads.length ≤ i)
    (hu : (fills leases clock responses moves).threads[i]? = some u)
    (hjob : u.job = t.job) (he : FillJob.ending t.job = some e)
    (hx : t.result? = some (.ended x)) (hsound : ¬StorageFailure x)
    (hover : x = .ok () ∨ ∃ closing, Over e.attempt closing t.since)
    (hy : u.result? = some (.ended y)) : y = x ∨ StorageFailure y := by
  subst hmoves
  have hadmits := h.admits
  have hpre := holds_empty.run hadmits.left
  obtain ⟨s₀, s, hpost, hs⟩ := hpre.returned t ht _ hx
  obtain ⟨s₀', s', hpost', hs'⟩ := h.holds.returned u (List.mem_of_getElem? hu) _ hy
  have hx' := hpost e he
  have hy' := hpost' e (hjob ▸ he)
  have hsince : FillLater (fills leases clock responses pre).state u.since :=
    hpre.run_since hadmits.right hi (by rw [← Pool.run_append]; exact hu)
  rcases hover with rfl | ⟨closing, hover⟩
  · obtain ⟨record, hend, hok⟩ := hx'.ok rfl
    rw [← hok]
    exact hy'.closing (some record) ((FillLater.trans hs hsince).ended hend)
  · rcases hx'.closing closing hover with rfl | hfail
    · refine hy'.closing closing ?_
      have hlater := (hpre.since t ht).trans hsince
      cases closing with
      | none => exact hlater.takenOver hover
      | some r => exact hlater.ended hover
    · exact absurd hfail hsound

/-- Cache fills have one starter. In every orderly run, an attempt's
Start returns true at most once; nobody but the attempt in progress is
granted the fill or a true Start; nobody is granted either after losing
an unstarted lease; and a Release or Complete that is repeated gets the
answer it got before, whatever happened to the head. -/
theorem fills_have_one_starter (h : Orderly leases clock responses moves) :
    (∀ a, (fills leases clock responses moves).count (startedTrue a) ≤ 1) ∧
    (∀ pre m post, moves = pre ++ m :: post → ∀ ret b,
      (Pool.step m (fills leases clock responses pre)).2 = some ret →
      granted ret = some b →
      (∀ a, InProgress a (fills leases clock responses pre).state → a = b) ∧
      ¬TakenOver b (fills leases clock responses pre).state) ∧
    (∀ pre post, moves = pre ++ post →
      ∀ t ∈ (fills leases clock responses pre).threads, ∀ i u e x y,
      (fills leases clock responses pre).threads.length ≤ i →
      (fills leases clock responses moves).threads[i]? = some u →
      u.job = t.job → FillJob.ending t.job = some e →
      t.result? = some (.ended x) → ¬StorageFailure x →
      (x = .ok () ∨ ∃ closing, Over e.attempt closing t.since) →
      u.result? = some (.ended y) → y = x ∨ StorageFailure y) := by
  refine ⟨h.starts_le_one, ?_, ?_⟩
  · rintro pre m post rfl ⟨job, r⟩ b hret hgranted
    have hpre := holds_empty.run h.admits.left
    have hm := (h.admits pre m post rfl).1
    have hs := Pool.step_stepped m (fills leases clock responses pre)
    obtain ⟨hinv, hlater⟩ := hpre.step_state hm hs
    obtain ⟨since, -, hpost⟩ := hpre.step_returned hm hs hret
    obtain ⟨hgrows, v, hv, hvb, hvt⟩ := head_of_granted hpost hgranted
    refine ⟨fun a ha => ?_, fun htaken => ?_⟩
    · exact FillInv.owner_of_inProgress hinv ha hgrows hv hvb hvt
    · exact (FillInv.takenOver hinv (hlater.takenOver htaken)).1 v hv hvb
  · intro pre post hmoves t ht i u e x y hi hu hjob he hx hsound hover hy
    exact h.same_answer hmoves ht hi hu hjob he hx hsound hover hy

-- ===== two runs

instance (a : String) (s : FillStore) : Decidable (Replaced a s) :=
  decidable_of_iff ((∃ v ∈ s.history, v.attempt = a ∧ v.terminal = true) ∧
      ∀ w ∈ s.history.head?, w.attempt ≠ a)
    ⟨fun ⟨⟨v, hv, hva, hvt⟩, hother⟩ => ⟨⟨_, v, hv, rfl, hva, hvt⟩, hother⟩,
      fun ⟨⟨_, v, hv, _, hva, hvt⟩, hother⟩ => ⟨⟨v, hv, hva, hvt⟩, hother⟩⟩

instance (a : String) (now : Int) (s : FillStore) : Decidable (HeadBy a now s) :=
  inferInstanceAs (Decidable (∀ v ∈ s.history, _))

instance (job : FillJob) (s : FillStore) : Decidable (Timely job s) :=
  match job with
  | .acquire _ now => inferInstanceAs (Decidable (now ≤ s.clock))
  | .start a now => inferInstanceAs (Decidable (HeadBy a now s))
  | .release a now => inferInstanceAs (Decidable (HeadBy a now s))
  | .complete _ _ => .isTrue trivial

instance (job : FillJob) (s s' : FillStore) : Decidable (Undisturbed job s s') :=
  match job with
  | .acquire a _ =>
    inferInstanceAs (Decidable (¬Replaced a s → ¬Replaced a s'))
  | .start a now =>
    inferInstanceAs (Decidable (HeadBy a now s → HeadBy a now s'))
  | .release a now =>
    inferInstanceAs (Decidable (HeadBy a now s → HeadBy a now s'))
  | .complete _ _ => .isTrue trivial

/-- Whether a run is orderly. -/
def orderly (leases : Leases) (clock : Int) (responses : Responses)
    (moves : List (FillMove leases)) : Bool :=
  (List.range moves.length).all fun i =>
    let P := fills leases clock responses (moves.take i)
    let P' := fills leases clock responses (moves.take (i + 1))
    (match moves[i]? with
      | some (.start job) => decide (Timely job P.state)
      | _ => true) &&
    P.threads.all fun t =>
      t.result?.isSome || decide (Undisturbed t.job P.state P'.state)

theorem orderly_sound (h : orderly leases clock responses moves = true) :
    Orderly leases clock responses moves := by
  have hat : ∀ pre m post, moves = pre ++ m :: post →
      moves[pre.length]? = some m ∧ moves.take pre.length = pre ∧
        moves.take (pre.length + 1) = pre ++ [m] ∧
        pre.length < moves.length := by
    rintro pre m post rfl
    simp [List.take_append, List.take_of_length_le]
  simp only [orderly, List.all_eq_true, List.mem_range, Bool.and_eq_true,
    Bool.or_eq_true, decide_eq_true_eq] at h
  constructor
  · intro pre job post heq
    obtain ⟨hm, hpre, -, hlt⟩ := hat pre _ post heq
    have := (h pre.length hlt).1
    rw [hm, hpre] at this
    simpa using this
  · intro pre m post heq t ht hrun
    obtain ⟨-, hpre, hnext, hlt⟩ := hat pre m post heq
    have := (h pre.length hlt).2
    rw [hpre, hnext] at this
    rcases this t ht with hsome | hkeeps
    · rw [hrun] at hsome
      cases hsome
    · exact hkeeps

/-- Two attempts on one key, the first a little ahead of the other. -/
def twoLeases : Leases where
  key := "key"
  length := 100
  lease := fun a => ⟨"key", "operation", a, if a = "a" then 10 else 20,
    (if a = "a" then 10 else 20) + 100⟩
  key_eq := fun _ => rfl
  attempt_eq := fun _ => rfl
  expires_eq := fun _ => rfl

def nothingPublished : Responses :=
  ⟨fun _ => none, none⟩

/-- The next operations of a call, each performed and acknowledged. -/
def operations (call count : Nat) : List (FillMove twoLeases) :=
  List.replicate count (.act call .done)

def making (job : FillJob) : List (FillMove twoLeases) :=
  [.start job]

/-- The first attempt fills the key and the second takes it next. -/
def plainRun : List (FillMove twoLeases) :=
  making (.acquire "a" 10) ++ operations 0 3 ++ making (.start "a" 10) ++ operations 1 2 ++
    [.event (.tick 10)] ++
    making (.complete "a" ⟨some .notCacheable, "", 15⟩) ++ operations 2 5 ++
    making (.acquire "b" 20) ++ operations 3 4

theorem fills_have_one_starter_plainRun : (fills twoLeases 10 nothingPublished plainRun).count
        (startedTrue "a") = 1 ∧
      (fills twoLeases 10 nothingPublished plainRun).count (startedTrue "a") ≤ 1 :=
  ⟨by decide +kernel,
    (fills_have_one_starter (orderly_sound (by decide +kernel))).1 "a"⟩

/-- An Acquire of the first attempt looks for its receipt and stalls.
The attempt's fill is started and completed meanwhile, the second
attempt takes the head and releases it, and the stalled Acquire goes
on. -/
def stalledRun : List (FillMove twoLeases) :=
  making (.acquire "a" 10) ++ operations 0 3 ++ making (.acquire "a" 10) ++ operations 1 1 ++
    making (.start "a" 10) ++ operations 2 2 ++
    [.event (.tick 10)] ++
    making (.complete "a" ⟨some .notCacheable, "", 15⟩) ++ operations 3 5 ++
    making (.acquire "b" 20) ++ operations 4 4 ++
    making (.release "b" 20) ++ operations 5 5 ++
    operations 1 3 ++
    making (.start "a" 20) ++ operations 6 2

/-- The stalled Acquire is granted a fill that is over, and Start
returns true for the attempt a second time. -/
theorem stalled_acquire_starts_again : (fills twoLeases 10 nothingPublished stalledRun).count
      (startedTrue "a") = 2 := by
  decide +kernel

end LlmTemporalWorker.CloudState
