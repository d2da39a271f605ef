/-
The head row of a cache key, over its whole history.

`Legal` says which histories the calls can write: an attempt takes the
head once, starts it at most once, ends it at most once, and leaves it
only by ending it or by letting its unstarted lease run out. That an
attempt never comes back is the heart of the file (`Legal.fresh`): an
attempt that lost its unstarted lease is older than every later head
(`Legal.past`), and the rule for replacing a head asks for the opposite.
-/
import LlmTemporalWorker.CloudState.CacheFill

namespace LlmTemporalWorker.CloudState

open Lib Fills

namespace Version

def attempt (v : Version) : String :=
  v.record.attempt

def state (v : Version) : FillState :=
  v.record.state

def terminal (v : Version) : Bool :=
  v.record.terminal

theorem terminal_of_ne {v : Version} (hheld : v.state ≠ .held)
    (hstarted : v.state ≠ .started) : v.terminal = true := by
  revert hheld hstarted
  unfold state terminal FillRecord.terminal
  cases v.record.state <;> simp

theorem held_of_ne {v : Version} (hstarted : v.state ≠ .started)
    (hterminal : v.terminal = false) : v.state = .held := by
  by_cases hheld : v.state = .held
  · exact hheld
  · rw [terminal_of_ne hheld hstarted] at hterminal
    cases hterminal

end Version

variable (leases : Leases)

/-- The head gives way to a lease that is taken at an instant. -/
structure Yields (current : Version) (lease : FillLease) (now : Int) :
    Prop where
  notStarted : current.state ≠ .started
  expired : current.state = .held → current.record.lease.expiresAt ≤ now ∧
    current.record.updatedAt < lease.acquiredAt
  ended : current.terminal = true → current.record.updatedAt < lease.expiresAt

/-- The owner moves its head on: it starts the fill, or gives it back
unstarted, or ends what it started. -/
inductive Advances (v : Version) : FillRecord → Prop
  | start {now : Int} (hheld : v.state = .held) (hnow : v.writtenAt ≤ now) :
      Advances v { v.record with state := .started, updatedAt := now }
  | release {now : Int} (hheld : v.state = .held) (hnow : v.writtenAt ≤ now) :
      Advances v { v.record with state := .released, updatedAt := now }
  | finish {now : Int} {c : FillCompletion} (hstarted : v.state = .started)
      (hnow : v.record.updatedAt ≤ now) :
      Advances v
        { v.record with
          state := .finished
          updatedAt := now
          completion := c }

/-- The histories that the calls write, newest version first. -/
inductive Legal : List Version → Prop
  | nil : Legal []
  | acquire {h : List Version} {a : String} {now : Int} (hlegal : Legal h)
      (hfresh : ∀ v ∈ h, v.attempt ≠ a)
      (hyields : ∀ v ∈ h.head?, Yields v (leases.lease a) now)
      (hclock : ∀ v ∈ h.head?, v.writtenAt ≤ now) :
      Legal (⟨heldRecord (leases.lease a), now⟩ :: h)
  | advance {h : List Version} {v : Version} {next : FillRecord}
      {now : Int} (hlegal : Legal (v :: h)) (hnext : Advances v next)
      (hclock : v.writtenAt ≤ now) : Legal (⟨next, now⟩ :: v :: h)

namespace Advances

variable {v : Version} {next : FillRecord}

theorem lease_eq (h : Advances v next) : next.lease = v.record.lease := by
  cases h <;> rfl

theorem attempt_eq (h : Advances v next) : next.attempt = v.attempt :=
  congrArg FillLease.attempt h.lease_eq

theorem not_held (h : Advances v next) : next.state ≠ .held := by
  cases h <;> simp

theorem not_terminal (h : Advances v next) : v.terminal = false := by
  cases h with
  | start hheld _ | release hheld _ =>
    simp [Version.terminal, FillRecord.terminal,
      show v.record.state = .held from hheld]
  | finish hstarted _ =>
    simp [Version.terminal, FillRecord.terminal,
      show v.record.state = .started from hstarted]

/-- Only a held head is started. -/
theorem held_of_started (h : Advances v next) (hs : next.state = .started) : v.state = .held := by
  cases h with
  | start hheld _ => exact hheld
  | release | finish => cases hs

/-- What a started head becomes is its end. -/
theorem terminal_of_started (h : Advances v next)
    (hs : v.state = .started) : next.terminal = true := by
  cases h with
  | start hheld _ | release hheld _ => simp [hs] at hheld
  | finish _ _ => rfl

end Advances

namespace Legal

variable {leases} {h : List Version} {v w : Version} {a : String}

theorem attempt_heldRecord : (heldRecord (leases.lease a)).attempt = a := leases.attempt_eq a

/-- Every version carries its attempt's lease. -/
theorem lease_eq (hl : Legal leases h) (hv : v ∈ h) : v.record.lease = leases.lease v.attempt := by
  induction hl generalizing v with
  | nil => cases hv
  | acquire hlegal hfresh hyields hclock ih =>
    rcases List.mem_cons.mp hv with rfl | hv
    · exact congrArg _ attempt_heldRecord.symm
    · exact ih hv
  | @advance h w next now hlegal hnext hclock ih =>
    rcases List.mem_cons.mp hv with rfl | hv
    · have hw := ih List.mem_cons_self
      rw [← hnext.lease_eq, ← hnext.attempt_eq] at hw
      exact hw
    · exact ih hv

/-- A held version is what its acquisition wrote. -/
theorem held_eq (hl : Legal leases h) (hv : v ∈ h)
    (hheld : v.state = .held) : v.record = heldRecord v.record.lease := by
  induction hl generalizing v with
  | nil => cases hv
  | acquire hlegal hfresh hyields hclock ih =>
    rcases List.mem_cons.mp hv with rfl | hv
    · rfl
    · exact ih hv hheld
  | advance hlegal hnext hclock ih =>
    rcases List.mem_cons.mp hv with rfl | hv
    · exact absurd hheld hnext.not_held
    · exact ih hv hheld

/-- A held head is its attempt's first version. -/
theorem first_of_held (hl : Legal leases (v :: h))
    (hheld : v.state = .held) : ∀ w ∈ h, w.attempt ≠ v.attempt := by
  cases hl with
  | acquire hlegal hfresh hyields hclock =>
    intro w hw hattempt
    exact hfresh w hw (hattempt.trans attempt_heldRecord)
  | advance hlegal hnext hclock => exact absurd hheld hnext.not_held

theorem tail (hl : Legal leases (v :: h)) : Legal leases h := by
  cases hl with
  | acquire hlegal _ _ _ | advance hlegal _ _ => exact hlegal

theorem suffix {h' : List Version} (hl : Legal leases h) (hs : h' <:+ h) : Legal leases h' := by
  obtain ⟨front, rfl⟩ := hs
  induction front with
  | nil => exact hl
  | cons v front ih => exact ih hl.tail

/-- An attempt's end is its last version. -/
theorem eq_head_of_terminal (hl : Legal leases h) (hw : h.head? = some w)
    (hv : v ∈ h) (hterminal : v.terminal = true)
    (hattempt : v.attempt = w.attempt) : v = w := by
  induction hl generalizing w with
  | nil => cases hv
  | acquire hlegal hfresh hyields hclock ih =>
    obtain rfl := Option.some.inj hw
    rcases List.mem_cons.mp hv with rfl | hv
    · rfl
    · exact absurd (hattempt.trans attempt_heldRecord) (hfresh v hv)
  | @advance h u next now hlegal hnext hclock ih =>
    obtain rfl := Option.some.inj hw
    rcases List.mem_cons.mp hv with rfl | hv
    · rfl
    · have hvu := ih rfl hv (hattempt.trans hnext.attempt_eq)
      rw [hvu, hnext.not_terminal] at hterminal
      cases hterminal

/-- An attempt ends once. -/
theorem terminal_unique (hl : Legal leases h) (hv : v ∈ h) (hw : w ∈ h)
    (hvt : v.terminal = true) (hwt : w.terminal = true)
    (hattempt : v.attempt = w.attempt) : v = w := by
  induction h with
  | nil => cases hv
  | cons u h ih =>
    by_cases hu : v.attempt = u.attempt
    · rw [hl.eq_head_of_terminal rfl hv hvt hu, hl.eq_head_of_terminal rfl hw hwt (hattempt ▸ hu)]
    have hv' := (List.mem_cons.mp hv).resolve_left fun heq => hu (heq ▸ rfl)
    have hw' := (List.mem_cons.mp hw).resolve_left fun heq => hu (heq ▸ hattempt)
    exact ih hl.tail hv' hw'

/-- An attempt whose fill is started and not ended has the head. -/
theorem eq_head_of_started (hl : Legal leases h) (hw : h.head? = some w)
    (hv : v ∈ h) (hstarted : v.state = .started)
    (hopen : ∀ u ∈ h, u.attempt = v.attempt → u.terminal = false) :
    v = w := by
  induction hl generalizing w with
  | nil => cases hv
  | @acquire h a now hlegal hfresh hyields hclock ih =>
    obtain rfl := Option.some.inj hw
    rcases List.mem_cons.mp hv with rfl | hv
    · rfl
    obtain ⟨u, hu⟩ : ∃ u, h.head? = some u :=
      Option.isSome_iff_exists.mp (List.isSome_head?.mpr (List.ne_nil_of_mem hv))
    have hvu := ih hu hv fun x hx => hopen x (List.mem_cons_of_mem _ hx)
    exact absurd (hvu ▸ hstarted) (hyields u hu).notStarted
  | @advance h u next now hlegal hnext hclock ih =>
    obtain rfl := Option.some.inj hw
    rcases List.mem_cons.mp hv with rfl | hv
    · rfl
    have hvu := ih rfl hv fun x hx => hopen x (List.mem_cons_of_mem _ hx)
    have hlast := hopen _ List.mem_cons_self (hvu ▸ hnext.attempt_eq)
    have hterminal := hnext.terminal_of_started (hvu ▸ hstarted)
    exact absurd (hterminal.symm.trans hlast) (by simp)

/-- The number of times an attempt's fill was started. -/
def starts (a : String) (h : List Version) : Nat :=
  h.countP fun v => v.attempt == a && v.state == .started

theorem starts_eq_zero (hh : ∀ v ∈ h, v.attempt ≠ a) : starts a h = 0 := by
  refine List.countP_eq_zero.mpr fun v hv => ?_
  simp [hh v hv]

/-- An attempt starts once. -/
theorem starts_le_one (hl : Legal leases h) : starts a h ≤ 1 := by
  induction hl with
  | nil => exact Nat.zero_le 1
  | @acquire h b now hlegal hfresh hyields hclock ih =>
    simpa [starts, Version.state, heldRecord] using ih
  | @advance h v next now hlegal hnext hclock ih =>
    by_cases hnew : v.attempt = a ∧ next.state = .started
    · -- the head was held, so nothing of this attempt is older
      have hheld := hnext.held_of_started hnew.2
      have hrest : starts a h = 0 := starts_eq_zero (hnew.1 ▸ hlegal.first_of_held hheld)
      have hv : starts a (v :: h) = starts a h := by
        simp [starts, hheld]
      have hcons : starts a (⟨next, now⟩ :: v :: h) ≤ starts a (v :: h) + 1 := by
        unfold starts
        rw [List.countP_cons]
        split <;> omega
      omega
    · have hcons : starts a (⟨next, now⟩ :: v :: h) = starts a (v :: h) := by
        have hnot : ¬(Version.attempt ⟨next, now⟩ = a ∧ Version.state ⟨next, now⟩ = .started) := by
          rw [show Version.attempt ⟨next, now⟩ = v.attempt from
            hnext.attempt_eq]
          exact hnew
        unfold starts
        rw [List.countP_cons_of_neg]
        simpa using hnot
      omega

end Legal

-- ===== no coming back

/-- A head that came after an attempt's unstarted lease had run out. -/
structure Past (a : String) (w : Version) : Prop where
  clock : (leases.lease a).expiresAt ≤ w.writtenAt
  held : w.state = .held → (leases.lease a).acquiredAt < w.record.lease.acquiredAt
  moved : w.state ≠ .held → (leases.lease a).expiresAt ≤ w.record.updatedAt

variable {leases} {h : List Version} {v w : Version} {a : String}

/-- The owner of a later head moves it on at later times. -/
theorem Past.advance {next : FillRecord} {now : Int}
    (hp : Past leases a w) (hnext : Advances w next)
    (hclock : w.writtenAt ≤ now) : Past leases a ⟨next, now⟩ where
  clock := Int.le_trans hp.clock hclock
  held := fun hheld => absurd hheld hnext.not_held
  moved := fun _ => by
    cases hnext with
    | start hheld hnow | release hheld hnow => exact Int.le_trans hp.clock hnow
    | finish hstarted hnow => exact Int.le_trans (hp.moved (by simp [hstarted])) hnow

/-- A head that follows one of a later attempt is of a later attempt. -/
theorem Past.acquire {b : String} {now : Int} (hp : Past leases a w)
    (hlease : w.state = .held → w.record = heldRecord w.record.lease)
    (hyields : Yields w (leases.lease b) now) (hclock : w.writtenAt ≤ now) :
    Past leases a ⟨heldRecord (leases.lease b), now⟩ where
  clock := Int.le_trans hp.clock hclock
  held := fun _ => by
    show (leases.lease a).acquiredAt < (leases.lease b).acquiredAt
    by_cases hheld : w.state = .held
    · have hw := hp.held hheld
      have hb := (hyields.expired hheld).2
      rw [hlease hheld] at hb
      exact Int.lt_trans hw hb
    · have hended := Version.terminal_of_ne hheld hyields.notStarted
      have hw := hp.moved hheld
      have hb := hyields.ended hended
      have ha := leases.expires_eq a
      have hb' := leases.expires_eq b
      omega
  moved := fun hheld => absurd rfl hheld

namespace Legal

/-- An attempt that lost the head without ending is older than the
head. -/
theorem past (hl : Legal leases h) (hw : h.head? = some w) (hv : v ∈ h)
    (hattempt : v.attempt ≠ w.attempt)
    (hopen : ∀ u ∈ h, u.attempt = v.attempt → u.terminal = false) :
    Past leases v.attempt w := by
  induction hl generalizing w with
  | nil => cases hv
  | @acquire h b now hlegal hfresh hyields hclock ih =>
    obtain rfl := Option.some.inj hw
    have hv := (List.mem_cons.mp hv).resolve_left fun heq => hattempt (heq ▸ rfl)
    obtain ⟨u, hu⟩ : ∃ u, h.head? = some u :=
      Option.isSome_iff_exists.mp (List.isSome_head?.mpr (List.ne_nil_of_mem hv))
    have humem := List.mem_of_mem_head? hu
    have hopen' : ∀ u ∈ h, u.attempt = v.attempt → u.terminal = false :=
      fun x hx => hopen x (List.mem_cons_of_mem _ hx)
    by_cases huv : v.attempt = u.attempt
    · -- the head that was replaced is the attempt's own: it was held
      have hheld := Version.held_of_ne (hyields u hu).notStarted (hopen' u humem huv.symm)
      have hlease := hlegal.lease_eq humem
      obtain ⟨hexpired, hlate⟩ := (hyields u hu).expired hheld
      rw [hlegal.held_eq humem hheld] at hlate
      refine ⟨?_, fun _ => ?_, fun hno => absurd rfl hno⟩
      · rw [huv, ← hlease]
        exact hexpired
      · rw [huv, ← hlease]
        exact hlate
    · exact (ih hu hv huv hopen').acquire (hlegal.held_eq humem) (hyields u hu) (hclock u hu)
  | @advance h u next now hlegal hnext hclock ih =>
    obtain rfl := Option.some.inj hw
    have hu : v.attempt ≠ u.attempt := fun heq =>
      hattempt (heq.trans hnext.attempt_eq.symm)
    have hv := (List.mem_cons.mp hv).resolve_left fun heq => hattempt (heq ▸ rfl)
    exact (ih rfl hv hu fun x hx =>
      hopen x (List.mem_cons_of_mem _ hx)).advance hnext hclock

/-- An attempt that may replace the head, and has not ended, was never
there before. -/
theorem fresh {now : Int} (hl : Legal leases h) (hw : h.head? = some w)
    (hyields : Yields w (leases.lease a) now) (hattempt : w.attempt ≠ a)
    (hopen : ∀ u ∈ h, u.attempt = a → u.terminal = false) :
    ∀ v ∈ h, v.attempt ≠ a := by
  rintro v hv rfl
  have hp := hl.past hw hv hattempt.symm hopen
  have hmem := List.mem_of_mem_head? hw
  by_cases hheld : w.state = .held
  · have holder := hp.held hheld
    have hlate := (hyields.expired hheld).2
    rw [hl.held_eq hmem hheld] at hlate
    exact absurd (Int.lt_trans holder hlate) (Int.lt_irrefl _)
  · have hended := Version.terminal_of_ne hheld hyields.notStarted
    exact absurd (hyields.ended hended) (Int.not_lt.mpr (hp.moved hheld))

/-- An attempt that lost the head stays away from it. -/
theorem gone {newer older : List Version} (hl : Legal leases (newer ++ w :: v :: older))
    (hattempt : w.attempt ≠ v.attempt) :
    ∀ u ∈ newer ++ [w], u.attempt ≠ v.attempt := by
  induction newer with
  | nil =>
    intro u hu
    obtain rfl := List.mem_singleton.mp hu
    exact hattempt
  | cons x newer ih =>
    intro u hu
    have hrest := ih hl.tail
    rcases List.mem_cons.mp hu with rfl | hu
    · have hv : v ∈ newer ++ w :: v :: older := by simp
      cases hl' : newer ++ w :: v :: older with
      | nil => simp at hl'
      | cons y rest =>
        have hy : y ∈ newer ++ [w] := by
          cases newer with
          | nil | cons => simp_all
        rw [List.cons_append, hl'] at hl
        rw [hl'] at hv
        cases hl with
        | acquire hlegal hfresh hyields hclock =>
          exact fun heq => hfresh v hv (heq.symm.trans attempt_heldRecord)
        | advance hlegal hnext hclock =>
          exact fun heq => hrest y hy (hnext.attempt_eq.symm.trans heq)
    · exact hrest u hu

end Legal

end LlmTemporalWorker.CloudState
