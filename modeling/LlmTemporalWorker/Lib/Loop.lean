/-
Loops of steps that may fail.

A loop over a list takes one step per item and ends at the first step
that fails. Nothing undoes what the earlier steps did, so the loop
returns the state it leaves next to its outcome (`untilError`).

# Local steps

Often each item names a place, and its step reads and changes the value
of that place alone (`LocalStep`). Two consequences are what callers
use. Items with distinct places do not see each other, so a loop whose
steps go through at the values it starts from changes each place once
(`LocalStep.untilError_ok`). And two states that agree on the places of
a loop go through it alike (`LocalStep.untilError_agree`).
-/
import Mathlib

namespace LlmTemporalWorker.Lib

variable {σ α κ ν ε : Type*}

/-- Steps in sequence, up to the first that fails. -/
def untilError (step : α → σ → σ × Except ε Unit) : List α → σ → σ × Except ε Unit
  | [], s => (s, .ok ())
  | a :: rest, s =>
    match step a s with
    | (s', .ok ()) => untilError step rest s'
    | (s', .error e) => (s', .error e)

-- ===== places

variable [DecidableEq κ] (place : α → κ) (change : α → ν → ν)

/-- Values with the place of every item changed. -/
def revalue (items : List α) (values : κ → ν) : κ → ν := fun k =>
  match items.find? fun a => decide (place a = k) with
  | some a => change a (values k)
  | none => values k

variable {place change} {items : List α} {values : κ → ν}

theorem revalue_of_notMem {k : κ} (h : k ∉ items.map place) :
    revalue place change items values k = values k := by
  have hnone : items.find? (fun a => decide (place a = k)) = none := by
    refine List.find?_eq_none.mpr fun a ha hk => h ?_
    exact List.mem_map.mpr ⟨a, ha, of_decide_eq_true hk⟩
  rw [revalue, hnone]

variable {a : α} {s : σ}

theorem revalue_cons (h : place a ∉ items.map place) :
    revalue place change (a :: items) values = revalue place change items
          (Function.update values (place a) (change a (values (place a)))) := by
  funext k
  by_cases hk : place a = k
  · subst hk
    rw [revalue_of_notMem h, Function.update_self, revalue, List.find?_cons_of_pos (by simp)]
  · rw [revalue, revalue, List.find?_cons_of_neg (by simpa using hk),
      Function.update_of_ne (Ne.symm hk)]

/-- The place of an item holds what the item makes of its value. -/
theorem revalue_of_mem (hnd : (items.map place).Nodup) (h : a ∈ items) :
    revalue place change items values (place a) = change a (values (place a)) := by
  induction items generalizing values with
  | nil => cases h
  | cons b rest ih =>
    rw [List.map_cons, List.nodup_cons] at hnd
    rw [revalue_cons hnd.1]
    rcases List.mem_cons.mp h with rfl | h
    · rw [revalue_of_notMem hnd.1, Function.update_self]
    · have hne : place a ≠ place b := fun he =>
        hnd.1 (he ▸ List.mem_map_of_mem h)
      rw [ih hnd.2 h, Function.update_of_ne hne]

/-- Either no item names a place, or one does. -/
theorem revalue_cases (hnd : (items.map place).Nodup) (k : κ) :
    (k ∉ items.map place ∧ revalue place change items values k = values k)
      ∨ ∃ a ∈ items, place a = k ∧ revalue place change items values k = change a (values k) := by
  by_cases h : k ∈ items.map place
  · obtain ⟨a, ha, rfl⟩ := List.mem_map.mp h
    exact .inr ⟨a, ha, rfl, revalue_of_mem hnd ha⟩
  · exact .inl ⟨h, revalue_of_notMem h⟩

-- ===== local steps

/-- A step that reads and changes the value of its item's place alone:
`settle` makes the new value of the old one, or fails. -/
structure LocalStep (read : σ → κ → ν) (place : α → κ)
    (settle : α → ν → Except ε ν) (step : α → σ → σ × Except ε Unit) :
    Prop where
  outcome : ∀ a s, (step a s).2 = (settle a (read s (place a))).map fun _ => ()
  changed : ∀ {a s v}, settle a (read s (place a)) = .ok v →
    read (step a s).1 = Function.update (read s) (place a) v
  unchanged : ∀ {a s e}, settle a (read s (place a)) = .error e → read (step a s).1 = read s

variable {read : σ → κ → ν} {settle : α → ν → Except ε ν}
  {step : α → σ → σ × Except ε Unit}

/-- A step is local when each of its outcomes is the one `settle` has. -/
theorem LocalStep.of_cases (h : ∀ a s, (∃ e, settle a (read s (place a)) = .error e
        ∧ (step a s).2 = .error e ∧ read (step a s).1 = read s)
      ∨ ∃ v, settle a (read s (place a)) = .ok v ∧ (step a s).2 = .ok ()
        ∧ read (step a s).1 = Function.update (read s) (place a) v) :
    LocalStep read place settle step := by
  refine ⟨fun a s => ?_, fun {a s v} hv => ?_, fun {a s e} he => ?_⟩
  · rcases h a s with ⟨e, hs, ho, -⟩ | ⟨v, hs, ho, -⟩
    · rw [hs, ho]
      rfl
    · rw [hs, ho]
      rfl
  · rcases h a s with ⟨e, hs, -, -⟩ | ⟨w, hs, -, hread⟩
    · rw [hs] at hv
      cases hv
    · rw [hs] at hv
      cases hv
      exact hread
  · rcases h a s with ⟨-, -, -, hread⟩ | ⟨w, hs, -, -⟩
    · exact hread
    · rw [hs] at he
      cases he

/-- A loop takes its next step from where a step that went through
left. -/
theorem untilError_cons_ok (h : (step a s).2 = .ok ()) : untilError step (a :: items) s
      = untilError step items (step a s).1 := by
  rw [untilError]
  generalize step a s = next at h ⊢
  obtain ⟨s', outcome⟩ := next
  cases h
  rfl

/-- It ends where a step that failed left. -/
theorem untilError_cons_error {e : ε} (h : (step a s).2 = .error e) :
    untilError step (a :: items) s = step a s := by
  rw [untilError]
  generalize step a s = next at h ⊢
  obtain ⟨s', outcome⟩ := next
  cases h
  rfl

/-- Steps that go through at the values the loop starts from go through
in sequence. -/
theorem LocalStep.untilError_ok (local_ : LocalStep read place settle step)
    (hnd : (items.map place).Nodup)
    (hok : ∀ a ∈ items, settle a (read s (place a)) = .ok (change a (read s (place a)))) :
    (untilError step items s).2 = .ok () ∧ read (untilError step items s).1
        = revalue place change items (read s) := by
  induction items generalizing s with
  | nil => exact ⟨rfl, rfl⟩
  | cons a rest ih =>
    rw [List.map_cons, List.nodup_cons] at hnd
    have ha := hok a List.mem_cons_self
    have hread := local_.changed ha
    have hstep : (step a s).2 = .ok () := by
      rw [local_.outcome, ha]
      rfl
    -- the places still to come read as they did at the start
    have hrest : ∀ b ∈ rest, read (step a s).1 (place b) = read s (place b) := by
      intro b hb
      have hne : place b ≠ place a := fun he =>
        hnd.1 (he ▸ List.mem_map_of_mem hb)
      rw [hread, Function.update_of_ne hne]
    rw [untilError_cons_ok hstep, revalue_cons hnd.1, ← hread]
    refine ih hnd.2 fun b hb => ?_
    rw [hrest b hb]
    exact hok b (List.mem_cons_of_mem a hb)

/-- One local step in two states that agree on the places of a set. -/
theorem LocalStep.agree (local_ : LocalStep read place settle step) {t : σ}
    {places : κ → Prop} (hagree : ∀ k, places k → read s k = read t k)
    (ha : places (place a)) :
    (step a s).2 = (step a t).2 ∧ ∀ k, places k → read (step a s).1 k = read (step a t).1 k := by
  have hplace := hagree _ ha
  refine ⟨by rw [local_.outcome, local_.outcome, hplace], ?_⟩
  intro k hk
  cases hs : settle a (read s (place a)) with
  | error e =>
    rw [local_.unchanged hs, local_.unchanged (hplace ▸ hs)]
    exact hagree k hk
  | ok v =>
    rw [local_.changed hs, local_.changed (hplace ▸ hs)]
    by_cases hka : k = place a
    · subst hka
      rw [Function.update_self, Function.update_self]
    · rw [Function.update_of_ne hka, Function.update_of_ne hka]
      exact hagree k hk

/-- States that agree on the places of a loop go through it alike. -/
theorem LocalStep.untilError_agree
    (local_ : LocalStep read place settle step) {t : σ} {places : κ → Prop}
    (hagree : ∀ k, places k → read s k = read t k)
    (hitems : ∀ a ∈ items, places (place a)) :
    (untilError step items s).2 = (untilError step items t).2
      ∧ ∀ k, places k → read (untilError step items s).1 k
        = read (untilError step items t).1 k := by
  induction items generalizing s t with
  | nil => exact ⟨rfl, hagree⟩
  | cons a rest ih =>
    obtain ⟨ha, hrest⟩ := List.forall_mem_cons.mp hitems
    obtain ⟨houtcome, hstep⟩ := local_.agree hagree ha
    cases hs : (step a s).2 with
    | ok u =>
      rw [untilError_cons_ok hs, untilError_cons_ok (houtcome ▸ hs)]
      exact ih hstep hrest
    | error e =>
      rw [untilError_cons_error hs, untilError_cons_error (houtcome ▸ hs)]
      exact ⟨houtcome, hstep⟩

end LlmTemporalWorker.Lib
