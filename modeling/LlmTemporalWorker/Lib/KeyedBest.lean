/-
The best element of every key.

A pass over a list keeps one element per key and replaces it whenever a
better one comes along. What is left has one element for every key of
the list, and a statistic that better elements do not lower is maximal
there.
-/
import Mathlib

namespace LlmTemporalWorker.Lib

variable {α κ : Type*} [DecidableEq κ] (key : α → κ) (better : α → α → Bool)

/-- One turn: `x` joins, replaces the element of its key, or is
dropped. -/
def keepBest (x : α) : List α → List α
  | [] => [x]
  | y :: rest =>
    if key y = key x then
      if better x y then x :: rest else y :: rest
    else y :: keepBest x rest

/-- The pass. -/
def bestOf (xs : List α) : List α :=
  xs.foldl (fun kept x => keepBest key better x kept) []

variable {key better}

theorem mem_keepBest {x y : α} {kept : List α}
    (h : y ∈ keepBest key better x kept) : y = x ∨ y ∈ kept := by
  induction kept with
  | nil => exact Or.inl (List.mem_singleton.mp h)
  | cons z rest ih =>
    unfold keepBest at h
    split at h
    · split at h
      · rcases List.mem_cons.mp h with rfl | h
        · exact Or.inl rfl
        · exact Or.inr (List.mem_cons_of_mem _ h)
      · exact Or.inr h
    · rcases List.mem_cons.mp h with rfl | h
      · exact Or.inr List.mem_cons_self
      · exact (ih h).imp_right (List.mem_cons_of_mem _)

theorem nodup_keepBest {x : α} {kept : List α} (h : (kept.map key).Nodup) :
    ((keepBest key better x kept).map key).Nodup := by
  induction kept with
  | nil => simp [keepBest]
  | cons y rest ih =>
    obtain ⟨hnot, hrest⟩ := List.nodup_cons.mp h
    unfold keepBest
    split
    · rename_i heq
      split
      · exact List.nodup_cons.mpr ⟨heq ▸ hnot, hrest⟩
      · exact h
    · rename_i hne
      refine List.nodup_cons.mpr ⟨fun hmem => ?_, ih hrest⟩
      obtain ⟨z, hz, hkey⟩ := List.mem_map.mp hmem
      rcases mem_keepBest hz with rfl | hz
      · exact hne hkey.symm
      · exact hnot (List.mem_map.mpr ⟨z, hz, hkey⟩)

section Statistic

variable {ρ : Type*} [Preorder ρ] {f : α → ρ}

variable (key) in
/-- The element that joins has a successor of its key. -/
theorem keepBest_self (hworse : ∀ x y, better x y = false → f x ≤ f y) (x : α) (kept : List α) :
    ∃ y ∈ keepBest key better x kept, key y = key x ∧ f x ≤ f y := by
  induction kept with
  | nil => exact ⟨x, List.mem_singleton_self x, rfl, le_refl _⟩
  | cons y rest ih =>
    unfold keepBest
    split
    · rename_i heq
      split
      · exact ⟨x, List.mem_cons_self, rfl, le_refl _⟩
      rename_i hnot
      exact ⟨y, List.mem_cons_self, heq, hworse x y (Bool.eq_false_iff.mpr hnot)⟩
    · obtain ⟨z, hz, hkey, hle⟩ := ih
      exact ⟨z, List.mem_cons_of_mem _ hz, hkey, hle⟩

variable (key) in
/-- So does every element that was kept. -/
theorem keepBest_kept (hbetter : ∀ x y, better x y = true → f y ≤ f x)
    (x : α) {kept : List α} {z : α} (hz : z ∈ kept) :
    ∃ y ∈ keepBest key better x kept, key y = key z ∧ f z ≤ f y := by
  induction kept with
  | nil => cases hz
  | cons y rest ih =>
    unfold keepBest
    split
    · rename_i heq
      split
      · rename_i hyes
        rcases List.mem_cons.mp hz with rfl | hz
        · exact ⟨x, List.mem_cons_self, heq.symm, hbetter x z hyes⟩
        · exact ⟨z, List.mem_cons_of_mem _ hz, rfl, le_refl _⟩
      · exact ⟨z, hz, rfl, le_refl _⟩
    · rcases List.mem_cons.mp hz with rfl | hz
      · exact ⟨z, List.mem_cons_self, rfl, le_refl _⟩
      · obtain ⟨y', hy', hkey, hle⟩ := ih hz
        exact ⟨y', List.mem_cons_of_mem _ hy', hkey, hle⟩

private theorem foldl_best (hbetter : ∀ x y, better x y = true → f y ≤ f x)
    (hworse : ∀ x y, better x y = false → f x ≤ f y) (xs kept : List α)
    {z : α} (hz : z ∈ kept ∨ z ∈ xs) :
    ∃ y ∈ xs.foldl (fun kept x => keepBest key better x kept) kept, key y = key z ∧ f z ≤ f y := by
  induction xs generalizing kept z with
  | nil => exact ⟨z, hz.resolve_right List.not_mem_nil, rfl, le_refl _⟩
  | cons x rest ih =>
    have hstep : ∃ y, (y ∈ keepBest key better x kept ∨ y ∈ rest) ∧ key y = key z ∧ f z ≤ f y := by
      rcases hz with hz | hz
      · obtain ⟨y, hy, h⟩ := keepBest_kept key hbetter x hz
        exact ⟨y, Or.inl hy, h⟩
      · rcases List.mem_cons.mp hz with rfl | hz
        · obtain ⟨y, hy, h⟩ := keepBest_self key hworse z kept
          exact ⟨y, Or.inl hy, h⟩
        · exact ⟨z, Or.inr hz, rfl, le_refl _⟩
    obtain ⟨y, hy, hkey, hle⟩ := hstep
    obtain ⟨y', hy', hkey', hle'⟩ := ih _ hy
    exact ⟨y', hy', hkey'.trans hkey, le_trans hle hle'⟩

/-- Every element of the list has a kept one of its key that is at
least as good. -/
theorem exists_bestOf (hbetter : ∀ x y, better x y = true → f y ≤ f x)
    (hworse : ∀ x y, better x y = false → f x ≤ f y) {xs : List α} {z : α}
    (hz : z ∈ xs) :
    ∃ y ∈ bestOf key better xs, key y = key z ∧ f z ≤ f y :=
  foldl_best hbetter hworse xs [] (Or.inr hz)

end Statistic

private theorem foldl_keep (xs kept : List α) (hkeys : (kept.map key).Nodup) :
    let after := xs.foldl (fun kept x => keepBest key better x kept) kept
    (after.map key).Nodup ∧ ∀ y ∈ after, y ∈ kept ∨ y ∈ xs := by
  induction xs generalizing kept with
  | nil => exact ⟨hkeys, fun y hy => Or.inl hy⟩
  | cons x rest ih =>
    obtain ⟨hnodup, hmem⟩ := ih _ (nodup_keepBest (x := x) hkeys)
    refine ⟨hnodup, fun y hy => ?_⟩
    rcases hmem y hy with h | h
    · rcases mem_keepBest h with rfl | h
      · exact Or.inr List.mem_cons_self
      · exact Or.inl h
    · exact Or.inr (List.mem_cons_of_mem _ h)

theorem nodup_bestOf (xs : List α) : ((bestOf key better xs).map key).Nodup :=
  (foldl_keep xs [] List.nodup_nil).1

theorem mem_of_mem_bestOf {xs : List α} {y : α} (h : y ∈ bestOf key better xs) : y ∈ xs :=
  ((foldl_keep xs [] List.nodup_nil).2 y h).resolve_left List.not_mem_nil

end LlmTemporalWorker.Lib
