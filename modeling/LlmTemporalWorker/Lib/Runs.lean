/-
Runs of equal keys, and reordering inside them.

A list falls into maximal runs of consecutive elements with one key. A
function that only permutes each run permutes the list, leaves the
sequence of keys as it was, and leaves the runs where they were: running
over the result again finds the reordered runs.
-/
import Mathlib

namespace LlmTemporalWorker.Lib

variable {α κ : Type} [DecidableEq κ] (key : α → κ)

/-- The maximal runs of one key. -/
def runs (l : List α) : List (List α) :=
  l.splitBy fun x y => decide (key x = key y)

theorem flatten_runs (l : List α) : (runs key l).flatten = l := List.flatten_splitBy _ l

variable {key} {l : List α} {f : List α → List α}

/-- A run has one key. -/
theorem key_of_mem_runs {run : List α} (h : run ∈ runs key l) {x y : α}
    (hx : x ∈ run) (hy : y ∈ run) : key x = key y := by
  have hpairs : run.Pairwise fun x y => key x = key y :=
    List.isChain_iff_pairwise.mp ((List.isChain_of_mem_splitBy h).imp
      fun _ _ hxy => of_decide_eq_true hxy)
  exact hpairs.forall_of_forall (R := fun x y => key x = key y) (fun _ _ => rfl) hx hy

/-- Runs that are permuted inside are still the runs of the whole. -/
theorem runs_flatten_map (hf : ∀ run, (f run).Perm run) :
    runs key ((runs key l).map f).flatten = (runs key l).map f := by
  refine List.splitBy_flatten ?_ ?_ ?_
  · intro hnil
    obtain ⟨run, hrun, hempty⟩ := List.mem_map.mp hnil
    exact List.ne_nil_of_mem_splitBy hrun (hempty ▸ hf run).nil_eq.symm
  · intro m hm
    obtain ⟨run, hrun, rfl⟩ := List.mem_map.mp hm
    refine List.Pairwise.isChain (List.pairwise_of_forall_mem_list ?_)
    intro x hx y hy
    exact decide_eq_true (key_of_mem_runs hrun ((hf run).mem_iff.mp hx) ((hf run).mem_iff.mp hy))
  · rw [List.isChain_map]
    refine (List.isChain_getLast_head_splitBy _ l).imp_of_mem_imp ?_
    rintro a b ha hb ⟨hane, hbne, hgap⟩
    have hane' : f a ≠ [] := fun he => hane (he ▸ hf a).nil_eq.symm
    have hbne' : f b ≠ [] := fun he => hbne (he ▸ hf b).nil_eq.symm
    refine ⟨hane', hbne', ?_⟩
    rw [key_of_mem_runs ha ((hf a).mem_iff.mp (List.getLast_mem hane')) (List.getLast_mem hane),
      key_of_mem_runs hb ((hf b).mem_iff.mp (List.head_mem hbne')) (List.head_mem hbne)]
    exact hgap

theorem flatten_map_runs_perm (hf : ∀ run, (f run).Perm run) :
    ((runs key l).map f).flatten.Perm l := by
  conv_rhs => rw [← flatten_runs key l]
  induction runs key l with
  | nil => exact List.Perm.refl _
  | cons run rest ih =>
    exact (hf run).append ih

/-- Neither does the sequence of keys change. -/
theorem map_key_flatten_map_runs (hf : ∀ run, (f run).Perm run) :
    ((runs key l).map f).flatten.map key = l.map key := by
  conv_rhs => rw [← flatten_runs key l]
  rw [List.map_flatten, List.map_flatten, List.map_map]
  refine congrArg List.flatten (List.map_congr_left ?_)
  intro run hrun
  obtain ⟨x, hx⟩ := List.exists_mem_of_ne_nil run (List.ne_nil_of_mem_splitBy hrun)
  have hconst : ∀ y ∈ run, key y = key x := fun y hy => key_of_mem_runs hrun hy hx
  rw [Function.comp_apply, List.map_eq_replicate_iff.mpr hconst,
    List.map_eq_replicate_iff.mpr fun y hy =>
      hconst y ((hf run).mem_iff.mp hy), (hf run).length_eq]

end LlmTemporalWorker.Lib
