/-
Runs of a machine that answers.

A server that executes one atomic command at a time is a function from
a command and a state to a state and an answer. A run is what a list of
commands makes of a state. The two rules say how a property of all
states, or a relation between an earlier and a later state, follows
from single commands.
-/
import Mathlib

namespace LlmTemporalWorker.Lib

variable {σ α ρ : Type*} (step : α → σ → σ × ρ)

/-- The state after a list of commands. -/
def runAll (s : σ) (as : List α) : σ :=
  as.foldl (fun s a => (step a s).1) s

/-- The answers to a list of commands. -/
def replies : σ → List α → List ρ
  | _, [] => []
  | s, a :: rest => (step a s).2 :: replies (step a s).1 rest

variable {step} {s : σ} {as bs : List α}

theorem runAll_append : runAll step s (as ++ bs) = runAll step (runAll step s as) bs :=
  List.foldl_append

theorem runAll_snoc {a : α} : runAll step s (as ++ [a]) = (step a (runAll step s as)).1 :=
  runAll_append

/-- What holds at the start and is kept by every command, where the run
executes it, holds at its end. -/
theorem runAll_invariant_at {I : σ → Prop} (h₀ : I s) (hstep : ∀ pre a post, as = pre ++ a :: post →
      I (runAll step s pre) → I (step a (runAll step s pre)).1) :
    I (runAll step s as) := by
  induction as using List.reverseRecOn with
  | nil => exact h₀
  | append_singleton pre a ih =>
    rw [runAll_snoc]
    refine hstep pre a [] rfl (ih ?_)
    intro pre' b post hpre
    exact hstep pre' b (post ++ [a]) (by simp [hpre])

/-- What holds at the start and is kept by every command of the run
holds at its end. -/
theorem runAll_invariant {I : σ → Prop} (h₀ : I s) (hstep : ∀ a ∈ as, ∀ s, I s → I (step a s).1) :
    I (runAll step s as) :=
  runAll_invariant_at h₀ fun _ a _ has =>
    hstep a (has ▸ List.mem_append_right _ List.mem_cons_self) _

end LlmTemporalWorker.Lib
