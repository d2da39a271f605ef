/-
Windows of numbered buckets that slide over a time line.

Time is divided into buckets of one width; what happens at a time is
counted in the bucket of that time. The window of a length that ends at
a time covers the buckets from the one its start falls into to the
current one, and a total over the window is a sum over those indexes.

# Shape of the lemmas

A loop over the window visits a list of consecutive indexes (`visited`),
and its total is a sum over an interval (`sum_visited`), where Mathlib's
monotonicity lemmas apply. Which indexes a window has left behind is
one fact about floor division (`lt_windowFirst_iff`): a bucket is gone
when a whole length has passed since its end.
-/
import Mathlib

namespace LlmTemporalWorker.Lib

-- ===== indexes

/-- So many consecutive indexes. -/
def indicesFrom (first : Int) : Nat → List Int
  | 0 => []
  | n + 1 => first :: indicesFrom (first + 1) n

/-- The indexes that a loop from `first` to `last` visits. -/
def visited (first last : Int) : List Int :=
  indicesFrom first (last - first + 1).toNat

theorem visited_of_lt {first last : Int} (h : last < first) : visited first last = [] := by
  have hcount : (last - first + 1).toNat = 0 := by omega
  rw [visited, hcount]
  rfl

theorem visited_of_le {first last : Int} (h : first ≤ last) :
    visited first last = first :: visited (first + 1) last := by
  have hcount : (last - first + 1).toNat = (last - (first + 1) + 1).toNat + 1 := by omega
  rw [visited, hcount]
  rfl

/-- A property of every start of a loop to `last`: it holds where
nothing is visited, and before each index that is. -/
theorem visited_induction {motive : Int → Prop} (last : Int)
    (done : ∀ first, last < first → motive first)
    (turn : ∀ first, first ≤ last → motive (first + 1) → motive first)
    (first : Int) : motive first := by
  generalize hcount : (last - first + 1).toNat = n
  induction n generalizing first with
  | zero => exact done first (by omega)
  | succ n ih => exact turn first (by omega) (ih (first + 1) (by omega))

theorem mem_visited {first last i : Int} : i ∈ visited first last ↔ first ≤ i ∧ i ≤ last := by
  induction first using visited_induction last with
  | done first h =>
    rw [visited_of_lt h]
    simp only [List.not_mem_nil, false_iff]
    omega
  | turn first h ih =>
    rw [visited_of_le h, List.mem_cons, ih]
    omega

theorem nodup_visited (first last : Int) : (visited first last).Nodup := by
  induction first using visited_induction last with
  | done first h =>
    rw [visited_of_lt h]
    exact List.nodup_nil
  | turn first h ih =>
    rw [visited_of_le h, List.nodup_cons, mem_visited]
    exact ⟨by omega, ih⟩

-- ===== sums

/-- A loop's total is the sum over the interval. -/
theorem sum_visited {M : Type*} [AddCommMonoid M] (f : Int → M) (first last : Int) :
    ((visited first last).map f).sum = ∑ i ∈ Finset.Icc first last, f i := by
  induction first using visited_induction last with
  | done first h =>
    rw [visited_of_lt h, Finset.Icc_eq_empty (by omega)]
    rfl
  | turn first h ih =>
    have hsplit : Finset.Icc first last = insert first (Finset.Icc (first + 1) last) := by
      ext i
      simp only [Finset.mem_insert, Finset.mem_Icc]
      omega
    rw [visited_of_le h, List.map_cons, List.sum_cons, ih, hsplit, Finset.sum_insert (by simp)]

/-- The sum over an interval, its first index apart. -/
theorem sum_Icc_of_le {M : Type*} [AddCommMonoid M] (f : Int → M)
    {first last : Int} (h : first ≤ last) :
    ∑ i ∈ Finset.Icc first last, f i = f first + ∑ i ∈ Finset.Icc (first + 1) last, f i := by
  rw [← sum_visited, ← sum_visited, visited_of_le h, List.map_cons, List.sum_cons]

-- ===== windows

/-- The first bucket of the window of a length that ends at a time. -/
def windowFirst (length bucket time : Int) : Int := (time - length) / bucket

/-- The current bucket. -/
def windowLast (bucket time : Int) : Int := time / bucket

variable {length bucket time later i : Int}

/-- A bucket has left the window when a whole length has passed since its
end. -/
theorem lt_windowFirst_iff (hb : 0 < bucket) : i < windowFirst length bucket time
      ↔ (i + 1) * bucket + length ≤ time := by
  rw [windowFirst, ← Int.add_one_le_iff, Int.le_ediv_iff_mul_le hb]
  omega

theorem windowFirst_mono (hb : 0 < bucket) (h : time ≤ later) :
    windowFirst length bucket time ≤ windowFirst length bucket later :=
  Int.ediv_le_ediv hb (by omega)

theorem windowLast_mono (hb : 0 < bucket) (h : time ≤ later) :
    windowLast bucket time ≤ windowLast bucket later :=
  Int.ediv_le_ediv hb h

end LlmTemporalWorker.Lib
