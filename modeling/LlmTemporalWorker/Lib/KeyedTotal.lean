/-
Weighted totals over finite maps.

A store that keeps one charge in two places (a running total, and the
itemised entries the total is supposed to cover) is verified by
comparing the total with a sum over the entries. This file is the
entry side: `total f m` adds up a weight over a finite map, and the
lemmas say what each map operation does to it.

# Shape of the lemmas

Everything follows from one split: a key's weight, nothing if it is
absent, can be taken out of the sum (`total_erase_add`). Insertion is
stated against the erased map (`total_insert`), so that overwriting
and adding are the same equation.

The weights live in an arbitrary commutative monoid: the callers use
integers, because a running total kept by somebody else may be
negative until it is proved not to be.
-/
import Mathlib

namespace LlmTemporalWorker.Lib

-- ===== finite maps

/-- Finite maps with one value type: Mathlib's association lists at a
constant family. -/
abbrev FMap (κ ν : Type*) := AList fun _ : κ => ν

variable {κ ν M : Type*}

/-- Maps are compared entry by entry, so that a comparison computes. -/
instance [DecidableEq κ] [DecidableEq ν] : DecidableEq (FMap κ ν) :=
  fun m m' => decidable_of_iff (m.entries = m'.entries) AList.ext_iff.symm

section Lookup

variable [DecidableEq κ]

variable (m : FMap κ ν)

/-- The value at a key, or a default: how a store reads a field that
may be absent. -/
def FMap.getD (k : κ) (d : ν) : ν :=
  (m.lookup k).getD d

/-- Insertion read back pointwise. -/
theorem lookup_insert_eq (k k' : κ) (v : ν) :
    (m.insert k v).lookup k' = if k' = k then some v else m.lookup k' := by
  by_cases h : k' = k
  · subst h
    simp
  · rw [if_neg h, AList.lookup_insert_ne h]

/-- Removal read back pointwise. -/
theorem lookup_erase_eq (k k' : κ) :
    (m.erase k).lookup k' = if k' = k then none else m.lookup k' := by
  by_cases h : k' = k
  · subst h
    simp
  · rw [if_neg h, AList.lookup_erase_ne h]

/-- An entry of the list is what lookup finds, and conversely. -/
theorem mem_entries_iff {m : FMap κ ν} {k : κ} {v : ν} :
    (⟨k, v⟩ : Sigma fun _ : κ => ν) ∈ m.entries ↔ m.lookup k = some v :=
  AList.mem_lookup_iff.symm

/-- Every entry kept, changed or dropped on its own. -/
def FMap.filterMap (f : κ → ν → Option ν) : FMap κ ν where
  entries := m.entries.filterMap fun e => (f e.1 e.2).map (⟨e.1, ·⟩)
  nodupKeys := by
    have hkeys : List.Sublist (m.entries.filterMap fun e =>
        (f e.1 e.2).map fun v => (⟨e.1, v⟩ : Sigma fun _ : κ => ν)).keys m.entries.keys := by
      induction m.entries with
      | nil => exact List.Sublist.slnil
      | cons e rest ih =>
        rw [List.filterMap_cons]
        cases f e.1 e.2 with
        | none => exact ih.cons _
        | some v => exact ih.cons_cons _
    exact List.Nodup.sublist hkeys m.nodupKeys

theorem lookup_filterMap (f : κ → ν → Option ν) (k : κ) :
    (m.filterMap f).lookup k = (m.lookup k).bind (f k) := by
  refine Option.ext fun v => ?_
  rw [← mem_entries_iff, Option.bind_eq_some_iff]
  simp only [FMap.filterMap, List.mem_filterMap, Option.map_eq_some_iff]
  constructor
  · rintro ⟨⟨k', u⟩, hmem, v', hv, heq⟩
    cases heq
    exact ⟨u, mem_entries_iff.mp hmem, hv⟩
  · rintro ⟨u, hu, hv⟩
    exact ⟨⟨k, u⟩, mem_entries_iff.mpr hu, v, hv, rfl⟩

end Lookup

-- ===== totals

section Total

variable [AddCommMonoid M]

variable (f : κ → ν → M)

/-- The sum of a weight over the entries of a map. -/
def total (m : FMap κ ν) : M :=
  (m.entries.map fun e => f e.1 e.2).sum

/-- A weight that vanishes on every entry sums to nothing. -/
theorem total_zero (m : FMap κ ν) : total (fun _ _ => (0 : M)) m = 0 :=
  List.sum_map_zero

/-- Sums of weights split. -/
theorem total_add (g : κ → ν → M) (m : FMap κ ν) :
    total (fun k v => f k v + g k v) m = total f m + total g m :=
  List.sum_map_add

/-- A total over what is left of a map, each entry on its own. -/
theorem total_filterMap (g : κ → ν → Option ν) (m : FMap κ ν) :
    total f (m.filterMap g) = total (fun k v => (g k v).elim 0 (f k)) m := by
  unfold total FMap.filterMap
  dsimp only
  induction m.entries with
  | nil => rfl
  | cons e rest ih =>
    rw [List.filterMap_cons, List.map_cons, List.sum_cons]
    cases hg : g e.1 e.2 with
    | none => simpa [hg] using ih
    | some v => simp only [Option.map_some, List.map_cons, List.sum_cons, ih, Option.elim_some]

variable [DecidableEq κ]

variable {m : FMap κ ν} {k : κ}

/-- Only the entries present matter to a total. -/
theorem total_congr {f g : κ → ν → M} (h : ∀ k v, m.lookup k = some v → f k v = g k v) :
    total f m = total g m := by
  unfold total
  congr 1
  refine List.map_congr_left fun e he => ?_
  exact h e.1 e.2 (mem_entries_iff.mp he)

/-- A key can be taken out of the sum. -/
theorem total_erase_add (m : FMap κ ν) (k : κ) :
    total f (m.erase k) + (m.lookup k).elim 0 (f k) = total f m := by
  cases h : m.lookup k with
  | none =>
    unfold total AList.erase
    simp only [List.kerase_of_notMem_keys (AList.lookup_eq_none.mp h)]
    exact add_zero _
  | some v =>
    have hmem : (⟨k, v⟩ : Sigma fun _ : κ => ν) ∈ m.entries := mem_entries_iff.mpr h
    obtain ⟨b, l₁, l₂, -, hl, hk⟩ := List.exists_of_kerase (List.mem_keys_of_mem hmem)
    -- the entry `kerase` drops is the one lookup finds
    obtain rfl : b = v := by
      have hb : (⟨k, b⟩ : Sigma fun _ : κ => ν) ∈ m.entries := by
        rw [hl]
        simp
      exact Option.some.inj ((mem_entries_iff.mp hb).symm.trans h)
    unfold total AList.erase
    simp only [hl, List.map_append, List.map_cons, List.sum_append, List.sum_cons]
    rw [← hl, hk]
    simp only [List.map_append, List.sum_append, Option.elim_some]
    abel

/-- Insertion, against the erased map: overwriting and adding alike. -/
theorem total_insert (m : FMap κ ν) (k : κ) (v : ν) :
    total f (m.insert k v) = f k v + total f (m.erase k) := by
  unfold total AList.insert AList.erase
  simp [List.kinsert_def]

end Total

-- ===== totals in the integers

section Int

theorem total_mul (c : Int) (f : κ → ν → Int) (m : FMap κ ν) :
    total (fun k v => c * f k v) m = c * total f m :=
  List.sum_map_mul_left ..

/-- A total of list sums is the sum over the joined lists. -/
theorem total_sum_eq {α : Type*} (s : κ → ν → List α) (h : α → Int) (m : FMap κ ν) :
    total (fun k v => ((s k v).map h).sum) m
      = ((m.entries.flatMap fun e => s e.1 e.2).map h).sum := by
  rw [List.map_flatMap, List.flatMap, List.sum_flatten, List.map_map]
  rfl

variable [DecidableEq κ]

variable {m : FMap κ ν} {k : κ} {f : κ → ν → Int}

/-- Removal as a difference. -/
theorem total_erase (f : κ → ν → Int) (m : FMap κ ν) (k : κ) :
    total f (m.erase k) = total f m - (m.lookup k).elim 0 (f k) := by
  have := total_erase_add f m k
  omega

/-- Insertion as a difference: the total moves by new minus old. -/
theorem total_insert_eq (f : κ → ν → Int) (m : FMap κ ν) (k : κ) (v : ν) :
    total f (m.insert k v) = total f m + f k v - (m.lookup k).elim 0 (f k) := by
  rw [total_insert, total_erase]
  omega

/-- A total of non-negative weights is non-negative. -/
theorem total_nonneg (h : ∀ k v, m.lookup k = some v → 0 ≤ f k v) : 0 ≤ total f m := by
  refine List.sum_nonneg fun x hx => ?_
  obtain ⟨e, he, rfl⟩ := List.mem_map.mp hx
  exact h e.1 e.2 (mem_entries_iff.mp he)

/-- Every entry's weight fits under a total of non-negative weights. -/
theorem le_total {v : ν} (h0 : ∀ k v, m.lookup k = some v → 0 ≤ f k v)
    (h : m.lookup k = some v) : f k v ≤ total f m := by
  have hrest : 0 ≤ total f (m.erase k) := by
    refine total_nonneg fun k' v' h' => ?_
    rw [lookup_erase_eq] at h'
    split at h'
    · cases h'
    · exact h0 k' v' h'
  rw [total_erase, h, Option.elim_some] at hrest
  omega

/-- Pointwise bounds add up. -/
theorem total_le_total {g : κ → ν → Int} (h : ∀ k v, m.lookup k = some v → f k v ≤ g k v) :
    total f m ≤ total g m := by
  refine List.sum_le_sum fun e he => ?_
  exact h e.1 e.2 (mem_entries_iff.mp he)

/-- Weights charged to distinct entries, each positive one at most its
entry's, come to at most the total. -/
theorem sum_map_le_total {ι : Type*} {s : List ι} {g : ι → κ} {h : ι → Int} (hnd : (s.map g).Nodup)
    (hle : ∀ i ∈ s, 0 < h i → ∃ v, m.lookup (g i) = some v ∧ h i ≤ f (g i) v)
    (h0 : ∀ k v, m.lookup k = some v → 0 ≤ f k v) :
    (s.map h).sum ≤ total f m := by
  induction s generalizing m with
  | nil => exact total_nonneg h0
  | cons i rest ih =>
    rw [List.map_cons, List.nodup_cons] at hnd
    obtain ⟨hi, hle⟩ := List.forall_mem_cons.mp hle
    rw [List.map_cons, List.sum_cons]
    by_cases hpos : 0 < h i
    · obtain ⟨v, hv, hi⟩ := hi hpos
      have hrest := ih (m := m.erase (g i)) hnd.2 (fun j hj hpos => by
          obtain ⟨u, hu, hj'⟩ := hle j hj hpos
          refine ⟨u, ?_, hj'⟩
          rw [lookup_erase_eq, if_neg, hu]
          intro he
          exact hnd.1 (he ▸ List.mem_map_of_mem hj))
        (fun k u hu => by
          rw [lookup_erase_eq] at hu
          split at hu
          · cases hu
          · exact h0 k u hu)
      rw [total_erase, hv, Option.elim_some] at hrest
      omega
    · have hrest := ih hnd.2 hle h0
      omega

end Int

-- ===== totals of lists

/-- Replacing one entry of a list moves its total by the difference. -/
theorem sum_map_set {α : Type*} {l : List α} {i : Nat} {x : α}
    (h : l[i]? = some x) (y : α) (f : α → Int) :
    ((l.set i y).map f).sum = (l.map f).sum + f y - f x := by
  obtain ⟨hi, rfl⟩ := List.getElem?_eq_some_iff.mp h
  rw [List.map_set, List.sum_set', dif_pos (by rwa [List.length_map]), List.getElem_map]
  omega

end LlmTemporalWorker.Lib
