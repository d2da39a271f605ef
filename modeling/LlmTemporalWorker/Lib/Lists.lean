/-
Lists that run in parallel, and checks in sequence.

A pass that maps a list element by element, or refuses at the first
element it cannot map, leaves its input and its output related by
`List.Forall₂`. The lemmas here get from an accepted pass to that
relation, and from the relation to single elements.
-/
import Mathlib

namespace LlmTemporalWorker.Lib

universe u

variable {α β : Type u} {ε : Type*} {R : α → β → Prop} {xs : List α} {ys : List β}

variable {x : α} {f : α → Except ε β} {b : β}

theorem exists_of_forall₂_left (h : List.Forall₂ R xs ys) (hx : x ∈ xs) : ∃ y ∈ ys, R x y := by
  induction h with
  | nil => cases hx
  | cons hxy _ ih =>
    rcases List.mem_cons.mp hx with rfl | hx
    · exact ⟨_, List.mem_cons_self, hxy⟩
    · obtain ⟨y, hy, hxy⟩ := ih hx
      exact ⟨y, List.mem_cons_of_mem _ hy, hxy⟩

theorem exists_of_forall₂_right (h : List.Forall₂ R xs ys) {y : β}
    (hy : y ∈ ys) : ∃ x ∈ xs, R x y :=
  exists_of_forall₂_left h.flip hy

theorem getElem?_of_forall₂ (h : List.Forall₂ R xs ys) {i : Nat}
    (hx : xs[i]? = some x) : ∃ y, ys[i]? = some y ∧ R x y := by
  induction h generalizing i with
  | nil => cases hx
  | cons hxy _ ih =>
    cases i with
    | zero =>
      cases hx
      exact ⟨_, rfl, hxy⟩
    | succ i => exact ih hx

/-- Two lists of one length, related place by place. -/
theorem forall₂_of_getElem? (hlen : xs.length = ys.length)
    (h : ∀ {j : Nat} {x y}, xs[j]? = some x → ys[j]? = some y → R x y) :
    List.Forall₂ R xs ys := by
  induction xs generalizing ys with
  | nil =>
    cases ys with
    | nil => exact .nil
    | cons y rest => cases hlen
  | cons x xs ih =>
    cases ys with
    | nil => cases hlen
    | cons y ys =>
      refine .cons (@h 0 x y rfl rfl) (ih (Nat.succ.inj hlen) ?_)
      intro j x' y' hx hy
      exact @h (j + 1) x' y' hx hy

/-- A function that reads the relation's other side. -/
theorem forall₂_map_eq {f : β → α} (h : List.Forall₂ R xs ys)
    (hf : ∀ {x y}, R x y → x = f y) : xs = ys.map f := by
  induction h with
  | nil => rfl
  | cons hxy _ ih => rw [List.map_cons, ← ih, hf hxy]

theorem forall₂_trans {R : α → α → Prop}
    (htrans : ∀ {x y z}, R x y → R y z → R x z) {xs ys zs : List α}
    (h : List.Forall₂ R xs ys) (h' : List.Forall₂ R ys zs) :
    List.Forall₂ R xs zs := by
  induction h generalizing zs with
  | nil =>
    cases h'
    exact .nil
  | cons hxy _ ih =>
    cases h' with
    | cons hyz hrest => exact .cons (htrans hxy hyz) (ih hrest)

/-- Replacing one element by a related one. -/
theorem forall₂_set {R : α → α → Prop} (hrefl : ∀ x, R x x) {y : α}
    {i : Nat} (hx : xs[i]? = some x) (hxy : R x y) :
    List.Forall₂ R xs (xs.set i y) := by
  induction xs generalizing i with
  | nil => cases hx
  | cons z rest ih =>
    cases i with
    | zero =>
      cases hx
      exact .cons hxy (List.forall₂_same.mpr fun a _ => hrefl a)
    | succ i => exact .cons (hrefl z) (ih hx)

theorem getElem?_set_cases {i k : Nat} {y : α} (h : (xs.set k y)[i]? = some x) :
    xs[i]? = some x ∨ k = i ∧ x = y := by
  by_cases hk : k = i
  · subst hk
    rw [List.getElem?_set_self'] at h
    obtain ⟨_, -, rfl⟩ := Option.map_eq_some_iff.mp h
    exact .inr ⟨rfl, rfl⟩
  · exact .inl (by rwa [List.getElem?_set_ne hk] at h)

/-- Replacing an element by one that looks the same under `g` is not seen
through `g`. -/
theorem map_set_of_eq {i : Nat} {y : α} (h : xs[i]? = some x) {g : α → β} (hg : g y = g x) :
    (xs.set i y).map g = xs.map g := by
  obtain ⟨hi, rfl⟩ := List.getElem?_eq_some_iff.mp h
  rw [List.map_set, hg, ← List.getElem_map g (h := by rwa [List.length_map]),
    List.set_getElem_self]

/-- A sequence of two steps passes when both pass. -/
theorem bind_ok {x : Except ε α} (h : (x >>= f) = .ok b) : ∃ a, x = .ok a ∧ f a = .ok b := by
  cases x with
  | error e => cases h
  | ok a => exact ⟨a, rfl, h⟩

/-- A sequence that begins with a refusal passes when it is not refused
and the rest passes. -/
theorem refusal_ok {c : Prop} [Decidable c] {e : ε} {k : α → Except ε β}
    {rest : Except ε β} (h : (if c then throw e >>= k else rest) = .ok b) :
    ¬c ∧ rest = .ok b := by
  by_cases hc : c
  · rw [if_pos hc] at h
    cases h
  · rw [if_neg hc] at h
    exact ⟨hc, h⟩

theorem map_ok {x : Except ε α} {f : α → β} (h : x.map f = .ok b) : ∃ a, x = .ok a ∧ f a = b := by
  cases x with
  | error e => cases h
  | ok a =>
    cases h
    exact ⟨a, rfl, rfl⟩

/-- A pass over a list passes when every element does. -/
theorem mapM_ok (h : xs.mapM f = .ok ys) : List.Forall₂ (fun x y => f x = .ok y) xs ys := by
  induction xs generalizing ys with
  | nil =>
    cases h
    exact .nil
  | cons x rest ih =>
    rw [List.mapM_cons] at h
    obtain ⟨y, hy, h⟩ := bind_ok h
    obtain ⟨tail, htail, h⟩ := bind_ok h
    cases h
    exact .cons hy (ih htail)

/-- A pass that passes each image of a list passes the whole. -/
theorem mapM_map_ok {γ : Type u} {f : β → Except ε γ} {g : α → β}
    {h : α → γ} (hf : ∀ x ∈ xs, f (g x) = .ok (h x)) :
    (xs.map g).mapM f = .ok (xs.map h) := by
  induction xs with
  | nil => rfl
  | cons x rest ih =>
    rw [List.map_cons, List.mapM_cons, hf x List.mem_cons_self,
      ih fun y hy => hf y (List.mem_cons_of_mem _ hy)]
    rfl

/-- A check of every element passes when every element does. -/
theorem forM_ok {f : α → Except ε PUnit} (h : xs.forM f = .ok ⟨⟩) : ∀ x ∈ xs, f x = .ok ⟨⟩ := by
  induction xs with
  | nil =>
    intro x hx
    cases hx
  | cons y rest ih =>
    obtain ⟨_, hy, hrest⟩ := bind_ok h
    exact List.forall_mem_cons.mpr ⟨hy, ih hrest⟩

/-- A pass over a list fails with an element's failure. -/
theorem mapM_error {e : ε} (h : xs.mapM f = .error e) : ∃ x ∈ xs, f x = .error e := by
  induction xs with
  | nil =>
    cases h
  | cons x rest ih =>
    rw [List.mapM_cons] at h
    cases hx : f x with
    | error e' =>
      rw [hx] at h
      cases h
      exact ⟨x, List.mem_cons_self, hx⟩
    | ok y =>
      rw [hx] at h
      cases hrest : rest.mapM f with
      | error e' =>
        rw [hrest] at h
        cases h
        obtain ⟨x', hx', hfail⟩ := ih hrest
        exact ⟨x', List.mem_cons_of_mem _ hx', hfail⟩
      | ok tail =>
        rw [hrest] at h
        cases h

/-- What a pass that skips elements keeps of its first results. -/
theorem take_filterMap {α β : Type*} (f : α → Option β) (l : List α) (n : Nat) :
    (l.filterMap f).take n = ((l.filter fun a => (f a).isSome).take n).filterMap f := by
  induction l generalizing n with
  | nil => simp
  | cons a l ih =>
    cases ha : f a with
    | none =>
      rw [List.filterMap_cons_none ha, ih, List.filter_cons_of_neg]
      simp [ha]
    | some b =>
      rw [List.filterMap_cons_some ha, List.filter_cons_of_pos (by simp [ha])]
      cases n with
      | zero => rfl
      | succ n =>
        rw [List.take_succ_cons, List.take_succ_cons, ih, List.filterMap_cons_some ha]

-- ===== folds

section Fold

variable {σ ι κ ν : Type*} {f : σ → ι → σ} {items : List ι}

/-- A fold of steps that each keep a quantity keeps it. -/
theorem foldl_keeps {γ : Type*} {g : σ → γ} (h : ∀ s, ∀ i ∈ items, g (f s i) = g s) (s : σ) :
    g (items.foldl f s) = g s := by
  induction items generalizing s with
  | nil => rfl
  | cons i rest ih =>
    obtain ⟨hi, hrest⟩ := List.forall_mem_cons.mp fun i hi s => h s i hi
    rw [List.foldl_cons, ih fun s i hi => hrest i hi s, hi]

variable [DecidableEq κ] {p : ι → κ}

theorem find?_of_nodup (hnodup : (items.map p).Nodup) {i : ι} (hi : i ∈ items) :
    items.find? (p · == p i) = some i := by
  cases hfind : items.find? (p · == p i) with
  | none => exact absurd (beq_self_eq_true _) (List.find?_eq_none.mp hfind i hi)
  | some j =>
    have hj : p j = p i := beq_iff_eq.mp (List.find?_some hfind :)
    rw [List.inj_on_of_nodup_map hnodup (List.mem_of_find?_eq_some hfind) hi hj]

/-- A fold of steps that each change one place, no two of them the same,
changes each place once. -/
theorem foldl_update {g : σ → κ → ν} {w : ι → ν → ν}
    (h : ∀ s i k, g (f s i) k = if k = p i then w i (g s k) else g s k)
    (hnodup : (items.map p).Nodup) (s : σ) (k : κ) :
    g (items.foldl f s) k = (items.find? (p · == k)).elim (g s k) fun i => w i (g s k) := by
  induction items generalizing s with
  | nil => rfl
  | cons i rest ih =>
    rw [List.map_cons, List.nodup_cons] at hnodup
    rw [List.foldl_cons, ih hnodup.2, h, List.find?_cons]
    by_cases hk : k = p i
    · -- no later step changes this place
      have hnone : rest.find? (p · == k) = none := List.find?_eq_none.mpr fun j hj heq =>
        hnodup.1 (List.mem_map.mpr ⟨j, hj, (beq_iff_eq.mp heq).trans hk⟩)
      rw [hnone, if_pos hk, hk, beq_self_eq_true]
      rfl
    · rw [if_neg hk, beq_eq_false_iff_ne.mpr (Ne.symm hk)]

end Fold

-- ===== association lists

section Lookup

variable {κ ν : Type*} [BEq κ] [LawfulBEq κ] {k : κ} {v : ν}
  {members : List (κ × ν)}

theorem mem_of_lookup (h : members.lookup k = some v) : (k, v) ∈ members := by
  obtain ⟨before, rest, rfl, _⟩ := List.lookup_eq_some_iff.mp h
  exact List.mem_append_right before List.mem_cons_self

/-- With distinct keys, what a key is looked up as is its member. -/
theorem lookup_eq_some_iff_mem (hnodup : (members.map Prod.fst).Nodup) :
    members.lookup k = some v ↔ (k, v) ∈ members := by
  refine ⟨mem_of_lookup, fun h => ?_⟩
  obtain ⟨before, rest, rfl⟩ := List.append_of_mem h
  refine List.lookup_eq_some_iff.mpr ⟨before, rest, rfl, fun m hm => ?_⟩
  rw [List.map_append, List.map_cons] at hnodup
  refine bne_iff_ne.mpr fun hkm => ?_
  exact List.disjoint_of_nodup_append hnodup (List.mem_map_of_mem hm) (hkm ▸ List.mem_cons_self)

theorem lookup_isSome_iff : (members.lookup k).isSome ↔ ∃ v, (k, v) ∈ members := by
  constructor
  · intro h
    obtain ⟨v, hv⟩ := Option.isSome_iff_exists.mp h
    exact ⟨v, mem_of_lookup hv⟩
  · rintro ⟨v, hv⟩
    rw [List.lookup_isSome_iff]
    exact ⟨(k, v), hv, BEq.rfl⟩

end Lookup

end LlmTemporalWorker.Lib
