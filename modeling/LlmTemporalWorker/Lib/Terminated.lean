/-
Texts made of terminated fields.

A text that ends every field with one separator determines its fields,
as long as no field holds the separator. When every record has the same
number of fields it determines the records too.
-/
import LlmTemporalWorker.Lib.Lists

namespace LlmTemporalWorker.Lib

variable {α β γ : Type*} {sep : α}

/-- Every field, followed by the separator. -/
def terminated (sep : α) (fields : List (List α)) : List α :=
  fields.flatMap (· ++ [sep])

theorem append_terminated_inj {x y s t : List α} (hx : sep ∉ x)
    (hy : sep ∉ y) (h : x ++ sep :: s = y ++ sep :: t) :
    x = y ∧ s = t := by
  induction x generalizing y with
  | nil =>
    cases y with
    | nil => exact ⟨rfl, (List.cons.inj h).2⟩
    | cons b y =>
      have hb : sep = b := (List.cons.inj h).1
      exact absurd (hb ▸ List.mem_cons_self) hy
  | cons a x ih =>
    cases y with
    | nil =>
      have ha : a = sep := (List.cons.inj h).1
      exact absurd (ha ▸ List.mem_cons_self) hx
    | cons b y =>
      obtain ⟨hab, htail⟩ := List.cons.inj h
      obtain ⟨hxy, hst⟩ := ih (fun hm => hx (List.mem_cons_of_mem _ hm))
        (fun hm => hy (List.mem_cons_of_mem _ hm)) htail
      exact ⟨by rw [hab, hxy], hst⟩

/-- Terminated fields without the separator can be told apart. -/
theorem terminated_inj {xs ys : List (List α)} (hx : ∀ x ∈ xs, sep ∉ x) (hy : ∀ y ∈ ys, sep ∉ y)
    (h : terminated sep xs = terminated sep ys) : xs = ys := by
  induction xs generalizing ys with
  | nil =>
    cases ys with
    | nil => rfl
    | cons y ys => simp [terminated] at h
  | cons x xs ih =>
    cases ys with
    | nil => simp [terminated] at h
    | cons y ys =>
      have h : x ++ sep :: terminated sep xs = y ++ sep :: terminated sep ys := by
        simpa [terminated] using h
      obtain ⟨hxy, hrest⟩ := append_terminated_inj
        (hx x List.mem_cons_self) (hy y List.mem_cons_self) h
      rw [hxy, ih (fun z hz => hx z (List.mem_cons_of_mem _ hz))
        (fun z hz => hy z (List.mem_cons_of_mem _ hz)) hrest]

/-- Records of one length, written one after the other, can be told
apart. -/
theorem flatMap_inj {f : β → List γ} {n : Nat} (hn : 0 < n)
    (hlen : ∀ b, (f b).length = n) {xs ys : List β}
    (h : xs.flatMap f = ys.flatMap f) :
    List.Forall₂ (fun x y => f x = f y) xs ys := by
  induction xs generalizing ys with
  | nil =>
    cases ys with
    | nil => exact .nil
    | cons y ys =>
      have hl := congrArg List.length h
      simp only [List.flatMap_nil, List.flatMap_cons, List.length_nil,
        List.length_append, hlen y] at hl
      omega
  | cons x xs ih =>
    cases ys with
    | nil =>
      have hl := congrArg List.length h
      simp only [List.flatMap_nil, List.flatMap_cons, List.length_nil,
        List.length_append, hlen x] at hl
      omega
    | cons y ys =>
      obtain ⟨hxy, hrest⟩ := List.append_inj h (by rw [hlen, hlen])
      exact .cons hxy (ih hrest)

end LlmTemporalWorker.Lib
