/-
JSON values.

A number is the text of its literal, a string is its decoded text, an
object is the list of its members in the order they were written. What
an object means is the map from its keys to its values: two values are
the same (`Same`) when they agree up to the order of members. Every
value has a canonical form, with members sorted by the bytes of their
keys at every level, and where no object repeats a key the canonical
forms are equal exactly when the values are the same.
-/
import LlmTemporalWorker.Lib.Lists
import LlmTemporalWorker.Lib.Json.Lexer

namespace LlmTemporalWorker.Lib

open Json (Number)

inductive Json where
  | null
  | bool (value : Bool)
  | number (literal : Number)
  | string (text : String)
  | array (items : List Json)
  | object (members : List (String × Json))

namespace Json

/-- Induction over a value: a container may assume the property of every
value in it. -/
@[elab_as_elim, induction_eliminator]
theorem induction {P : Json → Prop} (null : P .null)
    (bool : ∀ b, P (.bool b)) (number : ∀ l, P (.number l))
    (string : ∀ s, P (.string s))
    (array : ∀ items, (∀ v ∈ items, P v) → P (.array items))
    (object : ∀ members, (∀ m ∈ members, P m.2) → P (.object members))
    (v : Json) : P v := by
  refine @Json.rec P (fun vs => ∀ v ∈ vs, P v) (fun ms => ∀ m ∈ ms, P m.2) (fun m => P m.2)
    null bool number string array object ?_ ?_ ?_ ?_ ?_ v
  · intro w hw
    cases hw
  · intro v vs hv hvs w hw
    rcases List.mem_cons.mp hw with rfl | hw
    · exact hv
    · exact hvs w hw
  · intro m hm
    cases hm
  · intro m ms hm hms n hn
    rcases List.mem_cons.mp hn with rfl | hn
    · exact hm
    · exact hms n hn
  · intro k v hv
    exact hv

-- ===== measures

mutual

/-- How deep arrays and objects nest. -/
def depth : Json → Nat
  | .array items => 1 + depthOfItems items
  | .object members => 1 + depthOfMembers members
  | _ => 0

def depthOfItems : List Json → Nat
  | [] => 0
  | v :: vs => max v.depth (depthOfItems vs)

def depthOfMembers : List (String × Json) → Nat
  | [] => 0
  | (_, v) :: ms => max v.depth (depthOfMembers ms)

end

variable {items : List Json} {members : List (String × Json)}

theorem depthOfItems_le {n : Nat} : depthOfItems items ≤ n ↔ ∀ v ∈ items, v.depth ≤ n := by
  induction items with
  | nil => simp [depthOfItems]
  | cons v vs ih => simp [depthOfItems, ih]

theorem depthOfMembers_le {n : Nat} :
    depthOfMembers members ≤ n ↔ ∀ m ∈ members, m.2.depth ≤ n := by
  induction members with
  | nil => simp [depthOfMembers]
  | cons m ms ih => simp [depthOfMembers, ih]

mutual

/-- No object of the value repeats a key. -/
def distinct : Json → Bool
  | .array items => distinctItems items
  | .object members => decide (members.map Prod.fst).Nodup && distinctMembers members
  | _ => true

def distinctItems : List Json → Bool
  | [] => true
  | v :: vs => v.distinct && distinctItems vs

def distinctMembers : List (String × Json) → Bool
  | [] => true
  | (_, v) :: ms => v.distinct && distinctMembers ms

end

theorem distinctItems_iff : distinctItems items = true ↔ ∀ v ∈ items, v.distinct = true := by
  induction items with
  | nil => simp [distinctItems]
  | cons v vs ih => simp [distinctItems, ih]

theorem distinctMembers_iff :
    distinctMembers members = true ↔ ∀ m ∈ members, m.2.distinct = true := by
  induction members with
  | nil => simp [distinctMembers]
  | cons m ms ih => simp [distinctMembers, ih]

theorem distinct_array : (array items).distinct = true ↔ ∀ v ∈ items, v.distinct = true :=
  distinctItems_iff

theorem distinct_object : (object members).distinct = true ↔
      (members.map Prod.fst).Nodup ∧ ∀ m ∈ members, m.2.distinct = true := by
  show (_ && distinctMembers members) = true ↔ _
  rw [Bool.and_eq_true, decide_eq_true_eq, distinctMembers_iff]

end Json

-- ===== sorting by key

section SortByKey

variable {α β : Type*}

/-- Keys in the order of their bytes. -/
def KeyLe (m n : String × α) : Prop :=
  bytesLe (utf8 m.1.toList) (utf8 n.1.toList) = true

instance : DecidableRel (KeyLe (α := α)) :=
  fun _ _ => inferInstanceAs (Decidable (_ = true))

instance : Std.Total (KeyLe (α := α)) where
  total m n := by
    have h := bytesLe_total (utf8 m.1.toList) (utf8 n.1.toList)
    rwa [Bool.or_eq_true] at h

instance : IsTrans (String × α) KeyLe where
  trans _ _ _ := bytesLe_trans

theorem KeyLe.antisymm {m n : String × α} (h : KeyLe m n) (h' : KeyLe n m) : m.1 = n.1 :=
  String.toList_injective (utf8_injective (bytesLe_antisymm h h'))

/-- Members sorted by their keys. -/
def sortByKey (members : List (String × α)) : List (String × α) :=
  members.insertionSort KeyLe

theorem sortByKey_perm (members : List (String × α)) : (sortByKey members).Perm members :=
  List.perm_insertionSort KeyLe members

@[simp] theorem mem_sortByKey {m : String × α} {members : List (String × α)} :
    m ∈ sortByKey members ↔ m ∈ members :=
  (sortByKey_perm members).mem_iff

theorem sortByKey_idem (members : List (String × α)) :
    sortByKey (sortByKey members) = sortByKey members :=
  (List.pairwise_insertionSort KeyLe members).insertionSort_eq

/-- Sorting does not look at the values. -/
theorem sortByKey_map (f : α → β) (members : List (String × α)) :
    sortByKey (members.map fun m => (m.1, f m.2)) = (sortByKey members).map fun m => (m.1, f m.2) :=
  (List.map_insertionSort KeyLe KeyLe (fun m => (m.1, f m.2)) members fun _ _ _ _ => Iff.rfl).symm

/-- The same members in any order sort to the same list. -/
theorem sortByKey_eq_of_perm {ms ns : List (String × α)}
    (hnodup : (ms.map Prod.fst).Nodup) (h : ms.Perm ns) :
    sortByKey ms = sortByKey ns := by
  refine List.Perm.eq_of_pairwise ?_ (List.pairwise_insertionSort KeyLe ms)
    (List.pairwise_insertionSort KeyLe ns)
    ((sortByKey_perm ms).trans (h.trans (sortByKey_perm ns).symm))
  intro m n hm hn hmn hnm
  have hm : m ∈ ms := mem_sortByKey.mp hm
  have hn : n ∈ ms := h.mem_iff.mpr (mem_sortByKey.mp hn)
  exact List.inj_on_of_nodup_map hnodup hm hn (hmn.antisymm hnm)

end SortByKey

-- ===== canonical form

namespace Json

mutual

/-- The value with the members of every object sorted by key. -/
def canonical : Json → Json
  | .array items => .array (canonicalItems items)
  | .object members => .object (sortByKey (canonicalMembers members))
  | v => v

def canonicalItems : List Json → List Json
  | [] => []
  | v :: vs => v.canonical :: canonicalItems vs

def canonicalMembers : List (String × Json) → List (String × Json)
  | [] => []
  | (k, v) :: ms => (k, v.canonical) :: canonicalMembers ms

end

theorem canonicalItems_eq (items : List Json) : canonicalItems items = items.map canonical := by
  induction items with
  | nil => rfl
  | cons v vs ih => rw [canonicalItems, ih, List.map_cons]

theorem canonicalMembers_eq (members : List (String × Json)) :
    canonicalMembers members = members.map fun m => (m.1, m.2.canonical) := by
  induction members with
  | nil => rfl
  | cons m ms ih => rw [canonicalMembers, ih, List.map_cons]

theorem canonical_array (items : List Json) :
    (array items).canonical = array (items.map canonical) := by
  rw [canonical, canonicalItems_eq]

theorem canonical_object (members : List (String × Json)) : (object members).canonical
      = object ((sortByKey members).map fun m => (m.1, m.2.canonical)) := by
  rw [canonical, canonicalMembers_eq, sortByKey_map]

theorem canonical_idem (v : Json) : v.canonical.canonical = v.canonical := by
  induction v with
  | null | bool | number | string => rfl
  | array items ih =>
    rw [canonical_array, canonical_array, List.map_map]
    exact congrArg array (List.map_congr_left ih)
  | object members ih =>
    rw [canonical_object, canonical_object, sortByKey_map, sortByKey_idem, List.map_map]
    refine congrArg object (List.map_congr_left ?_)
    intro m hm
    exact congrArg (Prod.mk m.1) (ih m (mem_sortByKey.mp hm))

theorem depth_canonical (v : Json) : v.canonical.depth = v.depth := by
  have hle : ∀ n, v.canonical.depth ≤ n ↔ v.depth ≤ n := by
    induction v with
    | null | bool | number | string => exact fun _ => Iff.rfl
    | array items ih =>
      intro n
      rw [canonical_array]
      show 1 + depthOfItems (items.map canonical) ≤ n ↔ 1 + depthOfItems items ≤ n
      cases n with
      | zero => simp
      | succ n =>
        rw [Nat.add_comm 1, Nat.add_comm 1, Nat.succ_le_succ_iff,
          Nat.succ_le_succ_iff, depthOfItems_le, depthOfItems_le]
        simp only [List.forall_mem_map]
        exact forall₂_congr fun v hv => ih v hv n
    | object members ih =>
      intro n
      rw [canonical_object]
      show 1 + depthOfMembers _ ≤ n ↔ 1 + depthOfMembers members ≤ n
      cases n with
      | zero => simp
      | succ n =>
        rw [Nat.add_comm 1, Nat.add_comm 1, Nat.succ_le_succ_iff,
          Nat.succ_le_succ_iff, depthOfMembers_le, depthOfMembers_le]
        simp only [List.forall_mem_map, mem_sortByKey]
        exact forall₂_congr fun m hm => ih m hm n
  exact Nat.le_antisymm ((hle _).mpr (Nat.le_refl _)) ((hle _).mp (Nat.le_refl _))

variable {v w : Json} {ms : List (String × Json)}

theorem distinct_canonical (h : v.distinct = true) : v.canonical.distinct = true := by
  induction v with
  | null | bool | number | string => rfl
  | array items ih =>
    rw [distinct_array] at h
    rw [canonical_array, distinct_array, List.forall_mem_map]
    exact fun v hv => ih v hv (h v hv)
  | object members ih =>
    rw [distinct_object] at h
    rw [canonical_object, distinct_object, List.forall_mem_map, List.map_map]
    refine ⟨((sortByKey_perm members).map Prod.fst).nodup_iff.mpr h.1, ?_⟩
    intro m hm
    rw [mem_sortByKey] at hm
    exact ih m hm (h.2 m hm)

-- ===== sameness

/-- Two values that say the same: arrays place by place, objects as maps
from keys to values. -/
inductive Same : Json → Json → Prop where
  | null : Same .null .null
  | bool (b : Bool) : Same (.bool b) (.bool b)
  | number (literal : Number) : Same (.number literal) (.number literal)
  | string (text : String) : Same (.string text) (.string text)
  | array {items items' : List Json} (hlen : items.length = items'.length)
      (hitems : ∀ (i : Nat) (v w : Json), items[i]? = some v → items'[i]? = some w → Same v w) :
      Same (.array items) (.array items')
  | object {members members' : List (String × Json)}
      (hkeys : ∀ k, (members.lookup k).isSome ↔ (members'.lookup k).isSome)
      (hvalues : ∀ (k : String) (v w : Json), members.lookup k = some v →
        members'.lookup k = some w → Same v w) :
      Same (.object members) (.object members')

/-- The members of two objects that are the same have the same canonical
members. -/
theorem mem_canonical_of_same {ns : List (String × Json)} (hms : (ms.map Prod.fst).Nodup)
    (hkeys : ∀ k, (ms.lookup k).isSome → (ns.lookup k).isSome)
    (hvalues : ∀ k v w, ms.lookup k = some v → ns.lookup k = some w →
      v.canonical = w.canonical) {n : String × Json}
    (hn : n ∈ ms.map fun m => (m.1, m.2.canonical)) :
    n ∈ ns.map fun m => (m.1, m.2.canonical) := by
  obtain ⟨m, hm, rfl⟩ := List.mem_map.mp hn
  have hlookup := (lookup_eq_some_iff_mem hms).mpr hm
  obtain ⟨w, hw⟩ := Option.isSome_iff_exists.mp (hkeys m.1 (by rw [hlookup]; rfl))
  refine List.mem_map.mpr ⟨(m.1, w), mem_of_lookup hw, ?_⟩
  rw [hvalues m.1 m.2 w hlookup hw]

theorem nodup_canonicalMembers (h : (ms.map Prod.fst).Nodup) :
    ((ms.map fun m => (m.1, m.2.canonical)).map Prod.fst).Nodup := by
  rwa [List.map_map]

/-- Values that are the same have one canonical form. -/
theorem canonical_eq_of_same (h : Same v w) (hv : v.distinct = true) (hw : w.distinct = true) :
    v.canonical = w.canonical := by
  induction h with
  | null | bool | number | string => rfl
  | @array items items' hlen hitems ih =>
    rw [distinct_array] at hv hw
    rw [canonical_array, canonical_array]
    refine congrArg Json.array (List.ext_getElem? fun i => ?_)
    rw [List.getElem?_map, List.getElem?_map]
    cases hi : items[i]? with
    | none =>
      rw [List.getElem?_eq_none_iff, hlen, ← List.getElem?_eq_none_iff] at hi
      rw [hi]
    | some v =>
      have hlt : i < items'.length := hlen ▸ (List.getElem?_eq_some_iff.mp hi).1
      have hi' := List.getElem?_eq_getElem hlt
      rw [hi', Option.map_some, Option.map_some, ih i v _ hi hi' (hv v (List.mem_of_getElem? hi))
          (hw _ (List.mem_of_getElem? hi'))]
  | @object ms ns hkeys hvalues ih =>
    rw [distinct_object] at hv hw
    have hsame : ∀ k v w, ms.lookup k = some v → ns.lookup k = some w →
        v.canonical = w.canonical := by
      intro k v w hkv hkw
      exact ih k v w hkv hkw (hv.2 _ (mem_of_lookup hkv)) (hw.2 _ (mem_of_lookup hkw))
    rw [canonical, canonical, canonicalMembers_eq, canonicalMembers_eq]
    refine congrArg Json.object (sortByKey_eq_of_perm (nodup_canonicalMembers hv.1) ?_)
    refine (List.perm_ext_iff_of_nodup (nodup_canonicalMembers hv.1).of_map
      (nodup_canonicalMembers hw.1).of_map).mpr fun n => ⟨?_, ?_⟩
    · exact mem_canonical_of_same hv.1 (fun k => (hkeys k).mp) hsame
    · exact mem_canonical_of_same hw.1 (fun k => (hkeys k).mpr)
        fun k v w hkv hkw => (hsame k w v hkw hkv).symm

theorem lookup_isSome_iff_of_canonical {ns : List (String × Json)}
    (h : ∀ n, n ∈ (ms.map fun m => (m.1, m.2.canonical)) →
      n ∈ ns.map fun m => (m.1, m.2.canonical)) {k : String}
    (hk : (ms.lookup k).isSome) : (ns.lookup k).isSome := by
  obtain ⟨v, hv⟩ := Option.isSome_iff_exists.mp hk
  obtain ⟨n, hn, heq⟩ := List.mem_map.mp (h _ (List.mem_map_of_mem (mem_of_lookup hv)))
  have hk : n.1 = k := (Prod.mk.inj heq).1
  exact lookup_isSome_iff.mpr ⟨n.2, hk ▸ hn⟩

/-- Values of one canonical form are the same. -/
theorem same_of_canonical_eq (hv : v.distinct = true)
    (hw : w.distinct = true) (h : v.canonical = w.canonical) :
    Same v w := by
  induction v generalizing w with
  | null => cases w <;> cases h; exact .null
  | bool b => cases w <;> cases h; exact .bool b
  | number l => cases w <;> cases h; exact .number l
  | string s => cases w <;> cases h; exact .string s
  | array items ih =>
    cases w with
    | array items' =>
      rw [distinct_array] at hv hw
      rw [canonical_array, canonical_array] at h
      have hmap := Json.array.inj h
      refine .array (by simpa using congrArg List.length hmap) ?_
      intro i v w hiv hiw
      refine ih v (List.mem_of_getElem? hiv) (hv v (List.mem_of_getElem? hiv))
        (hw w (List.mem_of_getElem? hiw)) ?_
      have hi := congrArg (fun l => l[i]?) hmap
      simpa only [List.getElem?_map, hiv, hiw, Option.map_some, Option.some.injEq] using hi
    | null | bool | number | string | object => cases h
  | object ms ih =>
    cases w with
    | object ns =>
      rw [distinct_object] at hv hw
      rw [canonical, canonical, canonicalMembers_eq, canonicalMembers_eq] at h
      have hsort := Json.object.inj h
      have hmem : ∀ n, n ∈ (ms.map fun m => (m.1, m.2.canonical)) ↔
          n ∈ ns.map fun m => (m.1, m.2.canonical) := by
        intro n
        rw [← mem_sortByKey, hsort, mem_sortByKey]
      refine .object (fun k => ⟨?_, ?_⟩) ?_
      · exact lookup_isSome_iff_of_canonical fun n => (hmem n).mp
      · exact lookup_isSome_iff_of_canonical fun n => (hmem n).mpr
      · intro k v w hkv hkw
        have hv' := mem_of_lookup hkv
        refine ih _ hv' (hv.2 _ hv') (hw.2 _ (mem_of_lookup hkw)) ?_
        obtain ⟨n, hn, heq⟩ := List.mem_map.mp ((hmem _).mp (List.mem_map_of_mem hv'))
        have hk : n.1 = k := (Prod.mk.inj heq).1
        have hc := (Prod.mk.inj heq).2
        have hn' : ns.lookup k = some n.2 := (lookup_eq_some_iff_mem hw.1).mpr (hk ▸ hn)
        rw [hkw] at hn'
        rw [Option.some.inj hn']
        exact hc.symm
    | null | bool | number | string | array => cases h

/-- Where no object repeats a key, the canonical form decides sameness. -/
theorem canonical_eq_iff_same (hv : v.distinct = true)
    (hw : w.distinct = true) : v.canonical = w.canonical ↔ Same v w :=
  ⟨same_of_canonical_eq hv hw, fun h => canonical_eq_of_same h hv hw⟩

theorem same_canonical (h : v.distinct = true) : Same v.canonical v :=
  same_of_canonical_eq (distinct_canonical h) h (canonical_idem v)

end Json

end LlmTemporalWorker.Lib
