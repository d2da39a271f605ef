/-
Compact JSON text, and texts that say one thing.

`compact` writes a value without space, with members in the order they
have. What it writes reads back as the value. A text has at most one
reading, so a value is determined by any of its texts, in particular by
its compact text.
-/
import LlmTemporalWorker.Lib.Json.Decoder

namespace LlmTemporalWorker.Lib.Json

-- ===== one reading

variable {b : UInt8} {s rest : Bytes} {v : Json}

theorem isSpace_of_startsValue (h : startsValue b = true) : isSpace b = false := by
  by_contra hspace
  simp only [isSpace, Bool.or_eq_true, beq_iff_eq, Bool.not_eq_false]
    at hspace
  rcases hspace with ((rfl | rfl) | rfl) | rfl <;> cases h

/-- A text has at most one reading: the decoder finds every reading there is. -/
theorem Reads.unique {data rest' : Bytes} {w : Json} (hv : Reads (skipSpace data) (.value v) rest)
    (hw : Reads (skipSpace data) (.value w) rest') : v = w ∧ rest = rest' := by
  have read : ∀ {u t}, Reads (skipSpace data) (.value u) t →
      Decoder.tree ⟨none, false⟩ (2 * data.length + 1) 0 (newDecoder data)
        = .ok (u, newDecoder t) :=
    fun hu => Decoder.tree_of_reads hu (Nat.lt_succ_self _) nofun nofun
  have heq := (read hv).symm.trans (read hw)
  cases heq
  exact ⟨rfl, rfl⟩

/-- A text denotes at most one value. -/
theorem Document.unique {data : Bytes} {w : Json} (hv : Document data v)
    (hw : Document data w) : v = w := by
  obtain ⟨rest, hv, _⟩ := hv
  obtain ⟨rest', hw, _⟩ := hw
  exact (hv.unique hw).1

-- ===== compact text

/-- Texts with commas between them. -/
def joinComma : List Bytes → Bytes
  | [] => []
  | [s] => s
  | s :: t :: rest => s ++ 0x2c :: joinComma (t :: rest)

mutual

/-- A value's text without space. -/
def compact : Json → Bytes
  | .null => [0x6e, 0x75, 0x6c, 0x6c]
  | .bool true => [0x74, 0x72, 0x75, 0x65]
  | .bool false => [0x66, 0x61, 0x6c, 0x73, 0x65]
  | .number literal => literal.text
  | .string text => quote text
  | .array items => 0x5b :: joinComma (compactItems items) ++ [0x5d]
  | .object members => 0x7b :: joinComma (compactMembers members) ++ [0x7d]

def compactItems : List Json → List Bytes
  | [] => []
  | v :: vs => v.compact :: compactItems vs

def compactMembers : List (String × Json) → List Bytes
  | [] => []
  | (k, v) :: ms => (quote k ++ 0x3a :: v.compact) :: compactMembers ms

end

theorem compactItems_eq (items : List Json) : compactItems items = items.map compact := by
  induction items with
  | nil => rfl
  | cons v vs ih => rw [compactItems, ih, List.map_cons]

theorem compactMembers_eq (members : List (String × Json)) : compactMembers members
      = members.map fun m => quote m.1 ++ 0x3a :: m.2.compact := by
  induction members with
  | nil => rfl
  | cons m ms ih => rw [compactMembers, ih, List.map_cons]

/-- What may follow a value. -/
def Follows (rest : Bytes) : Prop :=
  ∀ b s, rest = b :: s → endsNumber b = true

theorem follows_cons (h : endsNumber b = true) (s : Bytes) : Follows (b :: s) := by
  intro b' s' heq
  cases heq
  exact h

theorem follows_nil : Follows [] := by
  intro b s heq
  cases heq

/-- The elements of a written array. -/
theorem reads_compactItems {items : List Json} (hne : items ≠ [])
    (h : ∀ v ∈ items, ∀ {rest}, Follows rest →
      Reads (v.compact ++ rest) (.value v) rest) (rest : Bytes) :
    Reads (joinComma (compactItems items) ++ 0x5d :: rest) (.elements items) rest := by
  have start : ∀ v ∈ items, ∀ {t}, Follows t → Reads (skipSpace (v.compact ++ t)) (.value v) t := by
    intro v hv t ht
    have hread := h v hv ht
    obtain ⟨b, u, hb, hstart⟩ := hread.head
    rwa [hb, skipSpace_of_not (isSpace_of_startsValue hstart), ← hb]
  induction items with
  | nil => exact absurd rfl hne
  | cons v vs ih =>
    cases vs with
    | nil =>
      exact .lastElement (start v List.mem_cons_self (follows_cons (by decide) rest))
        (skipSpace_of_not (by decide) rest)
    | cons w ws =>
      have hrest := ih (List.cons_ne_nil w ws) (fun x hx => h x (List.mem_cons_of_mem _ hx))
        (fun x hx => start x (List.mem_cons_of_mem _ hx))
      show Reads ((v.compact ++ 0x2c :: joinComma (compactItems (w :: ws))) ++ 0x5d :: rest) _ _
      rw [List.append_assoc, List.cons_append]
      exact .nextElement (start v List.mem_cons_self (follows_cons (by decide) _))
        (skipSpace_of_not (by decide) _) hrest

/-- The members of a written object. -/
theorem reads_compactMembers {members : List (String × Json)} (hne : members ≠ [])
    (h : ∀ m ∈ members, ∀ {rest}, Follows rest →
      Reads (m.2.compact ++ rest) (.value m.2) rest) (rest : Bytes) :
    Reads (joinComma (compactMembers members) ++ 0x7d :: rest) (.members members) rest := by
  have start : ∀ m ∈ members, ∀ {t}, Follows t →
      Reads (skipSpace (m.2.compact ++ t)) (.value m.2) t := by
    intro m hm t ht
    have hread := h m hm ht
    obtain ⟨b, u, hb, hstart⟩ := hread.head
    rwa [hb, skipSpace_of_not (isSpace_of_startsValue hstart), ← hb]
  have key : ∀ (k : String) (t : Bytes), skipSpace (quote k ++ 0x3a :: t)
        = 0x22 :: (utf8 (k.toList.flatMap escape) ++ 0x22 :: 0x3a :: t) := by
    intro k t
    rw [quote, List.append_assoc, List.cons_append]
    exact skipSpace_of_not (by decide) _
  induction members with
  | nil => exact absurd rfl hne
  | cons m ms ih =>
    obtain ⟨k, v⟩ := m
    cases ms with
    | nil =>
      show Reads ((quote k ++ 0x3a :: v.compact) ++ 0x7d :: rest) _ _
      rw [List.append_assoc, List.cons_append]
      exact .lastMember (key k _) (lexString_written k _) (skipSpace_of_not (by decide) _)
        (start (k, v) List.mem_cons_self (follows_cons (by decide) rest))
        (skipSpace_of_not (by decide) rest)
    | cons n ns =>
      have hrest := ih (List.cons_ne_nil n ns) (fun x hx => h x (List.mem_cons_of_mem _ hx))
        (fun x hx => start x (List.mem_cons_of_mem _ hx))
      show Reads (((quote k ++ 0x3a :: v.compact) ++ 0x2c :: joinComma (compactMembers (n :: ns)))
        ++ 0x7d :: rest) _ _
      rw [List.append_assoc, List.append_assoc, List.cons_append, List.cons_append]
      exact .nextMember (key k _) (lexString_written k _) (skipSpace_of_not (by decide) _)
        (start (k, v) List.mem_cons_self (follows_cons (by decide) _))
        (skipSpace_of_not (by decide) _) hrest

/-- A value's compact text reads as the value. -/
theorem reads_compact (v : Json) (hrest : Follows rest) :
    Reads (v.compact ++ rest) (.value v) rest := by
  induction v generalizing rest with
  | null => exact .nullWord rest
  | bool b =>
    cases b with
    | true => exact .trueWord rest
    | false => exact .falseWord rest
  | number literal => exact .number (readNumber_append literal hrest)
  | string text =>
    show Reads ((0x22 :: utf8 (text.toList.flatMap escape) ++ [0x22]) ++ rest) _ _
    rw [List.append_assoc]
    exact .string (lexString_written text rest)
  | array items ih =>
    show Reads ((0x5b :: joinComma (compactItems items) ++ [0x5d]) ++ rest)
      _ _
    rw [List.append_assoc]
    by_cases hne : items = []
    · subst hne
      exact .emptyArray (skipSpace_of_not (by decide) rest)
    · exact .array (reads_compactItems hne ih rest)
  | object members ih =>
    show Reads ((0x7b :: joinComma (compactMembers members) ++ [0x7d]) ++ rest) _ _
    rw [List.append_assoc]
    by_cases hne : members = []
    · subst hne
      exact .emptyObject (skipSpace_of_not (by decide) rest)
    · exact .object (reads_compactMembers hne ih rest)

theorem document_compact (v : Json) : Document v.compact v := by
  have hread := reads_compact v follows_nil
  rw [List.append_nil] at hread
  obtain ⟨b, u, hb, hstart⟩ := hread.head
  refine ⟨[], ?_, rfl⟩
  rwa [hb, skipSpace_of_not (isSpace_of_startsValue hstart), ← hb]

theorem isText_joinComma {texts : List Bytes} (h : ∀ s ∈ texts, IsText s) :
    IsText (joinComma texts) := by
  induction texts with
  | nil => exact isText_nil
  | cons s rest ih =>
    obtain ⟨hs, hrest⟩ := List.forall_mem_cons.mp h
    cases rest with
    | nil => exact hs
    | cons t rest => exact hs.append (.cons (by decide) (ih hrest))

theorem isText_quote (text : String) : IsText (quote text) :=
  .cons (by decide) (.append ⟨_, rfl⟩ (.cons (by decide) isText_nil))

/-- A compact text is well formed, whatever the value was read from. -/
theorem isText_compact (v : Json) : IsText v.compact := by
  induction v with
  | null => exact ⟨"null".toList, by decide⟩
  | bool b =>
    cases b with
    | true => exact ⟨"true".toList, by decide⟩
    | false => exact ⟨"false".toList, by decide⟩
  | number literal => exact isText_ascii (ascii_of_lexNumber (beq_iff_eq.mp literal.valid))
  | string text => exact isText_quote text
  | array items ih =>
    refine .cons (by decide) (.append (isText_joinComma ?_) (.cons (by decide) isText_nil))
    rw [compactItems_eq]
    exact List.forall_mem_map.mpr ih
  | object members ih =>
    refine .cons (by decide) (.append (isText_joinComma ?_) (.cons (by decide) isText_nil))
    rw [compactMembers_eq]
    exact List.forall_mem_map.mpr fun m hm =>
      (isText_quote m.1).append (.cons (by decide) (ih m hm))

/-- A value is determined by its compact text. -/
theorem compact_injective {w : Json} (h : v.compact = w.compact) : v = w :=
  (document_compact v).unique (h ▸ document_compact w)

end LlmTemporalWorker.Lib.Json
