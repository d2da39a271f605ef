/-
Portable tool-call ids (llm/provider/internal/toolcallid/toolcallid.go).

A transcript may carry tool-call ids of another provider family. An id
that every family accepts passes unchanged; any other is rewritten and
ends in an underscore and sixteen hexadecimal digits of its digest. That
ending is reserved: an id that has it on its own is rewritten too, so a
rewritten id is never the same as one that passed (`portable_apart`).

Ids are byte strings. SHA-256 is a parameter; what is known of it is the
form of its hexadecimal text.
-/
import LlmTemporalWorker.Lib.Utf8

namespace LlmTemporalWorker.Llm.ToolCallId

open Lib

def maxLength : Nat := 64

def hashLength : Nat := 16

def lowerHex (c : UInt8) : Bool :=
  (0x30 ≤ c && c ≤ 0x39) || (0x61 ≤ c && c ≤ 0x66)

def allowed (c : UInt8) : Bool :=
  (0x61 ≤ c && c ≤ 0x7a) || (0x41 ≤ c && c ≤ 0x5a) || (0x30 ≤ c && c ≤ 0x39)
    || c == 0x5f || c == 0x2d

/-- `hex.EncodeToString` of `sha256.Sum256`. -/
structure HexDigest where
  text : Bytes → Bytes
  length_text : ∀ id, (text id).length = 64
  hex : ∀ id, ∀ c ∈ text id, lowerHex c = true

variable (sha256 : HexDigest) (id : Bytes)

/-- The part of the digest that a rewritten id ends in. -/
def HexDigest.short : Bytes := (sha256.text id).take hashLength

def valid : Bool :=
  if id.length = 0 ∨ maxLength < id.length then false else id.all allowed

def remappedShape : Bool :=
  if id.length < hashLength + 1 ∨ id[id.length - hashLength - 1]? ≠ some 0x5f then false
  else (id.drop (id.length - hashLength)).all lowerHex

def portable : Bytes :=
  if valid id && !remappedShape id then id
  else (id.map fun c => if allowed c then c else 0x5f).take (maxLength - hashLength - 1)
    ++ 0x5f :: sha256.short id

-- ===== the ending

variable {sha256 id}

theorem length_short (id : Bytes) : (sha256.short id).length = hashLength := by
  rw [HexDigest.short, List.length_take, sha256.length_text]
  rfl

theorem hex_short {c : UInt8} (h : c ∈ sha256.short id) : lowerHex c = true :=
  sha256.hex id c (List.mem_of_mem_take h)

theorem allowed_of_lowerHex {c : UInt8} (h : lowerHex c = true) : allowed c = true := by
  simp only [lowerHex, allowed, Bool.or_eq_true, Bool.and_eq_true, decide_eq_true_eq,
    UInt8.le_iff_toNat_le] at h ⊢
  simp only [UInt8.reduceToNat] at h ⊢
  omega

/-- What ends in an underscore and a short digest has the reserved
ending. -/
theorem remappedShape_ending (front : Bytes) :
    remappedShape (front ++ 0x5f :: sha256.short id) = true := by
  have hlength : (front ++ 0x5f :: sha256.short id).length = front.length + 1 + hashLength := by
    rw [List.length_append, List.length_cons, length_short]
    omega
  rw [remappedShape, hlength, if_neg]
  · rw [Nat.add_sub_cancel, List.drop_append, List.drop_of_length_le (by omega), List.nil_append,
      Nat.add_sub_cancel_left, List.drop_one, List.tail_cons]
    exact List.all_eq_true.mpr fun c hc => hex_short hc
  · simp only [not_or, Nat.not_lt, Decidable.not_not]
    refine ⟨by omega, ?_⟩
    rw [Nat.add_sub_cancel, Nat.add_sub_cancel, List.getElem?_append_right (Nat.le_refl _),
      Nat.sub_self]
    rfl

/-- An id passes unchanged, or is rewritten to the reserved ending. -/
theorem portable_cases (sha256 : HexDigest) (id : Bytes) :
    (portable sha256 id = id ∧ valid id = true ∧ remappedShape id = false)
      ∨ ∃ front, portable sha256 id = front ++ 0x5f :: sha256.short id ∧ front.length ≤ 47
        ∧ ∀ c ∈ front, allowed c = true := by
  rw [portable]
  split
  · rename_i hpass
    rw [Bool.and_eq_true, Bool.not_eq_true'] at hpass
    exact .inl ⟨rfl, hpass⟩
  · refine .inr ⟨_, rfl, List.length_take_le _ _, fun c hc => ?_⟩
    obtain ⟨b, -, rfl⟩ := List.mem_map.mp (List.mem_of_mem_take hc)
    split
    · assumption
    · rfl

-- ===== valid and distinct

/-- The characters of `[A-Za-z0-9_-]`. -/
def IsIdChar (c : UInt8) : Prop :=
  (0x41 ≤ c ∧ c ≤ 0x5a) ∨ (0x61 ≤ c ∧ c ≤ 0x7a) ∨ (0x30 ≤ c ∧ c ≤ 0x39) ∨ c = 0x5f ∨ c = 0x2d

theorem isIdChar_of_allowed {c : UInt8} (h : allowed c = true) : IsIdChar c := by
  simp only [allowed, Bool.or_eq_true, Bool.and_eq_true, decide_eq_true_eq, beq_iff_eq] at h
  rcases h with (((h | h) | h) | h) | h
  · exact .inr (.inl h)
  · exact .inl h
  · exact .inr (.inr (.inl h))
  · exact .inr (.inr (.inr (.inl h)))
  · exact .inr (.inr (.inr (.inr h)))

theorem portable_form (id : Bytes) : 1 ≤ (portable sha256 id).length
      ∧ (portable sha256 id).length ≤ 64 ∧ ∀ c ∈ portable sha256 id, IsIdChar c := by
  rcases portable_cases sha256 id with ⟨heq, hvalid, -⟩ | ⟨front, heq, hlength, hfront⟩
  · rw [heq]
    rw [valid] at hvalid
    split at hvalid
    · cases hvalid
    rename_i hlength
    rw [maxLength] at hlength
    exact ⟨by omega, by omega, fun c hc => isIdChar_of_allowed (List.all_eq_true.mp hvalid c hc)⟩
  · rw [heq, List.length_append, List.length_cons, length_short, hashLength]
    refine ⟨by omega, by omega, fun c hc => isIdChar_of_allowed ?_⟩
    rcases List.mem_append.mp hc with hc | hc
    · exact hfront c hc
    rcases List.mem_cons.mp hc with rfl | hc
    · rfl
    · exact allowed_of_lowerHex (hex_short hc)

/-- Ids with different short digests stay apart. -/
theorem portable_apart {id' : Bytes} (hne : id ≠ id')
    (hshort : sha256.short id ≠ sha256.short id') :
    portable sha256 id ≠ portable sha256 id' := by
  intro hsame
  rcases portable_cases sha256 id with ⟨heq, -, hshape⟩ | ⟨front, heq, -, -⟩ <;>
    rcases portable_cases sha256 id' with ⟨heq', -, hshape'⟩ | ⟨front', heq', -, -⟩ <;>
    rw [heq, heq'] at hsame
  · exact hne hsame
  · -- one passed and the other has the reserved ending
    rw [hsame, remappedShape_ending] at hshape
    cases hshape
  · rw [← hsame, remappedShape_ending] at hshape'
    cases hshape'
  · obtain ⟨-, hending⟩ := List.append_inj' hsame (by simp [length_short])
    exact hshort (List.cons.inj hending).2

/-- Every id has a portable form of one to sixty-four id characters, and
ids whose short digests differ have different ones. -/
theorem portable_valid_distinct (sha256 : HexDigest) (id : Bytes) :
    (1 ≤ (portable sha256 id).length ∧ (portable sha256 id).length ≤ 64
        ∧ ∀ c ∈ portable sha256 id, IsIdChar c)
      ∧ ∀ id', id ≠ id' → sha256.short id ≠ sha256.short id' →
        portable sha256 id ≠ portable sha256 id' :=
  ⟨portable_form id, fun _ => portable_apart⟩

/-- A digest that tells ids apart by their length up to fifteen. -/
def lengthDigest : HexDigest where
  text id := List.replicate (min id.length 15) 0x61 ++ List.replicate (64 - min id.length 15) 0x30
  length_text id := by
    rw [List.length_append, List.length_replicate, List.length_replicate]
    omega
  hex id c hc := by
    rcases List.mem_append.mp hc with hc | hc <;> rw [(List.mem_replicate.mp hc).2] <;> rfl

/-- The empty id and a dot are both rewritten, to different ids. -/
theorem portable_valid_distinct_dot :
    portable lengthDigest [] ≠ portable lengthDigest [0x2e] ∧ valid [0x2e] = false :=
  ⟨(portable_valid_distinct lengthDigest []).2 [0x2e] (by decide) (by decide), by decide⟩

end LlmTemporalWorker.Llm.ToolCallId
