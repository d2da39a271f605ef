/-
UTF-8, read leniently.

A text is a list of characters, its bytes are their encodings one after
another. Reading goes the other way and never fails: a byte that starts
no well-formed encoding reads as the replacement character, and reading
goes on with the next byte. Reading the bytes of a text gives the text
back, so a text is determined by its bytes, and texts can be compared by
their bytes. Well-formed bytes are the bytes of what they read as.
-/
import Mathlib

namespace LlmTemporalWorker.Lib

abbrev Bytes := List UInt8

-- ===== writing

/-- The bytes of a text. -/
def utf8 (text : List Char) : Bytes :=
  text.flatMap String.utf8EncodeChar

@[simp] theorem utf8_nil : utf8 [] = [] := rfl

@[simp] theorem utf8_cons (c : Char) (text : List Char) :
    utf8 (c :: text) = String.utf8EncodeChar c ++ utf8 text := rfl

theorem encodeChar_ascii {c : Char} (h : c.toNat ≤ 0x7f) :
    String.utf8EncodeChar c = [UInt8.ofNat c.toNat] := by
  show (if c.toNat ≤ 127 then [UInt8.ofNat c.toNat] else _) = _
  rw [if_pos h]

-- ===== reading

/-- What an unreadable byte reads as. -/
def replacement : Char := Char.ofNat 0xfffd

/-- A byte that continues a character. -/
def isTail (b : UInt8) : Bool := 0x80 ≤ b.toNat && b.toNat ≤ 0xbf

/-- A code point in a range, as a character of `size` bytes. -/
def runeOf (least most point size : Nat) : Option (Char × Nat) :=
  if least ≤ point ∧ point ≤ most ∧ point.isValidChar then
    some (Char.ofNat point, size)
  else none

/-- The character some bytes start with, and how many bytes it takes. -/
def decodeRune : Bytes → Option (Char × Nat)
  | [] => none
  | a :: s =>
    if a.toNat ≤ 0x7f then some (Char.ofNat a.toNat, 1)
    else if 0xc0 ≤ a.toNat ∧ a.toNat ≤ 0xdf then
      match s with
      | b :: _ =>
        if isTail b then
          runeOf 0x80 0x7ff ((a.toNat - 0xc0) * 64 + (b.toNat - 0x80)) 2
        else none
      | [] => none
    else if 0xe0 ≤ a.toNat ∧ a.toNat ≤ 0xef then
      match s with
      | b :: c :: _ =>
        if isTail b && isTail c then
          runeOf 0x800 0xffff ((a.toNat - 0xe0) * 4096 + (b.toNat - 0x80) * 64 + (c.toNat - 0x80)) 3
        else none
      | _ => none
    else if 0xf0 ≤ a.toNat ∧ a.toNat ≤ 0xf7 then
      match s with
      | b :: c :: d :: _ =>
        if isTail b && isTail c && isTail d then
          runeOf 0x10000 0x10ffff ((a.toNat - 0xf0) * 262144
            + (b.toNat - 0x80) * 4096 + (c.toNat - 0x80) * 64
            + (d.toNat - 0x80)) 4
        else none
      | _ => none
    else none

/-- The text of some bytes, after `skip` bytes of a character that has
been read already. -/
def runesAfter : Nat → Bytes → List Char
  | _, [] => []
  | skip + 1, _ :: s => runesAfter skip s
  | 0, a :: s =>
    match decodeRune (a :: s) with
    | some (c, size) => c :: runesAfter (size - 1) s
    | none => replacement :: runesAfter 0 s

/-- The text of some bytes. -/
def runes (s : Bytes) : List Char := runesAfter 0 s

theorem runesAfter_append (read s : Bytes) : runesAfter read.length (read ++ s) = runes s := by
  induction read with
  | nil => rfl
  | cons b read ih => exact ih

theorem toNat_ofNat_of_lt {n : Nat} (h : n < 256) : (UInt8.ofNat n).toNat = n := by
  exact Nat.mod_eq_of_lt h

theorem isTail_ofNat {n : Nat} (h : n < 64) : isTail (UInt8.ofNat (n + 128)) = true := by
  rw [isTail, toNat_ofNat_of_lt (by omega)]
  simp only [Bool.and_eq_true, decide_eq_true_eq]
  omega

/-- A character of a given size is read back from its code point. -/
theorem runeOf_toNat {c : Char} {least most point size : Nat}
    (hpoint : point = c.toNat) (hleast : least ≤ c.toNat)
    (hmost : c.toNat ≤ most) :
    runeOf least most point size = some (c, size) := by
  subst hpoint
  rw [runeOf, if_pos ⟨hleast, hmost, c.valid⟩, Char.ofNat_toNat]

theorem toNat_le_max (c : Char) : c.toNat ≤ 0x10ffff := by
  rcases c.valid with h | h
  · exact Nat.le_trans (Nat.le_of_lt h) (by decide)
  · exact Nat.le_of_lt_succ h.2

/-- Reading the encoding of a character gives the character. -/
theorem decodeRune_encodeChar (c : Char) (s : Bytes) : decodeRune (String.utf8EncodeChar c ++ s)
      = some (c, (String.utf8EncodeChar c).length) := by
  have hmax := toNat_le_max c
  have hc : c.val.toNat = c.toNat := rfl
  unfold String.utf8EncodeChar
  simp only [hc]
  by_cases h₁ : c.toNat ≤ 127
  · simp only [List.cons_append, decodeRune,
      toNat_ofNat_of_lt (show c.toNat < 256 by omega), if_pos h₁,
      Char.ofNat_toNat]
    rfl
  rw [if_neg h₁]
  by_cases h₂ : c.toNat ≤ 2047
  · have ha : (UInt8.ofNat (c.toNat / 64 % 32 + 192)).toNat = c.toNat / 64 + 192 := by
      rw [toNat_ofNat_of_lt (by omega)]
      omega
    have hb := toNat_ofNat_of_lt (n := c.toNat % 64 + 128) (by omega)
    rw [if_pos h₂]
    simp only [List.cons_append, decodeRune, ha, hb]
    rw [if_neg (by omega), if_pos (by omega),
      if_pos (isTail_ofNat (by omega)),
      runeOf_toNat (c := c) (by omega) (by omega) (by omega)]
    rfl
  rw [if_neg h₂]
  by_cases h₃ : c.toNat ≤ 65535
  · have ha : (UInt8.ofNat (c.toNat / 4096 % 16 + 224)).toNat = c.toNat / 4096 + 224 := by
      rw [toNat_ofNat_of_lt (by omega)]
      omega
    have hb := toNat_ofNat_of_lt (n := c.toNat / 64 % 64 + 128) (by omega)
    have hd := toNat_ofNat_of_lt (n := c.toNat % 64 + 128) (by omega)
    rw [if_pos h₃]
    simp only [List.cons_append, decodeRune, ha, hb, hd]
    rw [if_neg (by omega), if_neg (by omega), if_pos (by omega),
      isTail_ofNat (by omega), isTail_ofNat (by omega),
      if_pos (by decide),
      runeOf_toNat (c := c) (by omega) (by omega) (by omega)]
    rfl
  · have ha : (UInt8.ofNat (c.toNat / 262144 % 8 + 240)).toNat = c.toNat / 262144 + 240 := by
      rw [toNat_ofNat_of_lt (by omega)]
      omega
    have hb := toNat_ofNat_of_lt (n := c.toNat / 4096 % 64 + 128) (by omega)
    have hd := toNat_ofNat_of_lt (n := c.toNat / 64 % 64 + 128) (by omega)
    have he := toNat_ofNat_of_lt (n := c.toNat % 64 + 128) (by omega)
    rw [if_neg h₃]
    simp only [List.cons_append, decodeRune, ha, hb, hd, he]
    rw [if_neg (by omega), if_neg (by omega), if_neg (by omega),
      if_pos (by omega), isTail_ofNat (by omega), isTail_ofNat (by omega),
      isTail_ofNat (by omega), if_pos (by decide),
      runeOf_toNat (c := c) (by omega) (by omega) (by omega)]
    rfl

theorem encodeChar_ne_nil (c : Char) : String.utf8EncodeChar c ≠ [] := by
  unfold String.utf8EncodeChar
  simp only
  split_ifs <;> exact List.cons_ne_nil _ _

/-- Reading goes through a character's encoding in one step. -/
theorem runes_encodeChar (c : Char) (s : Bytes) :
    runes (String.utf8EncodeChar c ++ s) = c :: runes s := by
  have hread := decodeRune_encodeChar c s
  cases henc : String.utf8EncodeChar c with
  | nil => exact absurd henc (encodeChar_ne_nil c)
  | cons a rest =>
    rw [henc, List.cons_append] at hread
    show (match decodeRune (a :: (rest ++ s)) with
      | some (c, size) => c :: runesAfter (size - 1) (rest ++ s)
      | none => replacement :: runesAfter 0 (rest ++ s)) = _
    rw [hread]
    show c :: runesAfter rest.length (rest ++ s) = _
    rw [runesAfter_append]

/-- Reading the bytes of a text gives the text. -/
theorem runes_utf8_append (text : List Char) (s : Bytes) :
    runes (utf8 text ++ s) = text ++ runes s := by
  induction text with
  | nil => rfl
  | cons c text ih =>
    rw [utf8_cons, List.append_assoc, runes_encodeChar, ih]
    rfl

theorem runes_utf8 (text : List Char) : runes (utf8 text) = text := by
  have h := runes_utf8_append text []
  rwa [List.append_nil, show runes [] = [] from rfl, List.append_nil] at h

/-- A text is determined by its bytes. -/
theorem utf8_injective {s t : List Char} (h : utf8 s = utf8 t) : s = t := by
  rw [← runes_utf8 s, h, runes_utf8]

-- ===== validity

/-- The bytes are well formed, after `skip` bytes of a character that has
been read already. -/
def validAfter : Nat → Bytes → Bool
  | _, [] => true
  | skip + 1, _ :: s => validAfter skip s
  | 0, a :: s =>
    match decodeRune (a :: s) with
    | some (_, size) => validAfter (size - 1) s
    | none => false

/-- The bytes are the encoding of some text. -/
def validUtf8 (s : Bytes) : Bool := validAfter 0 s

theorem validAfter_append (read s : Bytes) :
    validAfter read.length (read ++ s) = validUtf8 s := by
  induction read with
  | nil => rfl
  | cons b read ih => exact ih

def IsText (s : Bytes) : Prop := ∃ text, utf8 text = s

variable {s t : Bytes}

theorem IsText.valid (h : IsText s) : validUtf8 s = true := by
  obtain ⟨text, rfl⟩ := h
  induction text with
  | nil => rfl
  | cons c text ih =>
    have hread := decodeRune_encodeChar c (utf8 text)
    rw [utf8_cons]
    cases henc : String.utf8EncodeChar c with
    | nil => exact absurd henc (encodeChar_ne_nil c)
    | cons a rest =>
      rw [henc, List.cons_append] at hread
      rw [List.cons_append, validUtf8, validAfter, hread]
      show validAfter rest.length (rest ++ utf8 text) = true
      rw [validAfter_append, ih]

theorem IsText.append (hs : IsText s) (ht : IsText t) : IsText (s ++ t) := by
  obtain ⟨s, rfl⟩ := hs
  obtain ⟨t, rfl⟩ := ht
  exact ⟨s ++ t, List.flatMap_append⟩

theorem IsText.cons {b : UInt8} (hb : b.toNat ≤ 0x7f) (hs : IsText s) : IsText (b :: s) := by
  have hchar : (Char.ofNat b.toNat).toNat = b.toNat := by
    rw [Char.toNat_ofNat, if_pos (.inl (by omega))]
  refine .append (s := [b]) ⟨[Char.ofNat b.toNat], ?_⟩ hs
  rw [utf8_cons, encodeChar_ascii (hchar.trans_le hb), hchar]
  simp

theorem isText_nil : IsText [] := ⟨[], rfl⟩

theorem isText_ascii (h : ∀ b ∈ s, b.toNat ≤ 0x7f) : IsText s := by
  induction s with
  | nil => exact isText_nil
  | cons b s ih =>
    obtain ⟨hb, hs⟩ := List.forall_mem_cons.mp h
    exact .cons hb (ih hs)

-- ===== ordering

/-- Byte strings in dictionary order. -/
def bytesLe : Bytes → Bytes → Bool
  | [], _ => true
  | _ :: _, [] => false
  | a :: s, b :: t => a.toNat < b.toNat || (a == b && bytesLe s t)

theorem bytesLe_total (s t : Bytes) : (bytesLe s t || bytesLe t s) = true := by
  induction s generalizing t with
  | nil => rfl
  | cons a s ih =>
    cases t with
    | nil => rfl
    | cons b t =>
      rcases Nat.lt_trichotomy a.toNat b.toNat with h | h | h
      · simp [bytesLe, h]
      · have hab : a = b := UInt8.toNat_inj.mp h
        subst hab
        simpa [bytesLe] using ih t
      · simp [bytesLe, h]

theorem bytesLe_trans {s t u : Bytes} (hst : bytesLe s t = true)
    (htu : bytesLe t u = true) : bytesLe s u = true := by
  induction s generalizing t u with
  | nil => rfl
  | cons a s ih =>
    cases t with
    | nil => cases hst
    | cons b t =>
      cases u with
      | nil => cases htu
      | cons c u =>
        simp only [bytesLe, Bool.or_eq_true, decide_eq_true_eq,
          Bool.and_eq_true, beq_iff_eq] at hst htu ⊢
        rcases hst with hab | ⟨rfl, hst⟩
        · rcases htu with hbc | ⟨rfl, _⟩
          · exact .inl (Nat.lt_trans hab hbc)
          · exact .inl hab
        · rcases htu with hbc | ⟨rfl, htu⟩
          · exact .inl hbc
          · exact .inr ⟨rfl, ih hst htu⟩

theorem bytesLe_antisymm {s t : Bytes} (hst : bytesLe s t = true)
    (hts : bytesLe t s = true) : s = t := by
  induction s generalizing t with
  | nil =>
    cases t with
    | nil => rfl
    | cons b t => cases hts
  | cons a s ih =>
    cases t with
    | nil => cases hst
    | cons b t =>
      simp only [bytesLe, Bool.or_eq_true, decide_eq_true_eq,
        Bool.and_eq_true, beq_iff_eq] at hst hts
      rcases hst with hab | ⟨rfl, hst⟩
      · rcases hts with hba | ⟨rfl, _⟩ <;> omega
      · rcases hts with hba | ⟨_, hts⟩
        · omega
        · rw [ih hst hts]

end LlmTemporalWorker.Lib
