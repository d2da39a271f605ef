/-
Strings of decimal digits, and what counts as space around them.

A numeral is read by its digits and printed into them. The lemmas say
what a reader needs: a digit string of a length is determined by its
value and its length (`digits_ext`), leading zeros change nothing
(`digitsVal_dropZeros`), and a string that does not begin with a zero is
as long as its value is large (`pow_le_digitsVal`).
-/
import Mathlib

namespace LlmTemporalWorker.Lib

/-- White space, by its code point. -/
def isSpace (c : Char) : Bool :=
  c.toNat ∈ [0x09, 0x0a, 0x0b, 0x0c, 0x0d, 0x20, 0x85, 0xa0, 0x1680,
      0x2028, 0x2029, 0x202f, 0x205f, 0x3000]
    || (0x2000 ≤ c.toNat && c.toNat ≤ 0x200a)

/-- Every character is a decimal digit. -/
def AllDigits (ds : List Char) : Prop := ∀ c ∈ ds, c.isDigit = true

/-- The value of a digit string. -/
def digitsVal (ds : List Char) : Nat := Nat.ofDigitChars 10 ds 0

/-- The value of one digit. -/
def digitVal (c : Char) : Nat := c.toNat - '0'.toNat

-- ===== digits

variable {c : Char} {ds : List Char}

theorem isDigit_iff : c.isDigit = true ↔ 48 ≤ c.toNat ∧ c.toNat ≤ 57 := by
  unfold Char.isDigit Char.toNat
  rw [Bool.and_eq_true, decide_eq_true_eq, decide_eq_true_eq, ge_iff_le,
    UInt32.le_iff_toNat_le, UInt32.le_iff_toNat_le]
  rfl

theorem digitVal_lt (h : c.isDigit = true) : digitVal c < 10 := by
  have := isDigit_iff.mp h
  have hzero : '0'.toNat = 48 := rfl
  unfold digitVal
  omega

theorem digitVal_inj {c' : Char} (h : c.isDigit = true)
    (h' : c'.isDigit = true) (heq : digitVal c = digitVal c') : c = c' := by
  have hc := isDigit_iff.mp h
  have hc' := isDigit_iff.mp h'
  have hzero : '0'.toNat = 48 := rfl
  unfold digitVal at heq
  have hnat : c.toNat = c'.toNat := by omega
  exact Char.toNat_inj.mp hnat

/-- A digit is none of the other characters of a numeral. -/
theorem ne_of_isDigit {c' : Char} (h : c.isDigit = true) (h' : c'.isDigit = false) : c ≠ c' := by
  rintro rfl
  rw [h] at h'
  cases h'

theorem utf8Size_of_isDigit (h : c.isDigit = true) : c.utf8Size = 1 := by
  have := isDigit_iff.mp h
  rw [Char.utf8Size_eq_one_iff, UInt32.le_iff_toNat_le]
  exact Nat.le_trans this.2 (by decide)

theorem isSpace_of_isDigit (h : c.isDigit = true) : isSpace c = false := by
  have hc := isDigit_iff.mp h
  unfold isSpace
  rw [Bool.or_eq_false_iff, Bool.and_eq_false_iff]
  refine ⟨decide_eq_false ?_, Or.inl (decide_eq_false (by omega))⟩
  simp only [List.mem_cons, List.not_mem_nil, or_false]
  omega

-- ===== values

@[simp] theorem digitsVal_nil : digitsVal [] = 0 := rfl

theorem digitsVal_cons (c : Char) (ds : List Char) :
    digitsVal (c :: ds) = digitVal c * 10 ^ ds.length + digitsVal ds := by
  unfold digitsVal digitVal
  rw [Nat.ofDigitChars_cons, Nat.ofDigitChars_eq_ofDigitChars_zero,
    Nat.mul_zero, Nat.zero_add, Nat.mul_comm]

theorem digitsVal_append (ds ds' : List Char) : digitsVal (ds ++ ds')
      = digitsVal ds * 10 ^ ds'.length + digitsVal ds' := by
  unfold digitsVal
  rw [Nat.ofDigitChars_append, Nat.ofDigitChars_eq_ofDigitChars_zero, Nat.mul_comm]

theorem AllDigits.tail (h : AllDigits (c :: ds)) : AllDigits ds :=
  fun x hx => h x (List.mem_cons_of_mem _ hx)

theorem AllDigits.append {ds' : List Char} (h : AllDigits ds)
    (h' : AllDigits ds') : AllDigits (ds ++ ds') :=
  List.forall_mem_append.mpr ⟨h, h'⟩

theorem digitsVal_lt (h : AllDigits ds) : digitsVal ds < 10 ^ ds.length := by
  induction ds with
  | nil => simp
  | cons c rest ih =>
    have hc := digitVal_lt (h c List.mem_cons_self)
    have hrest := ih h.tail
    rw [digitsVal_cons, List.length_cons, Nat.pow_succ]
    have hle : digitVal c * 10 ^ rest.length ≤ 9 * 10 ^ rest.length :=
      Nat.mul_le_mul_right _ (by omega)
    omega

/-- Digit strings of one length are told apart by their values. -/
theorem digits_ext {ds' : List Char} (h : AllDigits ds) (h' : AllDigits ds')
    (hlen : ds.length = ds'.length) (hval : digitsVal ds = digitsVal ds') :
    ds = ds' := by
  induction ds generalizing ds' with
  | nil =>
    cases ds' with
    | nil => rfl
    | cons c' rest' => cases hlen
  | cons c rest ih =>
    cases ds' with
    | nil => cases hlen
    | cons c' rest' =>
      have hlen : rest.length = rest'.length := Nat.succ.inj hlen
      have hrest := digitsVal_lt h.tail
      have hrest' := digitsVal_lt h'.tail
      have hpos : 0 < 10 ^ rest.length := Nat.pow_pos (by decide)
      rw [digitsVal_cons, digitsVal_cons, ← hlen] at hval
      rw [← hlen] at hrest'
      -- the first digit is the quotient, the rest the remainder
      have hquot : digitVal c = digitVal c' := by
        have hdiv := congrArg (· / 10 ^ rest.length) hval
        simp only [Nat.mul_comm _ (10 ^ rest.length), Nat.mul_add_div hpos, Nat.div_eq_of_lt hrest,
          Nat.div_eq_of_lt hrest', Nat.add_zero] at hdiv
        exact hdiv
      rw [hquot] at hval
      have hhead := digitVal_inj (h c List.mem_cons_self) (h' c' List.mem_cons_self) hquot
      rw [hhead, ih h.tail h'.tail hlen (Nat.add_left_cancel hval)]

-- ===== leading zeros

theorem digitVal_eq_zero_iff (h : c.isDigit = true) : digitVal c = 0 ↔ c = '0' := by
  constructor
  · intro hzero
    exact digitVal_inj h (by decide) hzero
  · rintro rfl
    rfl

/-- The digits without the zeros in front. -/
def dropZeros (ds : List Char) : List Char := ds.dropWhile (· == '0')

theorem digitsVal_dropZeros (ds : List Char) : digitsVal (dropZeros ds) = digitsVal ds := by
  induction ds with
  | nil => rfl
  | cons c rest ih =>
    unfold dropZeros at *
    by_cases hc : c = '0'
    · subst hc
      rw [List.dropWhile_cons_of_pos (by decide), ih, digitsVal_cons]
      simp [digitVal]
    · rw [List.dropWhile_cons_of_neg (by simpa using hc)]

/-- A string that does not begin with a zero is as long as its value. -/
theorem pow_le_digitsVal (h : c.isDigit = true) (hzero : c ≠ '0') :
    10 ^ ds.length ≤ digitsVal (c :: ds) := by
  have hc : 0 < digitVal c := Nat.pos_of_ne_zero fun heq => hzero ((digitVal_eq_zero_iff h).mp heq)
  rw [digitsVal_cons]
  have := Nat.le_mul_of_pos_left (10 ^ ds.length) hc
  omega

theorem dropZeros_eq_nil_iff (h : AllDigits ds) : dropZeros ds = [] ↔ digitsVal ds = 0 := by
  constructor
  · intro hnil
    rw [← digitsVal_dropZeros, hnil]
    rfl
  · intro hval
    rw [← digitsVal_dropZeros] at hval
    cases hdrop : dropZeros ds with
    | nil => rfl
    | cons c rest =>
      have hsuffix : dropZeros ds <:+ ds := List.dropWhile_suffix _
      have hmem : c ∈ ds := hsuffix.subset (by rw [hdrop]; exact List.mem_cons_self)
      have hne : c ≠ '0' := by
        have := List.head?_dropWhile_not (· == '0') ds
        rw [show ds.dropWhile (· == '0') = c :: rest from hdrop] at this
        simpa using this
      have hpow : 10 ^ rest.length ≤ digitsVal (c :: rest) := pow_le_digitsVal (h c hmem) hne
      have hpos : 0 < 10 ^ rest.length := Nat.pow_pos (by decide)
      rw [hdrop] at hval
      omega

-- ===== printing

theorem allDigits_toDigits (n : Nat) : AllDigits (Nat.toDigits 10 n) :=
  fun _ hc => Nat.isDigit_of_mem_toDigits (by decide) (by decide) hc

@[simp] theorem digitsVal_toDigits (n : Nat) : digitsVal (Nat.toDigits 10 n) = n :=
  Nat.ofDigitChars_ten_toDigits

theorem toList_toString (n : Nat) : (toString n).toList = Nat.toDigits 10 n := by
  rw [Nat.toString_eq_ofList_toDigits, String.toList_ofList]

/-- A printed number begins with a zero only when it is zero. -/
theorem head_toDigits_ne_zero {n : Nat} (hn : 0 < n) : (Nat.toDigits 10 n).head? ≠ some '0' := by
  cases hds : Nat.toDigits 10 n with
  | nil => exact absurd hds Nat.toDigits_ne_nil
  | cons c rest =>
    intro hc
    cases hc
    have hdigits : AllDigits ('0' :: rest) := hds ▸ allDigits_toDigits n
    have hval : digitsVal ('0' :: rest) = n := by
      rw [← hds, digitsVal_toDigits]
    have hlt := digitsVal_lt hdigits.tail
    have hzero : digitsVal ('0' :: rest) = digitsVal rest := by
      rw [digitsVal_cons]
      simp [digitVal]
    -- a shorter string would do
    have hrest : 0 < rest.length := by
      cases rest with
      | nil =>
        rw [hzero] at hval
        simp at hval
        omega
      | cons _ _ => exact Nat.succ_pos _
    have hlen := (Nat.length_toDigits_le_iff (by decide : 1 < 10)
      hrest).mpr (show n < 10 ^ rest.length by omega)
    rw [hds, List.length_cons] at hlen
    omega

/-- A number printed in front of something that does not begin with a
digit can be read back. -/
theorem toDigits_append_inj {n m : Nat} {tail tail' : List Char}
    (h : Nat.toDigits 10 n ++ tail = Nat.toDigits 10 m ++ tail')
    (htail : ∀ c ∈ tail.head?, c.isDigit = false)
    (htail' : ∀ c ∈ tail'.head?, c.isDigit = false) : n = m := by
  have hread : ∀ (k : Nat) (rest : List Char), (∀ c ∈ rest.head?, c.isDigit = false) →
      (Nat.toDigits 10 k ++ rest).takeWhile Char.isDigit = Nat.toDigits 10 k := by
    intro k rest hrest
    rw [List.takeWhile_append_of_pos (allDigits_toDigits k)]
    cases rest with
    | nil => simp
    | cons c rest =>
      rw [List.takeWhile_cons_of_neg (by simpa using hrest c rfl),
        List.append_nil]
  have hdigits : Nat.toDigits 10 n = Nat.toDigits 10 m := by
    rw [← hread n tail htail, h, hread m tail' htail']
  rw [← digitsVal_toDigits n, hdigits, digitsVal_toDigits]

/-- What an integer is printed as begins with a digit or a sign. -/
theorem head_toString_int (z : Int) : ∃ c rest,
    (toString z).toList = c :: rest ∧ (c.isDigit = true ∨ c = '-') := by
  cases z with
  | ofNat n =>
    have hn : (toString (Int.ofNat n)).toList = Nat.toDigits 10 n := toList_toString n
    cases hds : Nat.toDigits 10 n with
    | nil => exact absurd hds Nat.toDigits_ne_nil
    | cons c rest =>
      refine ⟨c, rest, hn.trans hds, .inl ?_⟩
      exact allDigits_toDigits n c (hds ▸ List.mem_cons_self)
  | negSucc n =>
    have hn : toString (Int.negSucc n) = "-" ++ toString (n + 1) := rfl
    refine ⟨'-', (toString (n + 1)).toList, ?_, .inr rfl⟩
    rw [hn, String.toList_append]
    rfl

end LlmTemporalWorker.Lib
