/-
Canonical JSON is a normal form.

The writer writes the compact text of a value's canonical form: the fast
path for strings writes what `json.Marshal` would write, and sorting the
written members sorts the members. The token loop reads exactly the
texts of values without repeated keys and within the depth limit. So the
canonicalizer accepts exactly those texts (within its byte limit) and
returns the compact text of the canonical form
(`canonicalJsonWithLimits_ok`), from which everything else follows.
-/
import LlmTemporalWorker.Llm.CanonicalJson

namespace LlmTemporalWorker.Llm

open Lib
open Lib.Json

-- ===== the writer

theorem needsMarshal_high {b : UInt8} (h : 0x80 ≤ b.toNat) : needsMarshal b = true := by
  have : decide (0x7f < b.toNat) = true := decide_eq_true (by omega)
  simp [needsMarshal, this]

/-- A character whose bytes stand for themselves is not escaped. -/
theorem escape_of_safe {c : Char} (h : ∀ b ∈ String.utf8EncodeChar c, needsMarshal b = false) :
    escape c = [c] := by
  have hascii : c.toNat ≤ 0x7f := by
    by_contra hhigh
    cases henc : String.utf8EncodeChar c with
    | nil => exact encodeChar_ne_nil c henc
    | cons b rest =>
      have hb : b ∈ String.utf8EncodeChar c := henc ▸ List.mem_cons_self
      have := needsMarshal_high (high_of_mem_encodeChar (by omega) hb)
      rw [h b hb] at this
      cases this
  have hb := h (UInt8.ofNat c.toNat) (by rw [encodeChar_ascii hascii]; exact List.mem_cons_self)
  have hval := toNat_ofNat_of_lt (show c.toNat < 256 by omega)
  simp only [needsMarshal, hval, Bool.or_eq_false_iff,
    decide_eq_false_iff_not, beq_eq_false_iff_ne] at hb
  obtain ⟨⟨⟨⟨⟨⟨hlow, _⟩, hquote⟩, hback⟩, hlt⟩, hgt⟩, hamp⟩ := hb
  -- a special character would be one of the special bytes
  have hne : ∀ x : Char, UInt8.ofNat c.toNat ≠ UInt8.ofNat x.toNat → c ≠ x := by
    rintro x hx rfl
    exact hx rfl
  have hctrl : ∀ x : Char, x.toNat < 0x20 → c ≠ x := by
    rintro x hx rfl
    exact hlow hx
  rw [escape, if_neg (not_or.mpr ⟨hne '"' hquote, hne '\\' hback⟩),
    if_neg (hctrl '\x08' (by decide)), if_neg (hctrl '\x0c' (by decide)),
    if_neg (hctrl '\n' (by decide)), if_neg (hctrl '\r' (by decide)),
    if_neg (hctrl '\t' (by decide)),
    if_neg (not_or.mpr ⟨hlow, not_or.mpr ⟨hne '<' hlt,
      not_or.mpr ⟨hne '>' hgt, hne '&' hamp⟩⟩⟩), if_neg (by omega)]

theorem flatMap_escape_of_safe {text : List Char} (h : (utf8 text).any needsMarshal = false) :
    text.flatMap escape = text := by
  induction text with
  | nil => rfl
  | cons c text ih =>
    rw [utf8_cons, List.any_append, Bool.or_eq_false_iff] at h
    rw [List.flatMap_cons, ih h.2,
      escape_of_safe fun b hb => by simpa using List.any_eq_false.mp h.1 b hb]
    rfl

/-- The fast path writes what `json.Marshal` writes. -/
theorem writeCanonicalString_eq (value : String) : writeCanonicalString value = quote value := by
  rw [writeCanonicalString]
  split
  · rfl
  · next h =>
      rw [quote, flatMap_escape_of_safe (by simpa using h)]

theorem writeCanonicalItems_eq (items : List Json) :
    writeCanonicalItems items = items.map writeCanonicalValue := by
  induction items with
  | nil => rfl
  | cons v vs ih => rw [writeCanonicalItems, ih, List.map_cons]

theorem writeCanonicalMembers_eq (members : List (String × Json)) : writeCanonicalMembers members
      = members.map fun m => (m.1, writeCanonicalValue m.2) := by
  induction members with
  | nil => rfl
  | cons m ms ih => rw [writeCanonicalMembers, ih, List.map_cons]

/-- The writer writes the compact text of the canonical form. -/
theorem writeCanonicalValue_eq (v : Json) : writeCanonicalValue v = v.canonical.compact := by
  induction v with
  | null | number => rfl
  | bool b => cases b <;> rfl
  | string text => exact writeCanonicalString_eq text
  | array items ih =>
    rw [writeCanonicalValue, canonical_array, compact, compactItems_eq,
      writeCanonicalItems_eq, List.map_map, List.map_congr_left ih]
    rfl
  | object members ih =>
    rw [writeCanonicalValue, canonical_object, compact, compactMembers_eq,
      writeCanonicalMembers_eq, sortByKey_map, List.map_map, List.map_map]
    refine congrArg (fun texts => 0x7b :: joinComma texts ++ [0x7d])
      (List.map_congr_left fun m hm => ?_)
    show writeCanonicalString m.1 ++ 0x3a :: writeCanonicalValue m.2 = _
    rw [writeCanonicalString_eq, ih m (mem_sortByKey.mp hm)]
    rfl

-- ===== the end of text

/-- Between values the decoder finds the end exactly where only space is
left. -/
theorem token_eof_iff {d : Decoder} (hstate : d.state = .topValue) :
    d.token = .error .eof ↔ skipSpace d.rest = [] := by
  rw [Decoder.token_eq_tokenAt, Decoder.settle_of_start (.inl hstate)]
  constructor
  · intro h
    rw [Decoder.tokenAt, hstate] at h
    cases hs : skipSpace d.rest with
    | nil => rfl
    | cons b s =>
      rw [hs] at h
      simp only [reduceCtorEq, or_self, and_false, if_false, TokenState.valueAllowed, if_true] at h
      repeat' split at h
      all_goals cases h
  · intro h
    rw [Decoder.tokenAt, h]

theorem noTrailing_ok {d : Decoder} (hstate : d.state = .topValue) :
    noTrailing d = .ok () ↔ skipSpace d.rest = [] := by
  rw [← token_eof_iff hstate, noTrailing]
  split
  · next h => exact ⟨fun _ => h, fun _ => rfl⟩
  · next h => exact ⟨fun hc => (nomatch hc), fun hc => nomatch h.symm.trans hc⟩
  · next h => exact ⟨fun hc => (nomatch hc), fun hc => nomatch h.symm.trans hc⟩

-- ===== acceptance

variable {maxBytes maxDepth : Int}

/-- The canonicalizer accepts the texts of values that repeat no key and
keep its limits, and writes their canonical forms. -/
theorem canonicalJsonWithLimits_ok {data out : Bytes} :
    canonicalJsonWithLimits data maxBytes maxDepth = .ok out ↔
      0 < maxBytes ∧ 0 < maxDepth ∧ (data.length : Int) ≤ maxBytes ∧
      ∃ v, Document data v ∧ v.distinct = true ∧ (v.depth : Int) ≤ maxDepth
        ∧ out = v.canonical.compact ∧ (out.length : Int) ≤ maxBytes := by
  constructor
  · intro h
    obtain ⟨hbytes, h⟩ := refusal_ok h
    obtain ⟨hdepth, h⟩ := refusal_ok h
    obtain ⟨_, h⟩ := refusal_ok h
    obtain ⟨hlength, h⟩ := refusal_ok h
    obtain ⟨⟨v, d⟩, hparse, h⟩ := bind_ok h
    obtain ⟨⟨⟩, hend, h⟩ := bind_ok h
    obtain ⟨hout, h⟩ := refusal_ok h
    cases h
    have htree : Decoder.tree ⟨some maxDepth.toNat, true⟩
        (2 * data.length + 1) 0 (newDecoder data) = .ok (v, d) := by
      rw [parseCanonicalValue] at hparse
      cases hok : Decoder.tree ⟨some maxDepth.toNat, true⟩
          (2 * data.length + 1) 0 (newDecoder data) with
      | error e =>
        rw [hok] at hparse
        cases hparse
      | ok r =>
        rw [hok] at hparse
        cases hparse
        rfl
    obtain ⟨hread, hstate, _, hdistinct, hlimit⟩ := Decoder.tree_reads htree
    have hend := (noTrailing_ok hstate).mp hend
    have hlimit := hlimit _ rfl
    refine ⟨by omega, by omega, by omega, v,
      ⟨d.rest, hread, hend⟩, hdistinct rfl, by omega,
      writeCanonicalValue_eq v, by omega⟩
  · rintro ⟨hbytes, hdepth, hlength, v, ⟨rest, hread, hend⟩, hdistinct, hlimit, rfl, hout⟩
    have hne : data.length ≠ 0 := by
      have := hread.length
      have := length_skipSpace data
      omega
    have htree : Decoder.tree ⟨some maxDepth.toNat, true⟩
        (2 * data.length + 1) 0 (newDecoder data) = .ok (v, newDecoder rest) :=
      Decoder.tree_of_reads hread (by omega) (fun _ => hdistinct) fun n hn => by
        cases hn
        omega
    have hparse : parseCanonicalValue (newDecoder data) (2 * data.length + 1)
        maxDepth = .ok (v, newDecoder rest) := by
      rw [parseCanonicalValue, htree]
      rfl
    have hend : noTrailing (newDecoder rest) = .ok () := (noTrailing_ok rfl).mpr hend
    rw [canonicalJsonWithLimits, if_neg (by omega), if_neg (by omega),
      if_neg hne, if_neg (by omega), hparse]
    show (noTrailing (newDecoder rest) >>= _) = _
    rw [hend]
    show (if ((writeCanonicalValue v).length : Int) > maxBytes then _ else _)
      = _
    rw [writeCanonicalValue_eq, if_neg (by omega)]
    rfl

/-- A value's canonical form is a value the canonicalizer accepts as it
is written. -/
theorem canonicalJsonWithLimits_idem {a out : Bytes}
    (h : canonicalJsonWithLimits a maxBytes maxDepth = .ok out) :
    canonicalJsonWithLimits out maxBytes maxDepth = .ok out := by
  obtain ⟨hbytes, hdepth, _, v, _, hdistinct, hlimit, rfl, hout⟩ := canonicalJsonWithLimits_ok.mp h
  refine canonicalJsonWithLimits_ok.mpr ⟨hbytes, hdepth, hout, v.canonical,
    document_compact _, distinct_canonical hdistinct, ?_, ?_, hout⟩
  · rw [depth_canonical]
    exact hlimit
  · rw [canonical_idem]

theorem canonicalJsonWithLimits_refuses {a : Bytes}
    (h : ∀ out, canonicalJsonWithLimits a maxBytes maxDepth ≠ .ok out) :
    ∃ e, canonicalJsonWithLimits a maxBytes maxDepth = .error e := by
  cases hresult : canonicalJsonWithLimits a maxBytes maxDepth with
  | error e => exact ⟨e, rfl⟩
  | ok out => exact absurd hresult (h out)

-- ===== normal form

/-- Canonical JSON is a normal form of JSON values: canonicalizing twice
changes nothing, the canonical text denotes the value of the input, and
two accepted texts have one canonical text exactly when they denote the
same value. Repeated keys, nesting beyond the limit and trailing data are
refused. -/
theorem canonicalJson_normal_form (maxBytes maxDepth : Int) :
    (∀ a out, canonicalJsonWithLimits a maxBytes maxDepth = .ok out →
      canonicalJsonWithLimits out maxBytes maxDepth = .ok out
      ∧ ∃ v w, Document a v ∧ Document out w ∧ Same w v)
    ∧ (∀ a b outA outB, canonicalJsonWithLimits a maxBytes maxDepth = .ok outA →
      canonicalJsonWithLimits b maxBytes maxDepth = .ok outB →
      (outA = outB ↔ ∃ v w, Document a v ∧ Document b w ∧ Same v w))
    ∧ (∀ a v, Document a v → v.distinct = false ∨ maxDepth < v.depth →
      ∃ e, canonicalJsonWithLimits a maxBytes maxDepth = .error e)
    ∧ (∀ a v rest, Reads (skipSpace a) (.value v) rest → skipSpace rest ≠ [] →
      ∃ e, canonicalJsonWithLimits a maxBytes maxDepth = .error e) := by
  refine ⟨?_, ?_, ?_, ?_⟩
  · intro a out h
    refine ⟨canonicalJsonWithLimits_idem h, ?_⟩
    obtain ⟨_, _, _, v, hv, hdistinct, _, rfl, _⟩ := canonicalJsonWithLimits_ok.mp h
    exact ⟨v, v.canonical, hv, document_compact _, same_canonical hdistinct⟩
  · intro a b outA outB ha hb
    obtain ⟨_, _, _, v, hv, hvd, _, rfl, _⟩ := canonicalJsonWithLimits_ok.mp ha
    obtain ⟨_, _, _, w, hw, hwd, _, rfl, _⟩ := canonicalJsonWithLimits_ok.mp hb
    constructor
    · intro h
      exact ⟨v, w, hv, hw, (canonical_eq_iff_same hvd hwd).mp (compact_injective h)⟩
    · rintro ⟨v', w', hv', hw', hsame⟩
      rw [hv'.unique hv, hw'.unique hw] at hsame
      rw [canonical_eq_of_same hsame hvd hwd]
  · intro a v hv hbad
    refine canonicalJsonWithLimits_refuses fun out h => ?_
    obtain ⟨_, _, _, w, hw, hdistinct, hlimit, _⟩ := canonicalJsonWithLimits_ok.mp h
    rw [hw.unique hv] at hdistinct hlimit
    rcases hbad with hbad | hbad
    · rw [hdistinct] at hbad
      cases hbad
    · omega
  · intro a v rest hread hrest
    refine canonicalJsonWithLimits_refuses fun out h => ?_
    obtain ⟨_, _, _, w, ⟨rest', hread', hend⟩, _⟩ := canonicalJsonWithLimits_ok.mp h
    rw [(hread.unique hread').2] at hrest
    exact hrest hend

/-- The object with members `b` and `a`, in this order and with space. -/
def unsortedText : Bytes :=
  [0x7b, 0x22, 0x62, 0x22, 0x3a, 0x20, 0x31, 0x2c, 0x20, 0x22, 0x61, 0x22,
    0x3a, 0x5b, 0x74, 0x72, 0x75, 0x65, 0x5d, 0x7d]

/-- The same object in canonical form. -/
def sortedText : Bytes :=
  [0x7b, 0x22, 0x61, 0x22, 0x3a, 0x5b, 0x74, 0x72, 0x75, 0x65, 0x5d, 0x2c,
    0x22, 0x62, 0x22, 0x3a, 0x31, 0x7d]

theorem canonicalJson_sorts : canonicalJsonWithLimits unsortedText 64 2 = .ok sortedText
      ∧ canonicalJsonWithLimits sortedText 64 2 = .ok sortedText
      ∧ ∃ v w, Document unsortedText v ∧ Document sortedText w ∧ Same v w := by
  have hunsorted : canonicalJsonWithLimits unsortedText 64 2 = .ok sortedText := by decide +kernel
  have hnormal := canonicalJson_normal_form 64 2
  have hsorted := (hnormal.1 _ _ hunsorted).1
  exact ⟨hunsorted, hsorted, (hnormal.2.1 _ _ _ _ hunsorted hsorted).mp rfl⟩

end LlmTemporalWorker.Llm
