/-
Checkpoint blobs (state/checkpoint_blob.go): a payload in a versioned
envelope.

`encode` canonicalizes the payload, marshals the envelope around it and
canonicalizes that. `encodeEnvelope` is the shortcut: it canonicalizes the
payload one level shallower and writes the envelope's keys, already sorted,
around it. Both are compared with one value, the envelope as an object:
what either writes is that object's compact text, and the limits that one
path tests on texts the other tests on the payload.

Payloads are the bytes `json.Marshal` made of them. `json.Marshal` copies a
raw message that is canonical as it is; it and `json.Unmarshal` scan at
most 10000 levels.
-/
import LlmTemporalWorker.Llm.Proofs.Canonical

namespace LlmTemporalWorker.State.Blob

open Lib Lib.Json Llm

def codecVersion : String := "checkpoint-blob/v1"

structure CheckpointBlobCodec where
  (maxBytes maxDepth : Int)
deriving DecidableEq, Repr

def CheckpointBlobCodec.withDefaults (codec : CheckpointBlobCodec) : CheckpointBlobCodec where
  maxBytes := if codec.maxBytes ≤ 0 then defaultCanonicalMaxBytes
    else codec.maxBytes
  maxDepth := if codec.maxDepth ≤ 0 then defaultCanonicalMaxDepth
    else codec.maxDepth

/-- The errors of `encode` and `decode`, after "… %s checkpoint blob". -/
inductive BlobError where
  | canonicalizePayload (fault : CanonicalError)
  | marshalEnvelope
  | canonicalizeEnvelope (fault : CanonicalError)
  | decodeEnvelope
  /-- "unknown envelope field %q" -/
  | unknownField (name : String)
  /-- "unsupported version" -/
  | unsupportedVersion
  /-- "kind mismatch" -/
  | kindMismatch
  /-- "payload is required" -/
  | payloadRequired
deriving DecidableEq, Repr

/-- A scan of `encoding/json`, which stops below 10000 levels. -/
def scan (data : Bytes) : Option Json :=
  match Decoder.tree ⟨some 10000, false⟩ (2 * data.length + 1) 0
      (newDecoder data) with
  | .ok (v, _) => some v
  | .error _ => none

/-- `json.Marshal` of the envelope of a canonical payload. -/
def marshalEnvelope (kind : String) (payload : Bytes) : Option Bytes :=
  match scan payload with
  | none => none
  | some _ => some (0x7b :: (quote "version" ++ 0x3a :: quote codecVersion
      ++ 0x2c :: (quote "kind" ++ 0x3a :: quote kind
      ++ 0x2c :: (quote "payload" ++ 0x3a :: payload))) ++ [0x7d])

/-- The general path of `encode`. -/
def encodeGeneral (codec : CheckpointBlobCodec) (kind : String)
    (encodedPayload : Bytes) : Except BlobError Bytes :=
  match canonicalJsonWithLimits encodedPayload codec.maxBytes
      codec.maxDepth with
  | .error fault => .error (.canonicalizePayload fault)
  | .ok payload =>
    match marshalEnvelope kind payload with
    | none => .error .marshalEnvelope
    | some encoded =>
      match canonicalJsonWithLimits encoded codec.maxBytes codec.maxDepth with
      | .error fault => .error (.canonicalizeEnvelope fault)
      | .ok canonical => .ok canonical

/-- `{"kind":`, `,"payload":` and the rest after the payload. -/
def head : Bytes := 0x7b :: (quote "kind" ++ [0x3a])
def middle : Bytes := 0x2c :: (quote "payload" ++ [0x3a])
def tail : Bytes :=
  0x2c :: (quote "version" ++ 0x3a :: quote codecVersion ++ [0x7d])

def encodeEnvelope (codec : CheckpointBlobCodec) (kind : String)
    (encodedPayload : Bytes) : Option Bytes :=
  if codec.maxDepth ≤ 1 then none
  else
    match canonicalJsonWithLimits encodedPayload codec.maxBytes
        (codec.maxDepth - 1) with
    | .error _ => none
    | .ok payload =>
      let size := head.length + (quote kind).length + middle.length
        + payload.length + tail.length
      if codec.maxBytes < (quote kind).length
          ∨ codec.maxBytes - (quote kind).length < payload.length then none
      else if codec.maxBytes < size then none
      else some (head ++ quote kind ++ middle ++ payload ++ tail)

/-- Go `encode`, of a payload that has been marshalled. -/
def encode (codec : CheckpointBlobCodec) (kind : String)
    (encodedPayload : Bytes) : Except BlobError Bytes :=
  match encodeEnvelope codec.withDefaults kind encodedPayload with
  | some encoded => .ok encoded
  | none => encodeGeneral codec.withDefaults kind encodedPayload

/-- A field unmarshalled into an empty string: null leaves it empty. -/
def stringField : Option Json → Option String
  | some (.string text) => some text
  | some .null => some ""
  | _ => none

/-- Go `decode` into a raw message. The raw text of a field is the compact
text of its value, since the document has been canonicalized. -/
def decode (codec : CheckpointBlobCodec) (kind : String) (data : Bytes) : Except BlobError Bytes :=
  match canonicalJsonWithLimits data codec.withDefaults.maxBytes
      codec.withDefaults.maxDepth with
  | .error fault => .error (.canonicalizePayload fault)
  | .ok canonical =>
    match scan canonical with
    | some (.object fields) =>
      match fields.find? (·.1 ∉ ["version", "kind", "payload"]) with
      | some field => .error (.unknownField field.1)
      | none =>
        if stringField (fields.lookup "version") ≠ some codecVersion then
          .error .unsupportedVersion
        else if stringField (fields.lookup "kind") ≠ some kind then
          .error .kindMismatch
        else match fields.lookup "payload" with
        | none | some .null => .error .payloadRequired
        | some payload => .ok payload.compact
    | some .null => .error .unsupportedVersion
    | _ => .error .decodeEnvelope

-- ===== the envelope

/-- The envelope as a value, its keys sorted. -/
def envelope (kind : String) (v : Json) : Json :=
  .object [("kind", .string kind), ("payload", v), ("version", .string codecVersion)]

/-- The envelope as it is marshalled. -/
def marshalled (kind : String) (v : Json) : Json :=
  .object [("version", .string codecVersion), ("kind", .string kind), ("payload", v)]

theorem compact_envelope (kind : String) (v : Json) : (envelope kind v).compact
      = head ++ quote kind ++ middle ++ v.compact ++ tail := by
  simp [envelope, compact, compactMembers, joinComma, head, middle, tail]

/-- The three keys are in order. -/
theorem pairwise_envelope (kind : String) (v : Json) : [("kind", Json.string kind), ("payload", v),
      ("version", .string codecVersion)].Pairwise KeyLe := by
  have hkind : bytesLe (utf8 "kind".toList) (utf8 "payload".toList) = true := by
    decide
  have hpayload : bytesLe (utf8 "payload".toList) (utf8 "version".toList) = true := by
    decide
  refine .cons ?_ (.cons ?_ (List.pairwise_singleton _ _))
  · rintro member (_ | ⟨_, _ | ⟨_, ⟨⟩⟩⟩)
    exacts [hkind, bytesLe_trans hkind hpayload]
  · rintro member (_ | ⟨_, ⟨⟩⟩)
    exact hpayload

theorem canonical_marshalled (kind : String) (v : Json) :
    (marshalled kind v.canonical).canonical = envelope kind v.canonical := by
  have hsorted : sortByKey [("version", Json.string codecVersion),
      ("kind", .string kind), ("payload", v.canonical)] = _ :=
    (sortByKey_eq_of_perm (by simp)
      (List.perm_append_singleton _ [_, _]).symm).trans
        (pairwise_envelope kind v.canonical).insertionSort_eq
  rw [marshalled, canonical_object, hsorted]
  simp [envelope, canonical_idem, canonical]

theorem depth_marshalled (kind : String) (v : Json) : (marshalled kind v).depth = v.depth + 1 := by
  simp [marshalled, depth, depthOfMembers, Nat.add_comm]

theorem length_marshalled (kind : String) (v : Json) :
    (marshalled kind v).compact.length = (envelope kind v).compact.length := by
  simp [marshalled, envelope, compact, compactMembers, joinComma]
  omega

variable {v : Json}

/-- A scan of a value that is not too deep gives it back. -/
theorem scan_compact (h : v.depth ≤ 10000) : scan v.compact = some v := by
  obtain ⟨rest, hread, -⟩ := document_compact v
  have htree : Decoder.tree ⟨some 10000, false⟩ (2 * v.compact.length + 1) 0
      (newDecoder v.compact) = .ok (v, newDecoder rest) :=
    Decoder.tree_of_reads hread (by omega) nofun
      fun n hn => by
        cases hn
        exact h
  rw [scan, htree]

theorem marshalEnvelope_compact {kind : String} (h : v.depth ≤ 10000) :
    marshalEnvelope kind v.compact = some (marshalled kind v).compact := by
  rw [marshalEnvelope, scan_compact h]
  simp [marshalled, compact, compactMembers, joinComma]

theorem distinct_marshalled {kind : String} (h : v.distinct = true) :
    (marshalled kind v).distinct = true := by
  simp [marshalled, distinct, distinctMembers, h]

-- ===== both paths

variable {codec : CheckpointBlobCodec} {kind : String} {data out : Bytes}

/-- What either path asks of a payload: a value that leaves room for the
envelope in depth and size. -/
def Fits (codec : CheckpointBlobCodec) (kind : String) (data : Bytes) (v : Json) : Prop :=
  (data.length : Int) ≤ codec.maxBytes ∧ Document data v ∧
    v.distinct = true ∧ (v.depth : Int) + 1 ≤ codec.maxDepth ∧
    ((envelope kind v.canonical).compact.length : Int) ≤ codec.maxBytes

theorem length_envelope (kind : String) (v : Json) :
    (envelope kind v).compact.length = head.length + (quote kind).length
      + middle.length + v.compact.length + tail.length := by
  simp only [compact_envelope, List.length_append]

theorem head_pos : 0 < head.length := by
  simp [head]

theorem encodeEnvelope_eq_some (hdepth : codec.maxDepth ≠ 1) :
    encodeEnvelope codec kind data = some out ↔ ∃ v, Fits codec kind data v ∧
        out = (envelope kind v.canonical).compact := by
  have hlength := fun v => length_envelope kind v
  unfold encodeEnvelope Fits
  constructor
  · intro h
    split at h
    · cases h
    split at h
    · cases h
    next payload hpayload =>
      obtain ⟨-, -, hlen, v, hdoc, hdistinct, hlimit, rfl, hout⟩ :=
        canonicalJsonWithLimits_ok.mp hpayload
      split at h
      · cases h
      dsimp only at h
      split at h
      · cases h
      next hsize =>
        cases h
        have := hlength v.canonical
        exact ⟨v, ⟨hlen, hdoc, hdistinct, by omega, by omega⟩,
          (compact_envelope kind v.canonical).symm⟩
  · rintro ⟨v, ⟨hlen, hdoc, hdistinct, hlimit, hsize⟩, rfl⟩
    have hl := hlength v.canonical
    have hpos := head_pos
    have hcanonical : canonicalJsonWithLimits data codec.maxBytes
        (codec.maxDepth - 1) = .ok v.canonical.compact :=
      canonicalJsonWithLimits_ok.mpr ⟨by omega, by omega, hlen, v, hdoc,
        hdistinct, by omega, rfl, by omega⟩
    rw [if_neg (by omega), hcanonical]
    dsimp only
    rw [if_neg (by omega), if_neg (by omega), compact_envelope]

/-- Canonicalizing the marshalled envelope of a payload that fits. -/
theorem canonicalize_marshalled (h : Fits codec kind data v) :
    canonicalJsonWithLimits (marshalled kind v.canonical).compact codec.maxBytes codec.maxDepth
      = .ok (envelope kind v.canonical).compact := by
  obtain ⟨-, -, hdistinct, hlimit, hsize⟩ := h
  have hlength := length_envelope kind v.canonical
  have hpos := head_pos
  refine canonicalJsonWithLimits_ok.mpr ⟨by omega, by omega, ?_,
    marshalled kind v.canonical, document_compact _,
    distinct_marshalled (distinct_canonical hdistinct), ?_, ?_, hsize⟩
  · rw [length_marshalled]
    exact hsize
  · rw [depth_marshalled, depth_canonical]
    omega
  · rw [canonical_marshalled]

/-- The scans of `encoding/json` reach the bottom of the payload in its
envelope, unless the limits refuse it first. -/
def Shallow (codec : CheckpointBlobCodec) (data : Bytes) : Prop :=
  codec.maxDepth ≤ 10000 ∨ ∀ v, Document data v → v.depth < 10000

theorem Shallow.depth_le (h : Shallow codec data) (hdoc : Document data v)
    (hlimit : (v.depth : Int) ≤ codec.maxDepth) :
    v.depth ≤ 10000 := by
  obtain hmax | hlevels := h
  · omega
  · exact (hlevels v hdoc).le

theorem encodeGeneral_eq_ok (hscan : Shallow codec data) : encodeGeneral codec kind data = .ok out ↔
      ∃ v, Fits codec kind data v ∧ out = (envelope kind v.canonical).compact := by
  unfold encodeGeneral
  constructor
  · intro h
    split at h
    · cases h
    next payload hpayload =>
      obtain ⟨-, -, hlen, v, hdoc, hdistinct, hlimit, rfl, -⟩ :=
        canonicalJsonWithLimits_ok.mp hpayload
      have hdeep : v.canonical.depth ≤ 10000 := by
        rw [depth_canonical]
        exact hscan.depth_le hdoc hlimit
      rw [marshalEnvelope_compact hdeep] at h
      dsimp only at h
      split at h
      · cases h
      next canonical hcanonical =>
        cases h
        obtain ⟨-, -, -, w, hw, -, hdepth, rfl, hout⟩ := canonicalJsonWithLimits_ok.mp hcanonical
        obtain rfl := hw.unique (document_compact _)
        rw [depth_marshalled, depth_canonical] at hdepth
        rw [canonical_marshalled] at hout ⊢
        exact ⟨v, ⟨hlen, hdoc, hdistinct, by omega, hout⟩, rfl⟩
  · rintro ⟨v, hfits, rfl⟩
    have henvelope := canonicalize_marshalled hfits
    obtain ⟨hlen, hdoc, hdistinct, hlimit, hsize⟩ := hfits
    have hl := length_envelope kind v.canonical
    have hpos := head_pos
    have hdeep : v.canonical.depth ≤ 10000 := by
      rw [depth_canonical]
      exact hscan.depth_le hdoc (by omega)
    have hpayload : canonicalJsonWithLimits data codec.maxBytes
        codec.maxDepth = .ok v.canonical.compact :=
      canonicalJsonWithLimits_ok.mpr ⟨by omega, by omega, hlen, v, hdoc,
        hdistinct, by omega, rfl, by omega⟩
    rw [hpayload]
    dsimp only
    rw [marshalEnvelope_compact hdeep]
    dsimp only
    rw [henvelope]

-- ===== decoding

theorem withDefaults_eq (hbytes : 0 < codec.maxBytes)
    (hdepth : 0 < codec.maxDepth) : codec.withDefaults = codec := by
  rw [CheckpointBlobCodec.withDefaults, if_neg hbytes.not_ge, if_neg hdepth.not_ge]

/-- The payload of an envelope is read back, a null payload refused. -/
theorem decode_envelope (hscan : Shallow codec data) (hfits : Fits codec kind data v) :
    decode codec kind (envelope kind v.canonical).compact =
      if v.canonical.compact = Json.null.compact then .error .payloadRequired
      else .ok v.canonical.compact := by
  have hcanonical := canonicalJsonWithLimits_idem (canonicalize_marshalled hfits)
  obtain ⟨-, hdoc, -, hlimit, hsize⟩ := hfits
  have hlength := length_envelope kind v.canonical
  have hpos := head_pos
  have hdeep : (envelope kind v.canonical).depth ≤ 10000 := by
    rw [← canonical_marshalled, depth_canonical, depth_marshalled, depth_canonical]
    obtain hmax | hlevels := hscan
    · omega
    · exact hlevels v hdoc
  rw [decode, withDefaults_eq (by omega) (by omega), hcanonical]
  dsimp only
  rw [scan_compact hdeep]
  by_cases hnull : v.canonical.compact = Json.null.compact
  · have hv : v.canonical = .null :=
      (hnull ▸ document_compact v.canonical).unique (document_compact _)
    rw [if_pos hnull, hv]
    simp [envelope, stringField, List.lookup]
  · rw [if_neg hnull]
    cases hv : v.canonical with
    | null => exact absurd (congrArg compact hv) hnull
    | _ => simp [envelope, stringField, List.lookup]

/-- The shortcut writes what the general path writes and declines what it
refuses, at any depth limit that leaves a level for the payload; what is
written is read back as the payload's canonical form, except that a null
payload is refused. -/
theorem envelope_shortcut (codec : CheckpointBlobCodec) (kind : String)
    (data : Bytes) (hdepth : codec.maxDepth ≠ 1)
    (hscan : Shallow codec data) :
    encodeEnvelope codec kind data = (encodeGeneral codec kind data).toOption
    ∧ ∀ out, encodeEnvelope codec kind data = some out →
      ∃ payload, canonicalJsonWithLimits data codec.maxBytes codec.maxDepth = .ok payload ∧
        decode codec kind out =
          if payload = utf8 "null".toList then .error .payloadRequired
          else .ok payload := by
  refine ⟨Option.ext fun out => ?_, fun out h => ?_⟩
  · rw [encodeEnvelope_eq_some hdepth, ← encodeGeneral_eq_ok hscan]
    cases encodeGeneral codec kind data <;> simp [Except.toOption]
  · obtain ⟨v, hfits, rfl⟩ := (encodeEnvelope_eq_some hdepth).mp h
    have hread := decode_envelope hscan hfits
    obtain ⟨hlen, hdoc, hdistinct, hlimit, hsize⟩ := hfits
    have hlength := length_envelope kind v.canonical
    have hpos := head_pos
    exact ⟨v.canonical.compact, canonicalJsonWithLimits_ok.mpr ⟨by omega,
      by omega, hlen, v, hdoc, hdistinct, by omega, rfl, by omega⟩, hread⟩

/-- `encode` is its general path, in what it returns and in its errors:
the shortcut never shows. -/
theorem encode_eq_encodeGeneral (codec : CheckpointBlobCodec) (kind : String) (data : Bytes)
    (hscan : Shallow codec.withDefaults data) :
    encode codec kind data = encodeGeneral codec.withDefaults kind data := by
  rw [encode]
  split
  · rename_i encoded hfast
    have hdepth : codec.withDefaults.maxDepth ≠ 1 := by
      intro h
      rw [encodeEnvelope, if_pos h.le] at hfast
      cases hfast
    exact ((encodeGeneral_eq_ok hscan).mpr ((encodeEnvelope_eq_some hdepth).mp hfast)).symm
  · rfl

theorem encode_eq_encodeGeneral_list : encode ⟨100, 2⟩ "delta" (utf8 "[ ]".toList)
      = encodeGeneral ⟨100, 2⟩ "delta" (utf8 "[ ]".toList) :=
  encode_eq_encodeGeneral _ _ _ (.inl (by decide))

/-- A nested list is written alike by both and read back without its
spaces. -/
theorem envelope_shortcut_list : encodeEnvelope ⟨100, 4⟩ "delta" (utf8 "[[1 ], 2]".toList)
      = (encodeGeneral ⟨100, 4⟩ "delta" (utf8 "[[1 ], 2]".toList)).toOption
    ∧ (encodeEnvelope ⟨100, 4⟩ "delta" (utf8 "[[1 ], 2]".toList)).map (decode ⟨100, 4⟩ "delta")
      = some (.ok (utf8 "[[1],2]".toList)) := by
  obtain ⟨hsame, hread⟩ := envelope_shortcut ⟨100, 4⟩ "delta" (utf8 "[[1 ], 2]".toList)
    (by decide) (.inl (by decide))
  refine ⟨hsame, ?_⟩
  have hsome : (encodeEnvelope ⟨100, 4⟩ "delta" (utf8 "[[1 ], 2]".toList)).isSome = true := by
    decide +kernel
  obtain ⟨out, hout⟩ := Option.isSome_iff_exists.mp hsome
  obtain ⟨payload, hpayload, hdecode⟩ := hread out hout
  have hcanonical : canonicalJsonWithLimits (utf8 "[[1 ], 2]".toList) 100 4
      = .ok (utf8 "[[1],2]".toList) := by
    decide +kernel
  cases hpayload.symm.trans hcanonical
  rw [hout, Option.map_some, hdecode, if_neg (by decide)]

/-- At depth limit 1 the shortcut declines a number that the general path
writes, and a null payload that has been written is not read back. -/
theorem shortcut_declines : encodeEnvelope ⟨100, 1⟩ "delta" (utf8 "1".toList) = none
    ∧ (encodeGeneral ⟨100, 1⟩ "delta" (utf8 "1".toList)).toOption ≠ none
    ∧ (encodeEnvelope ⟨100, 2⟩ "delta" (utf8 "null".toList)).map
      (decode ⟨100, 2⟩ "delta") = some (.error .payloadRequired) := by
  refine ⟨?_, ?_, ?_⟩ <;> decide +kernel

end LlmTemporalWorker.State.Blob
