/-
Server-sent events (llm/provider/internal/streamdecode/sse.go).

`parse` reads a stream line by line: a line scanner with a size limit, a
record of the event being read, and one arm per field. The other direction,
`serialize`, is the framing a provider writes: an event line, one data line
per line of the data, a blank line.

# What framing keeps

An event survives the way through the wire when it is `Carried`. Each
condition names a rule of the reader: names lose their outer white space,
a line loses up to two carriage returns at its end, an event with neither
name nor data is no event, and a line of 8 MiB ends the stream with an
error. The one condition no rule asks for is the last: data lines are
joined by a newline only once some data has been read, so that data which
starts with a newline comes back without it.
-/
import LlmTemporalWorker.Lib.Utf8

namespace LlmTemporalWorker.Stream

open Lib

-- ===== white space

/-- What `unicode.IsSpace` accepts, as UTF-8. -/
def spaces : List Bytes :=
  [[0x20], [0x09], [0x0a], [0x0b], [0x0c], [0x0d], [0xc2, 0x85],
   [0xc2, 0xa0], [0xe1, 0x9a, 0x80], [0xe2, 0x80, 0x80],
   [0xe2, 0x80, 0x81], [0xe2, 0x80, 0x82], [0xe2, 0x80, 0x83],
   [0xe2, 0x80, 0x84], [0xe2, 0x80, 0x85], [0xe2, 0x80, 0x86],
   [0xe2, 0x80, 0x87], [0xe2, 0x80, 0x88], [0xe2, 0x80, 0x89],
   [0xe2, 0x80, 0x8a], [0xe2, 0x80, 0xa8], [0xe2, 0x80, 0xa9],
   [0xe2, 0x80, 0xaf], [0xe2, 0x81, 0x9f], [0xe3, 0x80, 0x80]]

/-- Drops pieces from the front while there is one, after `skip` bytes of
a piece already found. -/
def stripAfter (pieces : List Bytes) : Nat → Bytes → Bytes
  | _, [] => []
  | skip + 1, _ :: s => stripAfter pieces skip s
  | 0, b :: s =>
    match pieces.find? (·.isPrefixOf (b :: s)) with
    | none => b :: s
    | some piece => stripAfter pieces (piece.length - 1) s

def trimSpace (s : Bytes) : Bytes :=
  (stripAfter (spaces.map List.reverse) 0 (stripAfter spaces 0 s).reverse).reverse

-- ===== reading

structure SSE where
  (event data : Bytes)
deriving DecidableEq, Repr

/-- The errors of `Parse`. -/
inductive ParseError where
  /-- "read SSE stream: bufio.Scanner: token too long" -/
  | tooLong
  /-- "unsupported SSE field %q" -/
  | unsupportedField (line : Bytes)
  /-- "SSE stream ended with an unterminated event" -/
  | unterminated
deriving DecidableEq, Repr

/-- The scanner's buffer, `8<<20`: a line has to fit with its newline. -/
def maxLine : Nat := 8388608

def eventField : Bytes := utf8 ['e', 'v', 'e', 'n', 't', ':']
def dataField : Bytes := utf8 ['d', 'a', 't', 'a', ':']
def idField : Bytes := utf8 ['i', 'd', ':']
def retryField : Bytes := utf8 ['r', 'e', 't', 'r', 'y', ':']

/-- The lines of a stream (`bufio.ScanLines`); bytes after the last newline
are a line if there are any. -/
def scanLines (stream : Bytes) : List Bytes :=
  let pieces := stream.splitOn 10
  if pieces.getLast? = some [] then pieces.dropLast else pieces

/-- A line without one carriage return at its end. -/
def dropCR (line : Bytes) : Bytes :=
  if line.getLast? = some 13 then line.dropLast else line

/-- The variables of `Parse`. -/
structure Reading where
  (eventName data : Bytes)
  result : List SSE
deriving DecidableEq, Repr

/-- The closure `dispatch`. -/
def Reading.dispatch (r : Reading) : Reading :=
  if r.eventName = [] ∧ r.data = [] then r
  else ⟨[], [], r.result ++ [⟨r.eventName, r.data⟩]⟩

/-- The loop body of `Parse`. The scanner drops one carriage return, the
body another. -/
def Reading.line (r : Reading) (raw : Bytes) : Except ParseError Reading :=
  if maxLine ≤ raw.length then .error .tooLong
  else
    let line := dropCR (dropCR raw)
    if line = [] then .ok r.dispatch
    else if (utf8 [':']).isPrefixOf line then .ok r
    else if eventField.isPrefixOf line then
      .ok { r with eventName := trimSpace (line.drop eventField.length) }
    else if dataField.isPrefixOf line then
      let joined := if r.data = [] then [] else r.data ++ [10]
      let value := line.drop dataField.length
      let value := if value.head? = some 0x20 then value.tail else value
      .ok { r with data := joined ++ value }
    else if idField.isPrefixOf line ∨ retryField.isPrefixOf line then .ok r
    else .error (.unsupportedField line)

/-- Go `Parse`, over the bytes the reader delivers. -/
def parse (stream : Bytes) : Except ParseError (List SSE) := do
  let r ← (scanLines stream).foldlM Reading.line ⟨[], [], []⟩
  if r.eventName ≠ [] ∨ r.data ≠ [] then .error .unterminated
  else .ok r.result

-- ===== writing

/-- The lines of one event on the wire. -/
def SSE.lines (e : SSE) : List Bytes :=
  (eventField ++ 0x20 :: e.event) :: ((e.data.splitOn 10).map (dataField ++ 0x20 :: ·) ++ [[]])

/-- The framing of a list of events. -/
def serialize (events : List SSE) : Bytes :=
  (events.flatMap SSE.lines).flatMap (· ++ [10])

/-- What an event must be to come through. -/
structure Carried (e : SSE) : Prop where
  oneLine : 10 ∉ e.event
  trimmed : trimSpace e.event = e.event
  present : e.event ≠ [] ∨ e.data ≠ []
  noReturn : ∀ s ∈ e.data.splitOn 10, s.getLast? ≠ some 13
  nameFits : e.event.length + 7 < maxLine
  dataFits : ∀ s ∈ e.data.splitOn 10, s.length + 6 < maxLine
  noLeadingNewline : e.data.head? ≠ some 10

-- ===== trimming

theorem stripAfter_suffix (pieces : List Bytes) (skip : Nat) (s : Bytes) :
    stripAfter pieces skip s <:+ s := by
  induction s generalizing skip with
  | nil => cases skip <;> exact List.suffix_rfl
  | cons b s ih =>
    have htail : s <:+ b :: s := List.suffix_cons b s
    cases skip with
    | succ skip => exact (ih skip).trans htail
    | zero =>
      rw [stripAfter]
      split
      · exact List.suffix_rfl
      · exact (ih _).trans htail

/-- A byte that is a piece is dropped. -/
theorem stripAfter_drops {pieces : List Bytes} {b : UInt8} (h : [b] ∈ pieces) (s : Bytes) :
    (stripAfter pieces 0 (b :: s)).length ≤ s.length := by
  rw [stripAfter]
  split
  next hnone =>
    have hfirst := List.find?_eq_none.mp hnone [b] h
    simp [List.isPrefixOf] at hfirst
  next => exact (stripAfter_suffix _ _ _).length_le

/-- The space after the colon does not show in the trimmed value. -/
theorem trimSpace_space (s : Bytes) : trimSpace (0x20 :: s) = trimSpace s := by
  have hfront : stripAfter spaces 0 (0x20 :: s) = stripAfter spaces 0 s := by
    rfl
  rw [trimSpace, hfront, trimSpace]

/-- A trimmed name does not end in a carriage return: trimming at the back
would have shortened it. -/
theorem getLast?_of_trimmed {s : Bytes} (h : trimSpace s = s) : s.getLast? ≠ some 13 := by
  intro hlast
  obtain ⟨front, hs⟩ := List.getLast?_eq_some_iff.mp hlast
  have hback := stripAfter_suffix (spaces.map List.reverse) 0 (stripAfter spaces 0 s).reverse
  have hlen := congrArg List.length h
  simp only [trimSpace, List.length_reverse] at hlen
  have hkept : stripAfter spaces 0 s = s := by
    apply (stripAfter_suffix spaces 0 s).eq_of_length
    have hle := hback.length_le
    have hfront := (stripAfter_suffix spaces 0 s).length_le
    rw [List.length_reverse] at hle
    omega
  have hdrop : (stripAfter (spaces.map List.reverse) 0
      (13 :: front.reverse)).length ≤ front.reverse.length :=
    stripAfter_drops (by decide) _
  rw [hkept, hs, List.reverse_append] at hlen
  simp only [List.length_append, List.length_singleton] at hlen
  rw [List.length_reverse] at hdrop
  exact absurd hlen (Nat.ne_of_lt (Nat.lt_succ_of_le hdrop))

-- ===== lines

theorem not_mem_of_mem_splitOn {x : UInt8} {s piece : Bytes}
    (h : piece ∈ s.splitOn x) : x ∉ piece := by
  induction s generalizing piece with
  | nil =>
    rw [List.splitOn_nil, List.mem_singleton] at h
    simp [h]
  | cons b s ih =>
    rw [List.splitOn_cons_eq_if_modifyHead] at h
    split at h
    · rcases List.mem_cons.mp h with rfl | h
      · exact List.not_mem_nil
      · exact ih h
    next hb =>
      obtain ⟨first, rest, hsplit⟩ := List.exists_cons_of_ne_nil (List.splitOn_ne_nil x s)
      rw [hsplit, List.modifyHead_cons] at h
      rw [hsplit] at ih
      rcases List.mem_cons.mp h with rfl | h
      · intro hx
        rcases List.mem_cons.mp hx with rfl | hx
        · simp at hb
        · exact ih List.mem_cons_self hx
      · exact ih (List.mem_cons_of_mem _ h)

theorem splitOn_lines {lines : List Bytes} (h : ∀ l ∈ lines, 10 ∉ l) :
    (lines.flatMap (· ++ [10])).splitOn 10 = lines ++ [[]] := by
  induction lines with
  | nil => rfl
  | cons l lines ih =>
    rw [List.flatMap_cons, List.append_assoc, List.singleton_append,
      List.splitOn_append_cons_self_of_not_mem (h l List.mem_cons_self),
      ih fun l' hl => h l' (List.mem_cons_of_mem _ hl), List.cons_append]

/-- The scanner gives back the lines that were written. -/
theorem scanLines_lines {lines : List Bytes} (h : ∀ l ∈ lines, 10 ∉ l) :
    scanLines (lines.flatMap (· ++ [10])) = lines := by
  rw [scanLines, splitOn_lines h]
  simp

theorem dropCR_of_last {line : Bytes} (h : line.getLast? ≠ some 13) : dropCR line = line := if_neg h

/-- A field's line, without a carriage return at its end, is read as it
was written. -/
theorem dropCR_field {field value : Bytes} (h : value.getLast? ≠ some 13) :
    dropCR (field ++ 0x20 :: value) = field ++ 0x20 :: value := by
  apply dropCR_of_last
  rw [List.getLast?_append, List.getLast?_cons]
  cases hv : value.getLast? with
  | none => simp
  | some b => simpa [hv] using h

theorem line_event {e : SSE} (h : Carried e) (r : Reading) : r.line (eventField ++ 0x20 :: e.event)
      = .ok { r with eventName := e.event } := by
  have hlast := getLast?_of_trimmed h.trimmed
  have hfits : ¬ maxLine ≤ (eventField ++ 0x20 :: e.event).length := by
    have := h.nameFits
    rw [List.length_append, List.length_cons]
    show ¬ maxLine ≤ 6 + _
    omega
  rw [Reading.line, if_neg hfits, dropCR_field hlast, dropCR_field hlast]
  show Except.ok { r with eventName := trimSpace (0x20 :: e.event) } = _
  rw [trimSpace_space, h.trimmed]

/-- How a data line joins the data read before it. -/
def joinData (data value : Bytes) : Bytes :=
  (if data = [] then [] else data ++ [10]) ++ value

theorem line_data {value : Bytes} (hlast : value.getLast? ≠ some 13)
    (hfits : value.length + 6 < maxLine) (r : Reading) :
    r.line (dataField ++ 0x20 :: value) = .ok { r with data := joinData r.data value } := by
  have hfits : ¬ maxLine ≤ (dataField ++ 0x20 :: value).length := by
    rw [List.length_append, List.length_cons]
    show ¬ maxLine ≤ 5 + _
    omega
  rw [Reading.line, if_neg hfits, dropCR_field hlast, dropCR_field hlast]
  rfl

theorem line_blank (r : Reading) : r.line [] = .ok r.dispatch := rfl

-- ===== one event

theorem fold_data {values : List Bytes} (hlast : ∀ v ∈ values, v.getLast? ≠ some 13)
    (hfits : ∀ v ∈ values, v.length + 6 < maxLine) (r : Reading) :
    (values.map (dataField ++ 0x20 :: ·)).foldlM Reading.line r
      = .ok { r with data := values.foldl joinData r.data } := by
  induction values generalizing r with
  | nil => rfl
  | cons v values ih =>
    rw [List.map_cons, List.foldlM_cons, line_data (hlast v (by simp))
      (hfits v (by simp))]
    exact ih (fun w hw => hlast w (List.mem_cons_of_mem _ hw))
      (fun w hw => hfits w (List.mem_cons_of_mem _ hw)) _

/-- Once there is data, the remaining lines are joined by newlines. -/
theorem foldl_joinData (values : List Bytes) {data : Bytes} (h : data ≠ []) :
    values.foldl joinData data = [10].intercalate (data :: values) := by
  induction values generalizing data with
  | nil => simp
  | cons v values ih =>
    have hne : joinData data v ≠ [] := by simp [joinData, h]
    rw [List.foldl_cons, ih hne]
    cases values <;> simp [joinData, h, List.intercalate_cons_cons]

/-- The data lines of data that does not start with a newline give it
back. -/
theorem foldl_splitOn {data : Bytes} (h : data.head? ≠ some 10) :
    (data.splitOn 10).foldl joinData [] = data := by
  obtain ⟨first, rest, hsplit⟩ := List.exists_cons_of_ne_nil (List.splitOn_ne_nil 10 data)
  have hback : [10].intercalate (data.splitOn 10) = data := List.intercalate_splitOn 10
  rw [hsplit] at hback ⊢
  show rest.foldl joinData first = data
  by_cases hfirst : first = []
  · cases rest with
    | nil => simpa using hback
    | cons next rest =>
      rw [hfirst, List.intercalate_cons_cons] at hback
      exact absurd (by rw [← hback]; rfl) h
  · rw [foldl_joinData rest hfirst, hback]

/-- The lines of an event, read between events, add just that event. -/
theorem fold_event {e : SSE} (h : Carried e) (result : List SSE) :
    e.lines.foldlM Reading.line ⟨[], [], result⟩ = .ok ⟨[], [], result ++ [e]⟩ := by
  rw [SSE.lines, List.foldlM_cons, line_event h]
  show List.foldlM _ _ _ = _
  rw [List.foldlM_append, fold_data h.noReturn h.dataFits, foldl_splitOn h.noLeadingNewline]
  show Reading.line _ [] >>= _ = _
  rw [line_blank, Reading.dispatch, if_neg]
  · rfl
  · rintro ⟨hname, hdata⟩
    exact h.present.elim (· hname) (· hdata)

theorem fold_events {events : List SSE} (h : ∀ e ∈ events, Carried e) (result : List SSE) :
    (events.flatMap SSE.lines).foldlM Reading.line ⟨[], [], result⟩
      = .ok ⟨[], [], result ++ events⟩ := by
  induction events generalizing result with
  | nil =>
    rw [List.append_nil]
    rfl
  | cons e events ih =>
    rw [List.flatMap_cons, List.foldlM_append, fold_event (h e List.mem_cons_self)]
    show List.foldlM _ _ _ = _
    rw [ih fun e' he => h e' (List.mem_cons_of_mem _ he), List.append_assoc]
    rfl

theorem field_oneLine {field value : Bytes} (hfield : 10 ∉ field)
    (hvalue : 10 ∉ value) : 10 ∉ field ++ 0x20 :: value := by
  simp [hfield, hvalue]

theorem lines_oneLine {e : SSE} (h : Carried e) : ∀ l ∈ e.lines, 10 ∉ l := by
  intro l hl
  rcases List.mem_cons.mp hl with rfl | hl
  · exact field_oneLine (by decide) h.oneLine
  rcases List.mem_append.mp hl with hl | hl
  · obtain ⟨value, hvalue, rfl⟩ := List.mem_map.mp hl
    exact field_oneLine (by decide) (not_mem_of_mem_splitOn hvalue)
  · rw [List.mem_singleton.mp hl]
    exact List.not_mem_nil

-- ===== result

/-- **Framing loses nothing the reader's rules let through.** -/
theorem parse_serialize (events : List SSE) (h : ∀ e ∈ events, Carried e) :
    parse (serialize events) = .ok events := by
  have hlines : ∀ l ∈ events.flatMap SSE.lines, 10 ∉ l := by
    intro l hl
    obtain ⟨e, he, hl⟩ := List.mem_flatMap.mp hl
    exact lines_oneLine (h e he) l hl
  rw [parse, serialize, scanLines_lines hlines, fold_events h]
  rfl

/-- A named event and an unnamed one with data of several lines. -/
theorem parse_serialize_two :
    let events : List SSE := [⟨[0x61], []⟩, ⟨[], [0x78, 10, 10, 0x79]⟩]
    (∀ e ∈ events, Carried e) ∧ parse (serialize events) = .ok events := by
  have h : ∀ e ∈ ([⟨[0x61], []⟩, ⟨[], [0x78, 10, 10, 0x79]⟩] : List SSE), Carried e := by
    intro e he
    rcases List.mem_cons.mp he with rfl | he
    · constructor <;> decide
    · rw [List.mem_singleton.mp he]
      constructor <;> decide
  exact ⟨h, parse_serialize _ h⟩

/-- A carriage return at the end of a line of data is taken for a part of
the line's end. -/
theorem parse_drops_return :
    let e : SSE := ⟨[0x61], [0x78, 13]⟩
    10 ∉ e.event ∧ parse (serialize [e]) = .ok [⟨[0x61], [0x78]⟩] := by
  decide

/-- A newline at the start of the data is lost. -/
example : parse (serialize [⟨[0x61], [10, 0x78]⟩]) = .ok [⟨[0x61], [0x78]⟩] := by decide

end LlmTemporalWorker.Stream
