/-
What `Begin` gets back from the Function.

A record crosses four conversions: Go prints it, Lua reads its numbers
as doubles, `cjson` prints them with fourteen significant digits, and Go
reads them as `int64`. A number of at most fourteen digits is printed
again as it came (`cjsonLiteral_luaNumber`), so a vector of such numbers
arrives as it was submitted (`unmarshal_returned`). A longer number
comes back in exponent style, which `int64` refuses: a window of more
than 10¹⁴ nanoseconds, a little over a day, is enough. An empty vector
does not come back either, since `cjson` prints an empty table as an
object. In both cases the operation is admitted, its budgets are
charged and `Begin` reports an error (`begin_loses_two_day_window`).

`decodeRecord` refuses two more answers that have nothing to do with
numbers: a text over the configured size, and an operation that has
expired by the time it is read. Outside these four, `Begin` returns what
was submitted; inside any of them it reports an error
(`begin_returns_submitted`).
-/
import LlmTemporalWorker.Admission.Store

namespace LlmTemporalWorker.Admission

open Lib Budget Pricing

-- ===== numbers

/-- At most fourteen decimal digits. -/
def Plain (v : Int) : Prop := v.natAbs < 10 ^ 14

instance : DecidablePred Plain :=
  fun v => inferInstanceAs (Decidable (v.natAbs < 10 ^ 14))

variable {v : Int} {r : WindowReservation} {rs : List WindowReservation}
  {K : Keyspace} {clock : Clock}

/-- Fourteen digits survive Lua. -/
theorem cjsonLiteral_luaNumber (h : Plain v) : cjsonLiteral (luaNumber (.plain v)) = .plain v := by
  have hv : v.natAbs < 10 ^ 14 := h
  have hdouble : luaNumber (.plain v) = v := luaDouble_of_le (by omega)
  rw [hdouble]
  exact if_pos h

/-- Nothing else does: a longer number that Lua reads exactly is refused
by Go. -/
theorem plain_of_goInt64 {w : Int} (hv : v.natAbs ≤ 2 ^ 53)
    (h : goInt64 (cjsonLiteral (luaNumber (.plain v))) = .ok w) : Plain v := by
  have hdouble : luaNumber (.plain v) = v := luaDouble_of_le hv
  rw [hdouble, cjsonLiteral] at h
  split at h
  · assumption
  · cases h

theorem goInt64_plain (h : Plain v) : goInt64 (.plain v) = .ok v := by
  have hv : v.natAbs < 10 ^ 14 := h
  refine if_pos ?_
  omega

-- ===== reservations

/-- A reservation all of whose numbers have at most fourteen digits. -/
structure PlainNumbers (r : WindowReservation) : Prop where
  bucket : Plain r.bucket
  amount : Plain r.amount
  limit : Plain r.limit
  bucketNanos : Plain r.bucketNanos
  durationNanos : Plain r.durationNanos

/-- What the Function sends back of a reservation. -/
def returned (r : WindowReservation) : ReservationWire NumberLiteral :=
  ((encodeReservation r).map luaNumber).map cjsonLiteral

/-- A reservation as Go reads it from the wire. -/
def wireReservation (r : WindowReservation) : ReservationWire Int :=
  ⟨r.policyId, r.windowId, r.bucket, r.amount, r.limit, r.bucketNanos, r.durationNanos⟩

/-- A reservation without its exact projection, which legacy records do
not carry. -/
def legacyPart (r : WindowReservation) : WindowReservation :=
  { r with amountUsd := .zero, limitUsd := .zero }

theorem returned_eq (h : PlainNumbers r) : returned r = encodeReservation r := by
  simp only [returned, encodeReservation, ReservationWire.map,
    cjsonLiteral_luaNumber h.bucket, cjsonLiteral_luaNumber h.amount,
    cjsonLiteral_luaNumber h.limit, cjsonLiteral_luaNumber h.bucketNanos,
    cjsonLiteral_luaNumber h.durationNanos]

theorem unmarshal_returned (h : PlainNumbers r) :
    unmarshalReservation (returned r) = .ok (wireReservation r) := by
  rw [returned_eq h]
  simp only [unmarshalReservation, encodeReservation,
    ReservationWire.map, goInt64_plain h.bucket, goInt64_plain h.amount,
    goInt64_plain h.limit, goInt64_plain h.bucketNanos,
    goInt64_plain h.durationNanos]
  rfl

theorem validateRedisInteger_ok (h : validateRedisInteger v = .ok ()) :
    v.natAbs ≤ 2 ^ 53 ∧ ¬(v < 0 ∨ (nanoUsdSafeLimit : Int) < v) := by
  unfold validateRedisInteger at h
  split at h
  · cases h
  · rename_i hrange
    refine ⟨?_, hrange⟩
    unfold nanoUsdSafeLimit at hrange
    omega

/-- A reservation that Go reads again has short numbers only. -/
theorem plain_of_unmarshal (hvalid : validateReservation r = .ok ()) {w : ReservationWire Int}
    (h : unmarshalReservation (returned r) = .ok w) : PlainNumbers r := by
  obtain ⟨hpositive, hvalid⟩ := refusal_ok hvalid
  obtain ⟨_, hamount, hvalid⟩ := bind_ok hvalid
  obtain ⟨_, hlimit, hvalid⟩ := bind_ok hvalid
  obtain ⟨_, hbucket, hvalid⟩ := bind_ok hvalid
  split at hvalid
  · cases hvalid
  rename_i hnanos
  unfold nanoUsdSafeLimit at hnanos
  obtain ⟨_, hgo₁, h⟩ := bind_ok h
  obtain ⟨_, hgo₂, h⟩ := bind_ok h
  obtain ⟨_, hgo₃, h⟩ := bind_ok h
  obtain ⟨_, hgo₄, h⟩ := bind_ok h
  obtain ⟨_, hgo₅, -⟩ := bind_ok h
  exact ⟨plain_of_goInt64 (validateRedisInteger_ok hbucket).1 hgo₁,
    plain_of_goInt64 (validateRedisInteger_ok hamount).1 hgo₂,
    plain_of_goInt64 (validateRedisInteger_ok hlimit).1 hgo₃,
    plain_of_goInt64 (by omega) hgo₄, plain_of_goInt64 (by omega) hgo₅⟩

/-- What `validateReservations` leaves to `decodeOperation`. -/
theorem validateReservation_ok (h : validateReservation r = .ok ()) (index : Nat) :
    decodeReservation index (wireReservation r) = .ok (legacyPart r) := by
  obtain ⟨hok, -⟩ := refusal_ok h
  simp only [not_or, not_le, not_lt] at hok
  obtain ⟨hpolicy, hwindow, hlimit, hbucket, hduration, hamount, -⟩ := hok
  unfold decodeReservation
  rw [if_neg]
  · rfl
  · simp only [wireReservation, not_or, not_le, not_lt]
    exact ⟨hpolicy, hwindow, hamount, hlimit.le, hbucket, hduration⟩

theorem decodeReservations_ok (h : ∀ r ∈ rs, validateReservation r = .ok ()) (index : Nat) :
    decodeReservations index (rs.map wireReservation) = .ok (rs.map legacyPart) := by
  induction rs generalizing index with
  | nil => rfl
  | cons r rest ih =>
    rw [List.map_cons, decodeReservations, validateReservation_ok (h r List.mem_cons_self)]
    show (decodeReservations (index + 1) (rest.map wireReservation)
      >>= fun tail => .ok (legacyPart r :: tail)) = _
    rw [ih fun r' hr' => h r' (List.mem_cons_of_mem _ hr')]
    rfl

-- ===== the answer

theorem activeFor_error {r : ReservationWire Int} {now : Nat}
    {status : Status} (h : activeFor K r now = .error status) :
    status ≠ .created := by
  unfold activeFor at h
  split at h
  · cases h
    decide
  dsimp only at h
  split at h
  · cases h
    decide
  split at h
  · cases h
    decide
  · cases h

theorem checkReservations_error {rs : List (ReservationWire Int)}
    {requested : Int} {now : Nat} {reply : Reply}
    (h : checkReservations K rs requested now = .error reply) :
    reply.status ≠ .created := by
  unfold checkReservations at h
  split at h
  · cases h
    decide
  induction rs with
  | nil => cases h
  | cons r rest ih =>
    rw [checkLoop] at h
    split at h
    · rename_i status hactive
      cases h
      exact activeFor_error hactive
    · dsimp only at h
      split at h
      · cases h
        exact nofun
      · exact ih h

/-- A reply of `created` carries the submitted record with its times. -/
theorem beginNew_created (c : BeginCall) (clock : Clock) (incoming : LuaRecord) (K : Keyspace) :
    (beginNew c clock incoming K).2.status = .created → (beginNew c clock incoming K).2.record
        = some (LuaRecord.encode { incoming with
            created := clock.nowString
            updated := clock.nowString }) := by
  unfold beginNew
  split
  · exact nofun
  split
  · exact nofun
  split
  · exact nofun
  split
  · exact nofun
  split
  · rename_i reply hreply
    exact fun h => absurd h (checkReservations_error hreply)
  split
  · exact nofun
  dsimp only
  split
  · exact nofun
  · exact fun _ => rfl

theorem actionBegin_created {c : BeginCall} {text : RecordText} (htext : c.incoming = some text) :
    (actionBegin c clock K).2.status = .created → (actionBegin c clock K).2.record
        = some (LuaRecord.encode { text.decode with
            created := clock.nowString
            updated := clock.nowString }) := by
  unfold actionBegin
  rw [htext]
  split
  · exact nofun
  dsimp only
  split
  · exact nofun
  split
  · exact beginNew_created c clock _ _
  split
  · split <;> exact nofun
  · exact nofun
  · exact beginNew_created c clock _ _

-- ===== the whole record

theorem decodeDigest_hex (d : Digest) : decodeDigest d.hex = .ok d := dif_pos ⟨d.length, d.digits⟩

theorem parseMicro_ok (h : validateRedisInteger v = .ok ()) : parseMicro v = .ok v :=
  if_neg (validateRedisInteger_ok h).2

theorem parseRedisTime_clock (clock : Clock) : ∃ t, parseRedisTime clock.nowString = .ok t := by
  show ∃ t, parseRedisTime (.stamp clock.seconds clock.micros) = .ok t
  have hmicros := clock.bounded
  by_cases hzero : (clock.seconds : Int) = 0 ∧ (clock.micros : Int) = 0
  · exact ⟨_, if_pos hzero⟩
  · refine ⟨_, (if_neg hzero).trans (if_neg ?_)⟩
    omega

/-- The text that the Function makes of a new operation's record. -/
def returnedText (payload : RecordText) (clock : Clock) : RecordText :=
  LuaRecord.encode { payload.decode with
    created := clock.nowString
    updated := clock.nowString }

/-- A submitted record with Redis's time in it. -/
def stamped (payload : RecordText) (clock : Clock) : RecordText :=
  { payload with created := clock.nowString, updated := clock.nowString }

/-- A vector comes back item by item, but an empty one as an object. -/
theorem returnedText_reservations {payload : RecordText}
    (h : payload.reservations = .array (rs.map encodeReservation)) :
    (returnedText payload clock).reservations
      = if rs = [] then .object else .array (rs.map returned) := by
  show cjsonVector ((payload.reservations.table.map _).map _) = _
  rw [h]
  cases rs with
  | nil => rfl
  | cons r rest =>
    simp only [table_array, Option.map_some, List.map_map, List.map_cons]
    rfl

-- ===== submitted records

section

variable {host : Host} {request : BeginRequest} {payload : RecordText} {later : Int}
  (hvalid : validateBegin request = .ok ())
  (hpayload : encodeOperation host request.operation = .ok payload)

include hvalid in
theorem validateReservation_of_validateBegin :
    ∀ r ∈ request.reservations, validateReservation r = .ok () := by
  obtain ⟨-, hvalid⟩ := refusal_ok hvalid
  obtain ⟨_, -, hvalid⟩ := bind_ok hvalid
  obtain ⟨_, hreservations, -⟩ := bind_ok hvalid
  unfold validateReservations at hreservations
  split at hreservations
  · cases hreservations
  · exact forM_ok hreservations

include hpayload in
theorem reservations_of_encodeOperation :
    payload.reservations = .array (request.reservations.map encodeReservation) := by
  obtain ⟨lease, -, hpayload⟩ := bind_ok hpayload
  obtain ⟨expires, -, hpayload⟩ := bind_ok hpayload
  cases hpayload
  rfl

include hpayload in
/-- A record with short numbers comes back as it was submitted, with the
time in it. -/
theorem returnedText_eq (hne : request.reservations ≠ [])
    (hplain : ∀ r ∈ request.reservations, PlainNumbers r) :
    returnedText payload clock = stamped payload clock := by
  have hsubmitted := reservations_of_encodeOperation hpayload
  have hvector : (returnedText payload clock).reservations = payload.reservations := by
    rw [returnedText_reservations hsubmitted, if_neg hne,
      List.map_congr_left fun r hr => returned_eq (hplain r hr), ← hsubmitted]
  -- a new operation has the attempt number zero and no result
  have hrest : (returnedText payload clock).attempt = payload.attempt
      ∧ (returnedText payload clock).result = payload.result := by
    obtain ⟨lease, -, hpayload⟩ := bind_ok hpayload
    obtain ⟨expires, -, hpayload⟩ := bind_ok hpayload
    cases hpayload
    exact ⟨rfl, rfl⟩
  show { stamped payload clock with
      reservations := (returnedText payload clock).reservations
      attempt := (returnedText payload clock).attempt
      result := (returnedText payload clock).result } = stamped payload clock
  rw [hvector, hrest.1, hrest.2]
  rfl

/-- What it takes of a request for its record to survive the Function: it
reserves something, all its numbers are short, the record that it
submits keeps the size limits once it has Redis's time in it, and it has
not expired when the answer is read. -/
structure Survives (host : Host) (request : BeginRequest) (clock : Clock) (later : Int) :
    Prop where
  reserves : request.reservations ≠ []
  plain : ∀ r ∈ request.reservations, PlainNumbers r
  short : ∀ payload, encodeOperation host request.operation = .ok payload →
    host.recordBytes (stamped payload clock) ≤ min host.maxRecordBytes (2 * 2 ^ 20)
  live : request.expiresAt = zeroTime ∨ later < request.expiresAt

include hvalid hpayload in
/-- Of a returned record's parts only the size and the reservations can
be refused, and the rest is what was submitted. -/
theorem decodeOperation_returnedText (clock : Clock) :
    ∃ read : List WindowReservation → Operation,
      (∀ rs, (read rs).reservations = rs ∧ (read rs).reservedMicroUsd = request.reservation
        ∧ (read rs).expiresAt = request.expiresAt)
      ∧ decodeOperation host (returnedText payload clock) = (do
        if 2 * 2 ^ 20 < host.recordBytes (returnedText payload clock) then
          throw "invalid operation record size"
        let ws ← unmarshalReservations (returnedText payload clock).reservations
        let rs ← decodeReservations 0 ws
        .ok (read rs)) := by
  obtain ⟨hnamed, hvalid⟩ := refusal_ok hvalid
  obtain ⟨_, hreserved, -⟩ := bind_ok hvalid
  obtain ⟨created, hcreated⟩ := parseRedisTime_clock clock
  obtain ⟨lease, hlease, hpayload⟩ := bind_ok hpayload
  obtain ⟨expires, hexpires, hpayload⟩ := bind_ok hpayload
  generalize htext : returnedText payload clock = text
  have hempty : ¬(text.id = "" ∨ text.scopeKey = "" ∨ text.state.text = "" ∨ text.token = "") := by
    cases hpayload
    cases htext
    have hstate : OperationState.reserved.text ≠ "" := by decide
    simp only [not_or] at hnamed ⊢
    exact ⟨hnamed.1, hnamed.2.1, hstate, hnamed.1⟩
  obtain ⟨hattempt, hlease, hexpires, hdigest, hreserved, hzero, hstamp, hresult⟩ :
      unmarshalAttempt text.attempt = .ok .empty
        ∧ host.parseTime text.lease = .ok request.leaseUntil
        ∧ host.parseTime text.expires = .ok request.expiresAt
        ∧ decodeDigest text.digest = .ok request.requestDigest
        ∧ parseMicro text.reserved = .ok request.reservation
        ∧ (parseMicro text.incurred = .ok 0 ∧ parseMicro text.final = .ok 0)
        ∧ (parseRedisTime text.created = .ok created ∧ parseRedisTime text.updated = .ok created)
        ∧ text.result = none := by
    cases hpayload
    cases htext
    exact ⟨rfl, host.parse_format hlease, host.parse_format hexpires, decodeDigest_hex _,
      parseMicro_ok hreserved, ⟨rfl, rfl⟩, ⟨hcreated, hcreated⟩, rfl⟩
  unfold decodeOperation
  simp only [hattempt, hlease, hexpires, if_neg hempty, hdigest, hreserved, hzero, hstamp, hresult,
    bind, Except.bind, decodeResult]
  exact ⟨_, fun _ => ⟨rfl, rfl, rfl⟩, rfl⟩

include hvalid hpayload in
/-- The record of a request that survives is read as it was
submitted. -/
theorem Survives.decodeRecord (h : Survives host request clock later) :
    ∃ operation, decodeRecord host later (some (returnedText payload clock)) = .ok operation
        ∧ operation.reservations = request.reservations.map legacyPart
        ∧ operation.reservedMicroUsd = request.reservation := by
  have hbytes := h.short payload hpayload
  rw [← returnedText_eq hpayload h.reserves h.plain] at hbytes
  have hread : unmarshalReservations (returnedText payload clock).reservations
      = .ok (request.reservations.map wireReservation) := by
    rw [returnedText_reservations (reservations_of_encodeOperation hpayload), if_neg h.reserves]
    exact mapM_map_ok fun r hr => unmarshal_returned (h.plain r hr)
  obtain ⟨read, hfields, hdecode⟩ := decodeOperation_returnedText hvalid hpayload clock
  obtain ⟨hrs, hreserved, hend⟩ := hfields (request.reservations.map legacyPart)
  rw [if_neg (not_lt.mpr (hbytes.trans (min_le_right _ _))), hread] at hdecode
  have hdecode : decodeOperation host (returnedText payload clock)
      = .ok (read (request.reservations.map legacyPart)) := by
    rw [hdecode]
    show (decodeReservations 0 (request.reservations.map wireReservation) >>= _) = _
    rw [decodeReservations_ok (validateReservation_of_validateBegin hvalid)]
    rfl
  refine ⟨_, ?_, hrs, hreserved⟩
  rw [Admission.decodeRecord, if_neg (not_lt.mpr (hbytes.trans (min_le_left _ _))), hdecode]
  refine if_neg ?_
  rw [hend, not_and_or, not_not, not_le]
  exact h.live

include hvalid hpayload in
/-- A record that is read is that of a request that survives. -/
theorem survives_of_decodeRecord {operation : Operation}
    (h : decodeRecord host later (some (returnedText payload clock)) = .ok operation) :
    Survives host request clock later := by
  obtain ⟨read, hfields, hdecode⟩ := decodeOperation_returnedText hvalid hpayload clock
  have hbytes : ¬host.maxRecordBytes < host.recordBytes (returnedText payload clock) := by
    intro hlong
    rw [decodeRecord, if_pos hlong] at h
    cases h
  rw [decodeRecord, if_neg hbytes] at h
  split at h
  · cases h
  rename_i found hfound
  obtain ⟨hsize, hdecode⟩ := refusal_ok (hdecode.symm.trans hfound)
  obtain ⟨ws, hws, hdecode⟩ := bind_ok hdecode
  obtain ⟨rs, -, hdecode⟩ := bind_ok hdecode
  cases hdecode
  rw [returnedText_reservations (reservations_of_encodeOperation hpayload)] at hws
  have hne : request.reservations ≠ [] := by
    intro hnil
    rw [if_pos hnil] at hws
    cases hws
  rw [if_neg hne] at hws
  have hplain : ∀ r ∈ request.reservations, PlainNumbers r := by
    intro r hr
    obtain ⟨w, -, hw⟩ := exists_of_forall₂_left (mapM_ok hws) (List.mem_map_of_mem hr)
    exact plain_of_unmarshal (validateReservation_of_validateBegin hvalid r hr) hw
  refine ⟨hne, hplain, ?_, ?_⟩
  · intro payload' hpayload'
    obtain rfl := Except.ok.inj (hpayload.symm.trans hpayload')
    rw [← returnedText_eq hpayload hne hplain]
    exact le_min (not_lt.mp hbytes) (not_lt.mp hsize)
  · rw [(hfields rs).2.2] at h
    split at h
    · cases h
    · rename_i hlive
      rw [not_and_or, not_not, not_le] at hlive
      exact hlive

end

/-- What `Begin` makes of an operation that the Function created. If the
request survives, it returns the operation with the reservations and the
amount that were submitted. If not, it reports an error, with the
budgets charged. -/
theorem begin_returns_submitted (host : Host) (request : BeginRequest)
    (now later : Int) (clock : Clock) (K : Keyspace) {K' : Keyspace}
    {reply : Reply}
    (hsubmit : submit host request now clock K = .ok (K', reply))
    (hcreated : reply.status = .created) :
    let begun := storeBegin host request now later clock K
    ((∃ operation, begun = (K', .ok (.admitted operation false))
        ∧ operation.reservations = request.reservations.map legacyPart
        ∧ operation.reservedMicroUsd = request.reservation)
      ↔ Survives host request clock later)
    ∧ ((∃ e, begun = (K', .error e)) ↔ ¬Survives host request clock later) := by
  intro begun
  have hrun := hsubmit
  obtain ⟨_, hvalid, hsubmit⟩ := bind_ok hsubmit
  obtain ⟨payload, hpayload, hsubmit⟩ := bind_ok hsubmit
  obtain ⟨-, hsubmit⟩ := refusal_ok hsubmit
  have hrecord : reply.record = some (returnedText payload clock) := by
    have hreply : (actionBegin _ clock K).2 = reply := congrArg Prod.snd (Except.ok.inj hsubmit)
    rw [← hreply] at hcreated ⊢
    exact actionBegin_created rfl hcreated
  have hbegun : begun = (K', decodeRecord host later reply.record
      >>= fun operation => .ok (.admitted operation false)) := by
    show storeBegin host request now later clock K = _
    rw [storeBegin, hrun]
    dsimp only
    rw [answer, hcreated]
  rw [hbegun, hrecord]
  by_cases hsurvives : Survives host request clock later
  · obtain ⟨operation, hread, hrs, hreserved⟩ := hsurvives.decodeRecord hvalid hpayload
    rw [hread]
    refine ⟨iff_of_true ⟨operation, rfl, hrs, hreserved⟩ hsurvives,
      iff_of_false ?_ (not_not_intro hsurvives)⟩
    rintro ⟨e, he⟩
    cases he
  · cases hread : decodeRecord host later (some (returnedText payload clock)) with
    | ok operation => exact absurd (survives_of_decodeRecord hvalid hpayload hread) hsurvives
    | error e =>
      refine ⟨iff_of_false ?_ hsurvives, iff_of_true ⟨e, rfl⟩ hsurvives⟩
      rintro ⟨operation, he, -⟩
      cases he

-- ===== a long window

/-- A store whose requests all expire at one moment. -/
def sampleHost : Host where
  formatTime t := if t = 1700000600 * 10 ^ 9 then .ok "22:23:20"
    else .error "year outside of range"
  parseTime s := if s = "22:23:20" then .ok (1700000600 * 10 ^ 9)
    else .error "parsing time"
  parse_format := by
    intro t s h
    split at h
    · rename_i ht
      cases h
      rw [ht]
      rfl
    · cases h
  payloadBytes _ := 1024
  recordBytes _ := 1024
  recordBytes_pos _ := by decide
  maxRecordBytes := 262144
  scopeKey scope := "scope:" ++ scope
  operationIndexKey id := "operation-index:" ++ id
  operationKey scope id := "operation:" ++ scope ++ ":" ++ id

/-- Five micro-dollars of ten, in a window of minutes. -/
def sampleRequest (durationNanos : Int) : BeginRequest where
  id := "op"
  scopeKey := "tenant"
  requestDigest := ⟨String.ofList (List.replicate 64 'a'), by decide,
    by decide⟩
  reservation := 5
  reservationUsd := .zero
  reservations := [⟨"user", "window", 28333333, 5, 10, .zero, .zero, 60 * 10 ^ 9, durationNanos⟩]
  configVersion := "v1"
  priceVersion := "v1"
  leaseUntil := 1700000600 * 10 ^ 9
  expiresAt := 1700000600 * 10 ^ 9

/-- The moment of a request, in the store and in Redis. -/
def sampleNow : Int := 1700000000 * 10 ^ 9

def sampleTime : Clock := ⟨1700000000, 0, Clock.zero_micros⟩

theorem begin_returns_submitted_hour :
    ∃ operation, (storeBegin sampleHost (sampleRequest (3600 * 10 ^ 9))
        sampleNow sampleNow sampleTime .empty).2
        = .ok (.admitted operation false)
      ∧ operation.reservations = (sampleRequest (3600 * 10 ^ 9)).reservations.map legacyPart
      ∧ operation.reservedMicroUsd = 5 := by
  have hsurvives : Survives sampleHost (sampleRequest (3600 * 10 ^ 9)) sampleTime sampleNow := by
    refine ⟨by decide, ?_, fun _ _ => show 1024 ≤ min 262144 (2 * 2 ^ 20) by decide,
      .inr (by decide)⟩
    intro r hr
    obtain rfl := List.mem_singleton.mp hr
    constructor <;> decide
  obtain ⟨operation, hbegin, hrs, hreserved⟩ :=
    (begin_returns_submitted sampleHost (sampleRequest (3600 * 10 ^ 9))
      sampleNow sampleNow sampleTime .empty rfl rfl).1.mpr hsurvives
  exact ⟨operation, by rw [hbegin], hrs, hreserved⟩

/-- The Function admits a window of two days and charges it, and `Begin`
reports an error: the window's length comes back as `1.728e+14`. -/
theorem begin_loses_two_day_window :
    let request := sampleRequest (172800 * 10 ^ 9)
    let begun := storeBegin sampleHost request sampleNow sampleNow
      sampleTime .empty
    validateReservations request.reservations = .ok ()
      ∧ (submit sampleHost request sampleNow sampleTime .empty).toOption.map
        (fun answer => answer.2.status) = some .created
      ∧ begun.1.hget ⟨"user", "window"⟩ 28333333 = some 5
      ∧ begun.2 = .error "shared Redis state unavailable" := by
  decide +kernel

end LlmTemporalWorker.Admission
