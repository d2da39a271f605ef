/-
The durable budget ledger's data: what the Redis Function
(storage/redis/functions/admission.lua, the `durable_*` actions) keeps
in its keyspace, and the Redis commands it uses on it.

# Keys

`KeyBuilder.digest` derives every key from the values it names, length
prefixed, so a key is as good as its values. The budget hash and the
expiry set of a policy's window are both named by `WindowKey`, and an
operation record by `OperationKey`. The caller passes the keys of a
call in `KEYS`, two per reservation; every caller (`Accept`, `Claim`,
`Reconcile`, `recoveredRecord`) builds them from the reservations' own
policies and windows, so the model reads them off the reservation.

# Numbers

Amounts, buckets and geometry travel as decimal strings printed by
`strconv.FormatInt` and `decimal`; the model holds the numbers they
denote. Times and revisions are JSON numbers, and a stored record has
been through `cjson.encode`, which prints fourteen significant digits:
`durableEncode` is what is read back. Lua adds in double precision;
where a sum can pass 2^53 before it is checked the model rounds it
(`luaAdd`), everywhere else the Function has checked the operands first
and integer arithmetic is exact.

Hash sums are integers, not naturals: that no sum goes negative is a
theorem about the ledger, not a property of its type.
-/
import LlmTemporalWorker.Lib.KeyedTotal
import LlmTemporalWorker.Lib.SignificantDigits

namespace LlmTemporalWorker.Budget

open Lib

-- ===== numbers

/-- `MAX_SAFE`: the largest integer a Lua number counts to exactly. -/
def maxSafe : Nat := 9007199254740991

def maxDurableReservations : Nat := 250

def maxDurableEvents : Nat := 250

/-- `durable_int`: a non-negative integer up to `MAX_SAFE`, or nil. -/
def durableInt (value : Int) : Option Nat :=
  if 0 ≤ value ∧ value ≤ maxSafe then some value.toNat else none

/-- `durable_millis`: whole positive milliseconds, or nil. -/
def durableMillis (nanos : Nat) : Option Nat :=
  if nanos % 1000000 = 0 ∧ 0 < nanos / 1000000
      ∧ nanos / 1000000 ≤ 4611686018427 then
    some (nanos / 1000000)
  else none

/-- `bounded_string(value, maximum, true)`: lengths are in bytes. -/
def boundedString (value : String) (maximum : Nat) : Bool :=
  0 < value.utf8ByteSize && value.utf8ByteSize ≤ maximum

/-- A number after `cjson.encode` and `cjson.decode`. -/
def cjsonNumber (n : Nat) : Nat := roundSig 10 14 n

/-- A signed number after `cjson.encode` and `cjson.decode`. -/
def cjsonInt : Int → Int
  | .ofNat n => cjsonNumber n
  | .negSucc n => -(cjsonNumber (n + 1) : Int)

/-- Lua's sum of two integers: Lua 5.1 numbers are doubles, so past 2^53
the sum loses its low bit. -/
def luaAdd (a b : Nat) : Nat := roundSig 2 53 (a + b)

theorem durableInt_eq_some {v : Int} {n : Nat} : durableInt v = some n ↔ v = n ∧ n ≤ maxSafe := by
  unfold durableInt
  split
  · simp only [Option.some.injEq]
    omega
  · simp only [reduceCtorEq, false_iff]
    omega

@[simp] theorem durableInt_natCast {n : Nat} (h : n ≤ maxSafe) : durableInt n = some n :=
  durableInt_eq_some.mpr ⟨rfl, h⟩

theorem cjsonNumber_cjsonNumber (n : Nat) : cjsonNumber (cjsonNumber n) = cjsonNumber n :=
  roundSig_roundSig (by decide) (by decide) n

theorem cjsonNumber_of_lt {n : Nat} (h : n < 10 ^ 14) : cjsonNumber n = n :=
  roundSig_of_lt (by decide) (by decide) h

theorem luaAdd_of_le {a b : Nat} (h : a + b ≤ maxSafe) : luaAdd a b = a + b := by
  refine roundSig_of_lt (by decide) (by decide) ?_
  have : maxSafe < 2 ^ 53 := by decide
  omega

theorem cjsonInt_natCast (n : Nat) : cjsonInt (n : Int) = (cjsonNumber n : Nat) := rfl

theorem cjsonInt_of_lt {v : Int} (h : v.natAbs < 10 ^ 14) : cjsonInt v = v := by
  cases v with
  | ofNat n => exact congrArg Int.ofNat (cjsonNumber_of_lt h)
  | negSucc n =>
    have h : n + 1 < 10 ^ 14 := h
    show -((cjsonNumber (n + 1) : Nat) : Int) = Int.negSucc n
    rw [cjsonNumber_of_lt h]
    rfl

theorem cjsonInt_cjsonInt (v : Int) : cjsonInt (cjsonInt v) = cjsonInt v := by
  cases v with
  | ofNat n =>
    show cjsonInt ((cjsonNumber n : Nat) : Int) = (cjsonNumber n : Nat)
    rw [cjsonInt_natCast, cjsonNumber_cjsonNumber]
  | negSucc n =>
    show cjsonInt (-((cjsonNumber (n + 1) : Nat) : Int)) = -((cjsonNumber (n + 1) : Nat) : Int)
    generalize hm : cjsonNumber (n + 1) = m
    have hfix : cjsonNumber m = m := by
      rw [← hm, cjsonNumber_cjsonNumber]
    cases m with
    | zero => rfl
    | succ k =>
      show -((cjsonNumber (k + 1) : Nat) : Int) = _
      rw [hfix]

-- ===== keys

/-- A policy's window: names its budget hash (`durableBudgetKey`) and
its expiry set (`durableBudgetExpiryKey`). -/
structure WindowKey where
  (policy window : String)
deriving DecidableEq, Repr

/-- Names an operation record (`durableBudgetOperationKey`). -/
structure OperationKey where
  (generation operation : String)
deriving DecidableEq, Repr

-- ===== records

/-- `durableReservation`: one bucket's charge as the request carries
it. The exact amounts are in units of 10^-18 USD. -/
structure Reservation where
  (policyId windowId : String)
  (bucket amountNano limitNano bucketNanos durationNanos : Nat)
  (bucketStartNanos windowExpiresMillis expiresMillis : Int)
  eventId : String
  (amountUsd limitUsd : Nat)
deriving DecidableEq, Repr

/-- The window a reservation is charged in. -/
def Reservation.key (r : Reservation) : WindowKey :=
  ⟨r.policyId, r.windowId⟩

/-- Settlement status of a reservation. -/
inductive ReservationStatus where
  | reserved
  | ambiguous
  | finalized
deriving DecidableEq, Repr

/-- A reservation of an accepted record, with the settlement fields
the Function keeps beside it. -/
structure HeldReservation extends Reservation where
  (reservedNano accountedNano reservationRevision : Nat)
  status : ReservationStatus
deriving DecidableEq, Repr

variable (x : HeldReservation)

/-- What a reservation is charged with. -/
def HeldReservation.total : Nat :=
  x.reservedNano + x.accountedNano

/-- An operation record. Only accepted records are stored: a denial is
answered and forgotten. -/
structure Record where
  (operationId generationId incarnationId fingerprint occurredAt : String)
  startByMillis : Nat
  claimed : Bool
  reservations : List HeldReservation
  events : FMap String String
deriving DecidableEq

/-- `cjson` on one stored reservation. -/
def HeldReservation.encode : HeldReservation :=
  { x with
    windowExpiresMillis := cjsonInt x.windowExpiresMillis
    expiresMillis := cjsonInt x.expiresMillis
    reservationRevision := cjsonNumber x.reservationRevision }

/-- `durable_encode`, as the next `cjson.decode` reads it. -/
def durableEncode (record : Record) : Record :=
  { record with
    startByMillis := cjsonNumber record.startByMillis
    reservations := record.reservations.map HeldReservation.encode }

theorem HeldReservation.encode_encode : x.encode.encode = x.encode := by
  simp [HeldReservation.encode, cjsonInt_cjsonInt, cjsonNumber_cjsonNumber]

/-- A stored record is written back as it was read. -/
theorem durableEncode_durableEncode (r : Record) :
    durableEncode (durableEncode r) = durableEncode r := by
  simp [durableEncode, cjsonNumber_cjsonNumber, HeldReservation.encode_encode, Function.comp_def]

-- ===== the expiry sets

/-- An expiry member, `<fingerprint>|<bucket>|<amount>`. A fingerprint
has sixty-four bytes, so the text determines the three parts. -/
structure Member where
  fingerprint : String
  (bucket amount : Nat)
deriving DecidableEq, Repr

def durableExpiryMember (fingerprint : String) (bucket amount : Nat) :
    Member :=
  ⟨fingerprint, bucket, amount⟩

/-- The member's text. -/
def Member.text (m : Member) : String :=
  m.fingerprint ++ "|" ++ toString m.bucket ++ "|" ++ toString m.amount

/-- A fingerprint that can be cut out of a member's text: it is not
empty and has no bar. -/
def fingerprintParses (fingerprint : String) : Bool :=
  fingerprint ≠ "" && !fingerprint.toList.contains '|'

/-- Whether `durable_cleanup` can split the text: its pattern takes three
parts without a bar. Bucket and amount are digits. -/
def Member.parses (m : Member) : Bool := fingerprintParses m.fingerprint

/-- Redis orders a sorted set by score, then by member. -/
def expiryLe (a b : Sigma fun _ : Member => Nat) : Prop :=
  a.2 < b.2 ∨ (a.2 = b.2 ∧ a.1.text ≤ b.1.text)

instance : DecidableRel expiryLe :=
  fun _ _ => inferInstanceAs (Decidable (_ ∨ _))

/-- `ZRANGEBYSCORE key -inf now LIMIT 0 1024`. -/
def due (now : Nat) (set : FMap Member Nat) : List Member :=
  (((set.entries.filter fun e => e.2 ≤ now).insertionSort expiryLe).take 1024).map Sigma.fst

-- ===== the keyspace

/-- A budget hash: the `sum:` and the `limit:` fields by bucket. -/
structure BudgetHash where
  sums : FMap Nat Int
  limits : FMap Nat Nat

/-- The authority marker under `budget:authority`. -/
inductive Authority where
  | preparing (marker : String)
  | ready (marker : String)
  | recovering (marker : String)
deriving DecidableEq, Repr

/-- The durable budget keys of one namespace. A hash or a set without
fields is an absent key. -/
structure Keyspace where
  records : FMap OperationKey Record
  hash : WindowKey → BudgetHash
  expiry : WindowKey → FMap Member Nat
  authority : Option Authority

/-- No key at all. -/
def Keyspace.empty : Keyspace :=
  { records := ∅, hash := fun _ => ⟨∅, ∅⟩, expiry := fun _ => ∅,
    authority := none }

namespace Keyspace

variable (K : Keyspace) (w : WindowKey) (bucket : Nat)

/-- The field `sum:<bucket>`, absent read as zero. -/
def sum : Int :=
  (K.hash w).sums.getD bucket 0

/-- One budget hash replaced. -/
def setHash (h : BudgetHash) : Keyspace :=
  { K with hash := Function.update K.hash w h }

/-- One expiry set replaced. -/
def setExpiry (e : FMap Member Nat) :
    Keyspace :=
  { K with expiry := Function.update K.expiry w e }

/-- `HINCRBY` on a sum. -/
def hincrby (delta : Int) :
    Keyspace :=
  K.setHash w ⟨(K.hash w).sums.insert bucket (K.sum w bucket + delta), (K.hash w).limits⟩

/-- `HDEL` of a bucket's sum and limit. -/
def hdelBucket : Keyspace :=
  K.setHash w ⟨(K.hash w).sums.erase bucket, (K.hash w).limits.erase bucket⟩

/-- `HSET` of a bucket's limit. -/
def hsetLimit (limit : Nat) :
    Keyspace :=
  K.setHash w ⟨(K.hash w).sums, (K.hash w).limits.insert bucket limit⟩

/-- `HINCRBY` followed by the `HDEL` of a sum that reached zero. -/
def hincrbyDropZero (delta : Int) : Keyspace :=
  let K' := K.hincrby w bucket delta
  if K'.sum w bucket = 0 then K'.hdelBucket w bucket else K'

def zadd (score : Nat) (m : Member) :
    Keyspace :=
  K.setExpiry w ((K.expiry w).insert m score)

def zrem (m : Member) : Keyspace :=
  K.setExpiry w ((K.expiry w).erase m)

def zscore (m : Member) : Option Nat :=
  (K.expiry w).lookup m

/-- `SET` of an operation record. -/
def setRecord (op : OperationKey) (record : Record) :
    Keyspace :=
  { K with records := K.records.insert op record }

end Keyspace

end LlmTemporalWorker.Budget
