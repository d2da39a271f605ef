/-
Who may fill a cache key.

Attempts compete for one head row, written only by compare-and-set: an
attempt acquires the fill, starts it, and releases or completes it. A
head that ended is replaced by the next attempt, after its last record
was sealed as the attempt's terminal receipt.

Every call is a program over single storage operations, so that any two
calls may interleave between any two of them. A row and the encrypted
blob it points to are one: the blob is content-addressed and written
first, so the pointer stands for the record. The rows of one cache key
are modelled; other keys never meet them.

The history of the head row is kept whole, newest first, each version
with the clock at its write. The version token of the newest is the
length of the history.
-/
import LlmTemporalWorker.CloudState.Model
import LlmTemporalWorker.CloudState.Storage

namespace LlmTemporalWorker.CloudState

open Lib

-- ===== records

inductive FillState
  | held
  | started
  | released
  | finished
  deriving DecidableEq, Repr

inductive FillOutcome
  | published
  | notCacheable
  | failed
  | outcomeUnknown
  deriving DecidableEq, Repr

/-- The stable identity of an attempt. -/
structure FillLease where
  (key operationId attempt : String)
  (acquiredAt expiresAt : Int)
  deriving DecidableEq, Repr

/-- The outcome is missing in the zero value only. -/
structure FillCompletion where
  outcome : Option FillOutcome
  entryId : String
  completedAt : Int
  deriving DecidableEq, Repr

def FillCompletion.zero : FillCompletion :=
  ⟨none, "", 0⟩

structure FillRecord where
  lease : FillLease
  state : FillState
  updatedAt : Int
  completion : FillCompletion
  deriving DecidableEq, Repr

/-- `fenced` is no disposition of the source: it stands for the
conflict error that is returned together with the record. -/
inductive FillDisposition
  | owned
  | wait
  | recoveryNeeded
  | attemptFinished
  | fenced
  deriving DecidableEq, Repr

structure FillDecision where
  disposition : FillDisposition
  record : FillRecord
  deriving DecidableEq, Repr

/-- A published success, as far as a fill looks at it. -/
structure ResponseEntry where
  (id key originOperationId : String)
  completedAt : Int
  deriving DecidableEq, Repr

namespace FillRecord

def attempt (r : FillRecord) : String :=
  r.lease.attempt

/-- Released or finished. -/
def terminal (r : FillRecord) : Bool :=
  r.state == .released || r.state == .finished

end FillRecord

-- ===== validation

/-- The longest time an attempt has to start its fill. -/
def maxFillLease : Int := 15 * nanosPerMinute

def validFillLease (lease : FillLease) : Bool :=
  safeText lease.operationId 4096 && safeText lease.attempt 256 &&
    validTime lease.acquiredAt && validTime lease.expiresAt &&
    decide (lease.acquiredAt < lease.expiresAt) &&
    decide (lease.expiresAt - lease.acquiredAt ≤ maxFillLease)

def normalizeFillLease (lease : FillLease) : Except CloudError FillLease :=
  if validFillLease lease then .ok lease else .error .invalid

def validFillCompletion (c : FillCompletion) : Bool :=
  validTime c.completedAt &&
    match c.outcome with
    | some .published => safeText c.entryId 256
    | some .failed | some .notCacheable | some .outcomeUnknown =>
      c.entryId == ""
    | none => false

def validFillRecord (r : FillRecord) : Bool :=
  validFillLease r.lease && validTime r.updatedAt && decide (r.lease.acquiredAt ≤ r.updatedAt) &&
    match r.state with
    | .held =>
      r.updatedAt == r.lease.acquiredAt && r.completion == .zero
    | .started => decide (r.updatedAt < r.lease.expiresAt) && r.completion == .zero
    | .released => r.completion == .zero
    | .finished =>
      validFillCompletion r.completion && r.completion.completedAt == r.updatedAt

-- ===== the rows

/-- A version of the head row and the clock at its write. -/
structure Version where
  record : FillRecord
  writtenAt : Int
  deriving DecidableEq, Repr

/-- The successes published under the key's scope, by entry ID, and the
latest one under the key itself. -/
structure Responses where
  entries : String → Option ResponseEntry
  success : Option ResponseEntry

structure FillStore where
  clock : Int
  history : List Version
  receipts : String → Option FillRecord
  responses : Responses

inductive FillOp
  | readHead
  | createHead (record : FillRecord)
  | replaceHead (record : FillRecord) (version : Nat)
  | readReceipt (attempt : String)
  | createReceipt (record : FillRecord)
  | readEntry (id : String)
  | readSuccess

def FillOp.Value : FillOp → Type
  | .readHead => FillRecord × Nat
  | .createHead _ => Unit
  | .replaceHead _ _ => Unit
  | .readReceipt _ => FillRecord
  | .createReceipt _ => Unit
  | .readEntry _ => ResponseEntry
  | .readSuccess => ResponseEntry

abbrev FillOp.Answer (op : FillOp) : Type :=
  Except CloudError op.Value

namespace FillStore

variable (s : FillStore)

def head : Option FillRecord :=
  s.history.head?.map (·.record)

/-- The head row after a write. -/
def push (record : FillRecord) : FillStore :=
  { s with history := ⟨record, s.clock⟩ :: s.history }

/-- The receipts after a seal. -/
def sealed (record : FillRecord) : FillStore :=
  { s with
    receipts := fun a =>
      if a = record.attempt then some record else s.receipts a }

def exec : (op : FillOp) → Fate → FillStore → op.Answer × FillStore
  | .readHead, fate, s =>
    (readRow fate (s.head.map (·, s.history.length)), s)
  | .createHead record, fate, s =>
    writeRow fate (s.history.length == 0) .alreadyExists () s (s.push record)
  | .replaceHead record version, fate, s =>
    writeRow fate (s.history.length == version && version != 0) .conflict () s (s.push record)
  | .readReceipt attempt, fate, s => (readRow fate (s.receipts attempt), s)
  | .createReceipt record, fate, s =>
    writeRow fate (s.receipts record.attempt).isNone .alreadyExists () s (s.sealed record)
  | .readEntry id, fate, s => (readRow fate (s.responses.entries id), s)
  | .readSuccess, fate, s => (readRow fate s.responses.success, s)

end FillStore

-- ===== the calls

abbrev Fills := ExceptT CloudError (Program FillOp FillOp.Answer)

namespace Fills

open Program (observe check)

def readHead : Fills (FillRecord × Nat) := Program.request FillOp.readHead

def readReceipt (attempt : String) : Fills FillRecord :=
  Program.request (FillOp.readReceipt attempt)

def createReceipt (record : FillRecord) : Fills Unit :=
  Program.request (FillOp.createReceipt record)

def readEntry (id : String) : Fills ResponseEntry :=
  Program.request (FillOp.readEntry id)

def readSuccess : Fills ResponseEntry := Program.request FillOp.readSuccess

def read (key : String) : Fills (FillRecord × Nat) := do
  let row ← readHead
  if row.1.lease.key ≠ key ∨ !validFillRecord row.1 then
    throw .corrupt
  return row

def write (record : FillRecord) : Option Nat → Fills Unit
  | none => Program.request (FillOp.createHead record)
  | some version => Program.request (FillOp.replaceHead record version)

def retryFillConflict (e : CloudError) : Bool :=
  e == .conflict || e == .alreadyExists

/-- To be called only after observing a committed terminal head. -/
def sealTerminal (record : FillRecord) : Fills Unit := do
  match ← observe (readReceipt record.attempt) with
  | .ok existing => if existing ≠ record then throw .conflict
  | .error .notFound =>
    match ← observe (createReceipt record) with
    | .ok _ => return
    | .error .alreadyExists =>
      let existing ← readReceipt record.attempt
      if existing ≠ record then throw .conflict
    | .error e => throw e
  | .error e => throw e

variable (lease : FillLease) (now : Int)

def readTerminal : Fills (Option FillRecord) := do
  match ← observe (readReceipt lease.attempt) with
  | .error .notFound => return none
  | .error e => throw e
  | .ok record =>
    if !validFillRecord record ∨ !record.terminal ∨
        record.lease.key ≠ lease.key ∨
        record.lease.attempt ≠ lease.attempt then
      throw .corrupt
    if record.lease ≠ lease then throw .conflict
    return some record

def matchTerminal (record : FillRecord) (state : FillState)
    (completion : FillCompletion) (now : Int) : Except CloudError Unit :=
  if record.state ≠ state ∨ record.completion ≠ completion ∨
      record.updatedAt ≠ now then
    .error .conflict
  else .ok ()

/-- What to answer at a given head; nothing, if the lease replaces
it. -/
def decideFill (current : FillRecord) (lease : FillLease) (now : Int) : Option FillDecision :=
  if current.lease.attempt = lease.attempt then
    if current.lease ≠ lease then some ⟨.fenced, current⟩
    else match current.state with
      | .held => some ⟨.owned, current⟩
      | .started => some ⟨.recoveryNeeded, current⟩
      | _ => some ⟨.attemptFinished, current⟩
  else if current.state = .started then
    some ⟨.recoveryNeeded, current⟩
  -- Expiry is judged at the time of the call, not of the lease.
  else if current.state = .held ∧ now < current.lease.expiresAt then
    some ⟨.wait, current⟩
  else if current.state = .held then
    if lease.acquiredAt ≤ current.updatedAt then
      some ⟨.fenced, current⟩
    else none
  else if lease.expiresAt ≤ current.updatedAt then
    some ⟨.fenced, current⟩
  else none

/-- The head an acquisition writes. -/
def heldRecord : FillRecord :=
  ⟨lease, .held, lease.acquiredAt, .zero⟩

/-- Write the held head over the version seen, or go round again. -/
def takeHead (version : Option Nat) (again : Fills FillDecision) : Fills FillDecision := do
  match ← observe (write (heldRecord lease) version) with
  | .ok _ => return ⟨.owned, heldRecord lease⟩
  | .error e => if retryFillConflict e then again else throw e

def acquireLoop (lease : FillLease) (now : Int) : Nat → Fills FillDecision
  | 0 => throw .conflict
  | rounds + 1 => do
      match ← observe (read lease.key) with
      | .error .notFound =>
        takeHead lease none (acquireLoop lease now rounds)
      | .error e => throw e
      | .ok (current, version) =>
        match decideFill current lease now with
        | some decision => return decision
        | none =>
          if current.terminal then sealTerminal current
          takeHead lease (some version) (acquireLoop lease now rounds)

/-- The number of rounds a call tries before it reports a conflict. -/
def maxRounds : Nat := 16

def acquire : Fills FillDecision := do
  let lease ← check (normalizeFillLease lease)
  if !validTime now ∨ now < lease.acquiredAt then throw .invalid
  match ← readTerminal lease with
  | some terminal => return ⟨.attemptFinished, terminal⟩
  | none => acquireLoop lease now maxRounds

def readOwner : Fills (FillRecord × Nat) := do
  let row ← read lease.key
  if row.1.lease ≠ lease then throw .conflict
  return row

def startLoop (lease : FillLease) (now : Int) : Nat → Fills Bool
  | 0 => throw .conflict
  | rounds + 1 => do
      let (current, version) ← readOwner lease
      if current.state = .started then return false
      if current.state ≠ .held ∨ lease.expiresAt ≤ now then
        throw .conflict
      let next := { current with state := .started, updatedAt := now }
      match ← observe (write next (some version)) with
      | .ok _ => return true
      | .error e =>
        if retryFillConflict e then startLoop lease now rounds
        else throw e

def start : Fills Bool := do
  let lease ← check (normalizeFillLease lease)
  if !validTime now ∨ now < lease.acquiredAt then throw .invalid
  startLoop lease now maxRounds

/-- A completion that names an entry needs that entry published, and its
success or a newer one visible. -/
def validatePublished (startedAt : Int) (completion : FillCompletion) : Fills Unit := do
  let entry ← readEntry completion.entryId
  if entry.id ≠ completion.entryId ∨ entry.key ≠ lease.key ∨
      entry.originOperationId ≠ lease.operationId ∨
      entry.completedAt < startedAt ∨
      completion.completedAt < entry.completedAt then
    throw .invalid
  match ← observe readSuccess with
  | .error .notFound => throw .conflict
  | .error e => throw e
  | .ok head =>
    if head.key ≠ lease.key then throw .corrupt
    if head.completedAt < entry.completedAt ∨
        head.completedAt = entry.completedAt ∧ head.id < entry.id then
      throw .conflict

def finishLoop (lease : FillLease) (target : FillState)
    (completion : FillCompletion) (now : Int) : Nat → Fills Unit
  | 0 => throw .conflict
  | rounds + 1 => do
      match ← observe (readOwner lease) with
      | .error e =>
        if e = .conflict then
          match ← readTerminal lease with
          | some terminal =>
            check (matchTerminal terminal target completion now)
          | none => throw e
        else throw e
      | .ok (current, version) =>
        if current.state = target ∧ current.updatedAt = now ∧
            current.completion = completion then
          sealTerminal current
        else if now < current.updatedAt ∨
            (target = .released ∧ current.state ≠ .held) ∨
            (target = .finished ∧ current.state ≠ .started) then
          throw .conflict
        else do
          if completion.outcome = some .published then
            validatePublished lease current.updatedAt completion
          let next := { current with
            state := target
            updatedAt := now
            completion := completion }
          match ← observe (write next (some version)) with
          | .ok _ => sealTerminal next
          | .error e =>
            if retryFillConflict e then
              finishLoop lease target completion now rounds
            else throw e

def finish (target : FillState) (completion : FillCompletion) (now : Int) : Fills Unit := do
  let lease ← check (normalizeFillLease lease)
  if !validTime now ∨ now < lease.acquiredAt then throw .invalid
  match ← readTerminal lease with
  | some terminal => check (matchTerminal terminal target completion now)
  | none => finishLoop lease target completion now maxRounds

def release : Fills Unit :=
  finish lease .released .zero now

def complete (completion : FillCompletion) : Fills Unit := do
  if !validFillCompletion completion then throw .invalid
  finish lease .finished completion completion.completedAt

end Fills

-- ===== the system

/-- The leases of all attempts on one key: each attempt keeps its own
unchanged, and all are of one length. -/
structure Leases where
  key : String
  length : Int
  lease : String → FillLease
  key_eq : ∀ a, (lease a).key = key
  attempt_eq : ∀ a, (lease a).attempt = a
  expires_eq : ∀ a, (lease a).expiresAt = (lease a).acquiredAt + length

inductive FillJob
  | acquire (attempt : String) (now : Int)
  | start (attempt : String) (now : Int)
  | release (attempt : String) (now : Int)
  | complete (attempt : String) (completion : FillCompletion)
  deriving DecidableEq, Repr

inductive FillResult
  | acquired (result : Except CloudError FillDecision)
  | started (result : Except CloudError Bool)
  | ended (result : Except CloudError Unit)

/-- What happens without a call: time passes, or other work changes the
published responses. -/
inductive FillEvent
  | tick (nanos : Nat)
  | responses (now : Responses)

def FillEvent.apply : FillEvent → FillStore → FillStore
  | .tick nanos, s => { s with clock := s.clock + nanos }
  | .responses now, s => { s with responses := now }

def fillProgram (leases : Leases) : FillJob → Program FillOp FillOp.Answer FillResult
  | .acquire a now =>
    do return .acquired (← (Fills.acquire (leases.lease a) now).run)
  | .start a now =>
    do return .started (← (Fills.start (leases.lease a) now).run)
  | .release a now =>
    do return .ended (← (Fills.release (leases.lease a) now).run)
  | .complete a c =>
    do return .ended (← (Fills.complete (leases.lease a) c).run)

/-- All calls on one cache key. -/
abbrev fillStorage (leases : Leases) : Storage where
  State := FillStore
  Op := FillOp
  Value := FillOp.Value
  Event := FillEvent
  Job := FillJob
  Result := FillResult
  exec := FillStore.exec
  event := FillEvent.apply
  program := fillProgram leases

/-- A key nobody has filled yet. -/
def FillStore.empty (clock : Int) (responses : Responses) : FillStore :=
  ⟨clock, [], fun _ => none, responses⟩

end LlmTemporalWorker.CloudState
