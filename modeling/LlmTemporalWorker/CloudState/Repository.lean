/-
The durable request store.

A request is a stream of committed records, each a compare-and-set on
the one before, and a discovery row that says where the stream is. They
are separate stores: the row is written first, the record next, and the
row is moved on last, so that work nobody finished can be found. Every
call is a program over single storage operations.

Payload blobs are content-addressed and written before what refers to
them, so an event carries its record. Scope tags, request bindings and
append tokens are keyed digests and stand for what they digest; the
fingerprint is a function of the request and left out. Manifests and
progress are documents of which the store knows the normal form and, on
completion, what they say of the attempt to complete (`Documents`).

The versions of a discovery row are kept, newest first; the version
token of the newest is their number. Events are kept oldest first:
revision `n` is the `n`th.

The storage itself is another package (cloud-storage). Rows are written
on its documented conditions; of its event store the repository knows
only the laws of `EventStore`, and everything holds for any store that
keeps them.
-/
import LlmTemporalWorker.Llm.Proofs.Canonical
import LlmTemporalWorker.CloudState.Model
import LlmTemporalWorker.CloudState.Storage

namespace LlmTemporalWorker.CloudState

open Lib

-- ===== requests

structure Scope where
  (tenant project : String)
  deriving DecidableEq, Repr

def Scope.valid (s : Scope) : Bool :=
  safeText s.tenant 256 && safeText s.project 256

/-- A canonical UUID that is not the nil one. -/
def canonicalUuid (text : List Char) : Bool :=
  let lowerHex (c : Char) : Bool := ('0' ≤ c && c ≤ '9') || ('a' ≤ c && c ≤ 'f')
  text.length == 36 && text.zipIdx.all (fun c =>
      if c.2 == 8 || c.2 == 13 || c.2 == 18 || c.2 == 23 then c.1 == '-'
      else lowerHex c.1) &&
    text.any fun c => c != '0' && c != '-'

def requestIdStart : List Char := "llmtw_req_".toList

def validRequestId (id : String) : Bool :=
  id.toList.take requestIdStart.length == requestIdStart &&
    canonicalUuid (id.toList.drop requestIdStart.length)

def maxRevisions : Nat := 10000

structure CreateRequest (δ : Type) where
  id : String
  scope : Scope
  kind : String
  requestIndex : Int
  manifest : δ
  createdAt : Int
  deriving DecidableEq, Repr

structure Record (δ : Type) where
  request : CreateRequest δ
  revision : Nat
  status : Status
  progress : δ
  updatedAt : Int
  deriving DecidableEq, Repr

structure Update (δ : Type) where
  expectedRevision : Nat
  token : String
  status : Status
  progress : δ
  updatedAt : Int
  deriving DecidableEq, Repr

structure Operation (δ : Type) where
  scope : Scope
  (kind key : String)
  requestIndex : Int
  manifest : δ
  now : Int
  deriving DecidableEq, Repr

def maxPayloadBytes : Int := 8 * 2 ^ 20

/-- Go `objectJSON`: the canonical text of an object. -/
def objectJson (value : Bytes) : Except CloudError Bytes :=
  if maxPayloadBytes < value.length then .error .recordTooLarge
  else if !validUtf8 value || value.isEmpty then .error .invalid
  else
    match Llm.canonicalJsonWithLimits value maxPayloadBytes Llm.defaultCanonicalMaxDepth with
    | .error e => .error (if e.limit then .recordTooLarge else .invalid)
    | .ok canonical =>
      if canonical.head? = some 0x7b then .ok canonical else .error .invalid

theorem objectJson_idem {value out : Bytes} (h : objectJson value = .ok out) :
    objectJson out = .ok out := by
  unfold objectJson at h
  split at h
  · cases h
  split at h
  · cases h
  split at h
  · cases h
  next canonical hcanonical =>
  split at h
  · next hhead =>
    cases h
    have hagain := Llm.canonicalJsonWithLimits_idem hcanonical
    obtain ⟨-, -, -, v, -, -, -, rfl, hlength⟩ := Llm.canonicalJsonWithLimits_ok.mp hcanonical
    have hvalid := (Json.isText_compact v.canonical).valid
    have hne : v.canonical.compact.isEmpty = false := by
      cases hnil : v.canonical.compact with
      | nil =>
        rw [hnil] at hhead
        cases hhead
      | cons => rfl
    rw [objectJson, if_neg (not_lt.mpr hlength), hvalid, hne, if_neg (by decide), hagain]
    exact if_pos hhead
  · cases h

/-- What the store knows of its documents. -/
structure Documents (δ : Type) where
  /-- The normal form of an object. -/
  normalize : δ → Except CloudError δ
  normalize_idem : ∀ {d d'}, normalize d = .ok d' → normalize d' = .ok d'
  /-- The progress of a new record, and of one that begins to run. -/
  empty : δ
  empty_normal : normalize empty = .ok empty
  started : δ
  /-- Whether the encoded record keeps its size limit. -/
  fits : Record δ → Bool
  /-- The keyed ID of an operation. -/
  operationId : Scope → String → String → String
  /-- The child that the record's handoff leaves to be completed. -/
  handoffChild : Record δ → Except CloudError (Option String)
  /-- Whether a child is linked to the record. -/
  linked : Record δ → Record δ → Bool
  /-- The progress that completes the child, unless it is complete or
  was retired unused. -/
  completeChild : Record δ → Record δ → Except CloudError (Option δ)

variable {δ : Type} [DecidableEq δ] (docs : Documents δ)

def normalizeRequest (r : CreateRequest δ) : Except CloudError (CreateRequest δ) :=
  if !validRequestId r.id ∨ !r.scope.valid ∨
      (r.kind ≠ "generate" ∧ r.kind ≠ "compact") ∨ r.requestIndex < 0 ∨
      !validTime r.createdAt then
    .error .invalid
  else do
    let manifest ← docs.normalize r.manifest
    return { r with manifest := manifest }

/-- The checks on a record that was read. -/
def loadRecord (record : Record δ) : Except CloudError (Record δ) :=
  match normalizeRequest docs record.request with
  | .error _ => .error .corrupt
  | .ok request =>
    if request ≠ record.request ∨ !validTime record.updatedAt ∨
        record.updatedAt < request.createdAt then
      .error .corrupt
    else match docs.normalize record.progress with
      | .error _ => .error .corrupt
      | .ok _ => .ok record

-- ===== the stores

structure IndexRow (δ : Type) where
  scopeTag : Scope
  binding : CreateRequest δ
  revision : Nat
  status : Status
  updatedAt : Int
  deriving DecidableEq, Repr

structure Committed (δ : Type) where
  token : String
  record : Record δ
  deriving DecidableEq, Repr

structure Ledger (δ : Type) where
  rows : List (IndexRow δ)
  events : List (Committed δ)

/-- What the event store makes of an append at an expected revision
(`TryAppend`): the answer, and the stream after it. -/
structure EventStore (ε : Type) where
  tryAppend : Fate → List ε → Nat → ε → Except CloudError Unit × List ε
  /-- At the end of the stream, an append lands. -/
  lands : ∀ fate events event, tryAppend fate events events.length event =
    writeRow fate true .conflict () events (events ++ [event])
  /-- An append that is there already succeeds, and changes nothing. -/
  repeats : ∀ fate {events expected event}, events[expected]? = some event →
    tryAppend fate events expected event = writeRow fate true .conflict () events events
  /-- Anything else is a conflict. -/
  conflicts : ∀ fate {events expected event}, events.length ≠ expected →
    events[expected]? ≠ some event →
    tryAppend fate events expected event = writeRow fate false .conflict () events events

/-- The ledgers of all request IDs, and the requests whose handoff
checkpoint can be verified. -/
structure RepoStore (δ : Type) where
  ledger : String → Ledger δ
  checkpoints : String → Bool

inductive RepoOp (δ : Type)
  | createRow (id : String) (row : IndexRow δ)
  | readRow (id : String)
  | replaceRow (id : String) (row : IndexRow δ) (version : Nat)
  | readEvents (id : String)
  | append (id : String) (expected : Nat) (event : Committed δ)
  | readCheckpoint (id : String)

def RepoOp.Value : RepoOp δ → Type
  | .createRow _ _ => Unit
  | .readRow _ => IndexRow δ × Nat
  | .replaceRow _ _ _ => Unit
  | .readEvents _ => List (Committed δ)
  | .append _ _ _ => Unit
  | .readCheckpoint _ => Unit

abbrev RepoOp.Answer (op : RepoOp δ) : Type :=
  Except CloudError op.Value

namespace RepoStore

variable (s : RepoStore δ) (id : String)

def put (ledger : Ledger δ) : RepoStore δ :=
  { s with ledger := Function.update s.ledger id ledger }

def pushRow (row : IndexRow δ) : RepoStore δ :=
  s.put id { s.ledger id with rows := row :: (s.ledger id).rows }

def pushEvent (event : Committed δ) : RepoStore δ :=
  s.put id { s.ledger id with events := (s.ledger id).events ++ [event] }

variable (E : EventStore (Committed δ))

/-- An append to the stream of a request. -/
def append (fate : Fate) (expected : Nat) (event : Committed δ) :
    Except CloudError Unit × RepoStore δ :=
  let result := E.tryAppend fate (s.ledger id).events expected event
  (result.1, s.put id { s.ledger id with events := result.2 })

def exec : (op : RepoOp δ) → Fate → RepoStore δ → op.Answer × RepoStore δ
  | .createRow id row, fate, s =>
    writeRow fate (s.ledger id).rows.isEmpty .alreadyExists () s (s.pushRow id row)
  | .readRow id, fate, s =>
    (readRow fate ((s.ledger id).rows.head?.map (·, (s.ledger id).rows.length)), s)
  | .replaceRow id row version, fate, s =>
    writeRow fate ((s.ledger id).rows.length == version && version != 0)
      .conflict () s (s.pushRow id row)
  | .readEvents id, fate, s =>
    (readRow fate (some (s.ledger id).events), s)
  | .append id expected event, fate, s => s.append id E fate expected event
  | .readCheckpoint id, fate, s =>
    (readRow fate (if s.checkpoints id then some () else none), s)

end RepoStore

-- ===== the calls

abbrev Repo (δ : Type) := ExceptT CloudError (Program (RepoOp δ) RepoOp.Answer)

namespace Repo

open Program (observe check)

def createRow (id : String) (row : IndexRow δ) : Repo δ Unit :=
  Program.request (RepoOp.createRow id row)

def readRow (id : String) : Repo δ (IndexRow δ × Nat) :=
  Program.request (RepoOp.readRow id)

def replaceRow (id : String) (row : IndexRow δ) (version : Nat) : Repo δ Unit :=
  Program.request (RepoOp.replaceRow id row version)

def readEvents (id : String) : Repo δ (List (Committed δ)) :=
  Program.request (RepoOp.readEvents id)

def append (id : String) (expected : Nat) (event : Committed δ) : Repo δ Unit :=
  Program.request (RepoOp.append id expected event)

def readCheckpoint (id : String) : Repo δ Unit :=
  Program.request (RepoOp.readCheckpoint id)

-- ------------------------------------------------------ the event stream

/-- The record a stream comes to, checked event by event. -/
def buildState : Option (Record δ) → List (Committed δ) → Except CloudError (Option (Record δ))
  | previous, [] => .ok previous
  | none, e :: rest =>
    if !validRequestId e.record.request.id ∨ e.record.revision ≠ 1 ∨
        e.record.status ≠ .pending then
      .error .corrupt
    else buildState (some e.record) rest
  | some previous, e :: rest =>
    if e.record.revision ≠ previous.revision + 1 ∨
        maxRevisions < e.record.revision ∨
        e.record.request ≠ previous.request ∨
        !validTransition previous.status e.record.status then
      .error .corrupt
    else buildState (some e.record) rest

/-- The record of one revision; a conflict if it is not committed. -/
def readRevision (id : String) (revision : Nat) : Repo δ (Record δ) := do
  let events ← readEvents id
  match ← check (buildState none (events.take revision)) with
  | none => throw .conflict
  | some record =>
    if record.request.id ≠ id then throw .corrupt
    if record.revision ≠ revision then throw .conflict
    return record

def read (scope : Scope) (id : String) : Repo δ (Record δ) := do
  if !scope.valid then throw .invalid
  if !validRequestId id then throw .invalid
  let events ← readEvents id
  match ← check (buildState none events) with
  | none => throw .notFound
  | some record =>
    if record.request.scope ≠ scope then throw .notFound
    if record.revision ≠ events.length ∨ record.request.id ≠ id then
      throw .corrupt
    check (loadRecord docs record)

-- --------------------------------------------------- the discovery index

def validRow (row : IndexRow δ) : Bool :=
  decide (row.revision ≤ maxRevisions) && validTime row.updatedAt &&
    (row.revision != 0 || row.status == .pending)

def readIndex (id : String) : Repo δ (IndexRow δ × Nat) := do
  let row ← readRow id
  if !validRow row.1 then throw .corrupt
  return row

/-- The row that shows a record. -/
def nextRow (row : IndexRow δ) (record : Record δ) : IndexRow δ :=
  { row with
    revision := record.revision
    status := record.status
    updatedAt := record.updatedAt }

variable (request : CreateRequest δ)

def newRow : IndexRow δ :=
  ⟨request.scope, request, 0, .pending, request.createdAt⟩

def ensureIndex : Repo δ Unit := do
  match ← observe (createRow request.id (newRow request)) with
  | .ok _ => return
  | .error .alreadyExists =>
    let previous ← readIndex request.id
    if previous.1.scopeTag ≠ request.scope ∨
        previous.1.binding ≠ request then
      throw .conflict
  | .error e => throw e

def advanceIndexLoop (record : Record δ) : Nat → Repo δ Unit
  | 0 => throw .conflict
  | rounds + 1 => do
      let (previous, version) ← readIndex record.request.id
      if previous.binding ≠ record.request ∨
          previous.scopeTag ≠ record.request.scope then
        throw .corrupt
      -- A delayed acknowledgement must never regress a newer row.
      if record.revision < previous.revision then return
      if previous.revision = record.revision then
        if previous.status ≠ record.status ∨
            previous.updatedAt ≠ record.updatedAt then
          throw .corrupt
        return
      match ← observe (replaceRow record.request.id
          (nextRow previous record) version) with
      | .ok _ => return
      | .error .conflict => advanceIndexLoop record rounds
      | .error e => throw e

def advanceIndex (record : Record δ) : Repo δ Unit :=
  advanceIndexLoop record 16

-- -------------------------------------------------------- create, update

def publish (record : Record δ) (token : String) : Repo δ (Record δ) := do
  append record.request.id (record.revision - 1) ⟨token, record⟩
  match ← observe (advanceIndex record) with
  | .ok _ => return record
  | .error e => throw (.indexPending e)

/-- The first record of a request. -/
def firstRecord : Record δ :=
  ⟨request, 1, .pending, docs.empty, request.createdAt⟩

def create (request : CreateRequest δ) : Repo δ (Record δ) := do
  let request ← check (normalizeRequest docs request)
  if !docs.fits (firstRecord docs request) then throw .recordTooLarge
  ensureIndex request
  publish (firstRecord docs request) "create"

/-- The record that an update makes of the one it extends. -/
def Update.next (u : Update δ) (progress : δ) (record : Record δ) : Record δ :=
  { record with
    revision := record.revision + 1
    status := u.status
    progress := progress
    updatedAt := u.updatedAt }

def tryUpdate (scope : Scope) (id : String) (u : Update δ) : Repo δ (Record δ) := do
  if !scope.valid ∨ !validRequestId id ∨ u.expectedRevision = 0 ∨
      maxRevisions ≤ u.expectedRevision ∨ !safeText u.token 128 ∨
      !validTime u.updatedAt then
    throw .invalid
  let progress ← check (docs.normalize u.progress)
  let previous ← readRevision id u.expectedRevision
  if previous.request.scope ≠ scope then throw .notFound
  let record ← check (loadRecord docs previous)
  if !validTransition record.status u.status ∨
      u.updatedAt < record.updatedAt then
    throw .invalid
  if !docs.fits (Update.next u progress record) then throw .recordTooLarge
  publish (Update.next u progress record) u.token

-- ------------------------------------------------------------ operations

/-- The record to go on with, if the operation has one, and the time
that its first discovery row chose. -/
def findOperation : Repo δ (CreateRequest δ × Option (Record δ)) := do
  match ← observe (readIndex request.id) with
  | .error .notFound => return (request, none)
  | .error e => throw e
  | .ok (index, _) =>
    let request := { request with createdAt := index.updatedAt }
    let found ← match ← observe (read docs request.scope request.id) with
      | .ok record =>
        pure ({ request with createdAt := record.request.createdAt }, some record)
      | .error e =>
        if index.revision ≠ 0 ∨ e ≠ .notFound then throw e
        pure (request, none)
    if index.scopeTag ≠ request.scope ∨ index.binding ≠ found.1 then
      throw .conflict
    return found

/-- The update that marks an operation as running. -/
def startUpdate (record : Record δ) : Update δ :=
  ⟨record.revision, "runtime-start", .running, docs.started, request.createdAt⟩

/-- Make a pending record run; leave any other one, its index
repaired. -/
def startOperation (record : Record δ) (again : Repo δ (Record δ)) : Repo δ (Record δ) := do
  if record.status ≠ .pending then
    advanceIndex record
    return record
  match ← observe (tryUpdate docs request.scope request.id
      (startUpdate docs request record)) with
  | .ok record => return record
  | .error e => if e.isConflict then again else throw e

def beginLoop (request : CreateRequest δ) : Nat → Repo δ (Record δ)
  | 0 => throw .conflict
  | rounds + 1 => do
      let (request, existing) ← findOperation docs request
      match existing with
      | some record =>
        startOperation docs request record (beginLoop request rounds)
      | none =>
        match ← observe (create docs request) with
        | .error e =>
          if e.isConflict then beginLoop request rounds else throw e
        | .ok _ =>
          let record ← read docs request.scope request.id
          startOperation docs request record (beginLoop request rounds)

def beginOperation (operation : Operation δ) : Repo δ (Record δ) := do
  if operation.key = "" ∨ 4096 < operation.key.utf8ByteSize then
    throw .invalid
  let id := docs.operationId operation.scope operation.kind operation.key
  let request ← check (normalizeRequest docs
    ⟨id, operation.scope, operation.kind, operation.requestIndex,
      operation.manifest, operation.now⟩)
  beginLoop docs request 3

/-- An index that could not be repaired leaves the record committed. -/
def repairIndex (record : Record δ) : Repo δ Unit := do
  match ← observe (advanceIndex record) with
  | .ok _ => return
  | .error e => throw (.indexPending e)

def completeChildLoop (root : Record δ) (child : String) (now : Int) : Nat → Repo δ Unit
  | 0 => throw .conflict
  | rounds + 1 => do
      let record ← read docs root.request.scope child
      match ← check (docs.completeChild root record) with
      | none => advanceIndex record
      | some progress =>
        let now := max now record.updatedAt
        match ← observe (tryUpdate docs root.request.scope child
            ⟨record.revision, "attempt-complete", .completed, progress, now⟩) with
        | .ok _ => return
        | .error e =>
          if e.isConflict then
            completeChildLoop root child now rounds
          else throw e

def completeRequestAttempt (root : Record δ) (now : Int) : Repo δ Unit := do
  match ← check (docs.handoffChild root) with
  | none => return
  | some child =>
    readCheckpoint root.request.id
    let record ← read docs root.request.scope child
    if !docs.linked root record then throw .corrupt
    repairIndex record
    completeChildLoop docs root child now 16

def completeLoop (scope : Scope) (id : String) (progress : δ) (now : Int) : Nat → Repo δ (Record δ)
  | 0 => throw .conflict
  | rounds + 1 => do
      let record ← read docs scope id
      if record.status = .completed then
        if record.progress ≠ progress then throw .conflict
        advanceIndex record
        return record
      if record.status ≠ .running then throw .conflict
      completeRequestAttempt docs record now
      let now := max now record.updatedAt
      match ← observe (tryUpdate docs scope id
          ⟨record.revision, "runtime-complete", .completed, progress, now⟩) with
      | .ok updated => return updated
      | .error e =>
        if e.isConflict then completeLoop scope id progress now rounds
        else throw e

def completeOperation (scope : Scope) (id : String) (progress : δ)
    (now : Int) : Repo δ (Record δ) := do
  match docs.normalize progress with
  | .error _ => throw .invalid
  | .ok progress =>
    if !validTime now then throw .invalid
    completeLoop docs scope id progress now 3

end Repo

-- ===== the system

inductive RepoJob (δ : Type)
  | create (request : CreateRequest δ)
  | begin' (operation : Operation δ)
  | update (scope : Scope) (id : String) (u : Update δ)
  | complete (scope : Scope) (id : String) (progress : δ) (now : Int)
  deriving DecidableEq, Repr

def repoProgram : RepoJob δ → Repo δ (Record δ)
  | .create request => Repo.create docs request
  | .begin' operation => Repo.beginOperation docs operation
  | .update scope id u => Repo.tryUpdate docs scope id u
  | .complete scope id progress now =>
    Repo.completeOperation docs scope id progress now

/-- A choice of calls on the durable request store, over an event
store. -/
structure RepoCalls (δ : Type) where
  (Job Result : Type)
  eventStore : EventStore (Committed δ)
  program : Job → Program (RepoOp δ) RepoOp.Answer Result

/-- The store under a choice of calls. What happens without a call is
that checkpoints are published. -/
abbrev RepoCalls.storage (R : RepoCalls δ) : Storage where
  State := RepoStore δ
  Op := RepoOp δ
  Value := RepoOp.Value
  Event := String → Bool
  Job := R.Job
  Result := R.Result
  exec := RepoStore.exec R.eventStore
  event := fun checkpoints s => { s with checkpoints := checkpoints }
  program := R.program

variable (E : EventStore (Committed δ))

abbrev repoCalls : RepoCalls δ where
  Job := RepoJob δ
  Result := Except CloudError (Record δ)
  eventStore := E
  program := fun job => (repoProgram docs job).run

/-- All calls on whole operations and single records. -/
abbrev repoStorage : Storage :=
  (repoCalls docs E).storage

def RepoStore.empty : RepoStore δ :=
  ⟨fun _ => ⟨[], []⟩, fun _ => false⟩

end LlmTemporalWorker.CloudState
