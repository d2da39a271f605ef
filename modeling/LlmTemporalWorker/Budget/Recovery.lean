/-
Recovery: the actions that rebuild the ledger from durably saved
operations (storage/redis/functions/admission.lua, 1128 to the end).

# Three kinds of keys

The records, hashes and expiry sets are the ledger itself. The
`recovering` marker fences it off until the commit. The lease, the
progress cursor and the floor ledger carry an expiry and may vanish
between any two calls; they stand beside the keyspace in `Recovery`.

# A merge

`durable_recover_operation` takes the record as it was saved, stages
every reservation of it against what has survived, and writes only when
all of them passed. A reservation that survived at the same or a later
revision is kept; its missing expiry member is put back. Any other is
replaced: what it held leaves its bucket, what the saved one holds
enters. Either way the floor ledger notes what the bucket must hold.

`TYPE` checks and the shape of the keys and of the JSON are left out:
the model's keys and values have no other type.
-/
import LlmTemporalWorker.Budget.Authority

namespace LlmTemporalWorker.Budget

open Lib

-- ===== the state

/-- A field of the floor ledger: what a bucket must hold for one
reservation (`recovery_floor_value`). -/
structure Floor where
  key : WindowKey
  (bucket total limit : Nat)
deriving DecidableEq, Repr

/-- A field's name: the operation's key and the reservation's index. -/
abbrev FloorField := OperationKey × Nat

/-- The ledger and the disposable keys of its recovery. -/
structure Recovery where
  keyspace : Keyspace
  (lease progress : Option String)
  floors : FMap FloorField Floor

-- ===== begin and commit

/-- `durable_authority_recover_begin`. -/
def recoverBegin (marker : String) (force : Bool) (S : Recovery) : Recovery × Reply :=
  if !markerValid marker then (S, .invalidRequest)
  else if S.keyspace.authority = some (.recovering marker) then
    (S, .recovering)
  else if S.keyspace.authority = some (.ready marker) && !force then
    (S, .ready)
  else if S.keyspace.authority.isSome
      && S.keyspace.authority ≠ some (.ready marker) then
    (S, .authorityUnavailable)
  else
    ({ keyspace :=
         { S.keyspace with authority := some (.recovering marker) }
       lease := S.lease
       progress := none
       floors := ∅ }, .recovering)

/-- `durable_authority_recover_commit`. `permitted` stands for its
checks on the event stream and the access rules. -/
def recoverCommit (marker : String) (permitted : Bool) (S : Recovery) : Recovery × Reply :=
  if !markerValid marker then (S, .invalidRequest)
  else if S.keyspace.authority = some (.ready marker) then (S, .ready)
  else if S.keyspace.authority ≠ some (.recovering marker)
      || !permitted then
    (S, .authorityUnavailable)
  else
    ({ keyspace := { S.keyspace with authority := some (.ready marker) }
       lease := S.lease
       progress := none
       floors := ∅ }, .ready)

/-- `recovery_fence`: the reply of a call that is not let through. -/
def recoveryFence (marker token : String) (S : Recovery) : Option Reply :=
  if S.keyspace.authority = some (.ready marker) then some .ready
  else if S.keyspace.authority ≠ some (.recovering marker) then
    some .authorityUnavailable
  else if S.lease.any (· ≠ token) then some .busy
  else none

/-- What a lease call asks for. -/
inductive LeaseAction where
  | hold (progress : String)
  | release
deriving DecidableEq, Repr

/-- `durable_recovery_lease`. -/
def recoveryLease (marker token : String) (action : LeaseAction)
    (S : Recovery) : Recovery × Reply :=
  if !markerValid marker || !boundedString token 64 then
    (S, .invalidRequest)
  else
    match recoveryFence marker token S with
    | some reply => (S, reply)
    | none =>
      match action with
      | .release =>
        (if S.lease = some token then { S with lease := none } else S,
          .released)
      | .hold progress =>
        let stored :=
          if progress ≠ "" then some progress else S.progress
        ({ S with lease := some token, progress := stored }, .held (stored.getD ""))

-- ===== what is recovered

/-- `recoveredOperation`: a saved operation on the wire. -/
structure RecoveredOperation where
  (operationId generationId incarnationId fingerprint occurredAt : String)
  startByMillis : Int
  claimed : Bool
  reservations : List HeldReservation
  events : FMap String String
deriving DecidableEq

/-- The record's key, `KEYS[3]`. -/
def RecoveredOperation.key (d : RecoveredOperation) : OperationKey :=
  ⟨d.generationId, d.operationId⟩

/-- `recovery_reservation_amounts`. -/
def recoveryAmounts (x : HeldReservation) : Option (Nat × Nat) :=
  match durableInt x.reservedNano, durableInt x.accountedNano with
  | some reserved, some accounted =>
    if maxSafe - accounted < reserved then none
    else some (reserved, accounted)
  | _, _ => none

/-- The checks on one saved reservation. -/
def HeldReservation.recoverable (x : HeldReservation) : Bool :=
  (durableInt x.limitNano).isSome && (durableInt x.windowExpiresMillis).isSome
    && (durableInt x.reservationRevision).isSome
    && (recoveryAmounts x).isSome

/-- The checks on a saved operation. -/
def RecoveredOperation.valid (d : RecoveredOperation) : Bool :=
  boundedString d.operationId 128 && boundedString d.generationId 128
    && boundedString d.incarnationId 128
    && d.fingerprint.utf8ByteSize == 64
    && (durableInt d.startByMillis).isSome
    && !d.reservations.isEmpty
    && d.reservations.length ≤ maxDurableReservations
    && d.reservations.all HeldReservation.recoverable

/-- `recovery_current`: what a surviving reservation holds in its
bucket, and the expiry member it holds it by. -/
def recoveryCurrent (r : Record) (x : HeldReservation) (K : Keyspace) :
    Option (Nat × Option Member) :=
  match recoveryAmounts x with
  | none => none
  | some (reserved, accounted) =>
    let total := reserved + accounted
    let member := durableExpiryMember r.fingerprint x.bucket total
    if 0 < total ∧ (K.zscore x.key member).isSome then
      some (total, some member)
    else if r.claimed ∧ 0 < reserved then some (total, none)
    else some (0, none)

/-- `recovery_target`: what a restored reservation must hold, and its
expiry score. -/
def recoveryTarget (claimed : Bool) (x : HeldReservation)
    (startBy now : Nat) : Option (Nat × Option Nat) :=
  match recoveryAmounts x with
  | none => none
  | some (reserved, accounted) =>
    let total := reserved + accounted
    if total = 0 then some (0, none)
    else if claimed ∧ 0 < reserved then some (total, none)
    else
      match if 0 < reserved then some startBy
        else durableInt x.windowExpiresMillis with
      | none => none
      | some score =>
        -- spend whose retention has ended is not added again
        if score ≤ now then some (0, none)
        else some (total, some score)

-- ===== staging

/-- What is to be done with one saved reservation. -/
inductive MergeOutcome where
  /-- The surviving one stays. It holds `live`; `repair` is the score
  and the expiry member to put back. -/
  | keep (surviving : HeldReservation) (live : Nat) (repair : Option (Nat × Member))
  /-- The saved one takes its place. -/
  | replace (current : Nat) (member : Option Member) (total : Nat) (score : Option Nat)
deriving DecidableEq, Repr

/-- A staged reservation. -/
structure Merge where
  index : Nat
  target : HeldReservation
  outcome : MergeOutcome
deriving DecidableEq, Repr

/-- What the merge reads before it stages: the saved operation, its
start deadline, the surviving record and the time. -/
structure MergeInput where
  saved : RecoveredOperation
  startBy : Nat
  existing : Option Record
  now : Nat

variable (i : MergeInput) (r : Record)

/-- `claimed`: a claim that either side knows of. -/
def MergeInput.claimed : Bool :=
  i.saved.claimed || i.existing.any Record.claimed

/-- Keeping a surviving reservation. -/
def stageKeep (surviving : HeldReservation) (K : Keyspace) : Except Reply MergeOutcome :=
  match recoveryTarget r.claimed surviving
    ((durableInt r.startByMillis).getD i.startBy) i.now with
  | none => .error (.stateUnavailable .range)
  | some (live, none) => .ok (.keep surviving live none)
  | some (live, some score) =>
    let member := durableExpiryMember r.fingerprint surviving.bucket live
    if (K.zscore surviving.key member).isSome then
      .ok (.keep surviving live none)
    else .ok (.keep surviving live (some (score, member)))

/-- Replacing a reservation that holds `current` by `member`. -/
def stageReplace (target : HeldReservation) (current : Nat)
    (member : Option Member) (K : Keyspace) :
    Except Reply MergeOutcome :=
  match recoveryTarget i.claimed target i.startBy i.now with
  | none => .error .invalidRequest
  | some (total, score) =>
    match durableInt (K.sum target.key target.bucket) with
    | none => .error (.stateUnavailable .range)
    | some sum =>
      -- a lost hash gives back no more than it still holds
      if maxSafe - total < sum - min current sum then
        .error (.stateUnavailable .range)
      else .ok (.replace (min current sum) member total score)

/-- The surviving reservation is as far as the saved one. -/
def keeps (revision : Nat) (target : HeldReservation) : Bool :=
  target.reservationRevision < revision
    || (revision == target.reservationRevision && (r.claimed || !i.saved.claimed))

/-- Staging one reservation. -/
def stageMerge (K : Keyspace) (index : Nat) (target : HeldReservation) :
    Except Reply MergeOutcome :=
  match i.existing with
  | none => stageReplace i target 0 none K
  | some r =>
    match r.reservations[index]? with
    | none => .error .conflict
    | some surviving =>
      if surviving.policyId ≠ target.policyId
          ∨ surviving.windowId ≠ target.windowId
          ∨ surviving.bucket ≠ target.bucket then .error .conflict
      else
        match durableInt surviving.reservationRevision with
        | none => .error (.stateUnavailable .range)
        | some revision =>
          if keeps i r revision target then
            stageKeep i r surviving K
          else
            match recoveryCurrent r surviving K with
            | none => .error (.stateUnavailable .range)
            | some (current, member) =>
              stageReplace i target current member K

/-- The staging loop, from an index on. -/
def stageMerges (i : MergeInput) (K : Keyspace) :
    Nat → List HeldReservation → Except Reply (List Merge)
  | _, [] => .ok []
  | index, target :: rest =>
    match stageMerge i K index target with
    | .error reply => .error reply
    | .ok outcome =>
      match stageMerges i K (index + 1) rest with
      | .error reply => .error reply
      | .ok merges => .ok (⟨index, target, outcome⟩ :: merges)

-- ===== writes

/-- What the bucket must hold for the reservation. -/
def Merge.total (m : Merge) : Nat :=
  match m.outcome with
  | .keep _ live _ => live
  | .replace _ _ total _ => total

/-- The reservation's field of the floor ledger. -/
def writeFloor (op : OperationKey) (floors : FMap FloorField Floor)
    (m : Merge) : FMap FloorField Floor :=
  if 0 < m.total then
    floors.insert (op, m.index) ⟨m.target.key, m.target.bucket, m.total, m.target.limitNano⟩
  else floors.erase (op, m.index)

/-- The expiry member of a kept reservation, put back. -/
def repairMember (K : Keyspace) (m : Merge) : Keyspace :=
  match m.outcome with
  | .keep _ _ (some (score, member)) => K.zadd m.target.key score member
  | _ => K

/-- The saved charge enters: its limit, and its expiry member unless it
is retained without one. -/
def enterCharge (K : Keyspace) (fingerprint : String)
    (x : HeldReservation) (total : Nat) (score : Option Nat) : Keyspace :=
  if 0 < total then
    let K' := K.hsetLimit x.key x.bucket x.limitNano
    match score with
    | some score =>
      K'.zadd x.key score (durableExpiryMember fingerprint x.bucket total)
    | none => K'
  else K

/-- The bucket and the expiry set of a replaced reservation. -/
def replaceCharge (fingerprint : String) (K : Keyspace) (m : Merge) :
    Keyspace :=
  match m.outcome with
  | .keep _ _ _ => K
  | .replace current member total score =>
    let K₁ := match member with
      | some member => K.zrem m.target.key member
      | none => K
    let K₂ := if total = current then K₁
      else K₁.hincrbyDropZero m.target.key m.target.bucket ((total : Int) - current)
    enterCharge K₂ fingerprint m.target total score

/-- The reservation the merged record holds at this index. -/
def Merge.reservation (m : Merge) : HeldReservation :=
  match m.outcome with
  | .keep surviving _ _ => surviving
  | .replace _ _ _ _ => m.target

/-- The saved events enter the record. -/
def mergeEvents (saved events : FMap String String) : FMap String String :=
  saved.entries.foldl (fun acc e => acc.insert e.1 e.2) events

/-- The saved operation as a record. -/
def RecoveredOperation.record (d : RecoveredOperation) (startBy : Nat) :
    Record :=
  { operationId := d.operationId
    generationId := d.generationId
    incarnationId := d.incarnationId
    fingerprint := d.fingerprint
    occurredAt := d.occurredAt
    startByMillis := startBy
    claimed := d.claimed
    reservations := d.reservations
    events := d.events }

/-- The record a merge starts from: the surviving one with the saved
events, or the saved one. -/
def MergeInput.base : Record :=
  match i.existing with
  | none => i.saved.record i.startBy
  | some r => { r with events := mergeEvents i.saved.events r.events }

/-- The record a merge stores. -/
def mergedRecord (merges : List Merge) : Record :=
  { i.base with
    reservations := merges.map Merge.reservation
    claimed := i.claimed }

/-- Whether the merge has anything to write but floors. -/
def mergeChanges (merges : List Merge) :
    Bool :=
  merges.any (fun m => match m.outcome with
      | .keep _ _ repair => repair.isSome
      | .replace _ _ _ _ => true)
    || i.claimed != r.claimed
    || i.saved.events.entries.any fun e => (r.events.lookup e.1).isNone

/-- The checks of a saved operation against the surviving record. -/
def survivorConflict (d : RecoveredOperation) (r : Record) : Bool :=
  r.generationId ≠ d.generationId || r.incarnationId ≠ d.incarnationId
    || r.operationId ≠ d.operationId || r.fingerprint ≠ d.fingerprint
    || r.reservations.length ≠ d.reservations.length
    || d.events.entries.any fun e =>
      (r.events.lookup e.1).any (· ≠ e.2)

/-- The writes of a staged merge. -/
def writeMerge (merges : List Merge) (S : Recovery) : Recovery × Reply :=
  let op := i.saved.key
  let floors := merges.foldl (writeFloor op) S.floors
  if i.existing.any fun r => !mergeChanges i r merges then
    ({ S with floors := floors }, .unchanged)
  else
    let K := merges.foldl repairMember S.keyspace
    let K' := merges.foldl (replaceCharge i.saved.fingerprint) K
    ({ S with
        keyspace := K'.setRecord op (durableEncode (mergedRecord i merges))
        floors := floors }, .restored)

def durableRecoverOperation (t : RedisTime) (marker token : String)
    (d : RecoveredOperation) (S : Recovery) : Recovery × Reply :=
  if !markerValid marker || !boundedString token 64 then
    (S, .invalidRequest)
  else
    match recoveryFence marker token S with
    | some reply => (S, reply)
    | none =>
      match durableInt d.startByMillis with
      | none => (S, .invalidRequest)
      | some startBy =>
        let i : MergeInput := ⟨d, startBy, S.keyspace.records.lookup d.key, t.millis⟩
        if !d.valid then (S, .invalidRequest)
        else if maxSafe < t.seconds ∨ maxSafe < t.micros then
          (S, .scriptError)
        else if i.existing.any (survivorConflict d) then
          (S, .conflict)
        else
          match stageMerges i S.keyspace 0 d.reservations with
          | .error reply => (S, reply)
          | .ok merges => writeMerge i merges S

/-- The replies of a merge that went through. -/
def Reply.merges : Reply → Bool
  | .restored | .unchanged => true
  | _ => false

-- ===== floors

/-- `recoveryFloor`: what one bucket must hold at least. -/
structure RecoveryFloor where
  (bucket floorNano limitNano : Nat)
deriving DecidableEq, Repr

/-- What a bucket lacks to its floor. -/
def floorDeficit (K : Keyspace) (w : WindowKey) (f : RecoveryFloor) : Except Reply Nat :=
  if (durableInt f.floorNano).isNone || (durableInt f.limitNano).isNone then
    .error .invalidRequest
  else
    match durableInt (K.sum w f.bucket) with
    | none => .error (.stateUnavailable .range)
    | some sum => .ok (f.floorNano - sum)

/-- Raising one bucket that is below its floor. -/
def raiseBucket (w : WindowKey) (K : Keyspace) (raise : RecoveryFloor × Nat) : Keyspace :=
  if raise.2 = 0 then K
  else
    let K' := K.hincrby w raise.1.bucket raise.2
    if ((K'.hash w).limits.lookup raise.1.bucket).isSome then K'
    else K'.hsetLimit w raise.1.bucket raise.1.limitNano

def durableRecoverFloor (marker token : String) (w : WindowKey)
    (floors : List RecoveryFloor) (S : Recovery) : Recovery × Reply :=
  if !markerValid marker || !boundedString token 64 then
    (S, .invalidRequest)
  else
    match recoveryFence marker token S with
    | some reply => (S, reply)
    | none =>
      if floors.isEmpty ∨ 4096 < floors.length then
        (S, .invalidRequest)
      else
        match floors.mapM (floorDeficit S.keyspace w) with
        | .error reply => (S, reply)
        | .ok deficits =>
          ({ S with
              keyspace := (floors.zip deficits).foldl (raiseBucket w) S.keyspace },
            .raised (deficits.countP (0 < ·)))

-- ===== one marker

/-- The recovery actions that name no operation and no window. -/
inductive MarkerAction (m : String) : (Recovery → Recovery × Reply) → Prop
  | begin (force : Bool) : MarkerAction m (recoverBegin m force)
  | commit (permitted : Bool) : MarkerAction m (recoverCommit m permitted)
  | lease (token : String) (action : LeaseAction) : MarkerAction m (recoveryLease m token action)

/-- A run of calls that name a marker, each of which may find the other
keys in any state: what was answered to which marker, the latest first,
and the marker that the run leaves. -/
inductive MarkerRun : List (String × Reply) → Option Authority → Type
  | start (found : Option Authority) : MarkerRun [] found
  | authority {log} (a : AuthorityArgs) (K : Keyspace) : MarkerRun log K.authority →
    MarkerRun ((a.marker, (durableAuthority a K).2) :: log) (durableAuthority a K).1.authority
  | recovery {log m act} (ha : MarkerAction m act) (S : Recovery) :
    MarkerRun log S.keyspace.authority →
    MarkerRun ((m, (act S).2) :: log) (act S).1.keyspace.authority

variable {log : List (String × Reply)} {found : Option Authority}

/-- A marker that was answered ready is ready or being recovered. -/
theorem MarkerRun.kept {m : String} (run : MarkerRun log found) (h : (m, .ready) ∈ log) :
    found = some (.ready m) ∨ found = some (.recovering m) := by
  induction run with
  | start => cases h
  | authority a K _ ih =>
    cases a <;> simp only [List.mem_cons, durableAuthority, AuthorityArgs.marker] at h ⊢ <;> grind
  | recovery ha S _ ih =>
    cases ha <;> simp only [List.mem_cons, recoverBegin, recoverCommit, recoveryLease,
      recoveryFence] at h ⊢ <;> grind

/-- A namespace is never ready for two receipts. Over every run at most
one marker is ever answered ready, and in the end it is the namespace's
marker, ready or being recovered. -/
theorem one_ready_marker (run : MarkerRun log found) :
    { m | (m, .ready) ∈ log }.Subsingleton
      ∧ ∀ m, (m, .ready) ∈ log → found = some (.ready m) ∨ found = some (.recovering m) := by
  refine ⟨fun m hm m' hm' => ?_, fun m hm => run.kept hm⟩
  rcases run.kept hm with h | h <;> rcases run.kept hm' with h' | h' <;> rw [h] at h' <;>
    cases h' <;> rfl

-- one marker is prepared and published, and another is refused from then on
example : ∃ log, Nonempty (MarkerRun log (some (.ready "budget-initialization/v1:e:5:a")))
    ∧ log = [("budget-initialization/v1:e:5:b", .authorityUnavailable),
      ("budget-initialization/v1:e:5:a", .ready),
      ("budget-initialization/v1:e:5:a", .preparing)] := by
  refine ⟨_, ⟨.authority (.prepare "budget-initialization/v1:e:5:b" true) _
    (.authority (.commit "budget-initialization/v1:e:5:a" true) _
      (.authority (.prepare "budget-initialization/v1:e:5:a" true) .empty (.start _)))⟩, ?_⟩
  decide +kernel

end LlmTemporalWorker.Budget
