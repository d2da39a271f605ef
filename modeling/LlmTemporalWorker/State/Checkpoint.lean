/-
The checkpoint graph (state/checkpoint.go).

A checkpoint is one turn of a conversation. It names its parent, so the
graph is a forest, and `Materialize` walks from a checkpoint to its root
and replays what lies on the path. One checkpoint may be a base: its
ancestors are not in the graph, and its snapshot stands in for them.

# What a checkpoint holds

The graph never looks into an item, a settings patch or a model state.
It asks others whether they are valid, how they are encoded and how a
patch applies (`Codec`), and passes their faults on. Digests are values
of an arbitrary function: nothing here rests on their being distinct.

# Time

A write reads the clock at most twice, to test the parent's expiry and
that of the checkpoint an operation key names. The readings are
arguments. A zero `ExpiresAt` never expires.
-/
import LlmTemporalWorker.Lib.KeyedTotal
import LlmTemporalWorker.Lib.LengthPrefix

namespace LlmTemporalWorker.State

open Lib

-- ===== limits

/-- `MaterializeLimits`, without the publication cadence. -/
structure MaterializeLimits where
  (maxDepth maxRows maxItems maxBytes : Int)
deriving DecidableEq, Repr

def MaterializeLimits.withDefaults (limits : MaterializeLimits) : MaterializeLimits where
  maxDepth := if limits.maxDepth ≤ 0 then 256 else limits.maxDepth
  maxRows := if limits.maxRows ≤ 0 then 512 else limits.maxRows
  maxItems := if limits.maxItems ≤ 0 then 4096 else limits.maxItems
  maxBytes := if limits.maxBytes ≤ 0 then 16777216 else limits.maxBytes

-- ===== checkpoints

/-- A checkpoint's name; empty for none. -/
abbrev Handle := String

structure CheckpointSnapshot (Item Settings Digest : Type) where
  items : List Item
  settings : Settings
  depth : Int
  lineage : List Handle
  digest : Digest

/-- `Checkpoint`, as a caller passes it. -/
structure Checkpoint (Item Patch Settings Digest : Type) where
  handle : Handle
  (tenant project : String)
  parent : Option Handle
  operationKey : String
  (delta output : List Item)
  settingsPatch : Patch
  depth : Int
  expiresAt : Option Int
  snapshot : Option (CheckpointSnapshot Item Settings Digest)

/-- A checkpoint as the graph stores it, with its request digest. -/
structure Node (Item Patch Settings Digest : Type)
    extends Checkpoint Item Patch Settings Digest where
  requestDigest : Digest

/-- What the graph asks about items, patches and model states. -/
structure Codec (Item Patch Settings Digest Fault : Type) where
  /-- `SettingsPatch.Validate` -/
  patchFault : Patch → Option Fault
  /-- `validateItemEncoding` -/
  encodingFault : List Item → Option Fault
  /-- `validateItems`: the pending tool calls -/
  validateItems : List Item → Except Fault (List String)
  /-- `ModelState.Validate` -/
  settingsFault : Settings → Option Fault
  /-- `ModelState.Model` -/
  model : Settings → String
  /-- `RootModelState("")` -/
  rootModelState : Settings
  /-- `ApplySettingsPatch` -/
  applySettingsPatch : Settings → Patch → Except Fault Settings
  /-- `json.Marshal` -/
  marshalItems : List Item → Except Fault String
  marshalPatch : Patch → Except Fault String
  /-- `llm.CanonicalJSONWithLimits` -/
  canonicalJson : String → Int → Except Fault String
  /-- the hash of a request's parts -/
  requestHash : List String → Digest
  /-- `CheckpointSnapshot.digest` -/
  snapshotHash : List Item → Settings → Int → List Handle → Digest

/-- `now` is not before the expiry. -/
def expired (expiresAt : Option Int) (now : Int) : Bool :=
  expiresAt.any (· ≤ now)

-- ===== errors

/-- The parts of a request that are encoded for its digest. -/
inductive Part where
  | delta
  | output
  | settingsPatch
deriving DecidableEq, Repr

/-- The errors of the graph, with the faults it passes on. -/
inductive GraphError (Fault : Type) where
  | rootHasParent
  | baseWithoutSnapshot
  | lineageMismatch
  | secondBase
  | childWithoutParent
  | notFound
  | expired
  | tenantMismatch
  | conflict
  | incomplete
  | depthLimit
  | snapshotIncomplete
  | snapshotDigest
  | encodePart (part : Part) (fault : Fault)
  | partLimit (part : Part)
  | canonicalizePart (part : Part) (fault : Fault)
  | fault (fault : Fault)
  | cycle
  | rowLimit
  | noRoot
  | snapshotDepth
  | snapshotDepthLimit
  | itemLimit
  | byteLimit
  | settings (handle : Handle) (fault : Fault)
  | modelRequired
deriving DecidableEq, Repr

-- ===== graph

variable {Item Patch Settings Digest Fault : Type}

structure CheckpointGraph (Item Patch Settings Digest : Type) where
  checkpoints : FMap Handle (Node Item Patch Settings Digest)
  /-- scoped operation keys -/
  operations : FMap String Handle
  limits : MaterializeLimits
  /-- the checkpoint published through `putBase`; empty for none -/
  base : Handle

def newCheckpointGraph (limits : MaterializeLimits) : CheckpointGraph Item Patch Settings Digest :=
  ⟨∅, ∅, limits.withDefaults, ""⟩

def scopedOperationKey (tenant project operation : String) : String :=
  lengthPrefixed tenant ++ (lengthPrefixed project ++ lengthPrefixed operation)

/-- A fault, if there is one. -/
def report (fault : Option Fault) : Except (GraphError Fault) Unit :=
  match fault with
  | none => .ok ()
  | some fault => .error (.fault fault)

section Checks

variable (codec : Codec Item Patch Settings Digest Fault)

def validateContent (snapshot : CheckpointSnapshot Item Settings Digest) :
    Except (GraphError Fault) Unit :=
  if snapshot.depth < 0 ∨ codec.model snapshot.settings = "" then
    .error .snapshotIncomplete
  else do
    report (codec.settingsFault snapshot.settings)
    match codec.validateItems snapshot.items with
    | .error fault => .error (.fault fault)
    | .ok _ => .ok ()

/-- `CheckpointSnapshot.validate`. -/
def validateSnapshot [DecidableEq Digest] (snapshot : CheckpointSnapshot Item Settings Digest) :
    Except (GraphError Fault) Unit := do
  validateContent codec snapshot
  if snapshot.digest ≠ codec.snapshotHash snapshot.items
      snapshot.settings snapshot.depth snapshot.lineage then
    .error .snapshotDigest
  else .ok ()

/-- The canonical text of one part of a request. -/
def digestPart (part : Part) (data : Except Fault String)
    (maxBytes : Int) : Except (GraphError Fault) String :=
  match data with
  | .error fault => .error (.encodePart part fault)
  | .ok data =>
    if maxBytes < data.utf8ByteSize then .error (.partLimit part)
    else match codec.canonicalJson data maxBytes with
    | .error fault => .error (.canonicalizePart part fault)
    | .ok canonical => .ok canonical

def checkpointRequestDigest (checkpoint : Checkpoint Item Patch Settings Digest)
    (maxBytes : Int) : Except (GraphError Fault) Digest := do
  let parent := match checkpoint.parent with
    | none => "\x00"
    | some parent => "\x01" ++ parent
  let delta ← digestPart codec .delta
    (codec.marshalItems checkpoint.delta) maxBytes
  let output ← digestPart codec .output
    (codec.marshalItems checkpoint.output) maxBytes
  let patch ← digestPart codec .settingsPatch
    (codec.marshalPatch checkpoint.settingsPatch) maxBytes
  return codec.requestHash ["checkpoint/v1", checkpoint.tenant,
    checkpoint.project, parent, checkpoint.operationKey, delta, output,
    patch]

end Checks

-- ===== writes

variable [DecidableEq Digest] (codec : Codec Item Patch Settings Digest Fault)

/-- The tests of `put` before it locks the graph, and the digest. -/
def checkPut (limits : MaterializeLimits) (checkpoint : Checkpoint Item Patch Settings Digest) :
    Except (GraphError Fault) Digest :=
  if checkpoint.handle = "" ∨ checkpoint.tenant = ""
      ∨ checkpoint.operationKey = "" then
    .error .incomplete
  else if checkpoint.depth < 0 ∨ limits.maxDepth < checkpoint.depth then
    .error .depthLimit
  else do
    report (codec.patchFault checkpoint.settingsPatch)
    report (codec.encodingFault (checkpoint.delta ++ checkpoint.output))
    checkpoint.snapshot.forM (validateSnapshot codec)
    checkpointRequestDigest codec checkpoint limits.maxBytes

variable (checkpoint : Checkpoint Item Patch Settings Digest) (now : Int)
  (graph : CheckpointGraph Item Patch Settings Digest)

/-- `put`, with the reading of the clock for the operation's checkpoint:
the graph it leaves and the error, if any. -/
def put : CheckpointGraph Item Patch Settings Digest × Except (GraphError Fault) Unit :=
  match checkPut codec graph.limits checkpoint with
  | .error error => (graph, .error error)
  | .ok digest =>
    match graph.checkpoints.lookup checkpoint.handle with
    | some existing =>
      if existing.requestDigest = digest then (graph, .ok ())
      else (graph, .error .conflict)
    | none =>
      let key := scopedOperationKey checkpoint.tenant
        checkpoint.project checkpoint.operationKey
      match graph.operations.lookup key with
      | some previous =>
        match graph.checkpoints.lookup previous with
        | none =>
          -- the zero checkpoint: it never expires
          (graph, .error .conflict)
        | some existing =>
          if expired existing.expiresAt now then
            (graph, .error .expired)
          else if previous = checkpoint.handle
              ∧ existing.requestDigest = digest then
            (graph, .ok ())
          else (graph, .error .conflict)
      | none =>
        ({ graph with
            checkpoints := graph.checkpoints.insert checkpoint.handle ⟨checkpoint, digest⟩
            operations := graph.operations.insert key checkpoint.handle }, .ok ())

def putRoot : CheckpointGraph Item Patch Settings Digest × Except (GraphError Fault) Unit :=
  if checkpoint.parent.isSome then (graph, .error .rootHasParent)
  else put codec { checkpoint with depth := 0 } now graph

def putBase : CheckpointGraph Item Patch Settings Digest × Except (GraphError Fault) Unit :=
  match checkpoint.snapshot with
  | none => (graph, .error .baseWithoutSnapshot)
  | some snapshot =>
    if checkpoint.depth < 0 ∨ snapshot.depth ≠ checkpoint.depth
        ∨ (snapshot.lineage.length : Int) ≠ checkpoint.depth + 1
        ∨ snapshot.lineage.getLast? ≠ some checkpoint.handle then
      (graph, .error .lineageMismatch)
    else if graph.base ≠ "" ∧ graph.base ≠ checkpoint.handle then
      (graph, .error .secondBase)
    else
      put codec { checkpoint with parent := none } now
        { graph with base := checkpoint.handle }

/-- `putChild`: for `PutChild`, and with `retained` for
`putRetainedChild`. -/
def putChild (retained : Bool) (now now' : Int)
    (graph : CheckpointGraph Item Patch Settings Digest) :
    CheckpointGraph Item Patch Settings Digest × Except (GraphError Fault) Unit :=
  match checkpoint.parent with
  | none => (graph, .error .childWithoutParent)
  | some parentHandle =>
    if parentHandle = "" then (graph, .error .childWithoutParent)
    else match graph.checkpoints.lookup parentHandle with
    | none => (graph, .error .notFound)
    | some parent =>
      let republished := (graph.checkpoints.lookup checkpoint.handle).isSome
      if !retained && !republished && expired parent.expiresAt now then
        (graph, .error .expired)
      else
        let tenant := if checkpoint.tenant = "" then parent.tenant
          else checkpoint.tenant
        let project := if checkpoint.project = "" then parent.project
          else checkpoint.project
        if tenant ≠ parent.tenant ∨ project ≠ parent.project then
          (graph, .error .tenantMismatch)
        else
          put codec { checkpoint with
            tenant := tenant
            project := project
            depth := parent.depth + 1 } now' graph

/-- A write, with its readings of the clock. -/
inductive Write (Item Patch Settings Digest : Type) where
  | root (checkpoint : Checkpoint Item Patch Settings Digest) (now : Int)
  | base (checkpoint : Checkpoint Item Patch Settings Digest) (now : Int)
  | child (checkpoint : Checkpoint Item Patch Settings Digest) (retained : Bool) (now now' : Int)

/-- What a write does to the graph, and its error, if any. -/
def Write.run (write : Write Item Patch Settings Digest)
    (graph : CheckpointGraph Item Patch Settings Digest) :
    CheckpointGraph Item Patch Settings Digest × Except (GraphError Fault) Unit :=
  match write with
  | .root checkpoint now => putRoot codec checkpoint now graph
  | .base checkpoint now => putBase codec checkpoint now graph
  | .child checkpoint retained now now' =>
    putChild codec checkpoint retained now now' graph

-- ===== materialize

/-- The walk of `Materialize` from a checkpoint to its root: the
checkpoints on the way, the newest first. A step takes one of the rows
that are left; the limit on the path ends the walk before they run out. -/
def walk (graph : CheckpointGraph Item Patch Settings Digest) (tenant : String) (now : Int) :
    Nat → Handle → List Handle → List (Node Item Patch Settings Digest) → Except (GraphError Fault)
        (List Handle × List (Node Item Patch Settings Digest))
  | left, current, seen, path =>
    if current = "" then .error .noRoot
    else if current ∈ seen then .error .cycle
    else match graph.checkpoints.lookup current with
    | none => .error .notFound
    | some checkpoint =>
      if checkpoint.tenant ≠ tenant then .error .tenantMismatch
      else if path.isEmpty && expired checkpoint.expiresAt now then
        .error .expired
      else
        let seen := current :: seen
        let path := path ++ [checkpoint]
        if graph.limits.maxDepth < path.length - 1
            ∨ graph.limits.maxRows < path.length then
          .error .rowLimit
        else match checkpoint.parent with
        | none => .ok (seen, path)
        | some parent =>
          match left with
          | 0 => .error .rowLimit
          | left + 1 => walk graph tenant now left parent seen path

/-- The ancestors that the base's snapshot stands in for. -/
def basePrefix (graph : CheckpointGraph Item Patch Settings Digest)
    (path : List (Node Item Patch Settings Digest)) : List Handle :=
  match path.getLast? with
  | none => []
  | some root =>
    if graph.base ≠ "" ∧ root.handle = graph.base then
      match root.snapshot with
      | none => []
      | some snapshot => snapshot.lineage.dropLast
    else []

/-- The loop over the ancestors of the base. -/
def loops (seen : List Handle) : List Handle → Bool
  | [] => false
  | ancestor :: rest => ancestor ∈ seen || loops (ancestor :: seen) rest

def validateMaterializedLimits (limits : MaterializeLimits)
    (items : List Item) : Except (GraphError Fault) Unit :=
  if limits.maxItems < items.length then .error .itemLimit
  else match codec.marshalItems items with
  | .error fault => .error (.fault fault)
  | .ok data =>
    match codec.canonicalJson data limits.maxBytes with
    | .error fault => .error (.fault fault)
    | .ok bytes =>
      if limits.maxBytes < bytes.utf8ByteSize then .error .byteLimit
      else .ok ()

/-- `MaterializedState`, without the provenance that only the durable
materializer fills. -/
structure MaterializedState (Item Settings : Type) where
  handle : Handle
  (tenant project : String)
  depth : Int
  items : List Item
  settings : Settings
  pendingToolCalls : List String
  lineage : List Handle

/-- What a replay has built so far. -/
structure Replay (Item Settings : Type) where
  items : List Item
  settings : Settings
  depth : Int

/-- The newest snapshot of a path, checked, and the checkpoints above
it: where the replay starts. -/
def replayStart (limits : MaterializeLimits) (ancestors : List Handle)
    (path : List (Node Item Patch Settings Digest)) :
    Except (GraphError Fault) (Replay Item Settings × List (Node Item Patch Settings Digest)) :=
  let newer := path.takeWhile fun checkpoint => checkpoint.snapshot.isNone
  let older := path.dropWhile fun checkpoint => checkpoint.snapshot.isNone
  match older with
  | [] => .ok (⟨[], codec.rootModelState, 0⟩, path)
  | checkpoint :: _ =>
    match checkpoint.snapshot with
    | none => .ok (⟨[], codec.rootModelState, 0⟩, path)
    | some snapshot => do
        validateSnapshot codec snapshot
        let wantLineage := ancestors ++ (older.map fun c => c.handle).reverse
        if snapshot.depth ≠ checkpoint.depth then .error .snapshotDepth
        else if snapshot.lineage ≠ wantLineage then
          .error .lineageMismatch
        else if snapshot.depth < 0
            ∨ limits.maxDepth < snapshot.depth then
          .error .snapshotDepthLimit
        else do
          validateMaterializedLimits codec limits snapshot.items
          return (⟨snapshot.items, snapshot.settings, snapshot.depth⟩, newer)

/-- The loop that counts the items before the replay. -/
def itemsFit (maxItems : Int) : List (Node Item Patch Settings Digest) → Int → Bool
  | [], _ => true
  | checkpoint :: rest, capacity =>
    let count : Int := checkpoint.delta.length + checkpoint.output.length
    if maxItems - capacity < count then false
    else itemsFit maxItems rest (capacity + count)

/-- The replay of checkpoints, the oldest first. -/
def replay : List (Node Item Patch Settings Digest) →
    Replay Item Settings → Except (GraphError Fault) (Replay Item Settings)
  | [], state => .ok state
  | checkpoint :: rest, state =>
    match codec.applySettingsPatch state.settings
        checkpoint.settingsPatch with
    | .error fault => .error (.settings checkpoint.handle fault)
    | .ok settings =>
      replay rest ⟨state.items ++ checkpoint.delta ++ checkpoint.output, settings, checkpoint.depth⟩

/-- `Materialize`, once the path is known. -/
def materializePath (limits : MaterializeLimits) (tenant : String)
    (handle : Handle) (ancestors : List Handle)
    (path : List (Node Item Patch Settings Digest)) :
    Except (GraphError Fault) (MaterializedState Item Settings) := do
  let (start, newer) ← replayStart codec limits ancestors path
  if !itemsFit limits.maxItems newer.reverse start.items.length then
    .error .itemLimit
  else do
    let state ← replay codec newer.reverse start
    validateMaterializedLimits codec limits state.items
    if codec.model state.settings = "" then .error .modelRequired
    else match codec.validateItems state.items with
    | .error fault => .error (.fault fault)
    | .ok pending =>
      .ok ⟨handle, tenant, (path.head?.map fun c => c.project).getD "",
        state.depth, state.items, state.settings, pending,
        ancestors ++ (path.map fun c => c.handle).reverse⟩

def materialize (graph : CheckpointGraph Item Patch Settings Digest)
    (tenant : String) (handle : Handle) (now : Int) :
    Except (GraphError Fault) (MaterializedState Item Settings) :=
  if handle = "" then .error .notFound
  else match
    walk graph tenant now graph.limits.maxRows.toNat handle [] [] with
  | .error error => .error error
  | .ok (seen, path) =>
    let ancestors := basePrefix graph path
    if graph.limits.maxRows < ancestors.length + path.length then
      .error .rowLimit
    else if loops seen ancestors then .error .cycle
    else
      materializePath codec graph.limits tenant handle ancestors path

end LlmTemporalWorker.State
