/-
The checkpoint graph stays a forest.

A write leaves the checkpoints alone or adds one that fits
(`Write.run_effect`): a root, the base, or a child of a stored parent. So
the depth falls by one from every checkpoint to its parent (`Sound`), in
every graph that writes can build, and a walk along the parents meets no
checkpoint twice and ends at a root (`walk_lands`).

Two things do not hold as they might. `putBase` does not look at the
handles in the lineage of a snapshot, so a base may name an ancestor
twice, or name a checkpoint that hangs below it; `Materialize` from there
reports a cycle. And `putBase` names the base before it stores the
checkpoint, so a rejected base keeps its place.
-/
import LlmTemporalWorker.State.Checkpoint
import LlmTemporalWorker.Lib.Run

namespace LlmTemporalWorker.State

open Lib

variable {Item Patch Settings Digest Fault : Type}
  {codec : Codec Item Patch Settings Digest Fault}
  {graph : CheckpointGraph Item Patch Settings Digest}
  {checkpoint : Checkpoint Item Patch Settings Digest}

-- ===== operations

theorem scopedOperationKey_inj {t t' p p' o o' : String}
    (h : scopedOperationKey t p o = scopedOperationKey t' p' o') :
    t = t' ∧ p = p' ∧ o = o' := by
  obtain ⟨ht, h⟩ := lengthPrefixed_append_inj h
  obtain ⟨hp, h⟩ := lengthPrefixed_append_inj h
  have ho : lengthPrefixed o ++ "" = lengthPrefixed o' ++ "" := by
    rw [h]
  exact ⟨ht, hp, (lengthPrefixed_append_inj ho).1⟩

/-- The key that a checkpoint's operation is filed under. -/
def Checkpoint.scopedKey (checkpoint : Checkpoint Item Patch Settings Digest) : String :=
  scopedOperationKey checkpoint.tenant checkpoint.project checkpoint.operationKey

-- ===== writes

variable (graph checkpoint) in
/-- The graph with one more checkpoint. -/
def CheckpointGraph.add (digest : Digest) : CheckpointGraph Item Patch Settings Digest :=
  { graph with
    checkpoints := graph.checkpoints.insert checkpoint.handle ⟨checkpoint, digest⟩
    operations := graph.operations.insert checkpoint.scopedKey checkpoint.handle }

variable (graph checkpoint) in
/-- A checkpoint that a graph has room for. -/
structure Fresh : Prop where
  named : checkpoint.handle ≠ ""
  depth : 0 ≤ checkpoint.depth
  absent : graph.checkpoints.lookup checkpoint.handle = none
  free : graph.operations.lookup checkpoint.scopedKey = none

variable (graph checkpoint) in
/-- A checkpoint that hangs where it may: a root at depth 0, the base, or
a child below a stored parent of its own scope. -/
def Hangs : Prop :=
  match checkpoint.parent with
  | none => checkpoint.depth = 0 ∨ checkpoint.handle = graph.base
  | some handle => ∃ parent, graph.checkpoints.lookup handle = some parent
      ∧ checkpoint.depth = parent.depth + 1
      ∧ checkpoint.tenant = parent.tenant
      ∧ checkpoint.project = parent.project

/-- What a write does. Only a base write names the base, and only if
there was none. -/
structure Effect (write : Write Item Patch Settings Digest)
    (graph graph' : CheckpointGraph Item Patch Settings Digest)
    (result : Except (GraphError Fault) Unit) : Prop where
  based : graph'.base = graph.base
    ∨ graph.base = "" ∧ ∃ checkpoint now, write = .base checkpoint now
  stored : graph' = { graph with base := graph'.base }
    ∨ result = .ok () ∧ ∃ checkpoint digest, Fresh graph checkpoint
      ∧ Hangs { graph with base := graph'.base } checkpoint
      ∧ graph' = CheckpointGraph.add { graph with base := graph'.base } checkpoint digest

theorem Effect.unchanged (write : Write Item Patch Settings Digest)
    (result : Except (GraphError Fault) Unit) :
    Effect write graph graph result :=
  ⟨.inl rfl, .inl rfl⟩

section Writes

variable [DecidableEq Digest]

/-- The tests of `put` that the graph's shape rests on. -/
theorem checkPut_ok {limits : MaterializeLimits} {digest : Digest}
    (h : checkPut codec limits checkpoint = .ok digest) :
    checkpoint.handle ≠ "" ∧ 0 ≤ checkpoint.depth := by
  unfold checkPut at h
  split at h
  · cases h
  rename_i hnamed
  split at h
  · cases h
  · exact ⟨fun hempty => hnamed (.inl hempty), by omega⟩

variable (codec)

/-- `put` changes nothing, or adds a checkpoint that was not there. -/
theorem put_effect (checkpoint : Checkpoint Item Patch Settings Digest)
    (now : Int) (graph : CheckpointGraph Item Patch Settings Digest) :
    (put codec checkpoint now graph).1 = graph ∨ (put codec checkpoint now graph).2 = .ok ()
        ∧ Fresh graph checkpoint ∧ ∃ digest, (put codec checkpoint now graph).1
            = graph.add checkpoint digest := by
  unfold put
  cases hcheck : checkPut codec graph.limits checkpoint with
  | error error => exact .inl rfl
  | ok digest =>
    dsimp only
    obtain ⟨hnamed, hdepth⟩ := checkPut_ok hcheck
    cases habsent : graph.checkpoints.lookup checkpoint.handle with
    | some existing =>
      left
      dsimp only
      split <;> rfl
    | none =>
      cases hfree : graph.operations.lookup (scopedOperationKey checkpoint.tenant checkpoint.project
          checkpoint.operationKey) with
      | some previous =>
        left
        dsimp only
        split
        · rfl
        split
        · rfl
        · split <;> rfl
      | none => exact .inr ⟨rfl, ⟨hnamed, hdepth, habsent, hfree⟩, digest, rfl⟩

variable {codec}

/-- A `put` of a checkpoint that hangs where it may, once the base is
named. -/
theorem Effect.of_put {write : Write Item Patch Settings Digest}
    {base : Handle} {now : Int}
    (hbase : base = graph.base ∨ graph.base = "" ∧ ∃ checkpoint now, write = .base checkpoint now)
    (hhangs : Hangs { graph with base := base } checkpoint) :
    Effect write graph (put codec checkpoint now { graph with base := base }).1
      (put codec checkpoint now { graph with base := base }).2 := by
  rcases put_effect codec checkpoint now { graph with base := base } with
    h | ⟨hok, hfresh, digest, h⟩
  · rw [h]
    exact ⟨hbase, .inl rfl⟩
  · rw [h, hok]
    refine ⟨hbase, .inr ⟨rfl, checkpoint, digest, ?_, hhangs, rfl⟩⟩
    exact ⟨hfresh.named, hfresh.depth, hfresh.absent, hfresh.free⟩

/-- What every write does to any graph. -/
theorem Write.run_effect (write : Write Item Patch Settings Digest)
    (graph : CheckpointGraph Item Patch Settings Digest) :
    Effect write graph (write.run codec graph).1 (write.run codec graph).2 := by
  cases write with
  | root checkpoint now =>
    show Effect _ graph (putRoot codec checkpoint now graph).1
      (putRoot codec checkpoint now graph).2
    unfold putRoot
    split
    · exact .unchanged _ _
    rename_i hparent
    refine .of_put (.inl rfl) ?_
    have hnone : checkpoint.parent = none := by simpa using hparent
    simp only [Hangs, hnone]
    exact .inl trivial
  | base checkpoint now =>
    show Effect _ graph (putBase codec checkpoint now graph).1
      (putBase codec checkpoint now graph).2
    unfold putBase
    split
    · exact .unchanged _ _
    split
    · exact .unchanged _ _
    split
    · exact .unchanged _ _
    rename_i hbase
    refine .of_put ?_ (.inr rfl)
    by_cases hempty : graph.base = ""
    · exact .inr ⟨hempty, checkpoint, now, rfl⟩
    left
    by_contra hne
    exact hbase ⟨hempty, Ne.symm hne⟩
  | child checkpoint retained now now' =>
    show Effect _ graph (putChild codec checkpoint retained now now' graph).1
      (putChild codec checkpoint retained now now' graph).2
    unfold putChild
    split
    · exact .unchanged _ _
    rename_i handle hparent
    split
    · exact .unchanged _ _
    split
    · exact .unchanged _ _
    rename_i parent hstored
    dsimp only
    split
    · exact .unchanged _ _
    generalize (if checkpoint.tenant = "" then parent.tenant
      else checkpoint.tenant) = tenant
    generalize (if checkpoint.project = "" then parent.project
      else checkpoint.project) = project
    split
    · exact .unchanged _ _
    rename_i hscope
    refine .of_put (.inl rfl) ?_
    simp only [Hangs, hparent]
    push Not at hscope
    exact ⟨parent, hstored, rfl, hscope.1, hscope.2⟩

end Writes

-- ===== the forest

variable (graph) in
/-- What holds of every graph that writes can build. -/
structure Sound : Prop where
  named : ∀ handle node, graph.checkpoints.lookup handle = some node →
    node.handle = handle ∧ handle ≠ "" ∧ 0 ≤ node.depth
  hangs : ∀ handle node, graph.checkpoints.lookup handle = some node → Hangs graph node.toCheckpoint
  filed : ∀ handle node, graph.checkpoints.lookup handle = some node →
    graph.operations.lookup node.scopedKey = some handle
  traced : ∀ key handle, graph.operations.lookup key = some handle →
    ∃ node, graph.checkpoints.lookup handle = some node ∧ node.scopedKey = key

/-- The checkpoints of a graph are in another, unchanged. -/
def Keeps (graph graph' : CheckpointGraph Item Patch Settings Digest) :
    Prop :=
  ∀ handle node, graph.checkpoints.lookup handle = some node →
    graph'.checkpoints.lookup handle = some node

variable {graph' : CheckpointGraph Item Patch Settings Digest}
  {seen : List Handle}

theorem Hangs.keeps (h : Hangs graph checkpoint) (hkeeps : Keeps graph graph')
    (hbase : graph'.base = graph.base ∨ graph.base = "")
    (hnamed : checkpoint.handle ≠ "") : Hangs graph' checkpoint := by
  unfold Hangs at *
  split at h
  · rcases h with h | h
    · exact .inl h
    · rcases hbase with hbase | hbase
      · exact .inr (h.trans hbase.symm)
      · exact absurd (h.trans hbase) hnamed
  · obtain ⟨parent, hparent, hrest⟩ := h
    exact ⟨parent, hkeeps _ _ hparent, hrest⟩

theorem Fresh.keeps (h : Fresh graph checkpoint) (base : Handle) (digest : Digest) :
    Keeps graph (CheckpointGraph.add { graph with base := base } checkpoint digest) := by
  intro handle node hnode
  show (graph.checkpoints.insert _ _).lookup handle = _
  rw [lookup_insert_eq, if_neg]
  · exact hnode
  · rintro rfl
    rw [h.absent] at hnode
    cases hnode

theorem Effect.keeps {write : Write Item Patch Settings Digest}
    {result : Except (GraphError Fault) Unit}
    (h : Effect write graph graph' result) : Keeps graph graph' := by
  rcases h.stored with heq | ⟨-, checkpoint, digest, hfresh, -, heq⟩
  · rw [heq]
    exact fun _ _ hnode => hnode
  · rw [heq]
    exact hfresh.keeps _ digest

theorem Effect.sound {write : Write Item Patch Settings Digest}
    {result : Except (GraphError Fault) Unit}
    (h : Effect write graph graph' result) (hsound : Sound graph) :
    Sound graph' := by
  have hbase : graph'.base = graph.base ∨ graph.base = "" := h.based.imp id And.left
  have hkeeps := h.keeps
  -- the old checkpoints hang as before
  have hold : ∀ handle node, graph.checkpoints.lookup handle = some node →
      Hangs graph' node.toCheckpoint := by
    intro handle node hnode
    obtain ⟨hname, hne, -⟩ := hsound.named handle node hnode
    refine (hsound.hangs handle node hnode).keeps hkeeps hbase ?_
    show node.handle ≠ ""
    rwa [hname]
  rcases h.stored with heq | ⟨-, new, digest, hfresh, hhangs, heq⟩
  · have hcheckpoints : graph'.checkpoints = graph.checkpoints := by
      rw [heq]
    have hoperations : graph'.operations = graph.operations := by
      rw [heq]
    exact {
      named := by rw [hcheckpoints]; exact hsound.named
      hangs := by rw [hcheckpoints]; exact hold
      filed := by rw [hcheckpoints, hoperations]; exact hsound.filed
      traced := by rw [hcheckpoints, hoperations]; exact hsound.traced }
  · have hcheckpoints : graph'.checkpoints = graph.checkpoints.insert new.handle ⟨new, digest⟩ := by
      rw [heq]
      rfl
    have hoperations : graph'.operations = graph.operations.insert new.scopedKey new.handle := by
      rw [heq]
      rfl
    have hcases : ∀ handle node, graph'.checkpoints.lookup handle = some node →
        (handle = new.handle ∧ node = ⟨new, digest⟩)
          ∨ graph.checkpoints.lookup handle = some node := by
      intro handle node hnode
      rw [hcheckpoints, lookup_insert_eq] at hnode
      split at hnode
      · rename_i hhandle
        exact .inl ⟨hhandle, (Option.some.inj hnode).symm⟩
      · exact .inr hnode
    refine ⟨?_, ?_, ?_, ?_⟩
    · intro handle node hnode
      rcases hcases handle node hnode with ⟨rfl, rfl⟩ | hnode
      · exact ⟨rfl, hfresh.named, hfresh.depth⟩
      · exact hsound.named handle node hnode
    · intro handle node hnode
      rcases hcases handle node hnode with ⟨rfl, rfl⟩ | hnode
      · refine hhangs.keeps ?_ (.inl rfl) hfresh.named
        exact hkeeps
      · exact hold handle node hnode
    · intro handle node hnode
      rw [hoperations, lookup_insert_eq]
      rcases hcases handle node hnode with ⟨rfl, rfl⟩ | hnode
      · rw [if_pos rfl]
      · have hfiled := hsound.filed handle node hnode
        rw [if_neg]
        · exact hfiled
        · intro hkey
          rw [hkey, hfresh.free] at hfiled
          cases hfiled
    · intro key handle hkey
      rw [hoperations, lookup_insert_eq] at hkey
      split at hkey
      · rename_i heq
        cases hkey
        refine ⟨⟨new, digest⟩, ?_, heq.symm⟩
        rw [hcheckpoints, lookup_insert_eq, if_pos rfl]
      · obtain ⟨node, hnode, hscoped⟩ := hsound.traced key handle hkey
        exact ⟨node, hkeeps handle node hnode, hscoped⟩

/-- Two checkpoints of one operation are one. -/
theorem Sound.operation_inj (hsound : Sound graph)
    {handle handle' : Handle}
    {node node' : Node Item Patch Settings Digest}
    (hnode : graph.checkpoints.lookup handle = some node)
    (hnode' : graph.checkpoints.lookup handle' = some node')
    (hkey : node.scopedKey = node'.scopedKey) : handle = handle' := by
  have hfiled := hsound.filed handle node hnode
  rw [hkey, hsound.filed handle' node' hnode'] at hfiled
  exact (Option.some.inj hfiled).symm

/-- An operation key leads to a checkpoint of its own scope. -/
theorem Sound.operation_scope (hsound : Sound graph)
    {tenant project operation : String} {handle : Handle}
    (h : graph.operations.lookup (scopedOperationKey tenant project operation) = some handle) :
    ∃ node, graph.checkpoints.lookup handle = some node
      ∧ node.tenant = tenant ∧ node.project = project
      ∧ node.operationKey = operation := by
  obtain ⟨node, hnode, hkey⟩ := hsound.traced _ handle h
  exact ⟨node, hnode, scopedOperationKey_inj hkey⟩

-- ===== the walk

/-- The errors that would tell of a broken graph. -/
def GraphError.broken : GraphError Fault → Prop
  | .cycle | .notFound => True
  | _ => False

section

variable (graph)

/-- What the walk has seen lies above where it stands. -/
def Above (seen : List Handle) (depth : Int) : Prop :=
  ∀ handle ∈ seen, ∃ node, graph.checkpoints.lookup handle = some node ∧ depth < node.depth

/-- A stored checkpoint names the other as its parent. -/
def CheckpointGraph.Parent (handle parent : Handle) : Prop :=
  ∃ node, graph.checkpoints.lookup handle = some node ∧ node.parent = some parent

/-- How a walk from `start` in a sound graph ends: at a root, having seen
only what the parents of `start` lead to, or with an error that does not
tell of a broken graph. -/
def Lands (start : Handle) :
    Except (GraphError Fault) (List Handle × List (Node Item Patch Settings Digest)) → Prop
  | .error error => ¬error.broken
  | .ok (seen, path) =>
    (∀ handle ∈ seen, Relation.ReflTransGen graph.Parent start handle)
      ∧ ∃ root, path.getLast? = some root ∧ graph.checkpoints.lookup root.handle = some root

end

/-- The walk from a stored checkpoint meets no cycle and no missing
parent: the depth falls at every step. -/
theorem walk_lands (hsound : Sound graph) (tenant : String) (now : Int)
    (left : Nat) {start current : Handle}
    (path : List (Node Item Patch Settings Digest))
    {node : Node Item Patch Settings Digest}
    (hnode : graph.checkpoints.lookup current = some node)
    (habove : Above graph seen node.depth)
    (hreached : ∀ handle ∈ current :: seen, Relation.ReflTransGen graph.Parent start handle) :
    Lands graph start
      (walk graph tenant now left current seen path : Except (GraphError Fault) _) := by
  induction left using Nat.strong_induction_on generalizing current seen path node with
  | _ left ih =>
    obtain ⟨hname, hne, -⟩ := hsound.named current node hnode
    have hunseen : current ∉ seen := by
      intro hmem
      obtain ⟨node', hnode', hlt⟩ := habove current hmem
      rw [hnode] at hnode'
      cases hnode'
      exact absurd hlt (lt_irrefl _)
    unfold walk
    rw [if_neg hne, if_neg hunseen, hnode]
    dsimp only
    split
    · exact id
    split
    · exact id
    split
    · exact id
    split
    · -- a root
      exact ⟨hreached, node, by simp, by rw [hname]; exact hnode⟩
    · rename_i parentHandle hparent
      cases left with
      | zero => exact id
      | succ left =>
        have hhangs := hsound.hangs current node hnode
        simp only [Hangs, hparent] at hhangs
        obtain ⟨parent, hstored, hdepth, -⟩ := hhangs
        refine ih left (Nat.lt_succ_self _) _ hstored ?_ ?_
        · intro handle hmem
          rcases List.mem_cons.mp hmem with rfl | hmem
          · exact ⟨node, hnode, by omega⟩
          · obtain ⟨node', hnode', hlt⟩ := habove handle hmem
            exact ⟨node', hnode', by omega⟩
        · refine List.forall_mem_cons.mpr ⟨?_, hreached⟩
          exact (hreached current List.mem_cons_self).tail ⟨node, hnode, hparent⟩

-- ===== materialize

/-- A computation that never tells of a broken graph. -/
def Intact {α : Type} (x : Except (GraphError Fault) α) : Prop :=
  ∀ error, x = .error error → ¬error.broken

theorem Intact.ok {α : Type} (value : α) : Intact (.ok value : Except (GraphError Fault) α) := by
  intro error h
  cases h

theorem Intact.error {α : Type} {error : GraphError Fault}
    (h : ¬error.broken) : Intact (.error error : Except _ α) := by
  intro error' h'
  cases h'
  exact h

theorem Intact.bind {α β : Type} {x : Except (GraphError Fault) α}
    {f : α → Except (GraphError Fault) β} (hx : Intact x)
    (hf : ∀ value, Intact (f value)) : Intact (x >>= f) := by
  cases x with
  | error error => exact .error (hx error rfl)
  | ok value => exact hf value

theorem Intact.ite {α : Type} {p : Prop} [Decidable p]
    {x y : Except (GraphError Fault) α} (hx : Intact x) (hy : Intact y) :
    Intact (if p then x else y) := by
  split
  · exact hx
  · exact hy

theorem report_intact (fault : Option Fault) : Intact (report fault) := by
  unfold report
  split
  · exact .ok _
  · exact .error id

theorem validateMaterializedLimits_intact (limits : MaterializeLimits) (items : List Item) :
    Intact (validateMaterializedLimits codec limits items) := by
  refine .ite (.error id) ?_
  split
  · exact .error id
  split
  · exact .error id
  · exact .ite (.error id) (.ok _)

theorem replay_intact (path : List (Node Item Patch Settings Digest))
    (state : Replay Item Settings) :
    Intact (replay codec path state) := by
  induction path generalizing state with
  | nil => exact .ok _
  | cons checkpoint rest ih =>
    unfold replay
    split
    · exact .error id
    · exact ih _

variable (graph) in
/-- The ancestors in front of the base are distinct, and none of them lies
on the path from `start` up its parents. -/
def CheckpointGraph.BaseApart (start : Handle) : Prop :=
  ∀ root snapshot, graph.checkpoints.lookup graph.base = some root →
    root.snapshot = some snapshot → snapshot.lineage.dropLast.Nodup
      ∧ ∀ handle ∈ snapshot.lineage.dropLast, ¬Relation.ReflTransGen graph.Parent start handle

theorem loops_eq_false {handles : List Handle} (hnodup : handles.Nodup)
    (happart : ∀ handle ∈ handles, handle ∉ seen) :
    loops seen handles = false := by
  induction handles generalizing seen with
  | nil => rfl
  | cons handle rest ih =>
    obtain ⟨hnot, hnodup⟩ := List.nodup_cons.mp hnodup
    obtain ⟨hhead, hrest⟩ := List.forall_mem_cons.mp happart
    unfold loops
    rw [decide_eq_false hhead, Bool.false_or]
    refine ih hnodup ?_
    intro handle' hmem hseen
    rcases List.mem_cons.mp hseen with rfl | hseen
    · exact hnot hmem
    · exact hrest handle' hmem hseen

theorem loops_basePrefix {start : Handle} (happart : graph.BaseApart start)
    {path : List (Node Item Patch Settings Digest)}
    {root : Node Item Patch Settings Digest}
    (hseen : ∀ handle ∈ seen, Relation.ReflTransGen graph.Parent start handle)
    (hlast : path.getLast? = some root)
    (hroot : graph.checkpoints.lookup root.handle = some root) :
    loops seen (basePrefix graph path) = false := by
  unfold basePrefix
  rw [hlast]
  dsimp only
  split
  · rename_i hbase
    split
    · rfl
    rename_i snapshot hsnapshot
    rw [hbase.2] at hroot
    obtain ⟨hnodup, habsent⟩ := happart root snapshot hroot hsnapshot
    exact loops_eq_false hnodup fun handle hmem hwalked =>
      habsent handle hmem (hseen handle hwalked)
  · rfl

section Materialize

variable [DecidableEq Digest]

theorem validateSnapshot_intact (snapshot : CheckpointSnapshot Item Settings Digest) :
    Intact (validateSnapshot codec snapshot) := by
  refine .bind (.ite (.error id) (.bind (report_intact _) fun _ => ?_))
    fun _ => .ite (.error id) (.ok _)
  split
  · exact .error id
  · exact .ok _

theorem replayStart_intact (limits : MaterializeLimits) (ancestors : List Handle)
    (path : List (Node Item Patch Settings Digest)) :
    Intact (replayStart codec limits ancestors path) := by
  unfold replayStart
  dsimp only
  split
  · exact .ok _
  split
  · exact .ok _
  refine .bind (validateSnapshot_intact _) fun _ => ?_
  refine .ite (.error id) (.ite (.error id) (.ite (.error id) ?_))
  exact .bind (validateMaterializedLimits_intact _ _) fun _ => .ok _

theorem materializePath_intact (limits : MaterializeLimits)
    (tenant : String) (handle : Handle) (ancestors : List Handle)
    (path : List (Node Item Patch Settings Digest)) :
    Intact (materializePath codec limits tenant handle ancestors path) := by
  refine .bind (replayStart_intact _ _ _) fun _ => .ite (.error id) ?_
  refine .bind (replay_intact _ _) fun _ => ?_
  refine .bind (validateMaterializedLimits_intact _ _) fun _ => ?_
  refine .ite (.error id) ?_
  split
  · exact .error id
  · exact .ok _

/-- `Materialize` of a stored checkpoint never misses a parent, and it
reports a cycle only where the lineage of the base's snapshot repeats an
ancestor or names one of the checkpoints that were walked. -/
theorem materialize_sound (hsound : Sound graph) {handle : Handle}
    (hstored : (graph.checkpoints.lookup handle).isSome)
    (tenant : String) (now : Int) :
    materialize codec graph tenant handle now ≠ .error .notFound
      ∧ (materialize codec graph tenant handle now = .error .cycle → ¬graph.BaseApart handle) := by
  obtain ⟨node, hnode⟩ := Option.isSome_iff_exists.mp hstored
  obtain ⟨-, hne, -⟩ := hsound.named handle node hnode
  have hlands : Lands graph handle (walk graph tenant now graph.limits.maxRows.toNat handle [] [] :
        Except (GraphError Fault) _) :=
    walk_lands hsound tenant now _ [] hnode (by simp [Above])
      (List.forall_mem_singleton.mpr .refl)
  unfold materialize
  rw [if_neg hne]
  cases hwalk : (walk graph tenant now graph.limits.maxRows.toNat handle
      [] [] : Except (GraphError Fault) _) with
  | error error =>
    rw [hwalk] at hlands
    refine ⟨?_, ?_⟩
    · rintro ⟨⟩
      exact hlands trivial
    · rintro ⟨⟩
      exact absurd trivial hlands
  | ok walked =>
    obtain ⟨seen, path⟩ := walked
    rw [hwalk] at hlands
    obtain ⟨hseen, root, hlast, hroot⟩ := hlands
    have hpath : Intact (materializePath codec graph.limits tenant
        handle (basePrefix graph path) path) :=
      materializePath_intact _ _ _ _ _
    dsimp only
    refine ⟨?_, ?_⟩
    · split
      · rintro ⟨⟩
      · split
        · rintro ⟨⟩
        · exact fun h => hpath _ h trivial
    · intro hcycle happart
      have hloops : loops seen (basePrefix graph path) = false :=
        loops_basePrefix happart hseen hlast hroot
      rw [hloops, if_neg Bool.false_ne_true] at hcycle
      split at hcycle
      · cases hcycle
      · exact hpath _ hcycle trivial

end Materialize

-- ===== runs

section Runs

variable [DecidableEq Digest]

variable (codec) in
/-- The graph that a sequence of writes builds. -/
def graphAfter (limits : MaterializeLimits) (writes : List (Write Item Patch Settings Digest)) :
    CheckpointGraph Item Patch Settings Digest :=
  runAll (Write.run codec) (newCheckpointGraph limits) writes

theorem sound_graphAfter (limits : MaterializeLimits)
    (writes : List (Write Item Patch Settings Digest)) :
    Sound (graphAfter codec limits writes) := by
  refine runAll_invariant ?_ fun write _ graph hsound =>
    (write.run_effect graph).sound hsound
  refine ⟨?_, ?_, ?_, ?_⟩ <;> intro key value h <;> cases h

theorem keeps_runAll (graph : CheckpointGraph Item Patch Settings Digest)
    (writes : List (Write Item Patch Settings Digest)) :
    Keeps graph (runAll (Write.run codec) graph writes) := by
  refine runAll_invariant (fun _ _ hnode => hnode) ?_
  intro write _ graph' hkeeps handle node hnode
  exact (write.run_effect graph').keeps handle node (hkeeps handle node hnode)

variable (codec) in
/-- The integrity of the checkpoint graph, over every sequence of
writes. -/
theorem checkpoint_graph_integrity (limits : MaterializeLimits)
    (writes : List (Write Item Patch Settings Digest)) :
    let graph := graphAfter codec limits writes
    (∀ handle node, graph.checkpoints.lookup handle = some node → Hangs graph node.toCheckpoint)
      ∧ (∀ more, Keeps graph (runAll (Write.run codec) graph more))
      ∧ (∀ handle handle' node node', graph.checkpoints.lookup handle = some node →
        graph.checkpoints.lookup handle' = some node' →
        scopedOperationKey node.tenant node.project node.operationKey
          = scopedOperationKey node'.tenant node'.project node'.operationKey →
        handle = handle')
      ∧ (∀ tenant project operation handle, graph.operations.lookup
          (scopedOperationKey tenant project operation) = some handle →
        ∃ node, graph.checkpoints.lookup handle = some node
          ∧ node.tenant = tenant ∧ node.project = project
          ∧ node.operationKey = operation)
      ∧ (∀ tenant handle now, (graph.checkpoints.lookup handle).isSome →
        materialize codec graph tenant handle now ≠ .error .notFound
          ∧ (materialize codec graph tenant handle now = .error .cycle → ¬graph.BaseApart handle))
      ∧ ∀ write error, (Write.run codec write graph).2 = .error error →
        (Write.run codec write graph).1
            = { graph with base := (Write.run codec write graph).1.base }
          ∧ ((∀ checkpoint now, write ≠ .base checkpoint now) →
            (Write.run codec write graph).1 = graph) := by
  intro graph
  have hsound : Sound graph := sound_graphAfter limits writes
  refine ⟨hsound.hangs, keeps_runAll graph, ?_, ?_, ?_, ?_⟩
  · intro handle handle' node node' hnode hnode' hkey
    exact hsound.operation_inj hnode hnode' hkey
  · intro tenant project operation handle h
    exact hsound.operation_scope h
  · intro tenant handle now hstored
    exact materialize_sound hsound hstored tenant now
  · intro write error hrejected
    have heffect : Effect write graph (write.run codec graph).1
        (write.run codec graph).2 := write.run_effect graph
    rcases heffect.stored with heq | ⟨hok, -⟩
    · refine ⟨heq, ?_⟩
      intro hother
      rcases heffect.based with hbase | ⟨-, checkpoint, now, hwrite⟩
      · rw [heq, hbase]
      · exact absurd hwrite (hother checkpoint now)
    · rw [hrejected] at hok
      cases hok

end Runs

-- ===== samples

/-- A codec of one item, a patch that may be invalid and a model name;
its digests are what they digest. -/
def sampleCodec : Codec Unit Bool String (List String) Unit where
  patchFault := fun invalid => if invalid then some () else none
  encodingFault := fun _ => none
  validateItems := fun _ => .ok []
  settingsFault := fun _ => none
  model := id
  rootModelState := "model"
  applySettingsPatch := fun settings _ => .ok settings
  marshalItems := fun items => .ok (toString items.length)
  marshalPatch := fun invalid => .ok (toString invalid)
  canonicalJson := fun data _ => .ok data
  requestHash := id
  snapshotHash := fun _ settings _ lineage => settings :: lineage

/-- A checkpoint of one tenant, named like its operation. -/
def sampleCheckpoint (handle : Handle) (parent : Option Handle) :
    Checkpoint Unit Bool String (List String) :=
  ⟨handle, "tenant", "", parent, handle, [()], [], false, 0, none, none⟩

/-- A base with these ancestors. -/
def sampleBase (invalid : Bool) (handle : Handle) (ancestors : List Handle) :
    Checkpoint Unit Bool String (List String) :=
  { sampleCheckpoint handle none with
    settingsPatch := invalid
    depth := ancestors.length
    snapshot := some ⟨[], "model", ancestors.length, ancestors ++ [handle],
      "model" :: (ancestors ++ [handle])⟩ }

def sampleLimits : MaterializeLimits := ⟨0, 0, 0, 0⟩

/-- A root, its child, and a base that stands for two ancestors. -/
def sampleWrites : List (Write Unit Bool String (List String)) :=
  [.root (sampleCheckpoint "a" none) 0, .child (sampleCheckpoint "b" (some "a")) false 0 0,
    .base (sampleBase false "e" ["c", "d"]) 0]

theorem sample_graph_integrity : ∃ node, (graphAfter sampleCodec sampleLimits
        sampleWrites).checkpoints.lookup "b" = some node
      ∧ Hangs (graphAfter sampleCodec sampleLimits sampleWrites) node.toCheckpoint
      ∧ materialize sampleCodec (graphAfter sampleCodec sampleLimits sampleWrites) "tenant" "b" 0
        ≠ .error .notFound := by
  obtain ⟨hhangs, -, -, -, hmaterialize, -⟩ :=
    checkpoint_graph_integrity sampleCodec sampleLimits sampleWrites
  have hstored : ((graphAfter sampleCodec sampleLimits
      sampleWrites).checkpoints.lookup "b").isSome := by decide +kernel
  obtain ⟨node, hnode⟩ := Option.isSome_iff_exists.mp hstored
  exact ⟨node, hnode, hhangs "b" node hnode, (hmaterialize "tenant" "b" 0 hstored).1⟩

/-- A base that names an ancestor twice is accepted, and `Materialize`
reports a cycle; a rejected base stays the base of the graph. -/
theorem base_reports_cycle : ((graphAfter sampleCodec sampleLimits
          [.base (sampleBase false "c" ["a", "a"]) 0]
        ).checkpoints.lookup "c").isSome
      ∧ (materialize sampleCodec (graphAfter sampleCodec sampleLimits
          [.base (sampleBase false "c" ["a", "a"]) 0]) "tenant" "c" 0
        matches .error .cycle)
      ∧ ((Write.run sampleCodec (.base (sampleBase true "a" []) 0)
          (newCheckpointGraph sampleLimits)).2 matches .error (.fault ()))
      ∧ (Write.run sampleCodec (.base (sampleBase true "a" []) 0)
          (newCheckpointGraph sampleLimits)).1.base = "a"
      ∧ (newCheckpointGraph sampleLimits :
          CheckpointGraph Unit Bool String (List String)).base = "" := by
  decide +kernel

end LlmTemporalWorker.State
