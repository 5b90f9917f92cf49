import AnchorStateMachine.Library.Ancestry
import AnchorStateMachine.Moho.CrashReplay
import AnchorStateMachine.Moho.ExportProof
import AnchorStateMachine.Moho.HashIndex

/-! The stored entries against the chain of the worker. They are kept by height and a block rewrites
those from its own height on, so they follow the chain as long as what lies below is of the same
chain. -/

namespace Asm
open Outcome SledExportEntriesDb

/-! ### What blocks export -/

/-- Grouping the entries of a block keeps those of a container in order. -/
theorem exportsOf_eq {logs : List AsmLogEntry} (fits : ∀ log ∈ logs, log.FitsContainers)
    (id : ContainerId) :
    exportsOf logs id = exportLeaves logs id := by
  induction logs using List.reverseRecOn with
  | nil => rfl
  | append_singleton logs log ih =>
    have before := ih fun log mem => fits log (List.mem_append_left _ mem)
    have fit := fits log (List.mem_append_right _ (.head _))
    rw [exportsOf] at before ⊢
    rw [exportEntriesFromLogs, List.foldl_append, ← exportEntriesFromLogs, exportLeaves,
      List.filterMap_append, ← exportLeaves, ← before, List.foldl_cons, List.foldl_nil]
    cases log with
    | newExportEntry containerId entryData =>
      have same : id = Fin.ofNat 256 containerId ↔ containerId = id := by
        rw [Fin.ext_iff, Fin.val_ofNat, Nat.mod_eq_of_lt fit, eq_comm]
      simp only [OrderedTree.get_insert, List.filterMap_cons]
      split_ifs with here there there
      · subst here
        simp
      · exact absurd (same.mp here) there
      · exact absurd (same.mpr there) here
      · simp
    | _ => exact (List.append_nil _).symm

namespace AsmStateProvider

variable [MerkleMountainRange] (provider : AsmStateProvider)

def parentOf (block : L1BlockCommitment) :
    Option L1BlockCommitment := (provider.getParentBlock block).toOption

theorem parentOf_graded : Ancestry.Graded provider.parentOf L1BlockCommitment.height :=
  fun _ _ isParent => getParentBlock_height (toOption_some isParent)

/-- The leaves that blocks export to a container, in the order of the blocks. -/
def exportsAlong (blocks : List L1BlockCommitment) (id : ContainerId) : List Buf32 :=
  blocks.flatMap fun block => exportLeaves ((provider.getAnchorLogs block).getD []) id

theorem exportsAlong_concat {block : L1BlockCommitment} {logs : List AsmLogEntry}
    (isLogs : provider.getAnchorLogs block = some logs) (past : List L1BlockCommitment)
    (id : ContainerId) :
    provider.exportsAlong (past ++ [block]) id =
      provider.exportsAlong past id ++ exportLeaves logs id := by
  rw [exportsAlong, List.flatMap_append, List.flatMap_singleton, isLogs]
  rfl

/-- The same leaves, each at the height of its block. -/
def pairsAlong (blocks : List L1BlockCommitment) (id : ContainerId) : List (Nat × Buf32) :=
  blocks.flatMap fun block => (provider.exportsAlong [block] id).map (block.height, ·)

theorem pairsAlong_leaves (blocks : List L1BlockCommitment) (id : ContainerId) :
    (provider.pairsAlong blocks id).map Prod.snd = provider.exportsAlong blocks id := by
  simp [pairsAlong, exportsAlong, List.map_flatMap, Function.comp_def]

theorem mem_pairsAlong {blocks : List L1BlockCommitment} {id : ContainerId} {pair : Nat × Buf32}
    (mem : pair ∈ provider.pairsAlong blocks id) : ∃ block ∈ blocks, pair.1 = block.height := by
  obtain ⟨block, isBlock, mem⟩ := List.mem_flatMap.mp mem
  obtain ⟨_, -, rfl⟩ := List.mem_map.mp mem
  exact ⟨block, isBlock, rfl⟩

variable {root parent tip : L1BlockCommitment} {below above : List L1BlockCommitment}

theorem pairsAlong_lt (line : Ancestry.Line provider.parentOf root below parent) (id : ContainerId) :
    ∀ pair ∈ provider.pairsAlong below id, pair.1 < parent.height + 1 := by
  intro pair mem
  obtain ⟨block, isBlock, isHeight⟩ := provider.mem_pairsAlong mem
  have := line.height_le provider.parentOf_graded block isBlock
  omega

theorem le_pairsAlong (line : Ancestry.Line provider.parentOf root below parent)
    (onto : Ancestry.Line provider.parentOf root (below ++ above) tip) (id : ContainerId) :
    ∀ pair ∈ provider.pairsAlong above id, parent.height + 1 ≤ pair.1 := by
  intro pair mem
  obtain ⟨block, isBlock, isHeight⟩ := provider.mem_pairsAlong mem
  have higher := onto.lt_height provider.parentOf_graded block isBlock
  rw [← line.height_eq provider.parentOf_graded] at higher
  omega

/-- The height of a child of a block on a line cuts what the line exports at that block. -/
theorem pairsAlong_cut (line : Ancestry.Line provider.parentOf root below parent)
    (onto : Ancestry.Line provider.parentOf root (below ++ above) tip) (id : ContainerId) :
    (provider.pairsAlong (below ++ above) id).filter (fun pair => pair.1 < parent.height + 1) =
        provider.pairsAlong below id ∧
      (provider.pairsAlong (below ++ above) id).filter (fun pair => parent.height + 1 ≤ pair.1) =
        provider.pairsAlong above id := by
  have lower := provider.pairsAlong_lt line id
  have upper := provider.le_pairsAlong line onto id
  rw [pairsAlong, List.flatMap_append, ← pairsAlong, ← pairsAlong, List.filter_append, List.filter_append]
  constructor
  · rw [List.filter_eq_self.mpr (by simpa using lower), List.filter_eq_nil_iff.mpr (by simpa using upper),
      List.append_nil]
  · rw [List.filter_eq_nil_iff.mpr (by simpa using lower), List.filter_eq_self.mpr (by simpa using upper),
      List.nil_append]

end AsmStateProvider

/-! ### What the store holds by height -/

/-- The stored leaves of a container whose height passes a test. -/
def SledExportEntriesDb.leavesWhere (db : SledExportEntriesDb) (id : ContainerId)
    (test : Nat → Bool) : List Buf32 :=
  (List.range (db.numEntries id)).filterMap fun mmrIndex =>
    match db.entryHeight id mmrIndex with
    | .ok (some height) => if test height then db.get id mmrIndex else none
    | _ => none

theorem filterMap_range {α β : Type} (xs : List α) (f : α → Option β) :
    (List.range xs.length).filterMap (fun index => xs[index]?.bind f) = xs.filterMap f := by
  induction xs using List.reverseRecOn with
  | nil => rfl
  | append_singleton xs x ih =>
    rw [List.length_append, List.length_singleton, List.range_succ, List.filterMap_append,
      List.filterMap_append, ← ih]
    congr 1
    · refine List.filterMap_congr fun index mem => ?_
      rw [List.getElem?_append_left (List.mem_range.mp mem)]
    · have last : (xs ++ [x])[xs.length]? = some x := List.getElem?_concat_length
      simp only [List.filterMap_cons, last, Option.bind_some, List.filterMap_nil]

theorem leavesWhere_eq {db : SledExportEntriesDb} {id : ContainerId} {pairs : List (Nat × Buf32)}
    (holds : (db.container id).Holds pairs) (test : Nat → Bool) :
    db.leavesWhere id test = (pairs.filter fun pair => test pair.1).map Prod.snd := by
  have length : db.numEntries id = pairs.length :=
    (congrArg List.length holds.leaves).trans (List.length_map _)
  rw [← List.filterMap_eq_map, List.filterMap_filter, ← filterMap_range, leavesWhere, length]
  refine List.filterMap_congr fun mmrIndex mem => ?_
  have inside := List.mem_range.mp mem
  have leaf : db.get id mmrIndex = some pairs[mmrIndex].2 := by
    rw [SledExportEntriesDb.get, show db.nodes id = _ from holds.leaves, List.getElem?_map,
      List.getElem?_eq_getElem inside]
    rfl
  rw [entryHeight_eq holds, List.getElem?_eq_getElem inside, leaf]
  rfl

theorem mem_leavesWhere {db : SledExportEntriesDb} {id : ContainerId} {pairs : List (Nat × Buf32)}
    (holds : (db.container id).Holds pairs) {test : Nat → Bool} {leaf : Buf32} :
    leaf ∈ db.leavesWhere id test ↔ ∃ pair ∈ pairs, test pair.1 = true ∧ pair.2 = leaf := by
  rw [leavesWhere_eq holds, List.mem_map]
  simp only [List.mem_filter, and_assoc]

/-! ### Runs -/

section

variable [MerkleMountainRange] [MohoLibs]

structure MohoCall where
  pre : MohoWorkerServiceState
  block : L1BlockCommitment
  post : MohoWorkerServiceState

/-- Calls that return, one after the other. -/
inductive MohoRun (start : MohoWorkerServiceState) : List MohoCall → MohoWorkerServiceState → Prop
  | start : MohoRun start [] start
  | process {calls : List MohoCall} {pre post : MohoWorkerServiceState} {block : L1BlockCommitment}
      (before : MohoRun start calls pre)
      (processed : (MohoWorkerServiceState.processBlock block).run pre = .ok () post) :
      MohoRun start (calls ++ [⟨pre, block, post⟩]) post

namespace MohoWorkerServiceState

/-- The blocks above genesis, up to a block. -/
abbrev Line (worker : MohoWorkerServiceState) : List L1BlockCommitment → L1BlockCommitment → Prop :=
  Ancestry.Line worker.provider.parentOf worker.genesisBlock

/-- The stored leaves of every container are those along the chain of the current block, and the
accumulator in its state is theirs. -/
def MirrorsExports (worker : MohoWorkerServiceState) : Prop :=
  ∃ past, worker.Line past worker.curBlock ∧ ∀ id : ContainerId,
    worker.stores.exportEntries.nodes id = worker.provider.exportsAlong past id ∧
    exportMmr (worker.provider.exportsAlong past id) =
      some (((findContainer worker.curMoho.exportState id).map ExportContainer.entries).getD
        MohoLibs.emptyExportMmr)

/-- No leaf along the chain of the current block is missed, or has a proof that does not verify. -/
def ProvesExports [ExportProofs] (worker : MohoWorkerServiceState) : Prop :=
  ∀ past, worker.Line past worker.curBlock → ∀ id, ∀ leaf ∈ worker.provider.exportsAlong past id,
    buildExportEntryMmrProof worker.stores worker.curBlock id leaf ≠ .error (.noSuchLeaf id) ∧
    ∀ mmrIndex, buildExportEntryMmrProof worker.stores worker.curBlock id leaf ≠
      .error (.proofDoesNotVerify id mmrIndex worker.curBlock)

end MohoWorkerServiceState

/-- What a container stores below a block are the entries of its parent's chain, and what it stores
from the height of the block on repeats none of them, but for those that the block exports again. -/
def MohoWorkerServiceState.KeepsAbove (worker : MohoWorkerServiceState) (block : L1BlockCommitment)
    (below : List L1BlockCommitment) (id : ContainerId) : Prop :=
  worker.stores.exportEntries.leavesWhere id (· < block.height) = worker.provider.exportsAlong below id ∧
    ∀ leaf ∈ worker.stores.exportEntries.leavesWhere id (· < block.height),
      leaf ∈ worker.stores.exportEntries.leavesWhere id (block.height ≤ ·) →
      leaf ∈ worker.provider.exportsAlong [block] id

def MohoCall.KeepsExports (call : MohoCall) : Prop :=
  ∀ parent below, call.pre.provider.getParentBlock call.block = .ok parent → call.pre.Line below parent →
    ∀ id, call.pre.KeepsAbove call.block below id

/-- The block stands on the chain of the current block, and none of the entries that it replaces repeats
one below, but for those that it exports again. -/
def MohoCall.Follows (call : MohoCall) : Prop :=
  ∃ parent below above, call.pre.provider.getParentBlock call.block = .ok parent ∧
    call.pre.Line below parent ∧ call.pre.Line (below ++ above) call.pre.curBlock ∧
    ∀ id, ∀ leaf ∈ call.pre.provider.exportsAlong below id,
      leaf ∈ call.pre.provider.exportsAlong above id → leaf ∈ call.pre.provider.exportsAlong [call.block] id

theorem MohoCall.keepsExports_iff {call : MohoCall} {parent : L1BlockCommitment}
    {below : List L1BlockCommitment}
    (isParent : call.pre.provider.getParentBlock call.block = .ok parent)
    (line : call.pre.Line below parent) :
    call.KeepsExports ↔ ∀ id, call.pre.KeepsAbove call.block below id := by
  constructor
  · exact fun keeps => keeps parent below isParent line
  · intro keeps parent' below' isParent' line'
    cases isParent.symm.trans isParent'
    rw [line'.unique call.pre.provider.parentOf_graded line]
    exact keeps

/-- What always holds: stored states are folded along their chains, and containers hold entries by
height. -/
structure MohoWorkerServiceState.Tracks (worker : MohoWorkerServiceState) : Prop where
  current : worker.Current
  folded : ∀ block moho, worker.stores.mohoStates.get block = some moho →
    ∃ past, worker.Line past block ∧
    ∀ id : ContainerId, ExportsTo moho.exportState id (worker.provider.exportsAlong past id)
  holds : ∀ id, ∃ pairs, (worker.stores.exportEntries.container id).Holds pairs

/-- The store holds the entries of the chain of the current block. -/
def MohoWorkerServiceState.HoldsChain (worker : MohoWorkerServiceState) : Prop :=
  ∃ past, worker.Line past worker.curBlock ∧ ∀ id,
    (worker.stores.exportEntries.container id).Holds (worker.provider.pairsAlong past id)

/-- What a call does to the store: every container is pruned at the height of the block, and gains
what the block exports to it. -/
structure MohoWorkerServiceState.Rebuilds (pre : MohoWorkerServiceState)
    (block parent : L1BlockCommitment) (below : List L1BlockCommitment)
    (post : MohoWorkerServiceState) : Prop where
  isParent : pre.provider.getParentBlock block = .ok parent
  line : pre.Line below parent
  isProvider : post.provider = pre.provider
  isGenesis : post.genesisBlock = pre.genesisBlock
  isBlock : post.curBlock = block
  exported : ∀ id, pre.provider.exportsAlong (below ++ [block]) id =
    pre.provider.exportsAlong below id ++ pre.provider.exportsAlong [block] id
  containers : ∀ id, ∃ pruned, (pre.stores.exportEntries.container id).Prunes block.height pruned ∧
    post.stores.exportEntries.container id = pruned.append block.height
      (pre.provider.exportsAlong [block] id)

section

variable {pre post : MohoWorkerServiceState} {block parent : L1BlockCommitment}
  {below : List L1BlockCommitment}

theorem MohoWorkerServiceState.Tracks.process (tracks : pre.Tracks)
    (processes : ProcessesBlock pre block post) :
    post.Tracks ∧ ∃ parent below, pre.Rebuilds block parent below post := by
  obtain ⟨folds⟩ := processes
  rename_i logs moho parentMoho parent anchor
  have stored : pre.stores.mohoStates.get parent = some parentMoho :=
    lookup_ok_iff.mp ((tracks.current.parentMoho parent).symm.trans folds.onParent)
  obtain ⟨below, line, exports⟩ := tracks.folded parent parentMoho stored
  have exported := pre.provider.exportsAlong_concat folds.isLogs
  have alone : ∀ id, pre.provider.exportsAlong [block] id = exportLeaves logs id :=
    fun id => exported [] id
  have containers : ∀ id, ∃ pruned, (pre.stores.exportEntries.container id).Prunes block.height pruned ∧
      (Journal.run write (storeExportEntries block logs) pre.stores.exportEntries).container id =
        pruned.append block.height (pre.provider.exportsAlong [block] id) := by
    intro id
    rw [alone, ← exportsOf_eq (pre.provider.fits block logs folds.isLogs)]
    exact container_storeExportEntries pre.stores.exportEntries block logs id
  refine ⟨⟨?_, ?_, ?_⟩, parent, below, folds.isParent, line, rfl, rfl, rfl, fun id => ?_, ?_⟩
  · rw [MohoWorkerServiceState.Current, run_persistBlock, OrderedTree.get_insert, if_pos rfl]
  · intro other state isState
    rw [run_persistBlock, OrderedTree.get_insert] at isState
    split_ifs at isState with same
    · cases isState
      subst same
      refine ⟨below ++ [other], line.child ?_, fun id => ?_⟩
      · rw [AsmStateProvider.parentOf, folds.isParent]
        rfl
      · rw [exported]
        exact (exports id).next folds.folded
    · exact tracks.folded other state isState
  · intro id
    obtain ⟨pairs, holds⟩ := tracks.holds id
    obtain ⟨pruned, prunes, isPost⟩ := containers id
    rw [run_persistBlock]
    refine ⟨_, isPost ▸ (holds.prune prunes).append ?_ _⟩
    intro pair mem
    exact of_decide_eq_true (List.mem_filter.mp mem).2
  · rw [exported, alone]
  · rw [run_persistBlock]
    exact containers

/-- The hash index of a store: every row is right. -/
abbrev MohoWorkerServiceState.IndexesHashes (worker : MohoWorkerServiceState) : Prop :=
  ∀ id, (worker.stores.exportEntries.container id).Indexed

namespace MohoWorkerServiceState.Rebuilds

theorem line_post (rebuilds : pre.Rebuilds block parent below post) :
    post.Line (below ++ [block]) post.curBlock := by
  rw [Line, rebuilds.isProvider, rebuilds.isGenesis, rebuilds.isBlock]
  refine rebuilds.line.child ?_
  rw [AsmStateProvider.parentOf, rebuilds.isParent]
  rfl

theorem keepsExports_iff (rebuilds : pre.Rebuilds block parent below post) :
    MohoCall.KeepsExports ⟨pre, block, post⟩ ↔
    ∀ id, pre.KeepsAbove block below id := MohoCall.keepsExports_iff rebuilds.isParent rebuilds.line

theorem leaves_post (rebuilds : pre.Rebuilds block parent below post) (tracks : pre.Tracks)
    (id : ContainerId) :
    post.stores.exportEntries.nodes id = pre.stores.exportEntries.leavesWhere id (· < block.height) ++
      pre.provider.exportsAlong [block] id := by
  obtain ⟨pairs, holds⟩ := tracks.holds id
  obtain ⟨pruned, prunes, isPost⟩ := rebuilds.containers id
  have leaves := congrArg ContainerView.leaves isPost
  rw [ContainerView.append_leaves, (holds.prune prunes).leaves] at leaves
  exact leaves.trans (by rw [leavesWhere_eq holds])

/-- A call that follows the chain finds the entries below its block, and leaves those of its chain. -/
theorem follows (rebuilds : pre.Rebuilds block parent below post) (held : pre.HoldsChain)
    (follows : MohoCall.Follows ⟨pre, block, post⟩) :
    post.HoldsChain ∧ MohoCall.KeepsExports ⟨pre, block, post⟩ := by
  have graded := pre.provider.parentOf_graded
  obtain ⟨parent', below', above, isParent, line, onto, apart⟩ := follows
  obtain ⟨past, isPast, holds⟩ := held
  cases isParent.symm.trans rebuilds.isParent
  cases line.unique graded rebuilds.line
  cases isPast.unique graded onto
  have lower := pre.provider.pairsAlong_lt line
  have cut := pre.provider.pairsAlong_cut line onto
  rw [← AsmStateProvider.getParentBlock_height isParent] at lower cut
  refine ⟨⟨below ++ [block], rebuilds.line_post, fun id => ?_⟩,
    (MohoCall.keepsExports_iff isParent line).mpr fun id => ?_⟩
  · obtain ⟨pruned, prunes, isPost⟩ := rebuilds.containers id
    have kept := (holds id).prune prunes
    rw [(cut id).1] at kept
    rw [rebuilds.isProvider, AsmStateProvider.pairsAlong, List.flatMap_append, List.flatMap_singleton, isPost]
    exact kept.append (lower id) _
  · rw [MohoWorkerServiceState.KeepsAbove, leavesWhere_eq (holds id), leavesWhere_eq (holds id), (cut id).1,
      (cut id).2, AsmStateProvider.pairsAlong_leaves, AsmStateProvider.pairsAlong_leaves]
    exact ⟨rfl, apart id⟩

/-- The leaves mirror the chain exactly if those below the block are of its parent's chain. -/
theorem mirrors_iff (rebuilds : pre.Rebuilds block parent below post) (before : pre.Tracks)
    (after : post.Tracks) :
    post.MirrorsExports ↔
      ∀ id, pre.stores.exportEntries.leavesWhere id (· < block.height) =
        pre.provider.exportsAlong below id := by
  have leaves : ∀ id, post.stores.exportEntries.nodes id = post.provider.exportsAlong
    (below ++ [block]) id ↔
      pre.stores.exportEntries.leavesWhere id (· < block.height) =
        pre.provider.exportsAlong below id := by
    intro id
    rw [rebuilds.leaves_post before, rebuilds.isProvider, rebuilds.exported, List.append_left_inj]
  constructor
  · rintro ⟨past, line, mirrors⟩ id
    rw [line.unique post.provider.parentOf_graded rebuilds.line_post] at mirrors
    exact (leaves id).mp (mirrors id).1
  · intro same
    obtain ⟨past, line, exports⟩ := after.folded _ _ after.current
    rw [line.unique post.provider.parentOf_graded rebuilds.line_post] at exports
    exact ⟨_, rebuilds.line_post, fun id => ⟨(leaves id).mpr (same id), (exports id).mmr⟩⟩

/-- The index is right again if the block exports what is lost. -/
theorem indexes (rebuilds : pre.Rebuilds block parent below post) (tracks : pre.Tracks)
    (indexes : pre.IndexesHashes)
    (apart : ∀ id, ∀ leaf ∈ pre.stores.exportEntries.leavesWhere id (· < block.height),
      leaf ∈ pre.stores.exportEntries.leavesWhere id (block.height ≤ ·) →
        leaf ∈ pre.provider.exportsAlong [block] id) :
    post.IndexesHashes := by
  intro id
  obtain ⟨pairs, holds⟩ := tracks.holds id
  obtain ⟨pruned, prunes, isPost⟩ := rebuilds.containers id
  rw [isPost]
  refine ContainerView.indexed_append (fun hash absent =>
    ((indexes id hash).prune_iff holds prunes).mpr ?_) _
  rintro ⟨kept, memKept, low, isKept⟩ dropped memDropped high isDropped
  refine absent (apart id hash ((mem_leavesWhere holds).mpr
    ⟨kept, memKept, decide_eq_true low, isKept⟩) ?_)
  exact (mem_leavesWhere holds).mpr ⟨dropped, memDropped, decide_eq_true high, isDropped⟩

variable [ExportProofs]

theorem proves (correct : ExportProofs.Correct) (after : post.Tracks) (mirrors : post.MirrorsExports)
    (indexes : post.IndexesHashes) : post.ProvesExports := by
  intro past line id leaf mem
  obtain ⟨past', line', same⟩ := mirrors
  obtain ⟨past'', line'', exports⟩ := after.folded _ _ after.current
  rw [line'.unique post.provider.parentOf_graded line] at same
  rw [line''.unique post.provider.parentOf_graded line] at exports
  have leaves : (post.stores.exportEntries.container id).leaves =
      post.provider.exportsAlong past id := (same id).1
  obtain ⟨index, found⟩ := Option.ne_none_iff_exists'.mp fun absent =>
    (indexes id leaf).absent_iff.mp absent (leaves ▸ mem)
  obtain ⟨proof, isProof⟩ := buildExportEntryMmrProof_ok correct after.current (exports id) leaves found
    (leaves ▸ ((indexes id leaf index).mp found).1)
  rw [isProof]
  exact ⟨nofun, fun _ => nofun⟩

/-- A leaf that is kept while its repetition is dropped is not found again, unless the block exports
it. -/
theorem apart (rebuilds : pre.Rebuilds block parent below post) (before : pre.Tracks)
    (after : post.Tracks) (indexes : pre.IndexesHashes) (proves : post.ProvesExports)
    (id : ContainerId)
    (same : pre.stores.exportEntries.leavesWhere id (· < block.height) =
      pre.provider.exportsAlong below id) :
    ∀ leaf ∈ pre.stores.exportEntries.leavesWhere id (· < block.height),
      leaf ∈ pre.stores.exportEntries.leavesWhere id (block.height ≤ ·) →
        leaf ∈ pre.provider.exportsAlong [block] id := by
  intro leaf isKept isDropped
  by_contra absent
  obtain ⟨pairs, holds⟩ := before.holds id
  obtain ⟨pruned, prunes, isPost⟩ := rebuilds.containers id
  obtain ⟨dropped, memDropped, high, rfl⟩ := (mem_leavesWhere holds).mp isDropped
  have lost : post.stores.exportEntries.findIndex id dropped.2 = none := by
    show (post.stores.exportEntries.container id).byHash dropped.2 = none
    rw [isPost, ContainerView.append_byHash_of_notMem absent]
    exact (indexes id dropped.2).lost holds prunes memDropped (of_decide_eq_true high)
  obtain ⟨past, line, exports⟩ := after.folded _ _ after.current
  rw [line.unique post.provider.parentOf_graded rebuilds.line_post] at exports
  have onChain : dropped.2 ∈ post.provider.exportsAlong (below ++ [block]) id := by
    rw [rebuilds.isProvider, rebuilds.exported]
    exact List.mem_append_left _ (same ▸ isKept)
  refine (proves _ rebuilds.line_post id dropped.2 onChain).1 ?_
  exact buildExportEntryMmrProof_lost after.current (exports id) (List.ne_nil_of_mem onChain) lost

/-- After a call the entries mirror the chain and are proved exactly if the call keeps them. -/
theorem mirrors_and_proves_iff (rebuilds : pre.Rebuilds block parent below post)
    (correct : ExportProofs.Correct) (before : pre.Tracks) (after : post.Tracks)
    (indexes : pre.IndexesHashes) :
    post.MirrorsExports ∧ post.ProvesExports ↔ MohoCall.KeepsExports ⟨pre, block, post⟩ := by
  rw [rebuilds.keepsExports_iff]
  constructor
  · rintro ⟨mirrors, proves⟩ id
    have same := (rebuilds.mirrors_iff before after).mp mirrors id
    exact ⟨same, rebuilds.apart before after indexes proves id same⟩
  · intro keeps
    have mirrors := (rebuilds.mirrors_iff before after).mpr fun id => (keeps id).1
    exact ⟨mirrors, Rebuilds.proves correct after mirrors
      (rebuilds.indexes before indexes fun id => (keeps id).2)⟩

end MohoWorkerServiceState.Rebuilds

end

/-! ### From the start -/

section

variable {start worker : MohoWorkerServiceState} {calls : List MohoCall}

theorem new_tracks [DecidableEq MohoState] {provider : AsmStateProvider}
    {genesisBlock : L1BlockCommitment} {predicate : PredicateKey} {stores : MohoStores}
    (h : (MohoWorkerServiceState.new provider genesisBlock predicate).run .empty = .ok start stores) :
    start.Tracks ∧ start.IndexesHashes ∧ start.HoldsChain := by
  obtain ⟨_, mid, ensured, h⟩ := Effect.bind_ok h
  obtain ⟨anchor, -, ensured⟩ := Effect.lift_bind_ok (Effect.get_bind_ok ensured)
  cases ensured
  cases h
  have seeded : ∀ block, (MohoStores.empty.write (.mohoState genesisBlock
      (constructGenesisMohoState predicate anchor))).mohoStates.get block =
      if block = genesisBlock then some (constructGenesisMohoState predicate anchor) else none :=
    fun _ => OrderedTree.get_insert
  refine ⟨⟨(seeded _).trans (if_pos rfl), fun block moho stored => ?_, fun id => ⟨[], .empty⟩⟩,
    fun id hash index => ?_, [], .root, fun id => .empty⟩
  · rw [seeded] at stored
    split_ifs at stored with same
    cases stored
    subst same
    exact ⟨[], .root, fun id => exports_genesis id⟩
  · refine iff_of_false nofun fun greatest => ?_
    exact absurd (indicesOf_lt greatest.1) (Nat.not_lt_zero _)

theorem MohoRun.tracks (run : MohoRun start calls worker) (tracks : start.Tracks) : worker.Tracks := by
  induction run with
  | start => exact tracks
  | process before processed ih =>
    exact (ih.process (MohoWorkerServiceState.processBlock_ok_iff.mp processed)).1

theorem MohoRun.mirrors_iff [ExportProofs] (correct : ExportProofs.Correct)
    (run : MohoRun start calls worker) (tracks : start.Tracks) (indexes : start.IndexesHashes) :
    ((∀ call ∈ calls, call.KeepsExports) → worker.IndexesHashes) ∧
      ((∀ call ∈ calls, call.post.MirrorsExports ∧ call.post.ProvesExports) ↔
        ∀ call ∈ calls, call.KeepsExports) := by
  induction run with
  | start => exact ⟨fun _ => indexes, iff_of_true (List.forall_mem_nil _) (List.forall_mem_nil _)⟩
  | process before processed ih =>
    have tracked := before.tracks tracks
    obtain ⟨after, parent, below, rebuilds⟩ :=
      tracked.process (MohoWorkerServiceState.processBlock_ok_iff.mp processed)
    simp only [List.forall_mem_append, List.forall_mem_singleton]
    constructor
    · rintro ⟨earlier, keeps⟩
      exact rebuilds.indexes tracked (ih.1 earlier) fun id => (rebuilds.keepsExports_iff.mp keeps id).2
    · rw [ih.2]
      exact and_congr_right fun earlier =>
        rebuilds.mirrors_and_proves_iff correct tracked after (ih.1 earlier)

theorem MohoRun.follows (run : MohoRun start calls worker) (tracks : start.Tracks)
    (held : start.HoldsChain) (follows : ∀ call ∈ calls, call.Follows) :
    worker.HoldsChain ∧ ∀ call ∈ calls, call.KeepsExports := by
  induction run with
  | start => exact ⟨held, List.forall_mem_nil _⟩
  | process before processed ih =>
    rw [List.forall_mem_append, List.forall_mem_singleton] at follows
    obtain ⟨held, earlier⟩ := ih follows.1
    obtain ⟨-, parent, below, rebuilds⟩ :=
      (before.tracks tracks).process (MohoWorkerServiceState.processBlock_ok_iff.mp processed)
    obtain ⟨held, keeps⟩ := rebuilds.follows held follows.2
    exact ⟨held, List.forall_mem_append.mpr ⟨earlier, List.forall_mem_singleton.mpr keeps⟩⟩

/-- After every call the stored entries mirror the chain of the current block, and each of them is
proved, exactly if every call finds below its block the entries of the parent's chain and loses none
of their rows. It does if every block stands on the chain of the block before it and the blocks that it
replaces repeat no entry. -/
theorem export_index_mirrors_iff [DecidableEq MohoState] [ExportProofs]
    (correct : ExportProofs.Correct) {provider : AsmStateProvider}
    {genesisBlock : L1BlockCommitment} {predicate : PredicateKey} {stores : MohoStores}
    (started : (MohoWorkerServiceState.new provider genesisBlock predicate).run .empty =
      .ok start stores)
    (run : MohoRun start calls worker) :
    ((∀ call ∈ calls, call.post.MirrorsExports ∧ call.post.ProvesExports) ↔
      ∀ call ∈ calls, call.KeepsExports) ∧
    ((∀ call ∈ calls, call.Follows) → ∀ call ∈ calls, call.KeepsExports) := by
  obtain ⟨tracks, indexes, held⟩ := new_tracks started
  exact ⟨(run.mirrors_iff correct tracks indexes).2, fun follows => (run.follows tracks held follows).2⟩

end

end

/-! ### Concrete runs -/

@[reducible] def sampleExportProofs : @ExportProofs sampleUnitMmr sampleExportLibs :=
  letI := sampleUnitMmr
  letI := sampleExportLibs
  { ExportProof := Nat
    numEntries := List.length
    generateProof := fun leaves index => if index < leaves.length then some index else none
    verify := fun (mmr : List Buf32) index leaf => decide (mmr[index]? = some leaf) }

@[reducible] def sampleProofDecidableEq :
    DecidableEq sampleExportProofs.ExportProof := inferInstanceAs (DecidableEq Nat)

section

attribute [local instance] sampleUnitMmr sampleExportLibs sampleExportDecidableEq sampleExportProofs
  sampleProofDecidableEq

theorem sampleExportProofs_correct : ExportProofs.Correct := by
  have whole : ∀ leaves : List Buf32, exportMmr leaves = some leaves := by
    have loop : ∀ leaves start : List Buf32,
        leaves.foldlM (fun entries entry => some (entries ++ [entry])) start =
          some (start ++ leaves) := by
      intro leaves
      induction leaves with
      | nil => exact fun start => by rw [List.append_nil]; rfl
      | cons leaf leaves ih => exact fun start => (ih _).trans (by rw [List.append_assoc]; rfl)
    exact fun leaves => loop leaves []
  intro leaves mmr isMmr
  cases (whole leaves).symm.trans isMmr
  refine ⟨rfl, fun index leaf here => ⟨index, ?_, decide_eq_true here⟩⟩
  exact if_pos (List.getElem?_eq_some_iff.mp here).1

/-- Branches 1, 2, 3, 4 and 11, 12, 13 from genesis; 22 and 32 are on 1, and 22 exports what 1 does.
-/
def sampleTree : AsmStateProvider :=
  sampleProvider [(1, 0, [.fill 5]), (2, 1, [.fill 6]), (3, 2, [.fill 8]), (4, 3, []),
    (11, 0, [.fill 7]), (12, 11, []), (13, 12, []), (22, 1, [.fill 5]), (32, 1, [])]

def sampleBlock (height : Nat) (blkid : UInt8) : L1BlockCommitment := ⟨height, .fill blkid⟩

def sampleProcess (worker : MohoWorkerServiceState) (block : L1BlockCommitment) :
    Option MohoWorkerServiceState :=
  Effect.left ((MohoWorkerServiceState.processBlock block).run worker)

theorem MohoRun.processed {start pre post : MohoWorkerServiceState} {calls : List MohoCall}
    {block : L1BlockCommitment} (before : MohoRun start calls pre)
    (here : sampleProcess pre block = some post) :
    MohoRun start (calls ++ [⟨pre, block, post⟩]) post := by
  obtain ⟨_, processed⟩ := Effect.left_some here
  exact before.process processed

theorem MohoRun.processedAll {start pre post : MohoWorkerServiceState} {calls : List MohoCall}
    {blocks : List L1BlockCommitment} (before : MohoRun start calls pre)
    (here : blocks.foldlM sampleProcess pre = some post) : ∃ calls, MohoRun start calls post := by
  induction blocks generalizing calls pre with
  | nil =>
    cases here
    exact ⟨calls, before⟩
  | cons block blocks ih =>
    rw [List.foldlM_cons, Option.bind_eq_bind, Option.bind_eq_some_iff] at here
    obtain ⟨mid, first, rest⟩ := here
    exact ih (before.processed first) rest

@[irreducible] def sampleMohoStart : MohoWorkerServiceState :=
  (Effect.returned ((MohoWorkerServiceState.new sampleTree ⟨0, .zero⟩ ⟨1, []⟩).run .empty)).get
  (by decide +kernel)

theorem sampleMohoStart_started :
    ∃ stores, (MohoWorkerServiceState.new sampleTree ⟨0, .zero⟩ ⟨1, []⟩).run .empty =
      .ok sampleMohoStart stores :=
  Effect.returned_some (by rw [sampleMohoStart, Option.some_get])

@[irreducible] def sampleMohoFirst : MohoWorkerServiceState :=
  (sampleProcess sampleMohoStart (sampleBlock 1 1)).get (by decide +kernel)

theorem sampleMohoFirst_run :
    MohoRun sampleMohoStart [⟨sampleMohoStart, sampleBlock 1 1, sampleMohoFirst⟩] sampleMohoFirst :=
  MohoRun.start.processed (by rw [sampleMohoFirst, Option.some_get])

@[irreducible] def sampleMohoSecond : MohoWorkerServiceState :=
  (sampleProcess sampleMohoFirst (sampleBlock 2 2)).get (by decide +kernel)

@[irreducible] def sampleMohoFork : MohoWorkerServiceState :=
  (sampleProcess sampleMohoSecond (sampleBlock 1 11)).get (by decide +kernel)

theorem sampleMohoFork_run : MohoRun sampleMohoStart
    [⟨sampleMohoStart, sampleBlock 1 1, sampleMohoFirst⟩,
      ⟨sampleMohoFirst, sampleBlock 2 2, sampleMohoSecond⟩,
      ⟨sampleMohoSecond, sampleBlock 1 11, sampleMohoFork⟩] sampleMohoFork := by
  have second : sampleProcess sampleMohoFirst (sampleBlock 2 2) = some sampleMohoSecond := by
    rw [sampleMohoSecond, Option.some_get]
  have fork : sampleProcess sampleMohoSecond (sampleBlock 1 11) = some sampleMohoFork := by
    rw [sampleMohoFork, Option.some_get]
  exact (sampleMohoFirst_run.processed second).processed fork

theorem export_index_mirrors_iff_sample : sampleMohoFork.curBlock = sampleBlock 1 11 ∧
    sampleMohoFork.MirrorsExports ∧ sampleMohoFork.ProvesExports := by
  obtain ⟨_, started⟩ := sampleMohoStart_started
  have law := export_index_mirrors_iff sampleExportProofs_correct started sampleMohoFork_run
  refine ⟨by decide +kernel, law.1.mpr (law.2 ?_) _ (.tail _ (.tail _ (.head _)))⟩
  rw [List.forall_mem_cons, List.forall_mem_cons, List.forall_mem_singleton]
  refine ⟨⟨_, [], [], ?_, .root, ?_, by decide +kernel⟩,
    ⟨sampleBlock 1 1, [sampleBlock 1 1], [], by decide +kernel, ?_, ?_, by decide +kernel⟩,
    ⟨_, [], [sampleBlock 1 1, sampleBlock 2 2], ?_, .root, ?_, by decide +kernel⟩⟩
  · decide +kernel
  · rw [show sampleMohoStart.curBlock = sampleMohoStart.genesisBlock by decide +kernel]
    exact .root
  · exact Ancestry.Line.child .root (by decide +kernel)
  · rw [show sampleMohoFirst.curBlock = sampleBlock 1 1 by decide +kernel]
    exact Ancestry.Line.child .root (by decide +kernel)
  · decide +kernel
  · rw [show sampleMohoSecond.curBlock = sampleBlock 2 2 by decide +kernel]
    have line : sampleMohoSecond.Line [sampleBlock 1 1] (sampleBlock 1 1) :=
      Ancestry.Line.child .root (by decide +kernel)
    exact line.child (by decide +kernel)

@[irreducible] def sampleMohoBack : MohoWorkerServiceState :=
  ([sampleBlock 2 12, sampleBlock 3 13, sampleBlock 3 3, sampleBlock 4 4].foldlM sampleProcess
    sampleMohoFork).get
    (by decide +kernel)

def sampleMohoChain :
    List L1BlockCommitment := [sampleBlock 1 1, sampleBlock 2 2, sampleBlock 3 3, sampleBlock 4 4]

@[irreducible] def sampleMohoLost : MohoWorkerServiceState :=
  ([sampleBlock 2 22, sampleBlock 2 32].foldlM sampleProcess sampleMohoFirst).get (by decide +kernel)

/-- Back on a branch that another one has cut, the stored leaves are not those of the chain: a proof
of a leaf below is refused. And where a replaced block repeats an earlier leaf, the leaves are right
but the earlier one is not found any more. -/
theorem export_index_stale :
    (∃ calls, MohoRun sampleMohoStart calls sampleMohoBack ∧ sampleMohoBack.curBlock = sampleBlock 4 4 ∧
      sampleMohoBack.Line sampleMohoChain (sampleBlock 4 4) ∧
      sampleMohoBack.stores.exportEntries.nodes 0 = [.fill 7, .fill 8] ∧
      sampleMohoBack.provider.exportsAlong sampleMohoChain 0 = [.fill 5, .fill 6, .fill 8] ∧
      buildExportEntryMmrProof sampleMohoBack.stores (sampleBlock 4 4) 0 (.fill 5) =
        .error (.noSuchLeaf 0) ∧
      ¬ sampleMohoBack.MirrorsExports ∧ ¬ sampleMohoBack.ProvesExports) ∧
    ∃ calls, MohoRun sampleMohoStart calls sampleMohoLost ∧ sampleMohoLost.curBlock = sampleBlock 2 32 ∧
      sampleMohoLost.Line [sampleBlock 1 1, sampleBlock 2 32] (sampleBlock 2 32) ∧
      sampleMohoLost.stores.exportEntries.nodes 0 = [.fill 5] ∧
      sampleMohoLost.provider.exportsAlong [sampleBlock 1 1, sampleBlock 2 32] 0 = [.fill 5] ∧
      buildExportEntryMmrProof sampleMohoLost.stores (sampleBlock 2 32) 0 (.fill 5) =
        .error (.noSuchLeaf 0) ∧
      ¬ sampleMohoLost.ProvesExports := by
  constructor
  · have back : ([sampleBlock 2 12, sampleBlock 3 13, sampleBlock 3 3, sampleBlock 4 4].foldlM
      sampleProcess
        sampleMohoFork) = some sampleMohoBack := by rw [sampleMohoBack, Option.some_get]
    obtain ⟨calls, run⟩ := sampleMohoFork_run.processedAll back
    have parents : sampleMohoBack.provider.parentOf (sampleBlock 1 1) =
      some sampleMohoBack.genesisBlock ∧
        sampleMohoBack.provider.parentOf (sampleBlock 2 2) = some (sampleBlock 1 1) ∧
        sampleMohoBack.provider.parentOf (sampleBlock 3 3) = some (sampleBlock 2 2) ∧
        sampleMohoBack.provider.parentOf (sampleBlock 4 4) = some (sampleBlock 3 3) := by decide +kernel
    have line : sampleMohoBack.Line sampleMohoChain (sampleBlock 4 4) :=
      (((Ancestry.Line.root.child parents.1).child parents.2.1).child parents.2.2.1).child parents.2.2.2
    obtain ⟨isTip, leaves, exports, refused⟩ : sampleMohoBack.curBlock = sampleBlock 4 4 ∧
        sampleMohoBack.stores.exportEntries.nodes 0 = [.fill 7, .fill 8] ∧
        sampleMohoBack.provider.exportsAlong sampleMohoChain 0 = [.fill 5, .fill 6, .fill 8] ∧
        buildExportEntryMmrProof sampleMohoBack.stores (sampleBlock 4 4) 0 (.fill 5) =
          .error (.noSuchLeaf 0) := by
      decide +kernel
    refine ⟨calls, run, isTip, line, leaves, exports, refused, ?_, ?_⟩
    · rintro ⟨past, line', mirrors⟩
      rw [isTip] at line'
      have same := (mirrors 0).1
      rw [line'.unique sampleMohoBack.provider.parentOf_graded line, leaves, exports] at same
      exact absurd same (by decide)
    · intro proves
      rw [MohoWorkerServiceState.ProvesExports, isTip] at proves
      exact (proves _ line 0 (.fill 5) (exports ▸ by decide)).1 refused
  · have lost : [sampleBlock 2 22, sampleBlock 2 32].foldlM sampleProcess sampleMohoFirst =
      some sampleMohoLost := by
      rw [sampleMohoLost, Option.some_get]
    obtain ⟨calls, run⟩ := sampleMohoFirst_run.processedAll lost
    have parents : sampleMohoLost.provider.parentOf (sampleBlock 1 1) =
      some sampleMohoLost.genesisBlock ∧
        sampleMohoLost.provider.parentOf (sampleBlock 2 32) = some (sampleBlock 1 1) := by decide +kernel
    have line : sampleMohoLost.Line [sampleBlock 1 1, sampleBlock 2 32] (sampleBlock 2 32) :=
      (Ancestry.Line.root.child parents.1).child parents.2
    obtain ⟨isTip, leaves, exports, refused⟩ : sampleMohoLost.curBlock = sampleBlock 2 32 ∧
        sampleMohoLost.stores.exportEntries.nodes 0 = [.fill 5] ∧
        sampleMohoLost.provider.exportsAlong [sampleBlock 1 1, sampleBlock 2 32] 0 = [.fill 5] ∧
        buildExportEntryMmrProof sampleMohoLost.stores (sampleBlock 2 32) 0 (.fill 5) =
          .error (.noSuchLeaf 0) := by
      decide +kernel
    refine ⟨calls, run, isTip, line, leaves, exports, refused, ?_⟩
    intro proves
    rw [MohoWorkerServiceState.ProvesExports, isTip] at proves
    exact (proves _ line 0 (.fill 5) (exports ▸ by decide)).1 refused

end

end Asm
