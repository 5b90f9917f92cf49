import AnchorStateMachine.Worker.Authority
import AnchorStateMachine.Worker.History

/-! The stored accumulator against the chain of the worker. Its leaves are kept by height and a call
rewrites those above its base, so they follow the chain as long as every base is on it. -/

namespace Asm
open Outcome

/-! ### Leaves -/

namespace ManifestMmr

variable [MerkleMountainRange] {mmr later : ManifestMmr} {index height : Nat} {hash : Buf32}

theorem putLeaf_ok (h : mmr.putLeaf height hash = .ok later) :
    later.seed = mmr.seed ∧ later.leaves.take (height - mmr.seedCount + 1) =
      mmr.leaves.take (height - mmr.seedCount) ++ [hash] := by
  unfold putLeaf leafCount at h
  split at h
  · cases h
  · rename_i bounds
    split at h
    · rename_i atEnd
      cases h
      have index : height - mmr.seedCount = mmr.leaves.length := by omega
      rw [index, List.take_length, List.take_of_length_le (by simp)]
      exact ⟨rfl, rfl⟩
    · cases h
      have inside : height - mmr.seedCount < mmr.leaves.length := by omega
      refine ⟨rfl, ?_⟩
      rw [List.take_add_one, List.take_set_of_le (Nat.le_refl _), List.getElem?_set_self inside]
      rfl

theorem getLeaf_iff : mmr.getLeaf index = .ok hash ↔
    mmr.seedCount ≤ index ∧ mmr.leaves[index - mmr.seedCount]? = some hash := by
  unfold getLeaf
  split
  · rename_i seeded
    exact ⟨nofun, fun ⟨later, _⟩ => absurd seeded (Nat.not_lt.mpr later)⟩
  · rename_i later
    rw [and_iff_right (Nat.le_of_not_lt later)]
    split
    · rename_i absent
      rw [absent]
      exact ⟨nofun, nofun⟩
    · rename_i found
      rw [found, Except.ok.injEq, Option.some.injEq]

theorem generateProofAt_ok [StoredMmr] {atLeafCount : Nat} {proof : MerkleProof}
    (h : mmr.generateProofAt index atLeafCount = .ok proof) :
    index < atLeafCount ∧ ∃ seed, mmr.seed = some seed ∧
      StoredMmr.generateProof seed (mmr.leaves.take (atLeafCount - mmr.seedCount)) index =
        some proof := by
  unfold generateProofAt at h
  split at h
  · cases h
  · rename_i bounds
    split at h
    · cases h
    · rename_i generated
      cases h
      exact ⟨by omega, Option.bind_eq_some_iff.mp generated⟩

end ManifestMmr

/-- Proofs are correct: the accumulator that grew from the seed by the leaves accepts the proof of
each. -/
def StoredMmr.Correct [MerkleMountainRange] [StoredMmr] : Prop :=
  ∀ (seed mmr : Mmr) (leaves : List Buf32) (index : Nat) (proof : MerkleProof) (hash : Buf32),
    leaves.foldlM MerkleMountainRange.addLeaf seed = some mmr →
    StoredMmr.generateProof seed leaves index = some proof →
      MerkleMountainRange.numEntries seed ≤ index →
    leaves[index - MerkleMountainRange.numEntries seed]? = some hash →
    MerkleMountainRange.verify mmr proof hash = true

section

variable [AsmLibs]

/-- The leaf of every height up to the tip is the hash of the manifest of the tip's ancestor there. -/
def Mirrors (worker : AsmWorkerServiceState) : Prop :=
  ∀ height, worker.genesisHeight < height → height ≤ worker.blkid.height → ∃ ancestor manifest,
    Ancestry.ancestor worker.context.l1.parentOf (worker.blkid.height - height) worker.blkid =
      some ancestor ∧
    worker.context.getManifest ancestor = .ok manifest ∧
    worker.context.mmr.getLeaf height = .ok (AsmLibs.manifestHash manifest)

/-- Whatever is resolved at the size of the accumulator of the tip verifies against it. -/
def Resolves [StoredMmr] (worker : AsmWorkerServiceState) : Prop :=
  let accumulator := worker.anchor.chainView.historyAccumulator
  ∀ requests auxData, AuxDataResolver.resolve worker.context
    (MerkleMountainRange.numEntries accumulator) requests =
      .ok auxData →
    ∀ item ∈ auxData.manifestHashes, MerkleMountainRange.verify accumulator item.proof item.hash = true

/-- No two stored manifests have one hash. -/
def WorkerContext.DistinctHashes (context : WorkerContext) : Prop :=
  ∀ manifest ∈ context.manifests, ∀ other ∈ context.manifests,
    AsmLibs.manifestHash manifest = AsmLibs.manifestHash other → manifest = other

/-! ### Chains and leaves -/

variable {d : Deployment} {context : WorkerContext}

namespace Recorded

variable {manifests : List AsmManifest} {anchor : AnchorState}

theorem history (recorded : Recorded d context manifests anchor) :
    (manifests.map AsmLibs.manifestHash).foldlM MerkleMountainRange.addLeaf
      d.genesis.chainView.historyAccumulator = some anchor.chainView.historyAccumulator := by
  induction recorded with
  | genesis => rfl
  | block before stored kept found resolved ran ih =>
    rw [List.map_append, List.foldlM_append, ih, List.map_singleton]
    show (List.foldlM MerkleMountainRange.addLeaf _ [_] : Option Mmr) = _
    rw [List.foldlM_cons, (Deployment.steps resolved ran).history]
    rfl

theorem entries (aligned : MerkleMountainRange.numEntries d.genesis.chainView.historyAccumulator =
      d.genesis.lastProcessedBlock.height + 1) (recorded : Recorded d context manifests anchor) :
    MerkleMountainRange.numEntries anchor.chainView.historyAccumulator =
      anchor.lastProcessedBlock.height + 1 := by
  cases recorded with
  | genesis => exact aligned
  | block before stored kept found resolved ran => exact (Deployment.steps resolved ran).entries

theorem ancestor (recorded : Recorded d context manifests anchor) {index : Nat} {manifest : AsmManifest}
    (here : manifests[index]? = some manifest) :
    Ancestry.ancestor d.l1.parentOf (manifests.length - (index + 1)) anchor.lastProcessedBlock =
      some manifest.block := by
  have line := recorded.line
  rw [← List.take_append_drop (index + 1) manifests, List.map_append] at line
  obtain ⟨block, reaches, line⟩ := line.ancestor_append
  rw [List.take_add_one, here, Option.toList_some, List.map_append, List.map_singleton] at line
  rw [List.length_map, List.length_drop] at reaches
  rw [reaches, line.concat.1]

theorem getManifest (store : Stored d context) (recorded : Recorded d context manifests anchor)
    {manifest : AsmManifest} (mem : manifest ∈ manifests) :
    context.getManifest manifest.block = .ok manifest := by
  have kept := recorded.manifests_kept manifest mem
  rw [WorkerContext.getManifest, (Keyed.get_iff AsmManifest.block store.manifestKeys).mpr ⟨kept, rfl⟩]

theorem earlier {past later : List AsmManifest} (recorded : Recorded d context (past ++ later) anchor) :
    ∃ ancestor, Recorded d context past ancestor := by
  induction later using List.reverseRecOn generalizing anchor with
  | nil =>
    rw [List.append_nil] at recorded
    exact ⟨anchor, recorded⟩
  | append_singleton later manifest ih =>
    generalize isConcat : past ++ (later ++ [manifest]) = manifests at recorded
    cases recorded with
    | genesis => simp at isConcat
    | block before stored kept found resolved ran =>
      rw [← List.append_assoc] at isConcat
      obtain ⟨rfl, -⟩ := List.append_inj' isConcat rfl
      exact ih before

theorem parent_stored (store : Stored d context) (recorded : Recorded d context manifests anchor)
    {block : L1BlockCommitment} (isParent : d.l1.parentOf anchor.lastProcessedBlock = some block)
    (above : d.genesis.lastProcessedBlock.height ≤ block.height) :
    ∃ parent ∈ context.anchors, parent.lastProcessedBlock = block := by
  have height := d.l1.parentOf_graded _ _ isParent
  cases recorded with
  | genesis => omega
  | block before stored kept found resolved ran =>
    rw [(Deployment.steps resolved ran).isParent found] at isParent
    cases isParent
    exact ⟨_, before.mem store, rfl⟩

end Recorded

/-! ### One call -/

/-- A worker whose accumulator is seeded, at an anchor that nothing stored builds on. -/
structure Indexed (d : Deployment) (worker : AsmWorkerServiceState) : Prop extends Tracks d worker where
  seed : worker.context.mmr.seed = some d.genesis.chainView.historyAccumulator
  childless : ∀ anchor ∈ worker.context.anchors,
    d.l1.parentOf anchor.lastProcessedBlock ≠ some worker.blkid

theorem Indexed.fresh [DecidableEq AnchorState] {start : AsmWorkerServiceState}
    (started : d.Starts d.emptyStores start) : Indexed d start ∧ Mirrors start := by
  obtain ⟨tracks, anchors, atGenesis, mmr⟩ := Tracks.fresh started
  have tip := tracks.blkid
  rw [atGenesis] at tip
  refine ⟨⟨tracks, by rw [mmr], fun anchor mem isParent => ?_⟩, fun height above below => ?_⟩
  · rw [anchors, List.mem_singleton] at mem
    rw [mem, tip] at isParent
    have := d.l1.parentOf_graded _ _ isParent
    omega
  · rw [tracks.genesisHeight] at above
    rw [tip] at below
    omega

variable (aligned : MerkleMountainRange.numEntries d.genesis.chainView.historyAccumulator =
  d.genesis.lastProcessedBlock.height + 1)

theorem ManifestMmr.seedCount_eq {mmr : ManifestMmr} {seed : Mmr} (isSeed : mmr.seed = some seed) :
    mmr.seedCount = MerkleMountainRange.numEntries seed := by
  rw [seedCount, isSeed]
  rfl

namespace Indexed

variable {worker : AsmWorkerServiceState} {manifests : List AsmManifest}

/-- Leaves that start with the chain of the tip start with that of another anchor exactly if the tip
descends from it. -/
theorem starts_iff (indexed : Indexed d worker) (distinct : worker.context.DistinctHashes)
    (atTip : Recorded d worker.context manifests worker.anchor) {below : List AsmManifest}
    {anchor : AnchorState} (recorded : Recorded d worker.context below anchor)
    (starts : manifests.map AsmLibs.manifestHash <+: worker.context.mmr.leaves) :
    below.map AsmLibs.manifestHash <+: worker.context.mmr.leaves ↔
      ∃ k, Ancestry.ancestor d.l1.parentOf k worker.blkid = some anchor.lastProcessedBlock := by
  rw [indexed.blkid, ← recorded.line.prefix_iff d.l1.parentOf_graded atTip.line]
  constructor
  · intro other
    rcases List.prefix_or_prefix_of_prefix other starts with shorter | longer
    · refine (Keyed.prefix_of_keys _ (fun _ mem _ mem' => ?_) shorter).map _
      exact distinct _ (recorded.manifests_kept _ mem) _ (atTip.manifests_kept _ mem')
    · obtain ⟨rest, rfl⟩ := Keyed.prefix_of_keys _
        (fun _ mem _ mem' => distinct _ (atTip.manifests_kept _ mem) _
        (recorded.manifests_kept _ mem')) longer
      cases rest with
      | nil => rw [List.append_nil]
      | cons manifest rest =>
        -- The next anchor on the way would be a stored child of the tip.
        rw [List.append_cons] at recorded
        obtain ⟨child, recorded⟩ := recorded.earlier
        have line := recorded.line
        rw [List.map_append, List.map_singleton] at line
        obtain ⟨-, parent, isParent, line⟩ := line.concat
        rw [line.node_eq atTip.line, ← indexed.blkid] at isParent
        exact absurd isParent (indexed.childless child (recorded.mem indexed.store))
  · intro ancestor
    refine List.IsPrefix.trans (List.IsPrefix.map _ ?_) starts
    refine Keyed.prefix_of_keys AsmManifest.block (fun _ mem _ mem' => ?_) ancestor
    exact List.inj_on_of_nodup_map indexed.store.manifestKeys (recorded.manifests_kept _ mem)
      (atTip.manifests_kept _ mem')

include aligned

/-- The leaves mirror the chain exactly if they start with the hashes of its manifests. -/
theorem mirrors_iff (indexed : Indexed d worker)
    (recorded : Recorded d worker.context manifests worker.anchor) :
    Mirrors worker ↔ manifests.map AsmLibs.manifestHash <+: worker.context.mmr.leaves := by
  have height := recorded.height_eq
  have seeded := (ManifestMmr.seedCount_eq indexed.seed).trans aligned
  rw [List.prefix_iff_getElem?]
  unfold Mirrors
  rw [indexed.store.l1, indexed.genesisHeight, indexed.blkid]
  constructor
  · intro mirrors index inside
    rw [List.length_map] at inside
    obtain ⟨block, manifest, reaches, got, leaf⟩ :=
      mirrors (d.genesis.lastProcessedBlock.height + (index + 1)) (by omega) (by omega)
    have here := List.getElem?_eq_getElem inside
    rw [show worker.anchor.lastProcessedBlock.height -
      (d.genesis.lastProcessedBlock.height + (index + 1)) =
      manifests.length - (index + 1) by omega, recorded.ancestor here] at reaches
    cases reaches
    rw [recorded.getManifest indexed.store (List.getElem_mem inside)] at got
    cases got
    obtain ⟨-, leaf⟩ := ManifestMmr.getLeaf_iff.mp leaf
    rw [seeded, show d.genesis.lastProcessedBlock.height + (index + 1) -
      (d.genesis.lastProcessedBlock.height + 1) = index by omega] at leaf
    rw [leaf, List.getElem_map]
  · intro starts block above below
    obtain ⟨index, rfl⟩ : ∃ index, block = d.genesis.lastProcessedBlock.height + (index + 1) :=
      ⟨block - d.genesis.lastProcessedBlock.height - 1, by omega⟩
    have inside : index < manifests.length := by omega
    have leaf := starts index (by rwa [List.length_map])
    rw [List.getElem_map] at leaf
    refine ⟨_, _, ?_, recorded.getManifest indexed.store (List.getElem_mem inside),
      ManifestMmr.getLeaf_iff.mpr ⟨by omega, ?_⟩⟩
    · rw [show worker.anchor.lastProcessedBlock.height -
        (d.genesis.lastProcessedBlock.height + (index + 1)) =
        manifests.length - (index + 1) by omega]
      exact recorded.ancestor (List.getElem?_eq_getElem inside)
    · rw [seeded, show d.genesis.lastProcessedBlock.height + (index + 1) -
        (d.genesis.lastProcessedBlock.height + 1) = index by omega]
      exact leaf

variable [StoredMmr]

theorem resolves (proofs : StoredMmr.Correct) (indexed : Indexed d worker) (mirrors : Mirrors worker) :
    Resolves worker := by
  obtain ⟨manifests, recorded⟩ := indexed.store.recorded _ indexed.anchor
  have height := recorded.height_eq
  have seeded := ManifestMmr.seedCount_eq indexed.seed
  have starts := (indexed.mirrors_iff aligned recorded).mp mirrors
  have hashes : worker.context.mmr.leaves.take manifests.length =
      manifests.map AsmLibs.manifestHash := by
    rw [List.prefix_iff_eq_take.mp starts, List.length_map]
  intro requests auxData resolved item mem
  obtain ⟨_, -, resolved⟩ := bind_ok resolved
  obtain ⟨items, isItems, resolved⟩ := bind_ok resolved
  cases pure_ok resolved
  obtain ⟨index, -, isItem⟩ := mapM_mem isItems mem
  obtain ⟨hash, leaf, isItem⟩ := bind_ok isItem
  obtain ⟨proof, proved, isItem⟩ := bind_ok isItem
  cases pure_ok isItem
  obtain ⟨later, leaf⟩ := ManifestMmr.getLeaf_iff.mp leaf
  obtain ⟨inside, seed, isSeed, proved⟩ := ManifestMmr.generateProofAt_ok proved
  cases indexed.seed.symm.trans isSeed
  have size : MerkleMountainRange.numEntries worker.anchor.chainView.historyAccumulator -
      worker.context.mmr.seedCount = manifests.length := by
    rw [recorded.entries aligned, seeded, aligned]
    omega
  rw [size, hashes] at proved
  rw [seeded] at later leaf
  refine proofs _ _ _ _ _ _ recorded.history proved later ?_
  rw [← hashes, List.getElem?_take, if_pos (by omega)]
  exact leaf

end Indexed

/-! ### Passes -/

variable {worker pre mid post : AsmWorkerServiceState}

/-- The leaves after a pass: those below the base as they were, then the hashes of the new
manifests. -/
structure Rewritten (d : Deployment) (leaves : List Buf32) (below news : List AsmManifest)
    (worker : AsmWorkerServiceState) : Prop where
  recorded : Recorded d worker.context (below ++ news) worker.anchor
  seed : worker.context.mmr.seed = some d.genesis.chainView.historyAccumulator
  leaves : worker.context.mmr.leaves.take (below ++ news).length =
    leaves.take below.length ++ news.map AsmLibs.manifestHash

/-- The leaves start with the new chain exactly if they started with that of the base. -/
theorem Rewritten.starts_iff {leaves : List Buf32} {below news : List AsmManifest}
    (rewritten : Rewritten d leaves below news worker) :
    (below ++ news).map AsmLibs.manifestHash <+: worker.context.mmr.leaves ↔
      below.map AsmLibs.manifestHash <+: leaves := by
  rw [List.prefix_iff_eq_take, List.prefix_iff_eq_take, List.length_map, List.length_map,
    rewritten.leaves, List.map_append, List.append_left_inj]

namespace Rewritten

variable [StoredMmr] {leaves : List Buf32} {below news : List AsmManifest}
include aligned

theorem apply {blockId : L1BlockCommitment} {block : Block} {target : AsmSpec} {auxData : AuxData}
    {output : AsmStfOutput} {mmr : ManifestMmr} (tracks : Tracks d pre)
    (fresh : Keyed.get AnchorState.lastProcessedBlock pre.context.anchors blockId = none)
    (next : blockId.height = pre.blkid.height + 1)
    (applies : Applies pre blockId block target auxData output mmr post)
    (rewritten : Rewritten d leaves below news pre) :
    Rewritten d leaves below (news ++ [output.manifest]) post := by
  have recorded := rewritten.recorded.applied tracks fresh next applies
  have resolved := applies.resolved
  rw [tracks.registry] at resolved
  have isBlock := (Deployment.steps resolved applies.ran).recorded
  have height : output.manifest.height =
      d.genesis.lastProcessedBlock.height + ((below ++ news).length + 1) := by
    have := recorded.height_eq
    rw [applies.result, List.length_append, List.length_singleton] at this
    rw [← this]
    exact congrArg L1BlockCommitment.height isBlock
  obtain ⟨sameSeed, written⟩ := ManifestMmr.putLeaf_ok applies.leaf
  rw [height, ManifestMmr.seedCount_eq rewritten.seed, aligned, Nat.add_sub_add_left, Nat.add_sub_cancel,
    rewritten.leaves] at written
  constructor
  · rw [← List.append_assoc]
    exact recorded
  · rw [applies.result]
    exact sameSeed.trans rewritten.seed
  · rw [applies.result, ← List.append_assoc, List.length_append, List.length_singleton, List.map_append,
      ← List.append_assoc]
    exact written

theorem of_advance {height : Nat} {targetBlkid : Buf32} {plan : SyncPlan AnchorState}
    (indexed : Indexed d pre)
    (planned : planBlockProcessing pre.context ⟨height, targetBlkid⟩ pre.genesisHeight = .ok plan)
    (restored : (AsmWorkerServiceState.restoreAnchor plan.baseState plan.baseBlock).run pre = .ok () mid)
    (applied : (plan.pending.reverse.forM applyBlock).run mid = .ok () post)
    (recorded : Recorded d pre.context below plan.baseState) :
    ∃ news, Rewritten d pre.context.mmr.leaves below news post := by
  have walk := planBlockProcessing_ok planned
  obtain ⟨tracks, sameContext, isBase, atBase⟩ := indexed.restore (baseAt_some walk.isBase) restored
  rw [← sameContext] at walk
  refine (pass_preserves (fun worker => ∃ news, Rewritten d pre.context.mmr.leaves below news
    worker) ?_ walk tracks
    atBase applied ⟨[], ?_, ?_, ?_⟩).2.2.1
  · rintro _ _ _ _ _ _ _ _ tracks fresh next applies ⟨news, rewritten⟩
    exact ⟨_, rewritten.apply aligned tracks fresh next applies⟩
  · rw [List.append_nil, sameContext, isBase]
    exact recorded
  · rw [sameContext]
    exact indexed.seed
  · rw [sameContext, List.append_nil]
    simp

end Rewritten

/-! ### Runs -/

structure SyncCall where
  pre : AsmWorkerServiceState
  targetBlkid : Buf32
  post : AsmWorkerServiceState

/-- The call builds on the tip or on one of its ancestors. -/
def SyncCall.StaysOnChain (call : SyncCall) : Prop :=
  ∀ base, syncBase call.pre call.targetBlkid = some base →
    ∃ k, Ancestry.ancestor call.pre.context.l1.parentOf k call.pre.blkid = some base

variable [StoredMmr]

inductive Synced (start : AsmWorkerServiceState) : List SyncCall → AsmWorkerServiceState → Prop
  | start : Synced start [] start
  | sync {calls : List SyncCall} {pre post : AsmWorkerServiceState} {targetBlkid : Buf32}
      {processed : List L1BlockCommitment} (before : Synced start calls pre)
      (synced : (syncToBlock targetBlkid).run pre = .ok processed post) :
      Synced start (calls ++ [⟨pre, targetBlkid, post⟩]) post

include aligned

/-- The tip of a call was not stored before, so nothing stored builds on it. -/
theorem Indexed.sync (indexed : Indexed d pre) {targetBlkid : Buf32} {processed : List L1BlockCommitment}
    (syncs : Syncs pre targetBlkid processed post) : Indexed d post := by
  have tracks := indexed.toTracks.sync syncs
  cases syncs with
  | idle => exact indexed
  | @advance height plan mid post isBase planned some restored applied =>
    have walk := planBlockProcessing_ok planned
    have mem := (Keyed.get_iff _ indexed.store.anchorKeys).mp (baseAt_some walk.isBase)
    obtain ⟨below, recorded⟩ := indexed.store.recorded _ mem.1
    obtain ⟨news, rewritten⟩ := Rewritten.of_advance aligned indexed planned restored applied recorded
    refine ⟨tracks, rewritten.seed, fun anchor stored isParent => ?_⟩
    obtain ⟨restoredTracks, sameContext, -, atBase⟩ := indexed.restore (baseAt_some walk.isBase) restored
    have fresh := baseAt_none (walk.pending some).1
    rw [← sameContext] at walk
    obtain ⟨-, atTarget, -, higher⟩ := pass_preserves (fun _ => True)
      (fun _ _ _ _ _ _ _ _ _ _ _ _ _ => trivial) walk restoredTracks atBase applied trivial
    rw [atTarget] at isParent
    have above := d.l1.parentOf_graded _ _ isParent
    have found := (Keyed.get_iff AnchorState.lastProcessedBlock tracks.store.anchorKeys).mpr
      ⟨stored, rfl⟩
    rw [higher _ (by omega), sameContext] at found
    obtain ⟨stored, -⟩ := (Keyed.get_iff AnchorState.lastProcessedBlock
      indexed.store.anchorKeys).mp found
    obtain ⟨manifests, recorded⟩ := indexed.store.recorded anchor stored
    have bound : d.genesis.lastProcessedBlock.height ≤ height := by
      have := rewritten.recorded.height_eq
      rw [← tracks.blkid, atTarget] at this
      exact Nat.le.intro this.symm
    obtain ⟨parent, isStored, isBlock⟩ := recorded.parent_stored indexed.store isParent bound
    exact Keyed.key_ne _ fresh isStored isBlock

/-- The leaves still mirror the chain after a call exactly if it stays on the chain. -/
theorem Indexed.mirrors_sync (indexed : Indexed d pre) (distinct : pre.context.DistinctHashes)
    (mirrors : Mirrors pre) {targetBlkid : Buf32} {processed : List L1BlockCommitment}
    (syncs : Syncs pre targetBlkid processed post) :
    Mirrors post ↔ SyncCall.StaysOnChain ⟨pre, targetBlkid, post⟩ := by
  have after := indexed.sync aligned syncs
  cases syncs with
  | idle noBase =>
    refine iff_of_true mirrors fun base isBase => ?_
    rw [noBase] at isBase
    cases isBase
  | @advance height plan mid post isBase planned some restored applied =>
    have found := (Keyed.get_iff _ indexed.store.anchorKeys).mp
      (baseAt_some (planBlockProcessing_ok planned).isBase)
    obtain ⟨manifests, atTip⟩ := indexed.store.recorded _ indexed.anchor
    obtain ⟨below, recorded⟩ := indexed.store.recorded _ found.1
    obtain ⟨news, rewritten⟩ := Rewritten.of_advance aligned indexed planned restored applied recorded
    have starts := (indexed.mirrors_iff aligned atTip).mp mirrors
    rw [after.mirrors_iff aligned rewritten.recorded, rewritten.starts_iff,
      indexed.starts_iff distinct atTip recorded starts, found.2, ← indexed.store.l1]
    constructor
    · intro ancestor base isBase'
      cases isBase.symm.trans isBase'
      exact ancestor
    · exact fun stays => stays _ isBase

theorem Synced.indexed {start worker : AsmWorkerServiceState} {calls : List SyncCall}
    (indexed : Indexed d start) (synced : Synced start calls worker) :
    Indexed d worker ∧ ∀ call ∈ calls, Indexed d call.post := by
  induction synced with
  | start => exact ⟨indexed, List.forall_mem_nil _⟩
  | sync before synced ih =>
    have after := ih.1.sync aligned (syncToBlock_ok synced)
    refine ⟨after, List.forall_mem_append.mpr ⟨ih.2, ?_⟩⟩
    rw [List.forall_mem_singleton]
    exact after

theorem Synced.mirrors_iff {start worker : AsmWorkerServiceState} {calls : List SyncCall}
    (indexed : Indexed d start) (mirrors : Mirrors start) (synced : Synced start calls worker)
    (distinct : ∀ call ∈ calls, call.pre.context.DistinctHashes) :
    ((∀ call ∈ calls, Mirrors call.post) → Mirrors worker) ∧
      ((∀ call ∈ calls, Mirrors call.post) ↔ ∀ call ∈ calls, call.StaysOnChain) := by
  induction synced with
  | start => exact ⟨fun _ => mirrors, iff_of_true (List.forall_mem_nil _) (List.forall_mem_nil _)⟩
  | sync before synced ih =>
    rw [List.forall_mem_append, List.forall_mem_singleton] at distinct
    rw [List.forall_mem_append, List.forall_mem_singleton, List.forall_mem_append,
      List.forall_mem_singleton]
    obtain ⟨carried, iff⟩ := ih distinct.1
    refine ⟨And.right, ?_⟩
    rw [← iff]
    refine and_congr_right fun earlier => ?_
    exact (before.indexed aligned indexed).1.mirrors_sync aligned distinct.2 (carried earlier)
      (syncToBlock_ok synced)

/-- After each call of a worker the leaves mirror the chain of its tip, and what is resolved from them
verifies, exactly if every call builds on the chain of the tip before it. -/
theorem manifest_mmr_mirrors_iff [DecidableEq AnchorState] (proofs : StoredMmr.Correct)
    {start worker : AsmWorkerServiceState} {calls : List SyncCall}
    (started : d.Starts d.emptyStores start) (synced : Synced start calls worker)
    (distinct : ∀ call ∈ calls, call.pre.context.DistinctHashes) :
    (∀ call ∈ calls, Mirrors call.post ∧ Resolves call.post) ↔ ∀ call ∈ calls, call.StaysOnChain := by
  obtain ⟨indexed, mirrors⟩ := Indexed.fresh started
  rw [← (synced.mirrors_iff aligned indexed mirrors distinct).2]
  constructor
  · exact fun both call mem => (both call mem).1
  · intro mirrors call mem
    have after := (synced.indexed aligned indexed).2 call mem
    exact ⟨mirrors call mem, after.resolves aligned proofs (mirrors call mem)⟩

end

/-! ### A concrete run -/

@[reducible] def sampleChainLibs : AsmLibs :=
  { sampleUpdateLibs with manifestHash := fun manifest => manifest.blkid }

@[reducible] def sampleStoredMmr : @StoredMmr sampleChainLibs.toMerkleMountainRange :=
  letI := sampleChainLibs
  { generateProof := fun seed leaves index =>
      if index < seed.length + leaves.length then some index else none }

def sampleEmptyBlock (parent : UInt8) (time : Nat) : Block where
  header := ⟨2, .fill parent, .zero, time, 0, 0⟩
  txdata := [⟨2, 0, [⟨.null, [], 0, []⟩], []⟩]

@[reducible] def sampleMmrDecidableEq : DecidableEq sampleChainLibs.Mmr :=
  inferInstanceAs (DecidableEq (List Buf32))

section

attribute [local instance] sampleChainLibs sampleStoredMmr sampleMmrDecidableEq

/-- A node that knows some blocks. The hash of a block repeats its time, whose last digit is its
height above genesis. -/
def sampleL1 (blocks : List Block) : L1DataProvider where
  getL1Block blkid :=
    match blocks.find? fun block => HeaderVerificationState.computeBlockHash block.header = blkid with
    | some block => .ok block
    | none => .error .btcRpc
  getL1BlockHeader blkid :=
    match blocks.find? fun block => HeaderVerificationState.computeBlockHash block.header = blkid with
    | some block => .ok block.header
    | none => .error .btcRpc
  getL1BlockHeaderAtHeight _ := .ok ⟨2, .zero, .zero, 0, 0, 0⟩
  getL1BlockHeight blkid := .ok ((blkid.bytes.headD 0).toNat % 10 + 1)
  getBitcoinTx _ := .error .btcRpc
  getNetwork := .ok .regtest

def sampleRegistry : ExecutionRegistry where
  targets := [(⟨1, [0]⟩, asmSpec .v0), (⟨1, [5]⟩, asmSpec .v1)]
  predicates := by decide
  specIds := by decide

@[irreducible] def sampleGenesis : AnchorState := (genesisState sampleParams).toOption.get (by decide +kernel)

def sampleDeployment (blocks : List Block) : Deployment where
  l1 := sampleL1 blocks
  registry := sampleRegistry
  genesis := sampleGenesis
  predicate := ⟨1, [0]⟩
  consistent blkid block found := by
    dsimp only [sampleL1] at found
    split at found
    · rename_i isFirst
      cases found
      simpa using List.find?_some isFirst
    · cases found
  keepsChain := by
    have keeps : ∀ claim, (asmSpec claim).KeepsChain := by
      intro claim state prepared took
      obtain ⟨specId, rfl⟩ := asmSpec_prepare_ok took
      rfl
    intro target mem
    rcases List.mem_pair.mp mem with rfl | rfl
    · exact keeps .v0
    · exact keeps .v1

theorem sampleStoredMmr_correct : StoredMmr.Correct := by
  have grown : ∀ seed leaves : List Buf32,
      leaves.foldlM (fun leaves leaf => some (leaves ++ [leaf])) seed = some (seed ++ leaves) := by
    intro seed leaves
    induction leaves generalizing seed with
    | nil => exact congrArg some (List.append_nil seed).symm
    | cons leaf leaves ih =>
      rw [List.foldlM_cons]
      refine (ih (seed ++ [leaf])).trans ?_
      rw [List.append_assoc, List.singleton_append]
  intro seed mmr leaves index proof hash isMmr generated later here
  cases (grown seed leaves).symm.trans isMmr
  replace generated : (if index < seed.length + leaves.length then some index else none) =
    some proof := generated
  replace here : leaves[index - seed.length]? = some hash := here
  split at generated
  · cases generated
    refine decide_eq_true ?_
    rw [List.getElem?_append_right later]
    exact here
  · cases generated

def sampleStart (d : Deployment) (stores : WorkerContext) : Option AsmWorkerServiceState :=
  Effect.returned ((AsmWorkerServiceState.new d.genesis d.predicate d.registry).run stores)

def sampleSync (worker : AsmWorkerServiceState) (time : UInt8) : Option AsmWorkerServiceState :=
  Effect.left ((syncToBlock (.fill time)).run worker)

/-- Two branches of two blocks, and a block on the first. -/
def sampleForks : List Block :=
  [sampleEmptyBlock 0 1, sampleEmptyBlock 1 2, sampleEmptyBlock 0 11, sampleEmptyBlock 11 12,
    sampleEmptyBlock 2 3]

@[irreducible] def sampleWorker : AsmWorkerServiceState :=
  (sampleStart (sampleDeployment sampleForks) (sampleDeployment sampleForks).emptyStores).get
  (by decide +kernel)

@[irreducible] def sampleFirst : AsmWorkerServiceState :=
  (sampleSync sampleWorker 2).get (by decide +kernel)

@[irreducible] def sampleSecond : AsmWorkerServiceState :=
  (sampleSync sampleFirst 12).get (by decide +kernel)

@[irreducible] def sampleThird : AsmWorkerServiceState :=
  (sampleSync sampleSecond 3).get (by decide +kernel)

theorem sampleWorker_started :
    (sampleDeployment sampleForks).Starts (sampleDeployment sampleForks).emptyStores sampleWorker := by
  have isWorker : sampleStart (sampleDeployment sampleForks) (sampleDeployment sampleForks).emptyStores =
      some sampleWorker := by rw [sampleWorker, Option.some_get]
  exact Effect.returned_some isWorker

def sampleCalls : List SyncCall :=
  [⟨sampleWorker, .fill 2, sampleFirst⟩, ⟨sampleFirst, .fill 12, sampleSecond⟩]

theorem sampleCalls_synced : Synced sampleWorker sampleCalls sampleSecond := by
  have isFirst : sampleSync sampleWorker 2 = some sampleFirst := by rw [sampleFirst, Option.some_get]
  have isSecond : sampleSync sampleFirst 12 = some sampleSecond := by rw [sampleSecond, Option.some_get]
  obtain ⟨_, first⟩ := Effect.left_some isFirst
  obtain ⟨_, second⟩ := Effect.left_some isSecond
  exact .sync (.sync .start first) second

theorem sampleCalls_distinct : ∀ call ∈ sampleCalls, call.pre.context.DistinctHashes := by
  have of_nodup : ∀ context : WorkerContext, (context.manifests.map AsmLibs.manifestHash).Nodup →
      context.DistinctHashes := fun context nodup _ mem _ mem' => List.inj_on_of_nodup_map nodup mem mem'
  refine List.forall_mem_cons.mpr ⟨of_nodup _ ?_, List.forall_mem_singleton.mpr (of_nodup _ ?_)⟩
  · decide +kernel
  · decide +kernel

theorem sampleCalls_stay : ∀ call ∈ sampleCalls, call.StaysOnChain := by
  refine List.forall_mem_cons.mpr ⟨?_, List.forall_mem_singleton.mpr ?_⟩
  · have atTip : Ancestry.ancestor sampleWorker.context.l1.parentOf 0 sampleWorker.blkid =
        syncBase sampleWorker (.fill 2) := by decide +kernel
    exact fun base isBase => ⟨0, atTip.trans isBase⟩
  · have below : Ancestry.ancestor sampleFirst.context.l1.parentOf 2 sampleFirst.blkid =
        syncBase sampleFirst (.fill 12) := by decide +kernel
    exact fun base isBase => ⟨2, below.trans isBase⟩

/-- The leaves follow the worker from one branch to the other. -/
theorem manifest_mmr_mirrors_iff_sample : Synced sampleWorker sampleCalls sampleSecond ∧
    sampleSecond.context.mmr.leaves = [.fill 11, .fill 12] ∧
    ∀ call ∈ sampleCalls, Mirrors call.post ∧ Resolves call.post := by
  have aligned : MerkleMountainRange.numEntries
    (sampleDeployment sampleForks).genesis.chainView.historyAccumulator =
      (sampleDeployment sampleForks).genesis.lastProcessedBlock.height + 1 := by decide +kernel
  refine ⟨sampleCalls_synced, by decide +kernel, ?_⟩
  exact (manifest_mmr_mirrors_iff aligned sampleStoredMmr_correct sampleWorker_started sampleCalls_synced
    sampleCalls_distinct).mpr sampleCalls_stay

/-- Back on the first branch the leaves below the new tip are those of the second, and do not
verify. -/
theorem manifest_mmr_stale :
    (sampleDeployment sampleForks).Starts (sampleDeployment sampleForks).emptyStores sampleWorker ∧
    Synced sampleWorker (sampleCalls ++ [⟨sampleSecond, .fill 3, sampleThird⟩]) sampleThird ∧
    sampleThird.context.mmr.leaves = [.fill 11, .fill 12, .fill 3] ∧
    ¬ Mirrors sampleThird ∧ ¬ Resolves sampleThird := by
  have isThird : sampleSync sampleSecond 3 = some sampleThird := by rw [sampleThird, Option.some_get]
  obtain ⟨_, third⟩ := Effect.left_some isThird
  refine ⟨sampleWorker_started, .sync sampleCalls_synced third, by decide +kernel, fun mirrors => ?_,
    fun resolves => ?_⟩
  · obtain ⟨block, manifest, reaches, got, leaf⟩ := mirrors 2 (by decide +kernel) (by decide +kernel)
    have isAncestor : Ancestry.ancestor sampleThird.context.l1.parentOf (sampleThird.blkid.height - 2)
        sampleThird.blkid = some ⟨2, .fill 1⟩ := by decide +kernel
    have isManifest : (sampleThird.context.getManifest ⟨2, .fill 1⟩).map AsmManifest.blkid =
        .ok (.fill 1) := by
      decide +kernel
    have isLeaf : sampleThird.context.mmr.getLeaf 2 = .ok (.fill 11) := by decide +kernel
    cases reaches.symm.trans isAncestor
    rw [got] at isManifest
    rw [leaf] at isLeaf
    exact absurd ((Except.ok.inj isManifest).symm.trans (Except.ok.inj isLeaf)) (by decide)
  · have unverified : (AuxDataResolver.resolve sampleThird.context (MerkleMountainRange.numEntries
        sampleThird.anchor.chainView.historyAccumulator) ⟨[⟨2, 2⟩], []⟩).toOption.any (fun auxData =>
        auxData.manifestHashes.any fun item => ! MerkleMountainRange.verify
          sampleThird.anchor.chainView.historyAccumulator item.proof item.hash) = true := by
            decide +kernel
    cases resolved : AuxDataResolver.resolve sampleThird.context (MerkleMountainRange.numEntries
        sampleThird.anchor.chainView.historyAccumulator) ⟨[⟨2, 2⟩], []⟩ with
    | error error =>
      rw [resolved] at unverified
      cases unverified
    | ok auxData =>
      rw [resolved] at unverified
      obtain ⟨item, mem, fails⟩ := List.any_eq_true.mp unverified
      rw [resolves _ _ resolved item mem] at fails
      cases fails

end
end Asm
