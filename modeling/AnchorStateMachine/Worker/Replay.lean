import AnchorStateMachine.Worker.CrashSafety

/-! What is stored of a block is enough to execute it again: the anchor of its parent, the block, and
the auxiliary data that was resolved for it. Whatever the worker does afterwards, and wherever it is
aborted, none of it changes. -/

namespace Asm
open Outcome

/-! ### Stores that grow -/

section

variable [MerkleMountainRange] {context mid later : WorkerContext} {block : L1BlockCommitment}

/-- The anchor, the manifest and the auxiliary data of a processed block are still the same. A leaf of
the history is kept by height, and may have become that of another branch. -/
structure WorkerContext.Extends (context later : WorkerContext) : Prop where
  l1 : later.l1 = context.l1
  anchors : ∀ block anchor, Keyed.get AnchorState.lastProcessedBlock context.anchors block = some anchor →
    Keyed.get AnchorState.lastProcessedBlock later.anchors block = some anchor
  manifests : ∀ block anchor, Keyed.get AnchorState.lastProcessedBlock context.anchors block = some anchor →
    Keyed.get AsmManifest.block later.manifests block = Keyed.get AsmManifest.block context.manifests block
  auxData : ∀ block anchor, Keyed.get AnchorState.lastProcessedBlock context.anchors block = some anchor →
    Keyed.get Prod.fst later.auxData block = Keyed.get Prod.fst context.auxData block

namespace WorkerContext.Extends

theorem refl (context : WorkerContext) : context.Extends context :=
  ⟨rfl, fun _ _ stored => stored, fun _ _ _ => rfl, fun _ _ _ => rfl⟩

theorem trans (first : context.Extends mid) (second : mid.Extends later) : context.Extends later where
  l1 := second.l1.trans first.l1
  anchors block anchor stored := second.anchors block anchor (first.anchors block anchor stored)
  manifests block anchor stored :=
    (second.manifests block anchor (first.anchors block anchor stored)).trans
      (first.manifests block anchor stored)
  auxData block anchor stored :=
    (second.auxData block anchor (first.anchors block anchor stored)).trans
      (first.auxData block anchor stored)

end WorkerContext.Extends

end

section

variable [AsmLibs] {d : Deployment} {context later left : WorkerContext}
  {worker post : AsmWorkerServiceState} {blockId : L1BlockCommitment} {rest : List L1BlockCommitment}

/-- Writes of one block that is not processed yet, up to and without its anchor. -/
theorem extends_of_writes {manifests : List AsmManifest} {auxData : List (L1BlockCommitment × AuxData)}
    {anchors : List AnchorState} {mmr : ManifestMmr}
    (fresh : Keyed.get AnchorState.lastProcessedBlock context.anchors blockId = none)
    (isAnchors : ∀ block, block ≠ blockId → Keyed.get AnchorState.lastProcessedBlock anchors block =
      Keyed.get AnchorState.lastProcessedBlock context.anchors block)
    (isManifests : ∀ block, block ≠ blockId → Keyed.get AsmManifest.block manifests block =
      Keyed.get AsmManifest.block context.manifests block)
    (isAuxData : ∀ block, block ≠ blockId → Keyed.get Prod.fst auxData block =
      Keyed.get Prod.fst context.auxData block) :
    context.Extends ⟨context.l1, anchors, manifests, mmr, auxData⟩ := by
  have other : ∀ block anchor,
      Keyed.get AnchorState.lastProcessedBlock context.anchors block = some anchor →
      block ≠ blockId := by
    rintro block anchor stored rfl
    rw [fresh] at stored
    cases stored
  refine ⟨rfl, fun block anchor stored => ?_, fun block anchor stored => ?_,
    fun block anchor stored => ?_⟩
  · rw [isAnchors block (other block anchor stored)]
    exact stored
  · exact isManifests block (other block anchor stored)
  · exact isAuxData block (other block anchor stored)

theorem Stored.anchorAt (store : Stored d context) {anchor : AnchorState} (mem : anchor ∈ context.anchors) :
    Keyed.get AnchorState.lastProcessedBlock context.anchors anchor.lastProcessedBlock = some anchor :=
  (Keyed.get_iff _ store.anchorKeys).mpr ⟨mem, rfl⟩

/-- What an anchor was recorded with stays recorded. -/
theorem Recorded.extend (store : Stored d context) (grown : context.Extends later)
    {manifests : List AsmManifest} {anchor : AnchorState}
    (recorded : Recorded d context manifests anchor) : Recorded d later manifests anchor := by
  refine recorded.mono (fun anchor mem => ?_) fun manifest mem anchor stored same => ?_
  · exact List.mem_of_find?_eq_some (grown.anchors _ _ (store.anchorAt mem))
  · have kept := grown.manifests _ _ (store.anchorAt stored)
    rw [(Keyed.get_iff AsmManifest.block store.manifestKeys).mpr ⟨mem, same⟩] at kept
    exact List.mem_of_find?_eq_some kept

/-! ### Execution from the stores -/

/-- An anchor is what the stored block, auxiliary data and anchor of the parent lead to, under the
program that the manifests up to the parent authorize. -/
structure Replays (d : Deployment) (context : WorkerContext) (anchor parent : AnchorState)
    (past : List AsmManifest) (block : Block) (target : AsmSpec) (auxData : AuxData)
    (manifest : AsmManifest) : Prop where
  recorded : Recorded d context past parent
  found : d.l1.getL1Block anchor.lastProcessedBlock.blkid = .ok block
  isParent : d.l1.headerParent anchor.lastProcessedBlock = .ok parent.lastProcessedBlock
  resolved : d.registry.resolve (foldPredicate d.predicate past) = .ok target
  supplied : Keyed.get Prod.fst context.auxData anchor.lastProcessedBlock =
    some (anchor.lastProcessedBlock, auxData)
  kept : Keyed.get AsmManifest.block context.manifests anchor.lastProcessedBlock = some manifest
  ran : computeAsmTransition target parent block auxData (TxidInclusionProof.generate block.txdata 0) =
    .ok (.ok ⟨anchor, manifest⟩)

def Replayable (d : Deployment) (context : WorkerContext) (anchor : AnchorState) : Prop :=
  ∃ parent past block target auxData manifest,
    Replays d context anchor parent past block target auxData manifest

theorem Replayable.extend (store : Stored d context) (grown : context.Extends later)
    {anchor : AnchorState} (stored : anchor ∈ context.anchors)
    (replayable : Replayable d context anchor) : Replayable d later anchor := by
  obtain ⟨parent, past, block, target, auxData, manifest, replays⟩ := replayable
  have here := store.anchorAt stored
  exact ⟨parent, past, block, target, auxData, manifest, replays.recorded.extend store grown,
    replays.found, replays.isParent, replays.resolved,
    (grown.auxData _ _ here).trans replays.supplied, (grown.manifests _ _ here).trans replays.kept,
    replays.ran⟩

/-- Stores from which every block above genesis can be executed again. -/
structure Persists (d : Deployment) (context : WorkerContext) : Prop extends Stored d context where
  seed : context.mmr.seed = some d.genesis.chainView.historyAccumulator
  replayable : ∀ anchor ∈ context.anchors, anchor = d.genesis ∨ Replayable d context anchor

/-- A worker over such stores that has blocks left to apply. -/
structure Working (d : Deployment) (worker : AsmWorkerServiceState) (pass : List L1BlockCommitment) :
    Prop where
  midway : ∃ target, Midway d target worker pass
  replayable : ∀ anchor ∈ worker.context.anchors, anchor = d.genesis ∨
    Replayable d worker.context anchor

theorem Working.persists {pass : List L1BlockCommitment} (working : Working d worker pass) :
    Persists d worker.context := by
  obtain ⟨target, midway⟩ := working.midway
  exact ⟨midway.store, midway.seed, working.replayable⟩

/-- A worker with nothing to do. -/
theorem Midway.idle (tracks : Tracks d worker)
    (seed : worker.context.mmr.seed = some d.genesis.chainView.historyAccumulator) :
    Midway d worker.blkid worker [] := by
  refine ⟨tracks, seed, .base ?_⟩
  rw [baseAt_eq, (Keyed.get_iff _ tracks.store.anchorKeys).mpr ⟨tracks.anchor, tracks.blkid.symm⟩]

theorem Persists.working (persists : Persists d worker.context) (tracks : Tracks d worker) :
    Working d worker [] :=
  ⟨⟨_, .idle tracks persists.seed⟩, persists.replayable⟩

/-- At its base, a call has the blocks that the walk has passed left. -/
theorem Midway.restore (tracks : Tracks d worker)
    (seed : worker.context.mmr.seed = some d.genesis.chainView.historyAccumulator) {anchor : AnchorState}
    {base target : L1BlockCommitment} {pending : List L1BlockCommitment}
    (walk : Walk worker.genesisHeight worker.context.baseAt worker.context.l1.headerParent base anchor
      target pending)
    (restored : (AsmWorkerServiceState.restoreAnchor anchor base).run worker = .ok () post) :
    Midway d target post pending.reverse := by
  obtain ⟨after, sameContext, isAnchor, isBase⟩ := tracks.restore (baseAt_some walk.isBase) restored
  refine ⟨after, by rw [sameContext]; exact seed, ?_⟩
  rw [sameContext, isAnchor, isBase, List.reverse_reverse, after.genesisHeight, ← tracks.genesisHeight]
  exact walk

theorem Working.restore (working : Working d worker []) {anchor : AnchorState}
    {base target : L1BlockCommitment} {pending : List L1BlockCommitment}
    (walk : Walk worker.genesisHeight worker.context.baseAt worker.context.l1.headerParent base anchor
      target pending)
    (restored : (AsmWorkerServiceState.restoreAnchor anchor base).run worker = .ok () post) :
    Working d post pending.reverse ∧ post.context = worker.context ∧ post.emitted = worker.emitted := by
  obtain ⟨_, midway⟩ := working.midway
  have restores := Midway.restore midway.toTracks midway.seed walk restored
  obtain ⟨predicate, -, -, rfl⟩ := restoreAnchor_ok restored
  exact ⟨⟨⟨target, restores⟩, working.replayable⟩, rfl, rfl⟩

/-! ### Starting again -/

section

variable [DecidableEq AnchorState]

/-- A worker that starts over such stores leaves them as they are, and is at the latest anchor. -/
theorem Persists.restart (persists : Persists d context) (started : d.Starts context worker) :
    Working d worker [] ∧ worker.context = context ∧ worker.emitted = [] ∧
      context.getLatestAnchorState = some worker.anchor := by
  obtain ⟨again, restarted, sameContext, latest⟩ :=
    started.again persists.l1 persists.toStored persists.seed
  obtain ⟨_, first⟩ := started
  obtain ⟨_, second⟩ := restarted
  rw [first] at second
  cases second
  have tracks : Tracks d worker := .restart persists.toStored ⟨_, first⟩
  refine ⟨Persists.working (sameContext.symm ▸ persists) tracks, sameContext, ?_, latest⟩
  obtain ⟨_, _, _, -, -, -, -, isWorker⟩ := new_ok first
  rw [isWorker]

theorem Persists.fresh (started : d.Starts d.emptyStores worker) :
    Working d worker [] ∧ worker.context.anchors = [d.genesis] ∧ worker.anchor = d.genesis ∧
      worker.emitted = [] ∧ worker.context.manifests = [] := by
  obtain ⟨tracks, anchors, isGenesis, mmr⟩ := Tracks.fresh started
  obtain ⟨_, first⟩ := started
  obtain ⟨checked, _, _, isChecked, -, isLater, -, isWorker⟩ := new_ok first
  refine ⟨⟨⟨_, .idle tracks (by rw [mmr])⟩, fun anchor mem => ?_⟩, anchors, isGenesis, ?_, ?_⟩
  · rw [anchors] at mem
    exact .inl (List.mem_singleton.mp mem)
  · rw [isWorker]
  · have same : checked = d.emptyStores := by
      rcases checkGenesis_ok isChecked with same | ⟨-, some, -⟩
      · exact same
      · cases some
    rw [isWorker, isLater, same]
    rfl

end

/-! ### One block -/

/-- What a block adds to the stores, and to what subscribers were told. -/
structure Commits (worker : AsmWorkerServiceState) (blockId : L1BlockCommitment)
    (post : AsmWorkerServiceState) : Prop where
  fresh : Keyed.get AnchorState.lastProcessedBlock worker.context.anchors blockId = none
  isParent : worker.context.l1.headerParent blockId = .ok worker.blkid
  above : blockId.height = worker.blkid.height + 1
  onParent : Keyed.get AnchorState.lastProcessedBlock worker.context.anchors worker.blkid =
    some worker.anchor
  anchors : ∀ block, Keyed.get AnchorState.lastProcessedBlock post.context.anchors block =
    if block = blockId then some post.anchor
      else Keyed.get AnchorState.lastProcessedBlock worker.context.anchors block
  grown : worker.context.Extends post.context
  emitted : post.emitted = worker.emitted ++ [blockId]

theorem Midway.isParent {target : L1BlockCommitment} (midway : Midway d target worker (blockId :: rest)) :
    worker.context.l1.headerParent blockId = .ok worker.blkid := by
  have walk := midway.walk
  rw [List.reverse_cons] at walk
  exact walk.last.2.2

variable [StoredMmr]

theorem Working.apply (working : Working d worker (blockId :: rest))
    (applied : (applyBlock blockId).run worker = .ok () post) :
    Working d post rest ∧ Commits worker blockId post := by
  obtain ⟨target, midway⟩ := working.midway
  obtain ⟨fresh, above⟩ := midway.first
  have next := midway.next applied
  obtain ⟨block, program, auxData, output, mmr, applies⟩ := applyBlock_ok applied
  have tip := applies.tip midway.toTracks above
  have resolved := applies.resolved
  rw [midway.registry] at resolved
  have isBlock : output.manifest.block = blockId :=
    (Deployment.steps resolved applies.ran).recorded.trans tip
  have result := applies.result
  have anchors : ∀ block, Keyed.get AnchorState.lastProcessedBlock post.context.anchors block =
      if block = blockId then some post.anchor
        else Keyed.get AnchorState.lastProcessedBlock worker.context.anchors block := by
    intro other
    rw [result]
    exact (Keyed.get_put _ _ _ _).trans (by rw [tip])
  have grown : worker.context.Extends post.context := by
    rw [result]
    refine extends_of_writes fresh (fun block other => ?_) (fun block other => ?_) fun block other => ?_
    · exact Keyed.get_put_of_ne _ _ (tip ▸ other)
    · exact Keyed.get_put_of_ne _ _ (isBlock ▸ other)
    · exact Keyed.get_put_of_ne _ _ other
  have commits : Commits worker blockId post := by
    refine ⟨fresh, midway.isParent, above, ?_, anchors, grown, by rw [result]⟩
    exact (Keyed.get_iff _ midway.store.anchorKeys).mpr ⟨midway.anchor, midway.blkid.symm⟩
  refine ⟨⟨⟨target, next⟩, fun anchor mem => ?_⟩, commits⟩
  have stored := next.store.anchorAt mem
  rw [anchors] at stored
  split_ifs at stored with same
  · -- the block itself
    cases stored
    obtain ⟨past, recorded⟩ := midway.store.recorded _ midway.anchor
    rw [midway.predicate past recorded] at resolved
    have found := applies.found
    have isParent := midway.isParent
    rw [midway.store.l1, midway.blkid] at isParent
    rw [midway.store.l1] at found
    refine .inr ⟨worker.anchor, past, block, program, auxData, output.manifest,
      recorded.extend midway.store grown, ?_, ?_, resolved, ?_, ?_, ?_⟩
    · rw [same]
      exact found
    · rw [same]
      exact isParent
    · rw [same, result]
      exact (Keyed.get_put _ _ _ _).trans (if_pos rfl)
    · rw [same, result]
      exact (Keyed.get_put _ _ _ _).trans (if_pos isBlock.symm)
    · rw [result]
      exact applies.ran
  · have old := List.mem_of_find?_eq_some stored
    exact (working.replayable anchor old).imp_right (·.extend midway.store grown old)

/-! ### Where it may be aborted -/

/-- What the worker leaves if it ends now: the stores as they are, or with some first writes of the
block that it applies. -/
inductive LeavesStores (worker : AsmWorkerServiceState) : List L1BlockCommitment → WorkerContext → Prop
  | between {pass : List L1BlockCommitment} : LeavesStores worker pass worker.context
  | within {blockId : L1BlockCommitment} {rest : List L1BlockCommitment} {output : AsmStfOutput}
      {auxData : AuxData} {done : List WorkerWrite} {left : WorkerContext}
      (executes : worker.executeBlock blockId = .ok (output, auxData))
      (isPrefix : done <+: blockWrites blockId output auxData)
      (written : done.foldlM WorkerContext.write worker.context = .ok left) :
      LeavesStores worker (blockId :: rest) left

/-- Either the block counts as not processed, or it does and was applied as a whole. -/
theorem Working.leaves {pass : List L1BlockCommitment} (working : Working d worker pass)
    (leaves : LeavesStores worker pass left) :
    (Working d { worker with context := left } pass ∧ left.anchors = worker.context.anchors ∧
      worker.context.Extends left) ∨
    ∃ blockId rest post, pass = blockId :: rest ∧ (applyBlock blockId).run worker = .ok () post ∧
      post.context = left := by
  cases leaves with
  | between => exact .inl ⟨working, rfl, .refl _⟩
  | @within blockId rest output auxData done left executes isPrefix written =>
    rcases partly_of_prefix isPrefix written with part | all
    · obtain ⟨target, midway⟩ := working.midway
      obtain ⟨fresh, above⟩ := midway.first
      have isBlock := midway.executed above executes
      have put : ∀ block, block ≠ blockId →
          Keyed.get AsmManifest.block
            (Keyed.put AsmManifest.block worker.context.manifests output.manifest) block =
          Keyed.get AsmManifest.block worker.context.manifests block :=
        fun block other => Keyed.get_put_of_ne _ _ (isBlock ▸ other)
      have putAux : ∀ block, block ≠ blockId →
          Keyed.get Prod.fst (Keyed.put Prod.fst worker.context.auxData (blockId, auxData)) block =
          Keyed.get Prod.fst worker.context.auxData block :=
        fun block other => Keyed.get_put_of_ne _ _ other
      have grown : worker.context.Extends left := by
        cases part with
        | untouched => exact .refl _
        | manifest => exact extends_of_writes fresh (fun _ _ => rfl) put fun _ _ => rfl
        | leaf => exact extends_of_writes fresh (fun _ _ => rfl) put fun _ _ => rfl
        | auxData => exact extends_of_writes fresh (fun _ _ => rfl) put putAux
      have sameAnchors := part.keeps.2.1
      refine .inl ⟨⟨⟨target, midway.partly executes part⟩, fun anchor mem => ?_⟩, sameAnchors, grown⟩
      have old : anchor ∈ worker.context.anchors := sameAnchors ▸ mem
      exact (working.replayable anchor old).imp_right (·.extend midway.store grown old)
    · refine .inr ⟨blockId, rest, ({ worker with context := left }.acceptOutput output blockId).emit
        blockId, rfl, ?_, rfl⟩
      rw [applyBlock_run, executes]
      dsimp only
      rw [all]

end
end Asm
