import AnchorStateMachine.Worker.Mirror

/-! A forward pass of the worker that is aborted between two of its writes. The worker is started
again over the stores as they are left, and synchronized to the same block. -/

namespace Asm
open Outcome

/-! ### The writes of a block -/

/-- One write to the stores. -/
inductive WorkerWrite [MerkleMountainRange]
  | manifest (manifest : AsmManifest)
  | leaf (height : Nat) (hash : Buf32)
  | auxData (block : L1BlockCommitment) (data : AuxData)
  | anchor (state : AnchorState)

def WorkerContext.write [MerkleMountainRange] (context : WorkerContext) :
    WorkerWrite → Except WorkerError WorkerContext
  | .manifest manifest => .ok (context.putManifest manifest)
  | .leaf height hash => context.putManifestHash height hash
  | .auxData block data => .ok (context.storeAuxData block data)
  | .anchor state => .ok (context.storeAnchorState state)

section

variable [AsmLibs]

def blockWrites (blockId : L1BlockCommitment) (output : AsmStfOutput)
    (auxData : AuxData) : List WorkerWrite :=
  [.manifest output.manifest, .leaf output.manifest.height (AsmLibs.manifestHash output.manifest),
    .auxData blockId auxData, .anchor output.state]

/-- What the stores hold after the writes up to the leaf, up to the auxiliary data, and after all. -/
inductive Partly (context : WorkerContext) (blockId : L1BlockCommitment) (output : AsmStfOutput)
    (auxData : AuxData) :
    WorkerContext → Prop
  | untouched : Partly context blockId output auxData context
  | manifest : Partly context blockId output auxData (context.putManifest output.manifest)
  | leaf {mmr : ManifestMmr}
      (put : context.mmr.putLeaf output.manifest.height
        (AsmLibs.manifestHash output.manifest) = .ok mmr) :
      Partly context blockId output auxData { context.putManifest output.manifest with mmr }
  | auxData {mmr : ManifestMmr}
      (put : context.mmr.putLeaf output.manifest.height
        (AsmLibs.manifestHash output.manifest) = .ok mmr) :
      Partly context blockId output auxData
        (WorkerContext.storeAuxData { context.putManifest output.manifest with mmr } blockId auxData)

end

namespace AsmWorkerServiceState

variable [AsmLibs] [StoredMmr]

def executeBlock (worker : AsmWorkerServiceState) (blockId : L1BlockCommitment) :
    Except Stop (AsmStfOutput × AuxData) := do
  let block ← liftError (worker.context.l1.getL1Block blockId.blkid)
  worker.transition block

end AsmWorkerServiceState

section

variable [AsmLibs] {worker : AsmWorkerServiceState} {blockId : L1BlockCommitment} {output : AsmStfOutput}
  {auxData : AuxData} {context : WorkerContext}

theorem recordManifest_run {manifest : AsmManifest} : (recordManifest manifest).run worker =
    match worker.context.mmr.putLeaf manifest.height (AsmLibs.manifestHash manifest) with
    | .error error => .error (.error error)
        { worker with context := worker.context.putManifest manifest }
    | .ok mmr => .ok () { worker with context := { worker.context.putManifest manifest with mmr } } := by
  show EStateM.run (Effect.lift (liftError (do
    let mmr ← worker.context.mmr.putLeaf manifest.height (AsmLibs.manifestHash manifest)
    pure { worker.context.putManifest manifest with mmr })) >>= fun _ => _) _ = _
  cases worker.context.mmr.putLeaf manifest.height (AsmLibs.manifestHash manifest) with
  | error error => rfl
  | ok mmr => rfl

theorem blockWrites_run : (blockWrites blockId output auxData).foldlM WorkerContext.write context =
    match context.mmr.putLeaf output.manifest.height (AsmLibs.manifestHash output.manifest) with
    | .error error => .error error
    | .ok mmr => .ok (WorkerContext.storeAnchorState
        (WorkerContext.storeAuxData { context.putManifest output.manifest with mmr } blockId
          auxData) output.state) := by
  show (do
    let mmr ← context.mmr.putLeaf output.manifest.height (AsmLibs.manifestHash output.manifest)
    pure { context.putManifest output.manifest with mmr }) >>= (fun _ => _) = _
  cases context.mmr.putLeaf output.manifest.height (AsmLibs.manifestHash output.manifest) with
  | error error => rfl
  | ok mmr => rfl

/-- A block is executed before it is written; only the leaf can be refused then. -/
theorem applyBlock_run [StoredMmr] : (applyBlock blockId).run worker =
    match worker.executeBlock blockId with
    | .error stop => .error stop worker
    | .ok (output, auxData) =>
      match (blockWrites blockId output auxData).foldlM WorkerContext.write worker.context with
      | .error error => .error (.error error)
          { worker with context := worker.context.putManifest output.manifest }
      | .ok context => .ok () (({ worker with context }.acceptOutput output blockId).emit blockId) := by
  show (Effect.lift (liftError (worker.context.l1.getL1Block blockId.blkid)) >>= fun block =>
    _).run worker = _
  unfold AsmWorkerServiceState.executeBlock
  cases liftError (worker.context.l1.getL1Block blockId.blkid) with
  | error stop => rfl
  | ok block =>
    show (Effect.lift (worker.transition block) >>= fun ran => _).run worker =
      match worker.transition block with
      | .error stop => .error stop worker
      | .ok (output, auxData) => _
    cases worker.transition block with
    | error stop => rfl
    | ok ran =>
      show EStateM.run (recordManifest ran.1.manifest >>= fun _ => _) worker = _
      rw [EStateM.run_bind, recordManifest_run]
      dsimp only
      rw [blockWrites_run]
      cases worker.context.mmr.putLeaf ran.1.manifest.height (AsmLibs.manifestHash ran.1.manifest) with
      | error error => rfl
      | ok mmr => rfl

/-- The stores after some first writes of a block, unless these are all. -/
theorem partly_of_prefix {done : List WorkerWrite} {left : WorkerContext}
    (isPrefix : done <+: blockWrites blockId output auxData)
    (written : done.foldlM WorkerContext.write context = .ok left) :
    Partly context blockId output auxData left ∨
      (blockWrites blockId output auxData).foldlM WorkerContext.write context = .ok left := by
  have put : ∀ {rest : List WorkerWrite},
      (WorkerWrite.manifest output.manifest :: .leaf output.manifest.height
        (AsmLibs.manifestHash output.manifest) ::
        rest).foldlM WorkerContext.write context = .ok left →
      ∃ mmr, context.mmr.putLeaf output.manifest.height
        (AsmLibs.manifestHash output.manifest) = .ok mmr ∧
        rest.foldlM WorkerContext.write { context.putManifest output.manifest with mmr } = .ok left := by
    intro rest written
    replace written : (context.putManifest output.manifest).putManifestHash output.manifest.height
      (AsmLibs.manifestHash output.manifest) >>=
      (fun stored => rest.foldlM WorkerContext.write stored) = .ok left := written
    obtain ⟨_, leaf, written⟩ := bind_ok written
    obtain ⟨mmr, isPut, placed⟩ := bind_ok leaf
    cases pure_ok placed
    exact ⟨mmr, isPut, written⟩
  simp only [blockWrites, List.prefix_cons_iff, List.prefix_nil] at isPrefix
  rcases isPrefix with rfl | ⟨_, rfl, rfl | ⟨_, rfl, rfl | ⟨_, rfl, rfl | ⟨_, rfl, rfl⟩⟩⟩⟩
  · cases written
    exact .inl .untouched
  · cases written
    exact .inl .manifest
  · obtain ⟨mmr, isPut, h⟩ := put written
    cases h
    exact .inl (.leaf isPut)
  · obtain ⟨mmr, isPut, h⟩ := put written
    cases h
    exact .inl (.auxData isPut)
  · exact .inr written

end

/-! ### Writing again -/

namespace ManifestMmr

variable [MerkleMountainRange] {mmr later : ManifestMmr} {index height : Nat} {hash : Buf32}

theorem putLeaf_again (h : mmr.putLeaf height hash = .ok later) :
    later.putLeaf height hash = .ok later := by
  unfold putLeaf leafCount at h
  split_ifs at h with refused atEnd
  · cases h
    have index : height - mmr.seedCount = mmr.leaves.length := by omega
    simp only [putLeaf, leafCount, seedCount, List.length_append, List.length_singleton] at *
    rw [if_neg (by omega), if_neg (by omega), index, List.set_append_right _ _ (Nat.le_refl _)]
    simp
  · cases h
    simp only [putLeaf, leafCount, seedCount, List.length_set] at *
    rw [if_neg refused, if_neg atEnd, List.set_set]

/-- A leaf at or past a size does not change what is below. -/
theorem putLeaf_below (h : mmr.putLeaf height hash = .ok later) :
    later.seed = mmr.seed ∧ mmr.leafCount ≤ later.leafCount ∧ mmr.seedCount ≤ height ∧
      ∀ size ≤ height, later.leaves.take (size - mmr.seedCount) =
        mmr.leaves.take (size - mmr.seedCount) := by
  unfold putLeaf leafCount at h
  split_ifs at h with refused atEnd
  · cases h
    refine ⟨rfl, ?_, by omega, fun size small => ?_⟩
    · simp [leafCount, seedCount]
    · exact List.take_append_of_le_length (by omega)
  · cases h
    refine ⟨rfl, ?_, by omega, fun size small => ?_⟩
    · simp [leafCount, seedCount]
    · exact List.take_set_of_le (by omega)

end ManifestMmr

section

variable [AsmLibs] [StoredMmr] {worker : AsmWorkerServiceState} {blockId : L1BlockCommitment}
  {output : AsmStfOutput} {auxData : AuxData} {context later : WorkerContext}

/-- A leaf at or past the size at which auxiliary data is resolved makes no difference to it. -/
theorem resolve_again {height size : Nat} {hash : Buf32} {requests : AuxRequests}
    (sameL1 : later.l1 = context.l1) (put : context.mmr.putLeaf height hash = .ok later.mmr)
    (small : size ≤ height) (h : AuxDataResolver.resolve context size requests = .ok auxData) :
    AuxDataResolver.resolve later size requests = .ok auxData := by
  obtain ⟨sameSeed, grown, seeded, below⟩ := ManifestMmr.putLeaf_below put
  have sameCount : later.mmr.seedCount = context.mmr.seedCount := by
    rw [ManifestMmr.seedCount, sameSeed]; rfl
  obtain ⟨txs, isTxs, h⟩ := bind_ok h
  obtain ⟨hashes, isHashes, h⟩ := bind_ok h
  have again : AuxDataResolver.resolveManifestHashes later size requests.manifestHashes =
      .ok hashes := by
    refine mapM_mono (fun index item found => ?_) isHashes
    obtain ⟨leaf, isLeaf, found⟩ := bind_ok found
    obtain ⟨proof, isProof, found⟩ := bind_ok found
    have bound : ¬ (size ≤ index ∨ context.mmr.leafCount < size) := by
      intro refused
      rw [ManifestMmr.generateProofAt, if_pos refused] at isProof
      cases isProof
    have leafAgain : later.mmr.getLeaf index = .ok leaf := by
      obtain ⟨past, here⟩ := ManifestMmr.getLeaf_iff.mp isLeaf
      refine ManifestMmr.getLeaf_iff.mpr ⟨sameCount ▸ past, ?_⟩
      have inside : index - context.mmr.seedCount < size - context.mmr.seedCount := by omega
      rw [sameCount, ← List.getElem?_take_of_lt inside, below size small,
        List.getElem?_take_of_lt inside]
      exact here
    have proofAgain : later.mmr.generateProofAt index size = .ok proof := by
      rw [ManifestMmr.generateProofAt, if_neg bound] at isProof
      rw [ManifestMmr.generateProofAt, if_neg (by omega), sameSeed, sameCount, below size small]
      exact isProof
    rw [AuxDataResolver.resolveManifestHash, leafAgain, ok_bind, proofAgain, ok_bind]
    exact found
  rw [AuxDataResolver.resolve, AuxDataResolver.resolveBitcoinTxs, sameL1]
  rw [AuxDataResolver.resolveBitcoinTxs] at isTxs
  rw [isTxs, ok_bind, again, ok_bind]
  exact h

theorem executeBlock_again (executes : worker.executeBlock blockId = .ok (output, auxData))
    (sameL1 : later.l1 = worker.context.l1)
    (again : ∀ requests auxData, AuxDataResolver.resolve worker.context
      (MerkleMountainRange.numEntries worker.anchor.chainView.historyAccumulator) requests =
        .ok auxData →
      AuxDataResolver.resolve later
        (MerkleMountainRange.numEntries worker.anchor.chainView.historyAccumulator) requests =
          .ok auxData) :
    { worker with context := later }.executeBlock blockId = .ok (output, auxData) := by
  obtain ⟨block, found, h⟩ := bind_ok executes
  obtain ⟨target, resolved, h⟩ := bind_ok h
  obtain ⟨result, processed, h⟩ := bind_ok h
  cases result with
  | error error => cases h
  | ok requests =>
    obtain ⟨data, isData, h⟩ := bind_ok h
    rw [AsmWorkerServiceState.executeBlock, sameL1, found, ok_bind,
      AsmWorkerServiceState.transition, resolved, ok_bind, processed, ok_bind]
    dsimp only
    rw [liftError, again requests data (liftError_ok isData)]
    exact h

omit [StoredMmr] in
theorem Partly.writes_again (part : Partly context blockId output auxData later) :
    (blockWrites blockId output auxData).foldlM WorkerContext.write later =
      (blockWrites blockId output auxData).foldlM WorkerContext.write context ∧
    ∀ error, (blockWrites blockId output auxData).foldlM WorkerContext.write context = .error error →
      later.putManifest output.manifest = context.putManifest output.manifest := by
  rw [blockWrites_run, blockWrites_run]
  cases part with
  | untouched => exact ⟨rfl, fun _ _ => rfl⟩
  | manifest =>
    simp only [WorkerContext.putManifest, Keyed.put_put]
    exact ⟨trivial, fun _ _ => trivial⟩
  | leaf put =>
    simp only [WorkerContext.putManifest, Keyed.put_put, put, ManifestMmr.putLeaf_again put]
    exact ⟨trivial, nofun⟩
  | auxData put =>
    simp only [WorkerContext.putManifest, WorkerContext.storeAuxData, Keyed.put_put, put,
      ManifestMmr.putLeaf_again put]
    exact ⟨trivial, nofun⟩

/-- Some first writes of a block make no difference to a second attempt. -/
theorem applyBlock_again (executes : worker.executeBlock blockId = .ok (output, auxData))
    (small : ∀ mmr, worker.context.mmr.putLeaf output.manifest.height
      (AsmLibs.manifestHash output.manifest) = .ok mmr →
      MerkleMountainRange.numEntries worker.anchor.chainView.historyAccumulator ≤ output.manifest.height)
    (part : Partly worker.context blockId output auxData later) :
    (applyBlock blockId).run { worker with context := later } = (applyBlock blockId).run worker := by
  have again : { worker with context := later }.executeBlock blockId = .ok (output, auxData) := by
    cases part with
    | untouched => exact executes
    | manifest => exact executeBlock_again executes rfl fun _ _ => id
    | leaf put => exact executeBlock_again executes rfl fun _ _ => resolve_again rfl put (small _ put)
    | auxData put => exact executeBlock_again executes rfl fun _ _ => resolve_again rfl put (small _ put)
  obtain ⟨same, refused⟩ := part.writes_again
  rw [applyBlock_run, applyBlock_run, executes, again]
  dsimp only
  rw [same]
  cases written : (blockWrites blockId output auxData).foldlM WorkerContext.write worker.context with
  | error error => rw [refused error written]
  | ok context => rfl

end

/-! ### Passes -/

/-- What is left of a worker apart from what subscribers were told. -/
def AsmWorkerServiceState.silent [MerkleMountainRange]
    (worker : AsmWorkerServiceState) : AsmWorkerServiceState :=
  { worker with emitted := [] }

section

variable [AsmLibs] [StoredMmr]

/-- What a pass over some blocks leaves if it is aborted: before it begins, within the writes of its
first block, or later. -/
inductive AbortsPass : AsmWorkerServiceState → List L1BlockCommitment → WorkerContext → Prop
  | start {worker : AsmWorkerServiceState} {blocks : List L1BlockCommitment} :
      AbortsPass worker blocks worker.context
  | within {worker : AsmWorkerServiceState} {blockId : L1BlockCommitment}
      {blocks : List L1BlockCommitment}
      {output : AsmStfOutput} {auxData : AuxData} {done : List WorkerWrite} {context : WorkerContext}
      (executes : worker.executeBlock blockId = .ok (output, auxData))
      (isPrefix : done <+: blockWrites blockId output auxData)
      (written : done.foldlM WorkerContext.write worker.context = .ok context) :
      AbortsPass worker (blockId :: blocks) context
  | later {worker next : AsmWorkerServiceState} {blockId : L1BlockCommitment}
      {blocks : List L1BlockCommitment}
      {context : WorkerContext} (applied : (applyBlock blockId).run worker = .ok () next)
      (aborts : AbortsPass next blocks context) : AbortsPass worker (blockId :: blocks) context

/-- What a call leaves whose plan has blocks to process and whose pass over them is aborted. -/
inductive AbortsSync (worker : AsmWorkerServiceState) (targetBlkid : Buf32) : WorkerContext → Prop
  | pass {height : Nat} {plan : SyncPlan AnchorState} {mid : AsmWorkerServiceState}
      {context : WorkerContext}
      (isHeight : worker.context.l1.getL1BlockHeight targetBlkid = .ok height)
      (planned : planBlockProcessing worker.context ⟨height, targetBlkid⟩
        worker.genesisHeight = .ok plan)
      (some : plan.pending ≠ [])
      (restored : (AsmWorkerServiceState.restoreAnchor plan.baseState plan.baseBlock).run worker =
        .ok () mid)
      (aborts : AbortsPass mid plan.pending.reverse context) : AbortsSync worker targetBlkid context

variable {worker other next : AsmWorkerServiceState} {blockId target : L1BlockCommitment}
  {blocks : List L1BlockCommitment} {context : WorkerContext}

theorem applyBlock_silent (blockId : L1BlockCommitment) (worker other : AsmWorkerServiceState)
    (same : worker.silent = other.silent) :
    Effect.ends AsmWorkerServiceState.silent ((applyBlock blockId).run worker) =
      Effect.ends AsmWorkerServiceState.silent ((applyBlock blockId).run other) := by
  obtain ⟨context, registry, genesisBlock, genesisPredicate, nextPredicate, anchor, blkid,
    genesisHeight, told⟩ := worker
  obtain ⟨_, _, _, _, _, _, _, _, told'⟩ := other
  cases same
  have executes : AsmWorkerServiceState.executeBlock
      ⟨context, registry, genesisBlock, genesisPredicate, nextPredicate, anchor, blkid,
        genesisHeight, told⟩ blockId =
    AsmWorkerServiceState.executeBlock
      ⟨context, registry, genesisBlock, genesisPredicate, nextPredicate, anchor, blkid,
        genesisHeight, told'⟩ blockId := rfl
  rw [applyBlock_run, applyBlock_run, executes]
  split
  · rfl
  · dsimp only
    split
    · rfl
    · rfl

theorem syncToBlock_run {targetBlkid : Buf32} {height : Nat} {base : L1BlockCommitment}
    {baseState : AnchorState} {mid : AsmWorkerServiceState}
    (isHeight : worker.context.l1.getL1BlockHeight targetBlkid = .ok height)
    (walk : Walk worker.genesisHeight worker.context.baseAt worker.context.l1.headerParent base baseState
      ⟨height, targetBlkid⟩ blocks.reverse) (some : blocks ≠ [])
    (restored : (AsmWorkerServiceState.restoreAnchor baseState base).run worker = .ok () mid) :
    Effect.ends AsmWorkerServiceState.silent ((syncToBlock targetBlkid).run worker) =
      Effect.ends AsmWorkerServiceState.silent ((blocks.forM applyBlock).run mid) := by
  have notEmpty : blocks.reverse ≠ [] := fun empty => some (List.reverse_eq_nil_iff.mp empty)
  have above := (walk.pending notEmpty).2
  have found : liftError (worker.context.l1.getL1BlockHeight targetBlkid) = .ok height :=
    mapError_ok_iff.mpr isHeight
  show Effect.ends _ ((Effect.lift (liftError (worker.context.l1.getL1BlockHeight targetBlkid)) >>=
    fun height => _).run
    worker) = _
  rw [Effect.lift_bind_of_ok found, if_neg (Nat.not_lt.mpr (Nat.le_of_lt above)),
    Effect.lift_bind_of_ok (planBlockProcessing_of_walk walk), if_neg (by simpa using some),
    Effect.bind_of_ok restored]
  dsimp only
  rw [List.reverse_reverse, EStateM.run_bind]
  cases (blocks.forM applyBlock).run mid with
  | ok _ post => rfl
  | error stop post => rfl

/-- A call changes nothing if the block is already processed. -/
theorem syncToBlock_idle {targetBlkid : Buf32} {height : Nat} {base : L1BlockCommitment}
    {baseState : AnchorState}
    (isHeight : worker.context.l1.getL1BlockHeight targetBlkid = .ok height)
    (walk : Walk worker.genesisHeight worker.context.baseAt worker.context.l1.headerParent base baseState
      ⟨height, targetBlkid⟩ []) : (syncToBlock targetBlkid).run worker = .ok [] worker := by
  have found : liftError (worker.context.l1.getL1BlockHeight targetBlkid) = .ok height :=
    mapError_ok_iff.mpr isHeight
  show (Effect.lift (liftError (worker.context.l1.getL1BlockHeight targetBlkid)) >>= fun height =>
    _).run worker = _
  rw [Effect.lift_bind_of_ok found]
  split_ifs
  · rfl
  · rw [Effect.lift_bind_of_ok (planBlockProcessing_of_walk walk)]
    rfl

end

/-! ### In the middle of a pass -/

section

variable [AsmLibs] {d : Deployment} {worker post : AsmWorkerServiceState}
  {blockId target : L1BlockCommitment}
  {blocks : List L1BlockCommitment} {output : AsmStfOutput} {auxData : AuxData}
  {context left : WorkerContext}

/-- A worker on its way to a block: planning again from its stores gives its own block as the base,
and the blocks that it has still to apply. -/
structure Midway (d : Deployment) (target : L1BlockCommitment) (worker : AsmWorkerServiceState)
    (blocks : List L1BlockCommitment) : Prop extends Tracks d worker where
  seed : worker.context.mmr.seed = some d.genesis.chainView.historyAccumulator
  walk : Walk worker.genesisHeight worker.context.baseAt worker.context.l1.headerParent worker.blkid
    worker.anchor target
    blocks.reverse

theorem Midway.first (midway : Midway d target worker (blockId :: blocks)) :
    Keyed.get AnchorState.lastProcessedBlock worker.context.anchors blockId = none ∧
      blockId.height = worker.blkid.height + 1 := by
  have walk := midway.walk
  rw [List.reverse_cons] at walk
  obtain ⟨notBase, above, isParent⟩ := walk.last
  have := headerParent_ok isParent
  exact ⟨baseAt_none notBase, by omega⟩

theorem Midway.next [StoredMmr] (midway : Midway d target worker (blockId :: blocks))
    (applied : (applyBlock blockId).run worker = .ok () post) : Midway d target post blocks := by
  obtain ⟨fresh, above⟩ := midway.first
  obtain ⟨block, program, auxData, output, mmr, applies⟩ := applyBlock_ok applied
  have tip := applies.tip midway.toTracks above
  have tracks := midway.toTracks.apply fresh above applies
  have walk := midway.walk
  rw [List.reverse_cons] at walk
  have result := applies.result
  subst result
  have stored : ∀ block, Keyed.get AnchorState.lastProcessedBlock
      (Keyed.put AnchorState.lastProcessedBlock worker.context.anchors output.state) block =
      if block = blockId then some output.state
        else Keyed.get AnchorState.lastProcessedBlock worker.context.anchors block := by
    intro block
    rw [Keyed.get_put, tip]
  refine ⟨tracks, (ManifestMmr.putLeaf_ok applies.leaf).1.trans midway.seed, ?_⟩
  refine walk.advance headerParent_lower ?_ fun other higher => ?_
  · rw [baseAt_eq, stored, if_pos rfl]
  · rw [baseAt_eq, baseAt_eq, stored, if_neg]
    rintro rfl
    exact Nat.lt_irrefl _ higher

theorem Partly.keeps (part : Partly context blockId output auxData left) :
    left.l1 = context.l1 ∧ left.anchors = context.anchors ∧ left.mmr.seed = context.mmr.seed ∧
      (left.manifests = context.manifests ∨
        left.manifests = Keyed.put AsmManifest.block context.manifests output.manifest) := by
  cases part with
  | untouched => exact ⟨rfl, rfl, rfl, .inl rfl⟩
  | manifest => exact ⟨rfl, rfl, rfl, .inr rfl⟩
  | leaf put => exact ⟨rfl, rfl, (ManifestMmr.putLeaf_ok put).1, .inr rfl⟩
  | auxData put => exact ⟨rfl, rfl, (ManifestMmr.putLeaf_ok put).1, .inr rfl⟩

theorem Tracks.executed [StoredMmr] (tracks : Tracks d worker)
    (above : blockId.height = worker.blkid.height + 1)
    (executes : worker.executeBlock blockId = .ok (output, auxData)) :
    output.manifest.block = blockId := by
  obtain ⟨block, found, ran⟩ := bind_ok executes
  replace found := liftError_ok found
  obtain ⟨program, resolved, ran⟩ := transition_ok ran
  rw [tracks.registry] at resolved
  rw [tracks.store.l1] at found
  have steps := Deployment.steps resolved ran
  rw [steps.recorded, steps.tip, d.consistent _ _ found, ← tracks.blkid, ← above]

/-- The accumulator of an anchor does not reach the leaf of the block after it. -/
theorem Midway.size_le [StoredMmr] (midway : Midway d target worker (blockId :: blocks))
    (executes : worker.executeBlock blockId = .ok (output, auxData)) {mmr : ManifestMmr}
    (put : worker.context.mmr.putLeaf output.manifest.height
      (AsmLibs.manifestHash output.manifest) = .ok mmr) :
    MerkleMountainRange.numEntries worker.anchor.chainView.historyAccumulator ≤
      output.manifest.height := by
  obtain ⟨manifests, recorded⟩ := midway.store.recorded _ midway.anchor
  have height : output.manifest.height = worker.anchor.lastProcessedBlock.height + 1 := by
    rw [← midway.blkid, ← midway.first.2]
    exact congrArg L1BlockCommitment.height (midway.executed midway.first.2 executes)
  have seeded := (ManifestMmr.putLeaf_below put).2.2.1
  rw [ManifestMmr.seedCount_eq midway.seed] at seeded
  generalize worker.anchor = anchor at recorded height ⊢
  cases recorded with
  | genesis => exact seeded
  | block before stored kept found resolved ran =>
    rw [(Deployment.steps resolved ran).entries, height]

/-- Some first writes of a block that has no anchor yet disturb nothing that is recorded. -/
theorem Midway.partly [StoredMmr] (midway : Midway d target worker (blockId :: blocks))
    (executes : worker.executeBlock blockId = .ok (output, auxData))
    (part : Partly worker.context blockId output auxData left) :
    Midway d target { worker with context := left } (blockId :: blocks) := by
  obtain ⟨fresh, above⟩ := midway.first
  have isBlock := midway.executed above executes
  obtain ⟨sameL1, sameAnchors, sameSeed, manifests⟩ := part.keeps
  have kept : ∀ {manifests anchor}, Recorded d worker.context manifests anchor →
      Recorded d left manifests anchor := by
    intro _ _ recorded
    refine recorded.mono (fun anchor mem => sameAnchors ▸ mem) fun manifest mem anchor stored same => ?_
    rcases manifests with unchanged | put
    · exact unchanged ▸ mem
    · rw [put]
      refine (Keyed.mem_put AsmManifest.block).mpr (.inr ⟨mem, ?_⟩)
      rw [same, isBlock]
      exact Keyed.key_ne _ fresh stored
  have store : Stored d left := by
    refine ⟨sameL1.trans midway.store.l1, sameAnchors ▸ midway.store.anchorKeys, ?_,
      sameAnchors ▸ midway.store.root, ?_⟩
    · rcases manifests with unchanged | put
      · exact unchanged ▸ midway.store.manifestKeys
      · exact put ▸ Keyed.nodup_put _ midway.store.manifestKeys _
    · intro anchor mem
      obtain ⟨manifests, recorded⟩ := midway.store.recorded anchor (sameAnchors ▸ mem)
      exact ⟨manifests, kept recorded⟩
  refine ⟨⟨store, midway.registry, midway.genesisBlock, midway.genesisHeight, midway.genesisPredicate,
    sameAnchors ▸ midway.anchor, midway.blkid, fun manifests recorded => ?_⟩,
    sameSeed.trans midway.seed, ?_⟩
  · obtain ⟨others, record⟩ := midway.store.recorded _ midway.anchor
    rw [(recorded.unique store (kept record) rfl).1]
    exact midway.predicate others record
  · have sameBase : left.baseAt = worker.context.baseAt := funext fun block => by
      rw [baseAt_eq, baseAt_eq, sameAnchors]
    dsimp only
    rw [sameBase, sameL1]
    exact midway.walk

/-- Wherever a pass is aborted, a worker on its way over the stores that are left ends like the pass
itself. -/
theorem AbortsPass.resumes [StoredMmr] (aborts : AbortsPass worker blocks left)
    (midway : Midway d target worker blocks) :
    ∃ resumed rest, resumed.context = left ∧ Midway d target resumed rest ∧
      Effect.ends AsmWorkerServiceState.silent ((rest.forM applyBlock).run resumed) =
        Effect.ends AsmWorkerServiceState.silent ((blocks.forM applyBlock).run worker) := by
  induction aborts with
  | start => exact ⟨_, _, rfl, midway, rfl⟩
  | @within worker blockId blocks output auxData done left executes isPrefix written =>
    rcases partly_of_prefix isPrefix written with part | all
    · refine ⟨{ worker with context := left }, blockId :: blocks, rfl, midway.partly executes part, ?_⟩
      have again := applyBlock_again executes (fun _ put => midway.size_le executes put) part
      rw [Effect.forM_cons_run, Effect.forM_cons_run, EStateM.run_bind, EStateM.run_bind, again]
    · have applied : (applyBlock blockId).run worker =
          .ok () (({ worker with context := left }.acceptOutput output blockId).emit blockId) := by
        rw [applyBlock_run, executes]
        dsimp only
        rw [all]
      refine ⟨_, blocks, rfl, midway.next applied, ?_⟩
      rw [Effect.forM_cons_run, Effect.bind_of_ok applied]
  | later applied aborts ih =>
    obtain ⟨resumed, rest, isLeft, resumes, same⟩ := ih (midway.next applied)
    refine ⟨resumed, rest, isLeft, resumes, ?_⟩
    rw [same, Effect.forM_cons_run, Effect.bind_of_ok applied]

theorem Tracks.restore_eq (tracks : Tracks d worker) {anchor : AnchorState} {base : L1BlockCommitment}
    (isBase : Keyed.get AnchorState.lastProcessedBlock worker.context.anchors base = some anchor)
    {manifests : List AsmManifest} (recorded : Recorded d worker.context manifests anchor) :
    (AsmWorkerServiceState.restoreAnchor anchor base).run worker =
      .ok () { worker with
        nextPredicate := foldPredicate d.predicate manifests, anchor, blkid := base } := by
  obtain ⟨stored, isBlock⟩ := (Keyed.get_iff _ tracks.store.anchorKeys).mp isBase
  by_cases same : base = worker.blkid
  · have isTip : anchor = worker.anchor := by
      apply List.inj_on_of_nodup_map tracks.store.anchorKeys stored tracks.anchor
      rw [isBlock, same, tracks.blkid]
    have unmoved := tracks.predicate manifests (isTip ▸ recorded)
    show EStateM.run (if base ≠ worker.blkid then _ else _) worker = _
    rw [if_neg (not_not.mpr same), ← unmoved]
    rfl
  · show EStateM.run (if base ≠ worker.blkid then _ else _) worker = _
    rw [if_pos same]
    have recovered := recoverFromContext_eq tracks.store recorded
    have lifted : liftError (recoverFromContext worker.context worker.registry worker.genesisBlock
      worker.genesisPredicate
        anchor) = .ok (foldPredicate d.predicate manifests) := by
      rw [tracks.registry, tracks.genesisBlock, tracks.genesisPredicate]
      exact mapError_ok_iff.mpr recovered
    rw [Effect.lift_bind_of_ok lifted]
    rfl

end

/-! ### Starting again -/

section

variable [AsmLibs] [DecidableEq AnchorState] {d : Deployment} {worker : AsmWorkerServiceState}
  {stores context : WorkerContext}

theorem Deployment.Starts.valid (started : d.Starts stores worker) :
    (∃ target, d.registry.resolve d.predicate = .ok target ∧ target.id = d.genesis.specId) ∧
      validateAnchorAgainstL1 stores.l1 d.genesis.chainView.powState = .ok () := by
  obtain ⟨later, h⟩ := started
  obtain ⟨target, resolved, h⟩ := Effect.lift_bind_ok h
  dsimp only at h
  split at h
  · cases h
  · rename_i sameSpec
    obtain ⟨_, valid, h⟩ := Effect.lift_bind_ok (Effect.get_bind_ok h)
    exact ⟨⟨target, resolved, not_not.mp sameSpec⟩, valid⟩

omit [DecidableEq AnchorState] in
/-- An accumulator that is seeded is left as it is. -/
theorem seedMmr_of_seeded (seed : context.mmr.seed = some d.genesis.chainView.historyAccumulator) :
    (AsmWorkerServiceState.seedMmr d.genesis).run context = .ok () context := by
  have count := ManifestMmr.seedCount_eq seed
  show EStateM.run (if context.mmr.leafCount = 0 then _ else if _ then _ else _) context = _
  split_ifs with empty few
  · have none : context.mmr.leaves = [] :=
      List.length_eq_zero_iff.mp (by rw [ManifestMmr.leafCount] at empty; omega)
    have same : (⟨some d.genesis.chainView.historyAccumulator, []⟩ : ManifestMmr) = context.mmr := by
      rw [← seed, ← none]
    rw [WorkerContext.seedManifestMmr, if_pos empty, Effect.lift_bind_of_ok rfl, same]
    rfl
  · rw [ManifestMmr.leafCount, count] at few
    omega
  · rfl

def Deployment.seededStores (d : Deployment) : WorkerContext :=
  { d.emptyStores with mmr := ⟨some d.genesis.chainView.historyAccumulator, []⟩ }

/-- The stores before the anchor of genesis is written. -/
def Deployment.Blank (d : Deployment) (context : WorkerContext) : Prop :=
  context = d.emptyStores ∨ context = d.seededStores

omit [DecidableEq AnchorState] in
theorem Deployment.Blank.seedMmr (blank : d.Blank context) :
    (AsmWorkerServiceState.seedMmr d.genesis).run context = .ok () d.seededStores := by
  rcases blank with rfl | rfl
  · rfl
  · exact seedMmr_of_seeded rfl

/-- A worker that starts over seeded stores is the one that starts over empty ones. -/
theorem Deployment.Starts.of_blank {other : WorkerContext} (started : d.Starts other worker)
    (before : d.Blank other) (blank : d.Blank context) : d.Starts context worker := by
  obtain ⟨⟨target, resolved, sameSpec⟩, valid⟩ := started.valid
  have sameL1 : ∀ {context}, d.Blank context → context.l1 = d.l1 := by
    rintro _ (rfl | rfl) <;> rfl
  have seeds : ∃ rest : EStateM WorkerError WorkerContext AsmWorkerServiceState, ∀ context, d.Blank context →
      (AsmWorkerServiceState.new d.genesis d.predicate d.registry).run context =
        rest.run d.seededStores := by
    apply Exists.intro
    intro context blank
    have checked : (AsmWorkerServiceState.checkGenesis d.genesis).run context = .ok () context := by
      rcases blank with rfl | rfl <;> rfl
    have none : context.getLatestAnchorState = none := by
      rcases blank with rfl | rfl <;> rfl
    rw [sameL1 before, ← sameL1 blank] at valid
    rw [AsmWorkerServiceState.new, Effect.lift_bind_of_ok resolved, if_neg (not_not.mpr sameSpec)]
    show (Effect.lift (validateAnchorAgainstL1 context.l1 d.genesis.chainView.powState) >>= fun _ =>
      _).run context = _
    rw [Effect.lift_bind_of_ok valid]
    dsimp only
    rw [Effect.bind_of_ok checked, Effect.bind_of_ok blank.seedMmr, none]
  obtain ⟨rest, runs⟩ := seeds
  obtain ⟨later, ran⟩ := started
  exact ⟨later, (runs context blank).trans ((runs other before).symm.trans ran)⟩

/-- A worker starts over whatever it has recorded, at the latest anchor, and writes nothing. -/
theorem Deployment.Starts.again (started : d.Starts stores worker) (sameL1 : stores.l1 = d.l1)
    (store : Stored d context)
    (seed : context.mmr.seed = some d.genesis.chainView.historyAccumulator) :
    ∃ again, d.Starts context again ∧ again.context = context ∧
      context.getLatestAnchorState = some again.anchor := by
  obtain ⟨⟨target, resolved, sameSpec⟩, valid⟩ := started.valid
  obtain ⟨latest, mem, isLatest⟩ := getLatestAnchorState_mem store.root
  obtain ⟨manifests, recorded⟩ := store.recorded latest mem
  have recovered := recoverFromContext_eq store recorded
  have checked : (AsmWorkerServiceState.checkGenesis d.genesis).run context = .ok () context := by
    have found : context.getAnchorState d.genesis.lastProcessedBlock = .ok d.genesis := by
      rw [WorkerContext.getAnchorState, (Keyed.get_iff _ store.anchorKeys).mpr ⟨store.root, rfl⟩]
    have read : (get : EStateM WorkerError WorkerContext WorkerContext).run context =
        .ok context context := rfl
    rw [AsmWorkerServiceState.checkGenesis, Effect.bind_of_ok read, found]
    dsimp only
    rw [if_neg (not_not.mpr rfl)]
    rfl
  rw [sameL1, ← store.l1] at valid
  refine ⟨{
    context
    registry := d.registry
    genesisBlock := d.genesis.lastProcessedBlock
    genesisPredicate := d.predicate
    nextPredicate := foldPredicate d.predicate manifests
    anchor := latest
    blkid := latest.lastProcessedBlock
    genesisHeight := d.genesis.lastProcessedBlock.height
    emitted := [] }, ⟨context, ?_⟩, rfl, isLatest⟩
  rw [AsmWorkerServiceState.new, Effect.lift_bind_of_ok resolved, if_neg (not_not.mpr sameSpec)]
  show (Effect.lift (validateAnchorAgainstL1 context.l1 d.genesis.chainView.powState) >>= fun _ =>
    _).run context = _
  rw [Effect.lift_bind_of_ok valid]
  dsimp only
  rw [Effect.bind_of_ok checked, Effect.bind_of_ok (seedMmr_of_seeded seed), isLatest, if_neg (by simp)]
  show (Effect.lift (recoverFromContext context d.registry d.genesis.lastProcessedBlock d.predicate
    latest) >>= fun _ => _).run context = _
  rw [Effect.lift_bind_of_ok recovered]
  rfl

variable [StoredMmr] {start pre resumed again : AsmWorkerServiceState} {calls : List SyncCall}
  {targetBlkid : Buf32} {height : Nat} {left : WorkerContext}

theorem Synced.tracks (started : d.Starts d.emptyStores start) (synced : Synced start calls worker) :
    Tracks d worker ∧ worker.context.mmr.seed = some d.genesis.chainView.historyAccumulator := by
  induction synced with
  | start =>
    obtain ⟨tracks, -, -, mmr⟩ := Tracks.fresh started
    exact ⟨tracks, by rw [mmr]⟩
  | sync before synced ih =>
    have syncs := syncToBlock_ok synced
    refine ⟨ih.1.sync syncs, ?_⟩
    cases syncs with
    | idle => exact ih.2
    | @advance height plan mid post isBase planned some restored applied =>
      have walk := planBlockProcessing_ok planned
      obtain ⟨restoredTracks, sameContext, -, atBase⟩ := ih.1.restore (baseAt_some walk.isBase) restored
      rw [← sameContext] at walk
      have keeps := pass_preserves (d := d)
        (fun worker => worker.context.mmr.seed = Option.some d.genesis.chainView.historyAccumulator)
        (fun _ _ _ _ _ _ _ _ _ _ _ applies seeded => by
          rw [applies.result]
          exact (ManifestMmr.putLeaf_ok applies.leaf).1.trans seeded)
        walk restoredTracks atBase applied (sameContext ▸ ih.2)
      exact keeps.2.2.1

/-- The block of a call has a stored anchor. -/
def WorkerContext.Processed (context : WorkerContext) (targetBlkid : Buf32) : Prop :=
  ∃ height anchor, context.l1.getL1BlockHeight targetBlkid = .ok height ∧
    context.getAnchorState ⟨height, targetBlkid⟩ = .ok anchor

/-- Two workers go on alike. -/
structure SameMemory (worker other : AsmWorkerServiceState) : Prop where
  anchor : worker.anchor = other.anchor
  blkid : worker.blkid = other.blkid
  nextPredicate : worker.nextPredicate = other.nextPredicate

omit [DecidableEq AnchorState] [StoredMmr] in
theorem sameMemory_silent : SameMemory worker.silent again.silent ↔ SameMemory worker again :=
  ⟨fun same => ⟨same.anchor, same.blkid, same.nextPredicate⟩,
    fun same => ⟨same.anchor, same.blkid, same.nextPredicate⟩⟩

omit [DecidableEq AnchorState] [StoredMmr] in
theorem getAnchorState_iff {block : L1BlockCommitment} {anchor : AnchorState} :
    context.getAnchorState block = .ok anchor ↔
    Keyed.get AnchorState.lastProcessedBlock context.anchors block = some anchor := by
  unfold WorkerContext.getAnchorState
  cases Keyed.get AnchorState.lastProcessedBlock context.anchors block with
  | none => simp
  | some held => rw [Except.ok.injEq, Option.some.injEq]

omit [DecidableEq AnchorState] in
/-- A worker over the stores of one that is on its way goes the same way. -/
theorem Midway.rerun (midway : Midway d ⟨height, targetBlkid⟩ resumed blocks) (some : blocks ≠ [])
    (tracks : Tracks d again) (sameContext : again.context = resumed.context)
    (isHeight : again.context.l1.getL1BlockHeight targetBlkid = .ok height) :
    Effect.ends AsmWorkerServiceState.silent ((syncToBlock targetBlkid).run again) =
      Effect.ends AsmWorkerServiceState.silent ((blocks.forM applyBlock).run resumed) := by
  have walk := midway.walk
  have isBase := baseAt_some walk.isBase
  obtain ⟨manifests, recorded⟩ := midway.store.recorded _ midway.anchor
  rw [midway.genesisHeight, ← tracks.genesisHeight, ← sameContext] at walk
  rw [← sameContext] at isBase
  rw [syncToBlock_run isHeight walk some (tracks.restore_eq isBase (sameContext ▸ recorded))]
  refine Effect.forM_ends applyBlock_silent blocks ?_
  unfold AsmWorkerServiceState.silent
  rw [← midway.predicate manifests recorded, tracks.registry, ← midway.registry, tracks.genesisBlock,
    ← midway.genesisBlock, tracks.genesisPredicate, ← midway.genesisPredicate, tracks.genesisHeight,
    ← midway.genesisHeight, sameContext]

omit [DecidableEq AnchorState] [StoredMmr] in
/-- In memory a worker that has nothing left to do is determined by its anchor. -/
theorem Midway.sameMemory_iff (midway : Midway d target resumed []) (tracks : Tracks d again)
    (sameContext : again.context = resumed.context) :
    SameMemory again resumed ↔ again.anchor = resumed.anchor := by
  refine ⟨SameMemory.anchor, fun same => ⟨same, ?_, ?_⟩⟩
  · rw [tracks.blkid, midway.blkid, same]
  · obtain ⟨manifests, recorded⟩ := midway.store.recorded _ midway.anchor
    rw [midway.predicate manifests recorded]
    refine tracks.predicate manifests ?_
    rw [sameContext, same]
    exact recorded

/-- Wherever the pass of a call is aborted, the worker starts again, and the same call ends as it
would have and with the same stores. In memory it ends the same as well, except that a block whose
writes were all done is not processed again: then the worker stays at the latest of the stored
anchors. -/
theorem worker_crash_rerun (started : d.Starts d.emptyStores start) (synced : Synced start calls pre)
    (aborts : AbortsSync pre targetBlkid left) :
    ∃ again, d.Starts left again ∧
      let done := Effect.ends AsmWorkerServiceState.silent ((syncToBlock targetBlkid).run pre)
      let redone := Effect.ends AsmWorkerServiceState.silent ((syncToBlock targetBlkid).run again)
      redone.1 = done.1 ∧ redone.2.context = done.2.context ∧
        (SameMemory redone.2 done.2 ↔
          (left.Processed targetBlkid → left.getLatestAnchorState = some done.2.anchor)) ∧
        (left.Processed targetBlkid → left.getLatestAnchorState = some redone.2.anchor) := by
  obtain ⟨tracks, seed⟩ := synced.tracks started
  obtain @⟨height, plan, mid, _, isHeight, planned, some, restored, aborts⟩ := aborts
  have walk := planBlockProcessing_ok planned
  obtain ⟨restoredTracks, sameContext, atBase, isBase⟩ :=
    tracks.restore (baseAt_some walk.isBase) restored
  have some' : plan.pending.reverse ≠ [] := fun empty => some (List.reverse_eq_nil_iff.mp empty)
  have done := syncToBlock_run isHeight (by rw [List.reverse_reverse]; exact walk) some' restored
  have midway : Midway d ⟨height, targetBlkid⟩ mid plan.pending.reverse := by
    refine ⟨restoredTracks, sameContext ▸ seed, ?_⟩
    rw [List.reverse_reverse, restoredTracks.genesisHeight, ← tracks.genesisHeight, sameContext,
      isBase, atBase]
    exact walk
  obtain ⟨resumed, rest, isLeft, midway, same⟩ := aborts.resumes midway
  subst isLeft
  obtain ⟨again, restarts, againContext, isLatest⟩ := started.again rfl midway.store midway.seed
  have againTracks := Tracks.restart midway.store restarts
  have againHeight : again.context.l1.getL1BlockHeight targetBlkid = .ok height := by
    rw [againContext, midway.store.l1, ← tracks.store.l1]
    exact isHeight
  refine ⟨again, restarts, ?_⟩
  dsimp only
  rw [done, ← same]
  cases rest with
  | nil =>
    -- Everything was written: the second call finds the block processed.
    have walk := midway.walk
    have processed : resumed.context.Processed targetBlkid :=
      ⟨height, resumed.anchor, againContext ▸ againHeight,
        getAnchorState_iff.mpr (baseAt_some walk.atBase)⟩
    rw [midway.genesisHeight, ← againTracks.genesisHeight, ← againContext] at walk
    rw [syncToBlock_idle againHeight walk]
    refine ⟨rfl, againContext, sameMemory_silent.trans ?_, fun _ => isLatest⟩
    rw [midway.sameMemory_iff againTracks againContext, isLatest, Option.some.injEq]
    exact ⟨fun same _ => same, fun same => same processed⟩
  | cons block rest =>
    rw [midway.rerun (List.cons_ne_nil _ _) againTracks againContext againHeight]
    have unprocessed : ¬resumed.context.Processed targetBlkid := by
      rintro ⟨height', anchor, isHeight', stored⟩
      cases (againContext ▸ againHeight).symm.trans isHeight'
      have fresh := baseAt_none (midway.walk.pending (by simp)).1
      rw [getAnchorState_iff.mp stored] at fresh
      cases fresh
    exact ⟨rfl, rfl, iff_of_true ⟨rfl, rfl, rfl⟩ fun processed => absurd processed unprocessed,
      fun processed => absurd processed unprocessed⟩

end

/-! ### A concrete crash -/

section

attribute [local instance] sampleChainLibs sampleStoredMmr sampleMmrDecidableEq

/-- A worker at the second branch, whose block 11 is at the height of block 1 and has the larger id. -/
@[irreducible] def sampleOther : AsmWorkerServiceState :=
  (sampleSync sampleWorker 11).get (by decide +kernel)

theorem sampleOther_synced :
    Synced sampleWorker [⟨sampleWorker, .fill 11, sampleOther⟩] sampleOther := by
  have isOther : sampleSync sampleWorker 11 = some sampleOther := by rw [sampleOther, Option.some_get]
  obtain ⟨_, other⟩ := Effect.left_some isOther
  exact .sync .start other

def sampleReplaced : L1BlockCommitment := ⟨2, .fill 1⟩

def samplePlan : SyncPlan AnchorState :=
  (planBlockProcessing sampleOther.context sampleReplaced sampleOther.genesisHeight).toOption.get
    (by decide +kernel)

def sampleRestored : AsmWorkerServiceState :=
  (Effect.left ((AsmWorkerServiceState.restoreAnchor samplePlan.baseState samplePlan.baseBlock).run
    sampleOther)).get (by decide +kernel)

def sampleExecuted : AsmStfOutput × AuxData :=
  (sampleRestored.executeBlock sampleReplaced).toOption.get (by decide +kernel)

/-- What some first writes of block 1 leave. -/
def sampleStores (count : Fin 5) : Option WorkerContext :=
  (((blockWrites sampleReplaced sampleExecuted.1 sampleExecuted.2).take count).foldlM WorkerContext.write
    sampleRestored.context).toOption

theorem samplePlan_planned : planBlockProcessing sampleOther.context sampleReplaced
    sampleOther.genesisHeight = .ok samplePlan :=
  toOption_some (by rw [samplePlan, Option.some_get])

theorem samplePlan_pending : samplePlan.pending = [sampleReplaced] := by
  decide +kernel

theorem sampleRestored_run : (AsmWorkerServiceState.restoreAnchor samplePlan.baseState
    samplePlan.baseBlock).run sampleOther = .ok () sampleRestored := by
  rw [sampleRestored]
  exact Effect.ok_left_get _

theorem sampleExecuted_executes : sampleRestored.executeBlock sampleReplaced =
    .ok (sampleExecuted.1, sampleExecuted.2) :=
  toOption_some (by rw [Prod.mk.eta, sampleExecuted, Option.some_get])

theorem sampleStores_aborted {count : Fin 5} {left : WorkerContext}
    (isLeft : sampleStores count = some left) :
    AbortsSync sampleOther (.fill 1) left := by
  refine .pass (by decide +kernel) samplePlan_planned ?_ sampleRestored_run ?_
  · rw [samplePlan_pending]
    exact List.cons_ne_nil _ _
  · rw [samplePlan_pending]
    exact .within sampleExecuted_executes (List.take_prefix _ _) (toOption_some isLeft)

@[irreducible] def sampleTorn : WorkerContext := (sampleStores 2).get (by decide +kernel)

theorem sampleTorn_stored : sampleStores 2 = some sampleTorn := by
  rw [sampleTorn, Option.some_get]

/-- Block 1 is aborted after its leaf has replaced that of block 11. -/
theorem worker_crash_rerun_sample : AbortsSync sampleOther (.fill 1) sampleTorn ∧
    sampleTorn.mmr.leaves = [.fill 1] ∧ ∃ again, (sampleDeployment sampleForks).Starts sampleTorn again ∧
    SameMemory (Effect.ends AsmWorkerServiceState.silent ((syncToBlock (.fill 1)).run again)).2
      (Effect.ends AsmWorkerServiceState.silent ((syncToBlock (.fill 1)).run sampleOther)).2 := by
  have aborts := sampleStores_aborted sampleTorn_stored
  obtain ⟨again, restarts, -, -, memory, -⟩ :=
    worker_crash_rerun sampleWorker_started sampleOther_synced aborts
  refine ⟨aborts, by decide +kernel, again, restarts, memory.mpr ?_⟩
  rintro ⟨height, anchor, isHeight, stored⟩
  have atHeight : sampleTorn.l1.getL1BlockHeight (.fill 1) = .ok 2 := by decide +kernel
  have absent : (sampleTorn.getAnchorState ⟨2, .fill 1⟩).toOption.isNone = true := by decide +kernel
  cases atHeight.symm.trans isHeight
  rw [stored] at absent
  cases absent

@[irreducible] def sampleWhole : WorkerContext := (sampleStores 4).get (by decide +kernel)

@[irreducible] def sampleAgain : AsmWorkerServiceState :=
  (sampleStart (sampleDeployment sampleForks) sampleWhole).get (by decide +kernel)

/-- Aborted after its last write, block 1 is not processed again, and the worker is back at block
11. -/
theorem worker_crash_tip : Synced sampleWorker [⟨sampleWorker, .fill 11, sampleOther⟩] sampleOther ∧
    AbortsSync sampleOther (.fill 1) sampleWhole ∧
      (sampleDeployment sampleForks).Starts sampleWhole sampleAgain ∧
    (sampleSync sampleOther 1).map (fun worker => worker.anchor.lastProcessedBlock) = some ⟨2, .fill 1⟩ ∧
    (sampleSync sampleAgain 1).map (fun worker => worker.anchor.lastProcessedBlock) =
      some ⟨2, .fill 11⟩ := by
  have isWhole : sampleStores 4 = some sampleWhole := by rw [sampleWhole, Option.some_get]
  have isAgain : sampleStart (sampleDeployment sampleForks) sampleWhole = some sampleAgain := by
    rw [sampleAgain, Option.some_get]
  exact ⟨sampleOther_synced, sampleStores_aborted isWhole,
    Effect.returned_some isAgain, by decide +kernel, by decide +kernel⟩

end

end Asm
