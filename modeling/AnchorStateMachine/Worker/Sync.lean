import AnchorStateMachine.Worker.State

/-! Synchronization of the worker to a block: the walk back to the nearest stored anchor, and the
pass forward over the blocks above it. -/

namespace Asm
open Outcome

/-! ### Planning -/

/-- The base to build on, and the blocks above it, newest first. -/
structure SyncPlan (σ : Type) where
  baseState : σ
  baseBlock : L1BlockCommitment
  pending : List L1BlockCommitment

inductive SyncError (ε : Type)
  | reachedFloor (tip : L1BlockCommitment) (floorHeight : Nat)
  | provider (error : ε)

section

variable {σ ε : Type} (tip : L1BlockCommitment) (floorHeight : Nat)
  (baseAt : L1BlockCommitment → Except ε (Option σ)) (parentOf : L1BlockCommitment →
    Except ε L1BlockCommitment)

/-- The loop over the cursor; there is no result if it does not end within the fuel. -/
def planSyncFuel : Nat → L1BlockCommitment → List L1BlockCommitment →
    Option (Except (SyncError ε) (SyncPlan σ))
  | 0, _, _ => none
  | fuel + 1, cursor, pending =>
    match baseAt cursor with
    | .error error => some (.error (.provider error))
    | .ok (some baseState) => some (.ok ⟨baseState, cursor, pending⟩)
    | .ok none =>
      if cursor.height ≤ floorHeight then some (.error (.reachedFloor tip floorHeight))
      else
        match parentOf cursor with
        | .error error => some (.error (.provider error))
        | .ok parent => planSyncFuel fuel parent (pending ++ [cursor])

/-- A walk along parents that are one lower each has a step for every height, and the last one. -/
def planSync : Option (Except (SyncError ε) (SyncPlan σ)) :=
  planSyncFuel tip floorHeight baseAt parentOf (tip.height + 1) tip []

end

section

variable {σ ε : Type}

/-- The blocks that the walk passes from a cursor down to a base. -/
inductive Walk (floorHeight : Nat) (baseAt : L1BlockCommitment → Except ε (Option σ))
    (parentOf : L1BlockCommitment → Except ε L1BlockCommitment) (base : L1BlockCommitment)
    (baseState : σ) :
    L1BlockCommitment → List L1BlockCommitment → Prop
  | base (isBase : baseAt base = .ok (some baseState)) :
      Walk floorHeight baseAt parentOf base baseState base []
  | step {cursor parent : L1BlockCommitment} {rest : List L1BlockCommitment}
      (notBase : baseAt cursor = .ok none) (above : floorHeight < cursor.height)
      (isParent : parentOf cursor = .ok parent)
      (walk : Walk floorHeight baseAt parentOf base baseState parent rest) :
      Walk floorHeight baseAt parentOf base baseState cursor (cursor :: rest)

namespace Walk

variable {floorHeight : Nat} {baseAt : L1BlockCommitment → Except ε (Option σ)}
  {parentOf : L1BlockCommitment → Except ε L1BlockCommitment} {base cursor : L1BlockCommitment}
  {baseState : σ} {rest : List L1BlockCommitment}

theorem isBase (walk : Walk floorHeight baseAt parentOf base baseState cursor rest) :
    baseAt base = .ok (some baseState) := by
  induction walk with
  | base isBase => exact isBase
  | step notBase above isParent walk ih => exact ih

theorem atBase (walk : Walk floorHeight baseAt parentOf base baseState cursor []) :
    baseAt cursor = .ok (some baseState) := by
  cases walk
  assumption

theorem pending (walk : Walk floorHeight baseAt parentOf base baseState cursor rest) (some : rest ≠ []) :
    baseAt cursor = .ok none ∧ floorHeight < cursor.height := by
  cases walk with
  | base isBase => exact absurd rfl some
  | step notBase above isParent walk => exact ⟨notBase, above⟩

/-- The last block that a walk passes is a child of the base. -/
theorem last {block : L1BlockCommitment}
    (walk : Walk floorHeight baseAt parentOf base baseState cursor (rest ++ [block])) :
    baseAt block = .ok none ∧ floorHeight < block.height ∧ parentOf block = .ok base := by
  induction rest generalizing cursor with
  | nil =>
    cases walk with
    | step notBase above isParent walk =>
      cases walk
      exact ⟨notBase, above, isParent⟩
  | cons _ rest ih =>
    cases walk with
    | step notBase above isParent walk => exact ih walk

section

variable (lower : ∀ block parent, parentOf block = .ok parent → floorHeight < block.height →
  parent.height < block.height)

include lower

theorem height_le (walk : Walk floorHeight baseAt parentOf base baseState cursor rest) :
    ∀ block ∈ rest, block.height ≤ cursor.height := by
  induction walk with
  | base isBase => nofun
  | step notBase above isParent walk ih =>
    have := lower _ _ isParent above
    refine List.forall_mem_cons.mpr ⟨Nat.le_refl _, fun block mem => ?_⟩
    have := ih block mem
    omega

/-- Once the last block has become a base, a walk ends there. -/
theorem advance {block : L1BlockCommitment} {blockState : σ}
    {baseAt' : L1BlockCommitment → Except ε (Option σ)}
    (walk : Walk floorHeight baseAt parentOf base baseState cursor (rest ++ [block]))
    (isBase : baseAt' block = .ok (some blockState))
    (higher : ∀ other, block.height < other.height → baseAt' other = baseAt other) :
    Walk floorHeight baseAt' parentOf block blockState cursor rest := by
  induction rest generalizing cursor with
  | nil =>
    cases walk with
    | step notBase above isParent walk => exact .base isBase
  | cons _ rest ih =>
    cases walk with
    | step notBase above isParent walk =>
      have := lower _ _ isParent above
      have := walk.height_le lower block (List.mem_append_right _ (.head _))
      exact .step ((higher _ (by omega)).trans notBase) above isParent (ih walk)

/-- The loop follows a walk. -/
theorem planSyncFuel_eq {tip : L1BlockCommitment} {fuel : Nat} {passed : List L1BlockCommitment}
    (walk : Walk floorHeight baseAt parentOf base baseState cursor rest)
    (enough : cursor.height < fuel) :
    planSyncFuel tip floorHeight baseAt parentOf fuel cursor passed =
      some (.ok ⟨baseState, base, passed ++ rest⟩) := by
  induction walk generalizing fuel passed with
  | base isBase =>
    cases fuel with
    | zero => omega
    | succ fuel =>
      unfold planSyncFuel
      rw [isBase, List.append_nil]
  | step notBase above isParent walk ih =>
    have := lower _ _ isParent above
    cases fuel with
    | zero => omega
    | succ fuel =>
      unfold planSyncFuel
      rw [notBase, isParent]
      dsimp only
      rw [if_neg (by omega), ih (by omega), List.append_assoc]
      rfl

end

end Walk

variable {tip : L1BlockCommitment} {floorHeight : Nat} {baseAt : L1BlockCommitment → Except ε (Option σ)}
  {parentOf : L1BlockCommitment → Except ε L1BlockCommitment}

theorem planSyncFuel_ok {fuel : Nat} {cursor : L1BlockCommitment} {passed : List L1BlockCommitment}
    {plan : SyncPlan σ}
    (h : planSyncFuel tip floorHeight baseAt parentOf fuel cursor passed = some (.ok plan)) :
    ∃ rest, plan.pending = passed ++ rest ∧
      Walk floorHeight baseAt parentOf plan.baseBlock plan.baseState cursor rest := by
  induction fuel generalizing cursor passed with
  | zero => cases h
  | succ fuel ih =>
    unfold planSyncFuel at h
    split at h
    · cases h
    · rename_i isBase
      cases h
      exact ⟨[], (List.append_nil _).symm, .base isBase⟩
    · rename_i notBase
      split at h
      · cases h
      · rename_i above
        split at h
        · cases h
        · rename_i parent isParent
          obtain ⟨rest, isPending, walk⟩ := ih h
          rw [List.append_assoc] at isPending
          exact ⟨cursor :: rest, isPending, .step notBase (Nat.lt_of_not_le above) isParent walk⟩

theorem planSync_ok {plan : SyncPlan σ}
    (h : planSync tip floorHeight baseAt parentOf = some (.ok plan)) :
    Walk floorHeight baseAt parentOf plan.baseBlock plan.baseState tip plan.pending := by
  obtain ⟨rest, isPending, walk⟩ := planSyncFuel_ok h
  rw [isPending, List.nil_append]
  exact walk

end

/-! ### Blocks of the worker -/

section

variable [MerkleMountainRange]

/-- An anchor that is not stored is no base; any other failure of the store is one of the walk. -/
def WorkerContext.baseAt (context : WorkerContext) (block : L1BlockCommitment) :
    Except WorkerError (Option AnchorState) :=
  match context.getAnchorState block with
  | .ok anchor => .ok (some anchor)
  | .error (.missingAsmState _) => .ok none
  | .error error => .error error

/-- The parent by the header of a block. The walk asks only for parents above genesis. -/
def L1DataProvider.headerParent (l1 : L1DataProvider) (block : L1BlockCommitment) :
    Except WorkerError L1BlockCommitment := do
  let header ← l1.getL1BlockHeader block.blkid
  pure ⟨block.height - 1, header.prevBlockhash⟩

def planBlockProcessing (context : WorkerContext) (target : L1BlockCommitment) (genesisHeight : Nat) :
    Except Stop (SyncPlan AnchorState) :=
  match planSync target genesisHeight context.baseAt context.l1.headerParent with
  | none => .error .diverged
  | some (.error (.reachedFloor _ _)) => .error (.error .missingGenesisState)
  | some (.error (.provider error)) => .error (.error error)
  | some (.ok plan) => .ok plan

theorem planBlockProcessing_ok {context : WorkerContext} {target : L1BlockCommitment}
    {genesisHeight : Nat} {plan : SyncPlan AnchorState}
    (h : planBlockProcessing context target genesisHeight = .ok plan) :
    Walk genesisHeight context.baseAt context.l1.headerParent plan.baseBlock plan.baseState target
      plan.pending := by
  unfold planBlockProcessing at h
  split at h
  · cases h
  · cases h
  · cases h
  · rename_i planned
    cases h
    exact planSync_ok planned

omit [MerkleMountainRange] in
theorem headerParent_lower {l1 : L1DataProvider} {floorHeight : Nat}
    (block parent : L1BlockCommitment) (h : l1.headerParent block = .ok parent)
    (above : floorHeight < block.height) : parent.height < block.height := by
  obtain ⟨_, -, h⟩ := bind_ok h
  cases pure_ok h
  exact Nat.sub_lt (by omega) Nat.one_pos

theorem planBlockProcessing_of_walk {context : WorkerContext} {target base : L1BlockCommitment}
    {genesisHeight : Nat} {baseState : AnchorState} {pending : List L1BlockCommitment}
    (walk : Walk genesisHeight context.baseAt context.l1.headerParent base baseState target pending) :
    planBlockProcessing context target genesisHeight = .ok ⟨baseState, base, pending⟩ := by
  rw [planBlockProcessing, planSync, walk.planSyncFuel_eq headerParent_lower (Nat.lt_succ_self _)]
  rfl

/-- The block that a call builds on, if there are blocks to process. -/
def syncBase (state : AsmWorkerServiceState) (targetBlkid : Buf32) : Option L1BlockCommitment := do
  let height ← (state.context.l1.getL1BlockHeight targetBlkid).toOption
  let plan ← (planBlockProcessing state.context ⟨height, targetBlkid⟩ state.genesisHeight).toOption
  if plan.pending.isEmpty then none else some plan.baseBlock

theorem syncBase_eq {state : AsmWorkerServiceState} {targetBlkid : Buf32} {height : Nat}
    (isHeight : state.context.l1.getL1BlockHeight targetBlkid = .ok height) :
    syncBase state targetBlkid =
      (planBlockProcessing state.context ⟨height, targetBlkid⟩ state.genesisHeight).toOption.bind
        fun plan =>
        if plan.pending.isEmpty then none else some plan.baseBlock := by
  unfold syncBase
  rw [isHeight]
  rfl

theorem restoreAnchor_ok {pre post : AsmWorkerServiceState} {anchor : AnchorState}
    {block : L1BlockCommitment}
    (h : (AsmWorkerServiceState.restoreAnchor anchor block).run pre = .ok () post) :
    ∃ predicate, (block = pre.blkid → predicate = pre.nextPredicate) ∧
      (block ≠ pre.blkid → recoverFromContext pre.context pre.registry pre.genesisBlock
        pre.genesisPredicate
        anchor = .ok predicate) ∧
      post = { pre with nextPredicate := predicate, anchor, blkid := block } := by
  replace h := Effect.get_bind_ok h
  dsimp only at h
  split at h
  · rename_i other
    obtain ⟨predicate, recovered, h⟩ := Effect.lift_bind_ok h
    cases h
    exact ⟨predicate, fun same => absurd same other, fun _ => liftError_ok recovered, rfl⟩
  · rename_i same
    cases h
    exact ⟨pre.nextPredicate, fun _ => rfl, fun other => absurd other same, rfl⟩

end

section

variable [AsmLibs]

def recordManifest (manifest : AsmManifest) : WorkerM Unit := do
  modify fun state => { state with context := state.context.putManifest manifest }
  let state ← get
  let context ← Effect.lift (liftError
    (state.context.putManifestHash manifest.height (AsmLibs.manifestHash manifest)))
  set { state with context }

variable [StoredMmr]

/-- The anchor state is stored last: a block counts as processed once it is there. -/
def applyBlock (blockId : L1BlockCommitment) : WorkerM Unit := do
  let state ← get
  let block ← Effect.lift (liftError (state.context.l1.getL1Block blockId.blkid))
  let (output, auxData) ← Effect.lift (state.transition block)
  recordManifest output.manifest
  modify fun state => { state with context := state.context.storeAuxData blockId auxData }
  modify fun state => { state with context := state.context.storeAnchorState output.state }
  modify fun state => state.acceptOutput output blockId
  modify fun state => state.emit blockId

/-- Processes every block between the nearest stored ancestor of a block and the block itself, and
returns them, oldest first. -/
def syncToBlock (targetBlkid : Buf32) : WorkerM (List L1BlockCommitment) := do
  let state ← get
  let height ← Effect.lift (liftError (state.context.l1.getL1BlockHeight targetBlkid))
  if height < state.genesisHeight then return []
  let plan ← Effect.lift (planBlockProcessing state.context ⟨height, targetBlkid⟩ state.genesisHeight)
  if plan.pending.isEmpty then return []
  AsmWorkerServiceState.restoreAnchor plan.baseState plan.baseBlock
  let processed := plan.pending.reverse
  processed.forM applyBlock
  return processed

/-! ### What a call does -/

variable {pre post : AsmWorkerServiceState}

structure Applies (pre : AsmWorkerServiceState) (blockId : L1BlockCommitment) (block : Block)
    (target : AsmSpec) (auxData : AuxData) (output : AsmStfOutput) (mmr : ManifestMmr)
    (post : AsmWorkerServiceState) : Prop where
  found : pre.context.l1.getL1Block blockId.blkid = .ok block
  resolved : pre.registry.resolve pre.nextPredicate = .ok target
  ran : computeAsmTransition target pre.anchor block auxData
    (TxidInclusionProof.generate block.txdata 0) =
    .ok (.ok output)
  leaf : pre.context.mmr.putLeaf output.manifest.height (AsmLibs.manifestHash output.manifest) = .ok mmr
  result : post = { pre with
    context := {
      l1 := pre.context.l1
      anchors := Keyed.put AnchorState.lastProcessedBlock pre.context.anchors output.state
      manifests := Keyed.put AsmManifest.block pre.context.manifests output.manifest
      mmr
      auxData := Keyed.put Prod.fst pre.context.auxData (blockId, auxData) }
    nextPredicate := (extractNextPredicateFromLogs output.manifest.logs).getD pre.nextPredicate
    anchor := output.state
    blkid := blockId
    emitted := pre.emitted ++ [blockId] }

theorem transition_ok {block : Block} {output : AsmStfOutput} {auxData : AuxData}
    (h : pre.transition block = .ok (output, auxData)) :
    ∃ target, pre.registry.resolve pre.nextPredicate = .ok target ∧
      computeAsmTransition target pre.anchor block auxData (TxidInclusionProof.generate block.txdata 0) =
        .ok (.ok output) := by
  obtain ⟨target, resolved, h⟩ := bind_ok h
  obtain ⟨requests, _, h⟩ := bind_ok h
  cases requests with
  | error error => cases h
  | ok requests =>
    obtain ⟨auxData, _, h⟩ := bind_ok h
    obtain ⟨result, ran, h⟩ := bind_ok h
    cases result with
    | error error => cases h
    | ok output =>
      cases pure_ok h
      exact ⟨target, liftError_ok resolved, liftPanic_ok ran⟩

theorem applyBlock_ok {blockId : L1BlockCommitment} (h : (applyBlock blockId).run pre = .ok () post) :
    ∃ block target auxData output mmr, Applies pre blockId block target auxData output mmr post := by
  obtain ⟨block, found, h⟩ := Effect.lift_bind_ok (Effect.get_bind_ok h)
  obtain ⟨⟨output, auxData⟩, ran, h⟩ := Effect.lift_bind_ok h
  obtain ⟨target, resolved, ran⟩ := transition_ok ran
  obtain ⟨_, _, recorded, h⟩ := Effect.bind_ok h
  obtain ⟨context, leaf, recorded⟩ := Effect.lift_bind_ok
    (Effect.get_bind_ok (Effect.modify_bind_ok recorded))
  obtain ⟨mmr, put, placed⟩ := bind_ok (liftError_ok leaf)
  cases pure_ok placed
  cases recorded
  cases h
  exact ⟨block, target, auxData, output, mmr, liftError_ok found, resolved, ran, put, rfl⟩

/-- A call without a plan to carry out changes nothing; any other restores the base of its plan and
applies the blocks above it. -/
inductive Syncs (pre : AsmWorkerServiceState) (targetBlkid : Buf32) :
    List L1BlockCommitment → AsmWorkerServiceState → Prop
  | idle (noBase : syncBase pre targetBlkid = none) : Syncs pre targetBlkid [] pre
  | advance {height : Nat} {plan : SyncPlan AnchorState} {mid post : AsmWorkerServiceState}
      (isBase : syncBase pre targetBlkid = some plan.baseBlock)
      (planned : planBlockProcessing pre.context ⟨height, targetBlkid⟩ pre.genesisHeight = .ok plan)
      (some : plan.pending ≠ [])
      (restored : (AsmWorkerServiceState.restoreAnchor plan.baseState plan.baseBlock).run pre =
        .ok () mid)
      (applied : (plan.pending.reverse.forM applyBlock).run mid = .ok () post) :
      Syncs pre targetBlkid plan.pending.reverse post

theorem syncToBlock_ok {targetBlkid : Buf32} {processed : List L1BlockCommitment}
    (h : (syncToBlock targetBlkid).run pre = .ok processed post) :
    Syncs pre targetBlkid processed post := by
  obtain ⟨height, isHeight, h⟩ := Effect.lift_bind_ok (Effect.get_bind_ok h)
  replace isHeight := liftError_ok isHeight
  split at h
  · rename_i below
    have noBase : syncBase pre targetBlkid = none := by
      rw [syncBase_eq isHeight]
      cases planned : planBlockProcessing pre.context ⟨height, targetBlkid⟩ pre.genesisHeight with
      | error stop => rfl
      | ok plan =>
        refine if_pos (List.isEmpty_iff.mpr (not_not.mp fun some => ?_))
        exact Nat.lt_asymm below ((planBlockProcessing_ok planned).pending some).2
    obtain ⟨rfl, rfl⟩ := Effect.pure_ok h
    exact .idle noBase
  · obtain ⟨plan, planned, h⟩ := Effect.lift_bind_ok h
    have isBase := syncBase_eq isHeight
    rw [planned] at isBase
    split at h
    · rename_i empty
      obtain ⟨rfl, rfl⟩ := Effect.pure_ok h
      exact .idle (isBase.trans (if_pos empty))
    · rename_i notEmpty
      obtain ⟨_, mid, restored, h⟩ := Effect.bind_ok h
      obtain ⟨_, _, applied, h⟩ := Effect.bind_ok h
      obtain ⟨rfl, rfl⟩ := Effect.pure_ok h
      exact .advance (isBase.trans (if_neg notEmpty)) planned (by simpa using notEmpty) restored applied

end
end Asm
