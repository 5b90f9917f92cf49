import AnchorStateMachine.Prover.Input
import AnchorStateMachine.Runner.Delivery

/-! The program that is proven. It executes a block again, from what the runner has stored of the
block and of its parent. It ends in the anchor and in the Moho state that the runner has stored. -/

namespace Asm
open Outcome

/-! ### The program -/

section

variable [AsmLibs] [MohoLibs]

/-- The reference of a step is the hash of its block. -/
def AsmStepInput.computeRef (input : AsmStepInput) : Buf32 :=
  HeaderVerificationState.computeBlockHash input.block.header

def AsmStepInput.computePrevRef (input : AsmStepInput) : Buf32 := input.block.header.prevBlockhash

/-- The program panics on a transition that fails. -/
inductive GuestPanic
  | transition (panic : Panic)
  | computeTransitionFailed (error : AsmError)

namespace AsmStfProgram

def computeInputReference (input : AsmStepInput) : Buf32 := input.computeRef

def extractPrevReference (input : AsmStepInput) : Buf32 := input.computePrevRef

def computeStateCommitment (state : AnchorState) : Buf32 := computeAnchorStateCommitment state

def processTransition (preState : AnchorState) (spec : AsmSpec) (input : AsmStepInput) :
    Except GuestPanic AsmStfOutput :=
  match computeAsmTransition spec preState input.block input.auxData input.coinbaseInclusionProof with
  | .error panic => .error (.transition panic)
  | .ok (.error error) => .error (.computeTransitionFailed error)
  | .ok (.ok output) => .ok output

def extractPostState (output : AsmStfOutput) : AnchorState := output.state

def extractNextPredicate (output : AsmStfOutput) : Option PredicateKey :=
  extractNextPredicateFromLogs output.manifest.logs

def computeNextExportState (prev : List ExportContainer) (output : AsmStfOutput) :
    Exec (List ExportContainer) := advanceExportStateWithLogs prev output.manifest.logs

end AsmStfProgram

/-! ### The prover's view of the stores -/

structure AsmProverContext where
  mohoStates : OrderedTree L1BlockCommitment MohoState
  anchors : List AnchorState
  auxData : List (L1BlockCommitment × AuxData)
  l1 : L1DataProvider

namespace AsmProverContext

variable (ctx : AsmProverContext)

def getAnchorState (block : L1BlockCommitment) : Except ProverError AnchorState :=
  require (.notFound "anchor state not found") (Keyed.get AnchorState.lastProcessedBlock ctx.anchors block)

def getAuxData (block : L1BlockCommitment) : Except ProverError AuxData :=
  require (.notFound "aux data not found for block") ((Keyed.get Prod.fst ctx.auxData block).map Prod.snd)

def getL1Block (blkid : Buf32) : Except ProverError Block :=
  (ctx.l1.getL1Block blkid).mapError fun _ => .storage "failed to fetch Bitcoin block"

def getL1BlockHeader (blkid : Buf32) : Except ProverError Header :=
  (ctx.l1.getL1BlockHeader blkid).mapError fun _ => .storage "failed to fetch Bitcoin block header"

def getMohoState (block : L1BlockCommitment) : Except ProverError MohoState :=
  require (.notFound "moho state not found for block") (ctx.mohoStates.get block)

def parentCommitment (l1Ref : L1BlockCommitment) : Except ProverError L1BlockCommitment := do
  let header ← ctx.getL1BlockHeader l1Ref.blkid
  match l1Ref.height with
  | 0 => throw (.notFound "block at height 0 has no parent block")
  | height + 1 => pure ⟨height, header.prevBlockhash⟩

/-- The input of a step proof. -/
def buildAsmRuntimeInput (range : L1Range) : Except ProverError RuntimeInput := do
  if range.start ≠ range.last then throw .unsupportedAsmRange
  let commitment := range.start
  let block ← ctx.getL1Block commitment.blkid
  let auxData ← ctx.getAuxData commitment
  let coinbaseInclusionProof := TxidInclusionProof.generate block.txdata 0
  let stepInput : AsmStepInput := ⟨block, auxData, coinbaseInclusionProof⟩
  let parent ← ctx.parentCommitment commitment
  let anchorState ← ctx.getAnchorState parent
  let mohoPreState ← ctx.getMohoState parent
  pure ⟨mohoPreState, anchorState, stepInput⟩

/-- What the prover worker reads for a block is what is stored, and a block of the node. -/
structure Serves (node : Node) : Prop where
  mohoState : ∀ block moho, ctx.mohoStates.get block = some moho → node.mohoState block = moho
  header : ∀ blkid header, ctx.l1.getL1BlockHeader blkid = .ok header → node.header blkid = header

theorem Serves.parent {ctx : AsmProverContext} {node : Node} (serves : ctx.Serves node)
    {block parent : L1BlockCommitment} (isParent : ctx.l1.headerParentOf block = some parent) :
    node.parent block = parent := by
  unfold L1DataProvider.headerParentOf at isParent
  split at isParent
  · rename_i height header isHeight isHeader
    cases isParent
    simp [Node.parent, serves.header _ _ isHeader, isHeight]
  · cases isParent

end AsmProverContext

/-- The prover reads the stores of both workers. -/
def Runner.proverContext (r : Runner) : AsmProverContext :=
  ⟨r.moho.stores.mohoStates, r.context.anchors, r.context.auxData, r.context.l1⟩

end

/-! ### Moho states are determined -/

section

variable [AsmLibs] [MohoLibs] {d : Deployment} {context : WorkerContext} {block parent : L1BlockCommitment}
  {moho other : MohoState}

/-- Along one ancestry there is one Moho state. -/
theorem MohoAt.unique (derived : MohoAt d context block moho) (again : MohoAt d context block other) :
    moho = other := by
  induction derived generalizing other with
  | genesis =>
    cases again with
    | genesis => rfl
    | block before isParent =>
      have := context.l1.parentOf_graded _ _ isParent
      have := before.folded.1
      omega
  | block before isParent stored got next ih =>
    cases again with
    | genesis =>
      have := context.l1.parentOf_graded _ _ isParent
      have := before.folded.1
      omega
    | block before' isParent' stored' got' next' =>
      simp only [isParent, stored, got, Option.some.injEq, Except.ok.injEq] at isParent' stored' got'
      subst isParent' stored' got'
      rw [ih before', next'] at next
      exact (Except.ok.inj next).symm

/-- The Moho state of a block is folded from the one of its parent. -/
theorem MohoAt.next (derived : MohoAt d context block moho) (above : block ≠ d.genesis.lastProcessedBlock)
    {prev : MohoState} {anchor : AnchorState} {manifest : AsmManifest}
    (isParent : context.l1.parentOf block = some parent) (before : MohoAt d context parent prev)
    (stored : context.getAnchorState block = .ok anchor) (got : context.getManifest block = .ok manifest) :
    constructNextMohoState prev anchor manifest.logs = .ok moho := by
  cases derived with
  | genesis => exact absurd rfl above
  | block before' isParent' stored' got' next =>
    simp only [isParent, stored, got, Option.some.injEq, Except.ok.injEq] at isParent' stored' got'
    subst isParent' stored' got'
    rw [before.unique before']
    exact next

/-- The first part of a Moho state commits to the anchor of its block. -/
theorem MohoAt.inner (derived : MohoAt d context block moho) {anchor : AnchorState}
    (stored : Keyed.get AnchorState.lastProcessedBlock context.anchors block = some anchor)
    (seeded : Keyed.get AnchorState.lastProcessedBlock context.anchors d.genesis.lastProcessedBlock =
      some d.genesis) :
    moho.inner = computeAnchorStateCommitment anchor := by
  cases derived with
  | genesis =>
    cases stored.symm.trans seeded
    rfl
  | block before isParent isAnchor got next =>
    have same := getAnchorState_iff.mp isAnchor
    cases stored.symm.trans same
    obtain ⟨exportState, -, isNext⟩ := bind_ok next
    cases pure_ok isNext
    rfl

end

/-! ### Execution again -/

section

variable [AsmLibs] [MohoLibs]

/-- The program, on the input that is built for a block, starts from a state that the Moho state of
the parent commits to, is the one that this Moho state names, and ends in what is stored of the
block. The verifier asks for the same transition. -/
structure Runner.Reexecutes [ProverLibs] (d : Deployment) (r : Runner) (block : L1BlockCommitment)
    (input : RuntimeInput) (output : AsmStfOutput) (moho : MohoState) : Prop where
  built : r.proverContext.buildAsmRuntimeInput (.single block) = .ok input
  committed : AsmStfProgram.computeStateCommitment input.innerPreState = input.mohoPreState.inner
  ran : ∃ spec, d.registry.resolve input.mohoPreState.nextPredicate = .ok spec ∧
    AsmStfProgram.processTransition input.innerPreState spec input.stepInput = .ok output
  anchor : Keyed.get AnchorState.lastProcessedBlock r.context.anchors block =
    some (AsmStfProgram.extractPostState output)
  inner : moho.inner = AsmStfProgram.computeStateCommitment (AsmStfProgram.extractPostState output)
  nextPredicate : moho.nextPredicate =
    (AsmStfProgram.extractNextPredicate output).getD input.mohoPreState.nextPredicate
  exportState : AsmStfProgram.computeNextExportState input.mohoPreState.exportState output =
    .ok moho.exportState
  expected : ∀ (verifier : ProofVerifier) (node : Node), r.proverContext.Serves node →
    verifier.expected node (.asm (.single block)) = .step
      ⟨⟨AsmStfProgram.extractPrevReference input.stepInput,
          ProverLibs.computeCommitment input.mohoPreState⟩,
        ⟨AsmStfProgram.computeInputReference input.stepInput, ProverLibs.computeCommitment moho⟩⟩
      input.mohoPreState.nextPredicate

variable {d : Deployment} {r : Runner} {block parent : L1BlockCommitment} {moho prev : MohoState}
  {restarts : Nat}

/-- What is stored of a block and its parent is found. -/
theorem AsmProverContext.buildAsmRuntimeInput_eq {ctx : AsmProverContext} {raw : Block}
    {auxData : AuxData} {anchor : AnchorState} (found : ctx.l1.getL1Block block.blkid = .ok raw)
    (supplied : Keyed.get Prod.fst ctx.auxData block = some (block, auxData))
    (isParent : ctx.l1.headerParentOf block = some parent)
    (isAnchor : Keyed.get AnchorState.lastProcessedBlock ctx.anchors parent = some anchor)
    (isMoho : ctx.mohoStates.get parent = some prev) :
    ctx.buildAsmRuntimeInput (.single block) =
      .ok ⟨prev, anchor, ⟨raw, auxData, TxidInclusionProof.generate raw.txdata 0⟩⟩ := by
  have above : ctx.parentCommitment block = .ok parent := by
    obtain ⟨height, blkid⟩ := block
    unfold L1DataProvider.headerParentOf at isParent
    split at isParent
    · rename_i header isHeight isHeader
      cases isParent
      simp only at isHeight isHeader
      subst isHeight
      simp [parentCommitment, getL1BlockHeader, isHeader, Except.mapError]
    · cases isParent
  simp [buildAsmRuntimeInput, L1Range.single, getL1Block, getAuxData, getAnchorState, getMohoState, found,
    supplied, above, isAnchor, isMoho, Except.mapError, require]

/-- Over the stores of the runner, every block above genesis that has a Moho state can be executed
again, with the stored result. -/
theorem prover_reexecutes [ProverLibs] [StoredMmr] [DecidableEq AnchorState] [DecidableEq MohoState]
    (runs : d.Runs restarts r) (stored : r.moho.stores.mohoStates.get block = some moho)
    (above : block ≠ d.genesis.lastProcessedBlock) :
    ∃ input output, r.Reexecutes d block input output moho := by
  have sound := runs.sound
  have persists := sound.persists
  have derived := sound.folded.folds block moho stored
  obtain ⟨anchor, isAnchor⟩ := sound.relay.within ⟨moho, stored⟩
  obtain ⟨mem, rfl⟩ := (Keyed.get_iff _ persists.anchorKeys).mp isAnchor
  rcases persists.replayable anchor mem with rfl | ⟨preState, past, raw, spec, auxData, manifest, replays⟩
  · exact absurd rfl above
  have steps := Deployment.steps replays.resolved replays.ran
  have isParent : d.l1.headerParentOf anchor.lastProcessedBlock = some preState.lastProcessedBlock :=
    L1DataProvider.headerParentOf_iff.mpr ⟨replays.isParent, congrArg L1BlockCommitment.height steps.tip⟩
  have served : r.context.l1.headerParentOf anchor.lastProcessedBlock = some preState.lastProcessedBlock := by
    rw [persists.l1]
    exact isParent
  have onL1 := steps.isParent replays.found
  have preStored := persists.anchorAt (replays.recorded.mem persists.toStored)
  obtain ⟨_, isParent', prev, isPrev⟩ := sound.relay.closed _ ⟨moho, stored⟩ above
  cases isParent.symm.trans isParent'
  have before := sound.folded.folds _ prev isPrev
  -- both folds name the program of the parent
  have named : foldPredicate d.predicate past = prev.nextPredicate :=
    Option.some.inj ((replays.recorded.folded persists.toStored).symm.trans before.folded.2)
  have seeded := persists.anchorAt persists.root
  have next : constructNextMohoState prev anchor manifest.logs = .ok moho := by
    refine derived.next above (persists.l1 ▸ onL1) before (getAnchorState_iff.mpr isAnchor) ?_
    simp [WorkerContext.getManifest, replays.kept]
  refine ⟨⟨prev, preState, ⟨raw, auxData, TxidInclusionProof.generate raw.txdata 0⟩⟩, ⟨anchor, manifest⟩,
    ?_, ?_, ⟨spec, ?_, ?_⟩, isAnchor, ?_, ?_, ?_, ?_⟩
  · apply AsmProverContext.buildAsmRuntimeInput_eq
    · show r.context.l1.getL1Block _ = _
      rw [persists.l1]
      exact replays.found
    · exact replays.supplied
    · exact served
    · exact preStored
    · exact isPrev
  · exact (before.inner preStored seeded).symm
  · exact named ▸ replays.resolved
  · simp [AsmStfProgram.processTransition, replays.ran]
  · exact derived.inner isAnchor seeded
  · exact constructNextMohoState_ok next
  · obtain ⟨exportState, advanced, isNext⟩ := bind_ok next
    cases pure_ok isNext
    exact advanced
  · intro verifier node serves
    have parent : node.parent anchor.lastProcessedBlock = preState.lastProcessedBlock :=
      serves.parent served
    rw [ProofVerifier.expected, L1Range.single]
    dsimp only
    rw [parent, serves.mohoState _ _ isPrev, serves.mohoState _ _ stored, attestation, attestation]
    simp only [AsmStfProgram.extractPrevReference, AsmStepInput.computePrevRef, steps.parent,
      AsmStfProgram.computeInputReference, AsmStepInput.computeRef, steps.tip]

end

/-! ### A concrete block -/

@[reducible] def sampleChainProverLibs :
    @ProverLibs sampleChainLibs.toMerkleMountainRange sampleChainMohoLibs :=
  letI := sampleChainLibs
  letI := sampleChainMohoLibs
  { TypedId := Nat
    intoBytes := fun job => List.replicate job 0
    tryFromBytes := fun bytes => some bytes.length
    verifyClaimWitness := fun key _ proof => decide (proof = key.condition)
    decodeStepAttestation := fun _ => none
    decodeRecursiveOutput := fun _ => none
    innerStateRoot := fun inner => inner
    predicateRoot := fun _ => .zero
    exportStateRoot := fun _ => .zero
    computeCommitment := fun state => state.inner }

section

attribute [local instance] sampleChainLibs sampleStoredMmr sampleMmrDecidableEq sampleChainMohoLibs
  sampleChainExportDecidableEq sampleChainProverLibs

theorem prover_reexecutes_sample : ∃ moho input output,
    sampleWaiting.moho.stores.mohoStates.get ⟨2, .fill 11⟩ = some moho ∧
    sampleWaiting.Reexecutes (sampleDeployment sampleForks) ⟨2, .fill 11⟩ input output moho := by
  have folded : (sampleMohoOther.stores.mohoStates.get ⟨2, .fill 11⟩).isSome := by decide +kernel
  obtain ⟨moho, isMoho⟩ := Option.isSome_iff_exists.mp folded
  have stored : sampleWaiting.moho.stores.mohoStates.get ⟨2, .fill 11⟩ = some moho := by
    unfold sampleWaiting
    exact isMoho
  have above : (⟨2, .fill 11⟩ : L1BlockCommitment) ≠
      (sampleDeployment sampleForks).genesis.lastProcessedBlock := by decide +kernel
  obtain ⟨input, output, reexecutes⟩ := prover_reexecutes sampleWaiting_runs stored above
  exact ⟨moho, input, output, stored, reexecutes⟩

end

end Asm
