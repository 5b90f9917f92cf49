import AnchorStateMachine.Library.Effect
import AnchorStateMachine.Worker.Registry

/-! The state of the ASM worker: the chain it follows, the stores it keeps, and the anchor in
memory. -/

namespace Asm
open Outcome

/-- How a call of the worker ends early: with an error, with a panic, or not at all. -/
inductive Stop
  | error (error : WorkerError)
  | panic (panic : Panic)
  | diverged
  deriving DecidableEq

/-- Proofs from the stored accumulator: for an index among a seed and the leaves that follow it. -/
class StoredMmr [MerkleMountainRange] where
  generateProof : Mmr → List Buf32 → Nat → Option MerkleProof

/-- The Bitcoin node. A lookup is a function of its key. -/
structure L1DataProvider where
  getL1Block : Buf32 → Except WorkerError Block
  getL1BlockHeader : Buf32 → Except WorkerError Header
  getL1BlockHeaderAtHeight : Nat → Except WorkerError Header
  getL1BlockHeight : Buf32 → Except WorkerError Nat
  getBitcoinTx : Buf32 → Except WorkerError Bytes
  getNetwork : Except WorkerError Network

/-! ### The manifest accumulator -/

/-- The stored accumulator: of the seed only the peaks are kept, of what follows every leaf. -/
structure ManifestMmr [MerkleMountainRange] where
  seed : Option Mmr
  leaves : List Buf32

namespace ManifestMmr

variable [MerkleMountainRange]

def empty : ManifestMmr := ⟨none, []⟩

def seedCount (mmr : ManifestMmr) : Nat := (mmr.seed.map MerkleMountainRange.numEntries).getD 0

def leafCount (mmr : ManifestMmr) : Nat := mmr.seedCount + mmr.leaves.length

def putLeaf (mmr : ManifestMmr) (height : Nat) (hash : Buf32) : Except WorkerError ManifestMmr :=
  if height < mmr.seedCount ∨ mmr.leafCount < height then .error .dbError
  else if height = mmr.leafCount then .ok { mmr with leaves := mmr.leaves ++ [hash] }
  else .ok { mmr with leaves := mmr.leaves.set (height - mmr.seedCount) hash }

def getLeaf (mmr : ManifestMmr) (index : Nat) : Except WorkerError Buf32 :=
  if index < mmr.seedCount then .error (.manifestHashNotFound index)
  else
    match mmr.leaves[index - mmr.seedCount]? with
    | none => .error (.manifestHashNotFound index)
    | some hash => .ok hash

def generateProofAt [StoredMmr] (mmr : ManifestMmr) (index atLeafCount : Nat) :
    Except WorkerError MerkleProof :=
  if atLeafCount ≤ index ∨ mmr.leafCount < atLeafCount then .error (.mmrProofFailed index)
  else
    match mmr.seed.bind fun seed =>
      StoredMmr.generateProof seed (mmr.leaves.take (atLeafCount - mmr.seedCount)) index with
    | none => .error (.mmrProofFailed index)
    | some proof => .ok proof

end ManifestMmr

/-! ### Stores -/

section

variable [MerkleMountainRange]

def AsmManifest.block (manifest : AsmManifest) : L1BlockCommitment := ⟨manifest.height, manifest.blkid⟩

/-- What the worker reads and writes. Anchors, manifests and auxiliary data are kept by block, the
leaves of the accumulator by height. -/
structure WorkerContext where
  l1 : L1DataProvider
  anchors : List AnchorState
  manifests : List AsmManifest
  mmr : ManifestMmr
  auxData : List (L1BlockCommitment × AuxData)

namespace WorkerContext

def getAnchorState (context : WorkerContext) (block : L1BlockCommitment) :
    Except WorkerError AnchorState :=
  match Keyed.get AnchorState.lastProcessedBlock context.anchors block with
  | none => .error (.missingAsmState block.blkid)
  | some state => .ok state

/-- Keys are ordered by height, then by the bytes of the block id. -/
def IsLater (block other : L1BlockCommitment) : Prop :=
  other.height < block.height ∨ block.height = other.height ∧ other.blkid.bytes < block.blkid.bytes

instance (block other : L1BlockCommitment) : Decidable (IsLater block other) :=
  inferInstanceAs (Decidable (_ ∨ _))

def getLatestAnchorState (context : WorkerContext) : Option AnchorState :=
  context.anchors.foldl (fun latest state =>
    match latest with
    | none => some state
    | some other =>
      if IsLater state.lastProcessedBlock other.lastProcessedBlock then some state else latest) none

def storeAnchorState (context : WorkerContext) (state : AnchorState) : WorkerContext :=
  { context with anchors := Keyed.put AnchorState.lastProcessedBlock context.anchors state }

def getManifest (context : WorkerContext) (block : L1BlockCommitment) : Except WorkerError AsmManifest :=
  match Keyed.get AsmManifest.block context.manifests block with
  | none => .error (.missingManifest block)
  | some manifest => .ok manifest

def putManifest (context : WorkerContext) (manifest : AsmManifest) : WorkerContext :=
  { context with manifests := Keyed.put AsmManifest.block context.manifests manifest }

def putManifestHash (context : WorkerContext) (height : Nat) (hash : Buf32) :
    Except WorkerError WorkerContext := do
  let mmr ← context.mmr.putLeaf height hash
  pure { context with mmr }

def seedManifestMmr (context : WorkerContext) (genesis : Mmr) : Except WorkerError WorkerContext :=
  if context.mmr.leafCount = 0 then .ok { context with mmr := ⟨some genesis, []⟩ } else .error .dbError

def storeAuxData (context : WorkerContext) (block : L1BlockCommitment)
    (data : AuxData) : WorkerContext :=
  { context with auxData := Keyed.put Prod.fst context.auxData (block, data) }

end WorkerContext

end

/-! ### Auxiliary data -/

section

variable [MerkleMountainRange] [StoredMmr]

namespace AuxDataResolver

def resolveBitcoinTxs (context : WorkerContext) (txids : List Buf32) : Except WorkerError (List Bytes) :=
  txids.eraseDups.mapM context.l1.getBitcoinTx

def resolveManifestHash (context : WorkerContext) (atLeafCount index : Nat) :
    Except WorkerError VerifiableManifestHash := do
  let hash ← context.mmr.getLeaf index
  let proof ← context.mmr.generateProofAt index atLeafCount
  pure ⟨hash, proof⟩

/-- Heights are the indices of the leaves. Each is resolved once, where it is first requested. -/
def resolveManifestHashes (context : WorkerContext) (atLeafCount : Nat)
    (ranges : List ManifestHashRange) :
    Except WorkerError (List VerifiableManifestHash) :=
  let heights := ranges.flatMap fun range =>
    List.range' range.startHeight (range.endHeight + 1 - range.startHeight)
  heights.eraseDups.mapM (resolveManifestHash context atLeafCount)

def resolve (context : WorkerContext) (atLeafCount : Nat) (requests : AuxRequests) :
    Except WorkerError AuxData := do
  let bitcoinTxs ← resolveBitcoinTxs context requests.bitcoinTxs
  let manifestHashes ← resolveManifestHashes context atLeafCount requests.manifestHashes
  pure ⟨manifestHashes, bitcoinTxs⟩

end AuxDataResolver

end

/-! ### The worker -/

structure AsmWorkerServiceState [MerkleMountainRange] where
  context : WorkerContext
  registry : ExecutionRegistry
  genesisBlock : L1BlockCommitment
  genesisPredicate : PredicateKey
  nextPredicate : PredicateKey
  anchor : AnchorState
  blkid : L1BlockCommitment
  genesisHeight : Nat
  /-- What subscribers were told, oldest first. -/
  emitted : List L1BlockCommitment

/-- A call of the worker. What it wrote before it ended early stays written. -/
abbrev WorkerM [MerkleMountainRange] := EStateM Stop AsmWorkerServiceState

def liftError {α : Type} (x : Except WorkerError α) : Except Stop α := x.mapError .error

def liftPanic {α : Type} (x : Exec α) : Except Stop α := x.mapError .panic

theorem liftError_ok {α : Type} {x : Except WorkerError α} {a : α}
    (h : liftError x = .ok a) : x = .ok a :=
  mapError_ok_iff.mp h

theorem liftPanic_ok {α : Type} {x : Exec α} {a : α} (h : liftPanic x = .ok a) :
    x = .ok a := mapError_ok_iff.mp h

/-- The predicate for the block after an anchor. The genesis block has no manifest. -/
def recoverFromContext [MerkleMountainRange] (context : WorkerContext) (registry : ExecutionRegistry)
    (genesis : L1BlockCommitment) (genesisPredicate : PredicateKey) (anchor : AnchorState) :
    Except WorkerError PredicateKey :=
  let block := anchor.lastProcessedBlock
  if block = genesis then .ok genesisPredicate
  else if block.height ≤ genesis.height then .error (.invalidRecoveryAnchor block)
  else do
    let manifest ← context.getManifest block
    registry.recoverPredicate anchor manifest

namespace AsmWorkerServiceState

section

variable [MerkleMountainRange]

def updateAnchorState (state : AsmWorkerServiceState) (anchor : AnchorState)
    (blkid : L1BlockCommitment) :
    AsmWorkerServiceState :=
  { state with anchor, blkid }

/-- Restores the predicate from the anchor unless it is the one in memory. -/
def restoreAnchor (anchor : AnchorState) (block : L1BlockCommitment) : WorkerM Unit := do
  let state ← get
  if block ≠ state.blkid then
    let predicate ← Effect.lift (liftError (recoverFromContext state.context state.registry
      state.genesisBlock state.genesisPredicate anchor))
    modify fun state => { state with nextPredicate := predicate }
  modify fun state => state.updateAnchorState anchor block

def acceptOutput (state : AsmWorkerServiceState) (output : AsmStfOutput) (block : L1BlockCommitment) :
    AsmWorkerServiceState :=
  let nextPredicate := (extractNextPredicateFromLogs output.manifest.logs).getD state.nextPredicate
  { state with nextPredicate }.updateAnchorState output.state block

def emit (state : AsmWorkerServiceState) (block : L1BlockCommitment) : AsmWorkerServiceState :=
  { state with emitted := state.emitted ++ [block] }

end

section

variable [AsmLibs] [StoredMmr]

def transition (state : AsmWorkerServiceState) (block : Block) :
    Except Stop (AsmStfOutput × AuxData) := do
  let target ← liftError (state.registry.resolve state.nextPredicate)
  match ← liftPanic (preProcessAsm target state.anchor block) with
  | .error error => throw (.error (.asmError error))
  | .ok requests =>
    let accumulator := state.anchor.chainView.historyAccumulator
    let auxData ← liftError (AuxDataResolver.resolve state.context
      (MerkleMountainRange.numEntries accumulator) requests)
    let coinbaseInclusionProof := TxidInclusionProof.generate block.txdata 0
    match ← liftPanic (computeAsmTransition target state.anchor block auxData
      coinbaseInclusionProof) with
    | .error error => throw (.error (.asmError error))
    | .ok output => pure (output, auxData)

end

end AsmWorkerServiceState

/-! ### Start -/

def getRelativeDifficultyAdjustmentHeight [BitcoinLibs] (idx start : Nat) (network : Network) : Nat :=
  let interval := BitcoinLibs.difficultyAdjustmentInterval network
  (start / interval + idx) * interval

def validateAnchorAgainstL1 [BitcoinLibs] (l1 : L1DataProvider) (powState : HeaderVerificationState) :
    Except WorkerError Unit := do
  let height := powState.lastVerifiedBlock.height
  let network ← l1.getNetwork
  if network ≠ powState.network then throw (.anchorMismatch (.network powState.network network))
  let anchorHeader ← l1.getL1BlockHeaderAtHeight height
  let actualBlkid := HeaderVerificationState.computeBlockHash anchorHeader
  if actualBlkid ≠ powState.lastVerifiedBlock.blkid then
    throw (.anchorMismatch (.block height powState.lastVerifiedBlock.blkid actualBlkid))
  let epochStartHeight := getRelativeDifficultyAdjustmentHeight 0 height network
  let epochStartHeader ← l1.getL1BlockHeaderAtHeight epochStartHeight
  if epochStartHeader.time ≠ powState.epochStartTimestamp then
    throw (.anchorMismatch (.epochStartTimestamp epochStartHeight powState.epochStartTimestamp
      epochStartHeader.time))
  let expectedNextTarget :=
    if (height + 1) % BitcoinLibs.difficultyAdjustmentInterval network = 0 then
      BitcoinLibs.fromNextWorkRequired network anchorHeader.bits
        (anchorHeader.time - epochStartHeader.time)
    else anchorHeader.bits
  if expectedNextTarget ≠ powState.nextBlockTarget then
    throw (.anchorMismatch (.nextTarget powState.nextBlockTarget expectedNextTarget))

section

variable [AsmLibs] [DecidableEq AnchorState]

namespace AsmWorkerServiceState

/-- The stored genesis anchor has to be the given one; it is restored if later ones are stored without
it. -/
def checkGenesis (genesisState : AnchorState) : EStateM WorkerError WorkerContext Unit := do
  let context ← get
  match context.getAnchorState genesisState.lastProcessedBlock with
  | .ok stored => if stored ≠ genesisState then throw .genesisStateMismatch
  | .error _ =>
    if context.getLatestAnchorState.isSome then
      modify fun context => context.storeAnchorState genesisState

def seedMmr (genesisState : AnchorState) : EStateM WorkerError WorkerContext Unit := do
  let context ← get
  let expected := MerkleMountainRange.numEntries genesisState.chainView.historyAccumulator
  if context.mmr.leafCount = 0 then
    let seeded ← Effect.lift (context.seedManifestMmr genesisState.chainView.historyAccumulator)
    set seeded
  else if context.mmr.leafCount < expected then
    throw (.partialManifestMmr context.mmr.leafCount expected)

def new (genesisState : AnchorState) (genesisPredicate : PredicateKey) (registry : ExecutionRegistry) :
    EStateM WorkerError WorkerContext AsmWorkerServiceState := do
  let target ← Effect.lift (registry.resolve genesisPredicate)
  if target.id ≠ genesisState.specId then throw .genesisSpecMismatch
  let genesisBlock := genesisState.lastProcessedBlock
  let context ← get
  Effect.lift (validateAnchorAgainstL1 context.l1 genesisState.chainView.powState)
  let latest := context.getLatestAnchorState
  checkGenesis genesisState
  seedMmr genesisState
  if latest.isNone then modify fun context => context.storeAnchorState genesisState
  let anchor := latest.getD genesisState
  let context ← get
  let nextPredicate ← Effect.lift (recoverFromContext context registry genesisBlock
    genesisPredicate anchor)
  pure {
    context
    registry
    genesisBlock
    genesisPredicate
    nextPredicate
    anchor
    blkid := anchor.lastProcessedBlock
    genesisHeight := genesisBlock.height
    emitted := [] }

end AsmWorkerServiceState
end
end Asm
