import AnchorStateMachine.Stf.State

/-! The state transition: a block is checked against its header and the chain, every subprotocol
processes its transactions, the messages they sent each other are delivered, and the block's manifest
is appended to the history. -/

namespace Asm

/-! ### Subprotocol manager -/

/-- The loaded subprotocols, each with the messages buffered for it, and the logs emitted so far. -/
structure SubprotoManager where
  admin : Option AdministrationSubprotoState
  checkpoint : Option (CheckpointState × List CheckpointIncomingMsg)
  bridge : Option (BridgeStateV1 × List BridgeIncomingMsg)
  logs : List AsmLogEntry

namespace SubprotoManager

def new : SubprotoManager := ⟨none, none, none, []⟩

def relayMsg (manager : SubprotoManager) (msg : InterprotoMsg) : Exec SubprotoManager :=
  match msg with
  | .checkpoint msg =>
    match manager.checkpoint with
    | none => throw (.messageToUnloadedSubprotocol checkpointSubprotocolId)
    | some (state, msgs) => pure { manager with checkpoint := some (state, msgs ++ [msg]) }
  | .bridge msg =>
    match manager.bridge with
    | none => throw (.messageToUnloadedSubprotocol bridgeSubprotocolId)
    | some (state, msgs) => pure { manager with bridge := some (state, msgs ++ [msg]) }

/-- Takes over what a subprotocol relayed and logged while it was out of the manager. -/
def relay (manager : SubprotoManager) (relayer : MsgRelayer) : Exec SubprotoManager := do
  let manager ← relayer.msgs.foldlM relayMsg manager
  pure { manager with logs := manager.logs ++ relayer.logs }

variable [AsmLibs]

def load (anchorState : AnchorState) (manager : SubprotoManager) :
    SubprotocolKind → Exec SubprotoManager
  | .admin =>
    match (anchorState.findSection adminSubprotocolId).bind SectionState.tryToAdmin with
    | none => throw (.sectionNotLoadable adminSubprotocolId)
    | some state =>
      if manager.admin.isSome then throw (.duplicateSubprotocol adminSubprotocolId)
      else pure { manager with admin := some state }
  | .checkpoint =>
    match (anchorState.findSection checkpointSubprotocolId).bind SectionState.tryToCheckpoint with
    | none => throw (.sectionNotLoadable checkpointSubprotocolId)
    | some state =>
      if manager.checkpoint.isSome then throw (.duplicateSubprotocol checkpointSubprotocolId)
      else pure { manager with checkpoint := some (state, []) }
  | .bridge _ =>
    match (anchorState.findSection bridgeSubprotocolId).bind SectionState.tryToBridge with
    | none => throw (.sectionNotLoadable bridgeSubprotocolId)
    | some state =>
      if manager.bridge.isSome then throw (.duplicateSubprotocol bridgeSubprotocolId)
      else pure { manager with bridge := some (state, []) }

def preProcessTxs (manager : SubprotoManager) (txs : Nat → List TxInput)
    (collector : AuxRequestCollector) : SubprotocolKind → Exec AuxRequestCollector
  | .admin =>
    match manager.admin with
    | none => throw (.unloadedSubprotocol adminSubprotocolId)
    | some _ => pure collector
  | .checkpoint =>
    match manager.checkpoint with
    | none => throw (.unloadedSubprotocol checkpointSubprotocolId)
    | some (state, _) => pure (Checkpoint.preProcessTxs state (txs checkpointSubprotocolId) collector)
  | .bridge _ =>
    match manager.bridge with
    | none => throw (.unloadedSubprotocol bridgeSubprotocolId)
    | some _ => pure (Bridge.preProcessTxs (txs bridgeSubprotocolId) collector)

/-- A subprotocol processes its transactions. It is out of the manager meanwhile, so that a message to
itself would not be delivered. -/
def processTxs (powState : HeaderVerificationState) (txs : Nat → List TxInput) (aux : VerifiedAuxData)
    (manager : SubprotoManager) : SubprotocolKind → Exec SubprotoManager
  | .admin =>
    match manager.admin with
    | none => throw (.unloadedSubprotocol adminSubprotocolId)
    | some state => do
      let (state, relayer) ← Admin.processTxs state (txs adminSubprotocolId)
        powState.lastVerifiedBlock.height powState.network .new
      let manager ← relay { manager with admin := none } relayer
      pure { manager with admin := some state }
  | .checkpoint =>
    match manager.checkpoint with
    | none => throw (.unloadedSubprotocol checkpointSubprotocolId)
    | some (state, msgs) => do
      let (state, relayer) ← Checkpoint.processTxs state (txs checkpointSubprotocolId)
        powState.lastVerifiedBlock.height aux .new
      let manager ← relay { manager with checkpoint := none } relayer
      pure { manager with checkpoint := some (state, msgs) }
  | .bridge claim =>
    match manager.bridge with
    | none => throw (.unloadedSubprotocol bridgeSubprotocolId)
    | some (state, msgs) => do
      let (state, relayer) ← Bridge.processTxs claim state (txs bridgeSubprotocolId)
        powState.lastVerifiedBlock powState.totalAccumulatedPow aux .new
      let manager ← relay { manager with bridge := none } relayer
      pure { manager with bridge := some (state, msgs) }

/-- A subprotocol receives the messages buffered for it. Administration receives none. -/
def processMsgs (l1ref : L1BlockCommitment) (manager : SubprotoManager) :
    SubprotocolKind → Exec SubprotoManager
  | .admin =>
    match manager.admin with
    | none => throw (.unloadedSubprotocol adminSubprotocolId)
    | some _ => pure manager
  | .checkpoint =>
    match manager.checkpoint with
    | none => throw (.unloadedSubprotocol checkpointSubprotocolId)
    | some (state, msgs) => do
      let state ← Checkpoint.processMsgs state msgs l1ref
      pure { manager with checkpoint := some (state, msgs) }
  | .bridge _ =>
    match manager.bridge with
    | none => throw (.unloadedSubprotocol bridgeSubprotocolId)
    | some (state, msgs) => do
      let state ← Bridge.processMsgs state msgs l1ref
      pure { manager with bridge := some (state, msgs) }

def exportSections (manager : SubprotoManager) : Except AsmError (List SectionState) := do
  let admin ← manager.admin.toList.mapM fun state =>
    SectionState.fromState adminSubprotocolId (.admin state)
  let checkpoint ← manager.checkpoint.toList.mapM fun (state, _) =>
    SectionState.fromState checkpointSubprotocolId (.checkpoint state)
  let bridge ← manager.bridge.toList.mapM fun (state, _) =>
    SectionState.fromState bridgeSubprotocolId (.bridge state)
  pure (admin ++ checkpoint ++ bridge)

end SubprotoManager

variable [AsmLibs]

/-! ### Transactions -/

def taggedTxs (magic : Bytes) (block : Block) : List TxInput :=
  (block.txdata.drop 1).filterMap fun tx => (AsmLibs.tryParseTx magic tx).map fun tag => ⟨tx, tag⟩

/-- The tagged transactions for one subprotocol, in block order. The coinbase is not one. -/
def groupTxsBySubprotocol (magic : Bytes) (block : Block) (id : Nat) : List TxInput :=
  (taggedTxs magic block).filter (·.tag.subprotoId = id)

/-! ### Transition -/

/-- The checks of a block and its auxiliary data against the state: the root for the manifest, the
extended header chain and the verified data. -/
def checkBlock (preState : AnchorState) (block : Block) (auxData : AuxData)
    (coinbaseInclusionProof : Option TxidInclusionProof) :
    Exec (Except AsmError (Buf32 × HeaderVerificationState × VerifiedAuxData)) :=
  match checkBlockIntegrity block coinbaseInclusionProof with
  | .error error => pure (.error (.invalidL1Body error))
  | .ok wtxidsRoot => do
    match ← preState.chainView.powState.checkAndUpdate block.header with
    | .error error => pure (.error (.invalidL1Header error))
    | .ok powState =>
      match VerifiedAuxData.tryNew auxData preState.chainView.historyAccumulator with
      | .error error => pure (.error (.invalidAuxData error))
      | .ok aux => pure (.ok (wtxidsRoot, powState, aux))

def loadSubprotocols (spec : AsmSpec) (preState : AnchorState) : Exec SubprotoManager :=
  spec.subprotocols.foldlM (SubprotoManager.load preState) .new

def runSubprotocols (spec : AsmSpec) (manager : SubprotoManager) (powState : HeaderVerificationState)
    (txs : Nat → List TxInput) (aux : VerifiedAuxData) : Exec SubprotoManager := do
  let manager ← spec.subprotocols.foldlM (SubprotoManager.processTxs powState txs aux) manager
  spec.subprotocols.foldlM (SubprotoManager.processMsgs powState.lastVerifiedBlock) manager

def exportOutput (spec : AsmSpec) (preState : AnchorState) (powState : HeaderVerificationState)
    (wtxidsRoot : Buf32) (manager : SubprotoManager) : Exec (Except AsmError AsmStfOutput) :=
  let packed : Except AsmError (List SectionState × AsmManifest × Mmr) := do
    let sections ← manager.exportSections
    let manifest ← AsmManifest.new powState.lastVerifiedBlock.height powState.lastVerifiedBlock.blkid
      wtxidsRoot manager.logs
    let history ← HistoryAccumulator.addManifest preState.chainView.historyAccumulator manifest
    pure (sections, manifest, history)
  match packed with
  | .error error => pure (.error error)
  | .ok (sections, manifest, history) => do
    let inserted ← HistoryAccumulator.lastInsertedHeight history
    if inserted ≠ powState.lastVerifiedBlock.height then
      throw (.historyHeightMismatch inserted powState.lastVerifiedBlock.height)
    if maxSections < sections.length then pure (.error .tooManySections)
    else pure (.ok ⟨⟨spec.id, preState.magic, ⟨powState, history⟩, sections⟩, manifest⟩)

def computeAsmTransition (spec : AsmSpec) (preState : AnchorState) (block : Block)
    (auxData : AuxData) (coinbaseInclusionProof : Option TxidInclusionProof) :
    Exec (Except AsmError AsmStfOutput) := do
  let preState ← spec.prepare preState
  match ← checkBlock preState block auxData coinbaseInclusionProof with
  | .error error => pure (.error error)
  | .ok (wtxidsRoot, powState, aux) =>
    let txs := groupTxsBySubprotocol preState.magic block
    let manager ← loadSubprotocols spec preState
    let manager ← runSubprotocols spec manager powState txs aux
    exportOutput spec preState powState wtxidsRoot manager

def preProcessAsm (spec : AsmSpec) (preState : AnchorState) (block : Block) :
    Exec (Except AsmError AuxRequests) := do
  let preState ← spec.prepare preState
  match ← preState.chainView.powState.checkAndUpdate block.header with
  | .error error => pure (.error (.invalidL1Header error))
  | .ok _ =>
    let txs := groupTxsBySubprotocol preState.magic block
    let manager ← loadSubprotocols spec preState
    let lastHeight ← HistoryAccumulator.lastInsertedHeight preState.chainView.historyAccumulator
    let collector ← spec.subprotocols.foldlM (manager.preProcessTxs txs) (.new lastHeight)
    pure (.ok collector.requests)

end Asm
