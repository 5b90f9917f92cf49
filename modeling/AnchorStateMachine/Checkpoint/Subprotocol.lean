import AnchorStateMachine.Checkpoint.State

/-! The checkpoint subprotocol: which checkpoint transactions it accepts, what it requests for them
beforehand, and the messages it receives. -/

namespace Asm

def olStfCheckpointTxType : Nat := 1

/-! ### Envelopes -/

inductive CheckpointTxError
  | missingInputs
  | envelopeSpend
  | codecDecode
  deriving DecidableEq

inductive CheckpointEnvelopeError
  | sequencerKey (expected : Buf32) (actual : Bytes)
  | missingSpentOutput (outpoint : OutPoint) (source : AuxError)
  | spentOutput
  deriving DecidableEq

def verifyEnvelopeKey (sequencerKey : Buf32) (spend : SignedEnvelopeSpend) :
    Except CheckpointEnvelopeError Unit :=
  if spend.unverifiedLeaf.pubkey ≠ sequencerKey.bytes then
    .error (.sequencerKey sequencerKey spend.unverifiedLeaf.pubkey)
  else .ok ()

section

variable [CheckpointLibs]

def parseCheckpointEnvelope (tx : TxInput) : Except CheckpointTxError SignedEnvelopeSpend :=
  match tx.tx.input.head? with
  | none => .error .missingInputs
  | some input =>
    match CheckpointLibs.parseSignedEnvelopeLeaf input with
    | none => .error .envelopeSpend
    | some leaf => .ok ⟨input, leaf⟩

def decodeCheckpointPayload (bytes : Bytes) : Except CheckpointTxError CheckpointPayload :=
  match CheckpointLibs.decodePayload bytes with
  | none => .error .codecDecode
  | some payload => .ok payload

/-- The envelope must be under the sequencer key, and spend a native P2TR output. -/
def authenticateCheckpointEnvelope (sequencerKey : Buf32) (spend : SignedEnvelopeSpend)
    (aux : VerifiedAuxData) : Except CheckpointEnvelopeError SignedEnvelopeLeaf := do
  verifyEnvelopeKey sequencerKey spend
  let spentOutput ← (aux.getBitcoinTxout spend.spentOutpoint).mapError
    (.missingSpentOutput spend.spentOutpoint)
  if CheckpointLibs.verifySpentOutput spend spentOutput.scriptPubkey then pure spend.unverifiedLeaf
  else throw .spentOutput

end

/-! ### Checkpoint transactions -/

structure AcceptedCheckpoint where
  payload : CheckpointPayload
  coverage : CheckpointL1Range
  asmManifestsHash : Buf32
  intents : List WithdrawalIntent
  post : CheckpointState
  deriving DecidableEq

def relayWithdrawals (relayer : MsgRelayer) (intents : List WithdrawalIntent) : MsgRelayer :=
  intents.foldl (fun relayer intent => relayer.relayMsg (.bridge (.dispatchWithdrawal intent))) relayer

def computeAsmManifestsHashFromLeaves [Sha256] (manifestHashes : List Buf32) : Buf32 :=
  if manifestHashes.isEmpty then .zero else sha256 (manifestHashes.flatMap Buf32.bytes)

/-- The manifests hash a checkpoint's claim commits to. Missing hashes mean that the runtime did not
answer the requests of the pre-process stage. -/
def coveredManifestsHash [Sha256] (coverage : CheckpointL1Range) (aux : VerifiedAuxData) : Exec Buf32 :=
  match coverage with
  | .empty => pure .zero
  | .range startHeight endHeight =>
    match aux.getManifestHashes startHeight endHeight with
    | .error _ => throw (.manifestHashesNotProvided startHeight endHeight)
    | .ok manifestHashes => pure (computeAsmManifestsHashFromLeaves manifestHashes)

section

variable [CheckpointLibs]

def acceptPayload (state : CheckpointState) (payload : CheckpointPayload) (currentL1Height : Nat)
    (aux : VerifiedAuxData) : Exec (Option AcceptedCheckpoint) :=
  match verifyProgression state.verifiedTip payload.newTip currentL1Height state.nextTransition with
  | .error _ => pure none
  | .ok coverage => do
    let asmManifestsHash ← coveredManifestsHash coverage aux
    match ← state.advance payload asmManifestsHash with
    | .error _ => pure none
    | .ok (intents, post) => pure (some ⟨payload, coverage, asmManifestsHash, intents, post⟩)

/-- The decisions of `handle_checkpoint_tx`: `none` where it logs why it ignores the transaction and
returns. -/
def acceptCheckpoint (state : CheckpointState) (tx : TxInput) (currentL1Height : Nat)
    (aux : VerifiedAuxData) : Exec (Option AcceptedCheckpoint) :=
  match parseCheckpointEnvelope tx with
  | .error _ => pure none
  | .ok spend =>
    match authenticateCheckpointEnvelope state.sequencerKey spend aux with
    | .error (.missingSpentOutput outpoint _) => throw (.envelopeSpentOutputNotProvided outpoint)
    | .error _ => pure none
    | .ok leaf =>
      match decodeCheckpointPayload leaf.payload with
      | .error _ => pure none
      | .ok payload => acceptPayload state payload currentL1Height aux

def handleCheckpointTx (state : CheckpointState) (tx : TxInput) (currentL1Height : Nat)
    (aux : VerifiedAuxData) (relayer : MsgRelayer) : Exec (CheckpointState × MsgRelayer) := do
  match ← acceptCheckpoint state tx currentL1Height aux with
  | none => pure (state, relayer)
  | some accepted =>
    let relayer := relayer.emitLog (.checkpointTipUpdate accepted.payload.newTip)
    pure (accepted.post, relayWithdrawals relayer accepted.intents)

/-- Requests the transaction whose output the envelope spends, and the manifest hashes its payload
would need against the current tip. -/
def requestCheckpointAux (state : CheckpointState) (tx : TxInput) (collector : AuxRequestCollector) :
    AuxRequestCollector :=
  match parseCheckpointEnvelope tx with
  | .error _ => collector
  | .ok spend =>
    match verifyEnvelopeKey state.sequencerKey spend with
    | .error _ => collector
    | .ok () =>
      let collector := collector.requestBitcoinTx spend.spentOutpoint.txid
      match decodeCheckpointPayload spend.unverifiedLeaf.payload with
      | .error _ => collector
      | .ok payload =>
        if state.verifiedTip.l1Height < payload.newTip.l1Height then
          collector.requestManifestHashes (state.verifiedTip.l1Height + 1) payload.newTip.l1Height
        else collector

end

/-! ### Subprotocol -/

namespace Checkpoint

/-- Delivers one message. A predicate update takes effect after the block it arrives in. -/
def processMsg (l1ref : L1BlockCommitment) (state : CheckpointState) :
    CheckpointIncomingMsg → Exec CheckpointState
  | .depositProcessed amount => state.recordDeposit amount
  | .updateSequencerKey newKey => pure (state.updateSequencerKey newKey)
  | .updateCheckpointPredicate newPredicate =>
    state.queuePredicateTransition ⟨newPredicate, l1ref.height⟩

def processMsgs (state : CheckpointState) (msgs : List CheckpointIncomingMsg)
    (l1ref : L1BlockCommitment) : Exec CheckpointState :=
  msgs.foldlM (processMsg l1ref) state

variable [CheckpointLibs]

def preProcessTx (state : CheckpointState) (collector : AuxRequestCollector) (tx : TxInput) :
    AuxRequestCollector :=
  if tx.tag.txType = olStfCheckpointTxType then requestCheckpointAux state tx collector
  else collector

def preProcessTxs (state : CheckpointState) (txs : List TxInput) (collector : AuxRequestCollector) :
    AuxRequestCollector :=
  txs.foldl (preProcessTx state) collector

def processTx (currentL1Height : Nat) (aux : VerifiedAuxData) :
    CheckpointState × MsgRelayer → TxInput → Exec (CheckpointState × MsgRelayer)
  | (state, relayer), tx =>
    if tx.tag.txType = olStfCheckpointTxType then
      handleCheckpointTx state tx currentL1Height aux relayer
    else pure (state, relayer)

def processTxs (state : CheckpointState) (txs : List TxInput) (currentL1Height : Nat)
    (aux : VerifiedAuxData) (relayer : MsgRelayer) : Exec (CheckpointState × MsgRelayer) :=
  txs.foldlM (processTx currentL1Height aux) (state, relayer)

end Checkpoint
end Asm
