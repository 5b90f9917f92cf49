import AnchorStateMachine.Bridge.State
import AnchorStateMachine.Common.Messages
import AnchorStateMachine.Common.AuxInput

/-! The bridge subprotocol: validation and handling of its transactions, the reassignment pass at the
end of a block's transactions, and the messages of other subprotocols. -/

namespace Asm

class BridgeLibs extends BridgeTxLibs, ChaCha20, Sha256 where
  /-- The output script a descriptor stands for. -/
  toScript : Descriptor → Bytes

export BridgeLibs (toScript)

inductive WithdrawalValidationError
  | noAssignmentFound (depositIdx : Nat)
  | amountMismatch (mismatch : Mismatch Nat)
  | destinationMismatch (mismatch : Mismatch Bytes)
  deriving DecidableEq

inductive SlashValidationError
  | invalidStakeConnectorScript
  | operatorNotInMultisig (operator : Nat) (script : Bytes)
  deriving DecidableEq

inductive UnstakeValidationError
  | unknownNnKey
  | stakeConnectorMismatch
  | operatorNotInMultisig (operator : Nat) (script : Bytes)
  deriving DecidableEq

inductive BridgeSubprotocolError
  | depositTxProcess (error : DepositValidationError)
  | withdrawalTxProcess (error : WithdrawalValidationError)
  | slashTxValidation (error : SlashValidationError)
  | unstakeTxValidation (error : UnstakeValidationError)
  deriving DecidableEq

variable [BridgeLibs]

/-! ### Validation -/

def validateDepositInfo (state : BridgeStateV1) (info : DepositInfo) (drtInfo : DepositRequestInfo) :
    Exec (Except DepositValidationError Unit) := do
  let current ← state.operators.currentNnScript
  let expectedDrtScript := createDepositRequestLockingScript drtInfo.recoveryPk state.operators.aggKey
    state.recoveryDelay
  let actualScript := drtInfo.depositRequestOutput.scriptPubkey
  if info.lockedScript ≠ current.script then
    pure (.error (.wrongOutputLock ⟨current.script, info.lockedScript⟩))
  else if actualScript ≠ expectedDrtScript then
    pure (.error (.drtOutputScriptMismatch ⟨expectedDrtScript, actualScript⟩))
  else if info.amt ≠ state.denomination then
    pure (.error (.mismatchDepositAmount ⟨state.denomination, info.amt⟩))
  else pure (.ok ())

def validateWithdrawalFulfillmentInfo (state : BridgeStateV1) (info : WithdrawalFulfillmentInfo) :
    Except WithdrawalValidationError Unit :=
  match state.assignments.getAssignment info.depositIdx with
  | none => .error (.noAssignmentFound info.depositIdx)
  | some assignment =>
    let expectedDestination := toScript assignment.withdrawalOutput.destination
    if assignment.netAmount ≠ info.withdrawalAmount then
      .error (.amountMismatch ⟨assignment.netAmount, info.withdrawalAmount⟩)
    else if expectedDestination ≠ info.withdrawalDestination then
      .error (.destinationMismatch ⟨expectedDestination, info.withdrawalDestination⟩)
    else .ok ()

def validateSlashStakeConnector (state : BridgeStateV1) (operatorIdx : Nat)
    (stakeConnectorScript : Bytes) : Except SlashValidationError Unit :=
  match state.operators.historicalNnScripts.find? (·.script = stakeConnectorScript) with
  | none => .error .invalidStakeConnectorScript
  | some config =>
    if config.operators.isActive operatorIdx then .ok ()
    else .error (.operatorNotInMultisig operatorIdx config.script)

def validateUnstakeInfo (state : BridgeStateV1) (info : UnstakeInfo)
    (stakeConnectorScriptPubkey : Bytes) : Except UnstakeValidationError Unit :=
  let nnKeypathScript := buildNnScript info.witnessPushedPubkey
  match state.operators.historicalNnScripts.find? (·.script = nnKeypathScript) with
  | none => .error .unknownNnKey
  | some config =>
    let expected := expectedStakeConnectorScriptPubkey info.stakeHash info.witnessPushedPubkey
    if ¬ config.operators.isActive info.operatorIdx then
      .error (.operatorNotInMultisig info.operatorIdx config.script)
    else if stakeConnectorScriptPubkey ≠ expected then .error .stakeConnectorMismatch
    else .ok ()

/-! ### Claims -/

inductive ClaimVersion
  | v0
  | v1
  deriving DecidableEq

/-- The leaf exported for a fulfilled withdrawal. The first version names the operator by its index,
the second by its public key. -/
def ClaimVersion.exportLeaf (claim : ClaimVersion) (operators : OperatorTable)
    (depositIdx assignee : Nat) : Exec Buf32 :=
  match claim with
  | .v0 => pure (sha256 (u32BigEndian depositIdx ++ u32BigEndian assignee))
  | .v1 =>
    match operators.getOperator assignee with
    | some operator => pure (sha256 (u32LittleEndian depositIdx ++ operator.musig2Pk.bytes))
    | none => throw (.assigneeNotRegistered assignee)

/-! ### Transactions -/

def handleDeposit (state : BridgeStateV1) (info : DepositInfo) (aux : VerifiedAuxData)
    (relayer : MsgRelayer) :
    Exec (Except BridgeSubprotocolError (BridgeStateV1 × MsgRelayer)) :=
  match aux.getBitcoinTx info.drtInpoint.txid with
  | .error _ => throw (.depositRequestNotProvided info.drtInpoint.txid)
  | .ok drtTx =>
    match parseDrt drtTx with
    | .error error => pure (.error (.depositTxProcess (.drtParseError error)))
    | .ok drtInfo => do
      match ← validateDepositInfo state info drtInfo with
      | .error error => pure (.error (.depositTxProcess error))
      | .ok () =>
        match ← state.addDeposit info with
        | .error error => pure (.error (.depositTxProcess error))
        | .ok state =>
          pure (.ok (state, (relayer.relayMsg (.checkpoint (.depositProcessed info.amt))).emitLog
            (.deposit drtInfo.destination info.amt)))

def handleWithdrawalFulfillment (claim : ClaimVersion) (state : BridgeStateV1)
    (info : WithdrawalFulfillmentInfo) (relayer : MsgRelayer) :
    Exec (Except BridgeSubprotocolError (BridgeStateV1 × MsgRelayer)) :=
  match validateWithdrawalFulfillmentInfo state info with
  | .error error => pure (.error (.withdrawalTxProcess error))
  | .ok () =>
    match state.removeAssignment info.depositIdx with
    | none => throw (.fulfilledAssignmentMissing info.depositIdx)
    | some (fulfilled, state) => do
      let leaf ← claim.exportLeaf state.operators info.depositIdx fulfilled.currentAssignee
      pure (.ok (state, relayer.emitLog (.newExportEntry bridgeSubprotocolId leaf)))

/-- The removal of an operator that a spent stake connector calls for, once that output is checked. -/
def handleRemoval (state : BridgeStateV1) (stakeInpoint : OutPoint) (operatorIdx : Nat)
    (validate : Bytes → Except BridgeSubprotocolError Unit) (aux : VerifiedAuxData)
    (relayer : MsgRelayer) : Exec (Except BridgeSubprotocolError (BridgeStateV1 × MsgRelayer)) :=
  match aux.getBitcoinTxout stakeInpoint with
  | .error _ => throw (.stakeConnectorNotProvided stakeInpoint)
  | .ok stakeConnector =>
    match validate stakeConnector.scriptPubkey with
    | .error error => pure (.error error)
    | .ok () => do
      let state ← state.removeOperator operatorIdx
      pure (.ok (state, relayer))

def handleSlash (state : BridgeStateV1) (info : SlashInfo) (aux : VerifiedAuxData)
    (relayer : MsgRelayer) : Exec (Except BridgeSubprotocolError (BridgeStateV1 × MsgRelayer)) :=
  handleRemoval state info.stakeInpoint info.operatorIdx (fun script =>
    (validateSlashStakeConnector state info.operatorIdx script).mapError .slashTxValidation) aux relayer

def handleUnstake (state : BridgeStateV1) (info : UnstakeInfo) (aux : VerifiedAuxData)
    (relayer : MsgRelayer) : Exec (Except BridgeSubprotocolError (BridgeStateV1 × MsgRelayer)) :=
  handleRemoval state info.stakeInpoint info.operatorIdx (fun script =>
    (validateUnstakeInfo state info script).mapError .unstakeTxValidation) aux relayer

def handleParsedTx (claim : ClaimVersion) (state : BridgeStateV1) (parsedTx : ParsedTx)
    (aux : VerifiedAuxData) (relayer : MsgRelayer) :
    Exec (Except BridgeSubprotocolError (BridgeStateV1 × MsgRelayer)) :=
  match parsedTx with
  | .deposit info => handleDeposit state info aux relayer
  | .withdrawalFulfillment info => handleWithdrawalFulfillment claim state info relayer
  | .slash info => handleSlash state info aux relayer
  | .unstake info => handleUnstake state info aux relayer

def preprocessParsedTx (parsedTx : ParsedTx) (collector : AuxRequestCollector) : AuxRequestCollector :=
  match parsedTx with
  | .deposit info => collector.requestBitcoinTx info.drtInpoint.txid
  | .withdrawalFulfillment _ => collector
  | .slash info => collector.requestBitcoinTx info.stakeInpoint.txid
  | .unstake info => collector.requestBitcoinTx info.stakeInpoint.txid

namespace Bridge

def preProcessTx (collector : AuxRequestCollector) (tx : TxInput) : AuxRequestCollector :=
  match parseTx tx with
  | some parsedTx => preprocessParsedTx parsedTx collector
  | none => collector

def preProcessTxs (txs : List TxInput) (collector : AuxRequestCollector) : AuxRequestCollector :=
  txs.foldl preProcessTx collector

/-- The loop body of `process_txs`: a transaction that is skipped or rejected changes nothing. -/
def processTx (claim : ClaimVersion) (aux : VerifiedAuxData) :
    BridgeStateV1 × MsgRelayer → TxInput → Exec (BridgeStateV1 × MsgRelayer)
  | (state, relayer), tx =>
    match parseTx tx with
    | none => pure (state, relayer)
    | some parsedTx => do
      match ← handleParsedTx claim state parsedTx aux relayer with
      | .ok processed => pure processed
      | .error _ => pure (state, relayer)

def reassignExpired (state : BridgeStateV1) (l1Block : L1BlockCommitment) : Exec BridgeStateV1 := do
  match ← state.reassignExpiredAssignments l1Block with
  | .ok state => pure state
  | .error error => throw (.reassignmentFailed error)

def processTxs (claim : ClaimVersion) (state : BridgeStateV1) (txs : List TxInput)
    (l1Block : L1BlockCommitment) (accumulatedPow : Nat) (aux : VerifiedAuxData)
    (relayer : MsgRelayer) : Exec (BridgeStateV1 × MsgRelayer) := do
  let (state, relayer) ← txs.foldlM (processTx claim aux) (state, relayer)
  let state ← reassignExpired state l1Block
  pure (state, relayer.emitLog (.exportExtraDataUpdate bridgeSubprotocolId accumulatedPow))

/-! ### Messages -/

/-- One intent of a decomposed withdrawal. An error leaves the loop and halts the state machine. -/
def assignWithdrawal (l1ref : L1BlockCommitment) (state : BridgeStateV1) (intent : WithdrawalIntent) :
    Exec BridgeStateV1 := do
  match ← state.createWithdrawalAssignment intent l1ref with
  | .error error => throw (.withdrawalAssignmentFailed error)
  | .ok assignment => state.insertWithdrawalAssignment assignment

def dispatchWithdrawal (l1ref : L1BlockCommitment) (state : BridgeStateV1) (payload : WithdrawalIntent) :
    Exec BridgeStateV1 :=
  match payload.decompose state.denomination with
  | none => throw (.withdrawalAssignmentFailed
      (.depositWithdrawalAmountMismatch ⟨state.denomination, payload.amt⟩))
  | some intents => intents.foldlM (assignWithdrawal l1ref) state

def processMsg (l1ref : L1BlockCommitment) (state : BridgeStateV1) (msg : BridgeIncomingMsg) :
    Exec BridgeStateV1 :=
  match msg with
  | .dispatchWithdrawal payload => dispatchWithdrawal l1ref state payload
  | .updateOperatorSet payload =>
    state.applyOperatorSetUpdate payload.addMembers payload.removeMembers
  | .updateSafeHarborAddress address => pure (state.updateSafeHarborAddress address)
  | .defcon => pure state.activateSafeHarbor

def processMsgs (state : BridgeStateV1) (msgs : List BridgeIncomingMsg) (l1ref : L1BlockCommitment) :
    Exec BridgeStateV1 :=
  msgs.foldlM (processMsg l1ref) state

end Bridge
end Asm
