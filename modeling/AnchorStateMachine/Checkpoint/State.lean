import AnchorStateMachine.Common.AuxInput
import AnchorStateMachine.Common.Messages
import AnchorStateMachine.Common.Panic

/-! The checkpoint subprotocol's state: the verified tip, the active predicate with the transitions
queued behind it, and the pool of bridge deposits that withdrawals draw on. -/

namespace Asm

/-! ### Payloads and claims -/

structure OLLog where
  accountSerial : Nat
  payload : Bytes
  deriving DecidableEq

/-- The fields of the terminal OL header that L1 data does not determine. -/
structure TerminalHeaderComplement where
  timestamp : Nat
  parentBlkid : Buf32
  bodyRoot : Buf32
  logsRoot : Buf32
  deriving DecidableEq

structure CheckpointSidecar where
  olStateDiff : Bytes
  olLogs : List OLLog
  terminalHeaderComplement : TerminalHeaderComplement
  deriving DecidableEq

structure CheckpointPayload where
  newTip : CheckpointTip
  sidecar : CheckpointSidecar
  proof : Bytes
  deriving DecidableEq

structure L2BlockRange where
  start : OLBlockCommitment
  last : OLBlockCommitment
  deriving DecidableEq

structure CheckpointClaim where
  epoch : Nat
  l2Range : L2BlockRange
  asmManifestsHash : Buf32
  stateDiffHash : Buf32
  olLogsHash : Buf32
  terminalHeaderComplementHash : Buf32
  deriving DecidableEq

structure SimpleWithdrawalIntentLogData where
  amt : Nat
  dest : Bytes
  selectedOperator : Nat
  deriving DecidableEq

structure SignedEnvelopeLeaf where
  pubkey : Bytes
  payload : Bytes
  deriving DecidableEq

structure SignedEnvelopeSpend where
  input : TxIn
  unverifiedLeaf : SignedEnvelopeLeaf
  deriving DecidableEq

def SignedEnvelopeSpend.spentOutpoint (spend : SignedEnvelopeSpend) : OutPoint :=
  spend.input.previousOutput

/-- What the checkpoint subprotocol takes from other crates: the envelope format, the encodings, the
proof systems behind predicate keys and the withdrawal log of the OL. -/
class CheckpointLibs extends Sha256 where
  parseSignedEnvelopeLeaf : TxIn → Option SignedEnvelopeLeaf
  verifySpentOutput : SignedEnvelopeSpend → Bytes → Bool
  decodePayload : Bytes → Option CheckpointPayload
  encodeClaim : CheckpointClaim → Bytes
  encodeOlLogs : List OLLog → Bytes
  complementHash : TerminalHeaderComplement → Buf32
  verifyClaimWitness : PredicateKey → Bytes → Bytes → Bool
  decodeWithdrawalLog : OLLog → Option SimpleWithdrawalIntentLogData
  descriptorFromBytes : Bytes → Option Descriptor
  bridgeGatewayAcctSerial : Nat

inductive InvalidCheckpointPayload
  | checkpointPredicateVerification
  | invalidEpoch (expected actual : Nat)
  | l1HeightRegresses (prevHeight newHeight : Nat)
  | checkpointBeyondL1Tip (checkpointHeight currentHeight : Nat)
  | l2SlotDoesNotAdvance (prevSlot newSlot : Nat)
  | rangeStraddlesPredicateBoundary (start last boundary : Nat)
  | malformedWithdrawalDestDesc
  | invalidWithdrawalAmount (sats : Nat)
  | withdrawalTotalTooLarge
  | epochOverflow
  | insufficientFunds (available required : Nat)
  | denominationMismatch (expected actual : Nat)
  deriving DecidableEq

/-! ### Deposit pool -/

def checkedAddU64 (a b : Nat) : Option Nat := if a + b < 2 ^ 64 then some (a + b) else none

def totalWithdrawalAmount (intents : List WithdrawalIntent) : Except InvalidCheckpointPayload Nat :=
  match intents.foldlM (fun acc intent => checkedAddU64 acc intent.amt) 0 with
  | none => .error .withdrawalTotalTooLarge
  | some sats => if sats ≤ maxMoneySat then .ok sats else .error .withdrawalTotalTooLarge

/-- Bridge UTXOs available to withdrawals. They share one denomination, that of the first recorded
deposit. -/
structure DepositPool where
  denomination : Nat
  count : Nat
  deriving DecidableEq

namespace DepositPool

def newEmpty : DepositPool := ⟨0, 0⟩

def total (pool : DepositPool) : Exec Nat :=
  if pool.denomination * pool.count ≤ maxMoneySat then pure (pool.denomination * pool.count)
  else throw .depositTotalTooLarge

def isEmpty (pool : DepositPool) : Bool := pool.count = 0 ∧ pool.denomination = 0

def record (pool : DepositPool) (amount : Nat) : Exec DepositPool :=
  if pool.isEmpty then do
    let count ← addU32 pool.count 1
    pure ⟨amount, count⟩
  else if amount ≠ pool.denomination then pure pool
  else do
    let count ← addU32 pool.count 1
    pure { pool with count }

/-- One intent of the loop that sums up how many UTXOs the withdrawals consume. The sum is `none`
once it leaves `u64`. -/
def addUnits (denomination : Nat) (required : Option Nat) (intent : WithdrawalIntent) :
    Except InvalidCheckpointPayload (Option Nat) :=
  match (intent.denominationUnits denomination).filter (0 < ·) with
  | none => .error (.denominationMismatch denomination intent.amt)
  | some units => .ok (required.bind (checkedAddU64 · units))

def verifyWithdrawals (pool : DepositPool) (intents : List WithdrawalIntent) :
    Exec (Except InvalidCheckpointPayload Nat) :=
  if intents.isEmpty then pure (.ok pool.count)
  else if pool.count = 0 then
    pure do
      let required ← totalWithdrawalAmount intents
      throw (.insufficientFunds 0 required)
  else
    match intents.foldlM (addUnits pool.denomination) (some 0) with
    | .error error => pure (.error error)
    | .ok required =>
      match required.filter (· ≤ pool.count) with
      | some required => pure (.ok (pool.count - required))
      | none => do
        let available ← pool.total
        pure do
          let required ← totalWithdrawalAmount intents
          throw (.insufficientFunds available required)

def applyWithdrawals (pool : DepositPool) (remainingCount : Nat) : DepositPool :=
  { pool with count := remainingCount }

end DepositPool

/-! ### State -/

structure PendingPredicateTransition where
  predicate : PredicateKey
  boundary : Nat
  deriving DecidableEq

def maxPendingPredicateTransitions : Nat := 8

structure CheckpointInitConfig where
  sequencerKey : Buf32
  checkpointPredicate : PredicateKey
  genesisL1Height : Nat
  genesisOlBlkid : Buf32
  deriving DecidableEq

structure CheckpointState where
  sequencerKey : Buf32
  checkpointPredicate : PredicateKey
  pendingTransition : List PendingPredicateTransition
  verifiedTip : CheckpointTip
  deposits : DepositPool
  deriving DecidableEq

inductive CheckpointL1Range
  | empty
  | range (startHeight endHeight : Nat)
  deriving DecidableEq

def verifyProgression (lastVerifiedTip newTip : CheckpointTip) (currentL1Height : Nat)
    (nextTransition : Option PendingPredicateTransition) :
    Except InvalidCheckpointPayload CheckpointL1Range :=
  if u32Bound ≤ lastVerifiedTip.epoch + 1 then .error .epochOverflow
  else if newTip.epoch ≠ lastVerifiedTip.epoch + 1 then
    .error (.invalidEpoch (lastVerifiedTip.epoch + 1) newTip.epoch)
  else if currentL1Height ≤ newTip.l1Height then
    .error (.checkpointBeyondL1Tip newTip.l1Height currentL1Height)
  else if newTip.l1Height < lastVerifiedTip.l1Height then
    .error (.l1HeightRegresses lastVerifiedTip.l1Height newTip.l1Height)
  else if newTip.l2Commitment.slot ≤ lastVerifiedTip.l2Commitment.slot then
    .error (.l2SlotDoesNotAdvance lastVerifiedTip.l2Commitment.slot newTip.l2Commitment.slot)
  else if lastVerifiedTip.l1Height = newTip.l1Height then .ok .empty
  else
    match nextTransition.filter (·.boundary < newTip.l1Height) with
    | some next => .error (.rangeStraddlesPredicateBoundary (lastVerifiedTip.l1Height + 1)
        newTip.l1Height next.boundary)
    | none => .ok (.range (lastVerifiedTip.l1Height + 1) newTip.l1Height)

section

variable [CheckpointLibs]

def constructFullClaim (lastVerifiedTip newTip : CheckpointTip) (sidecar : CheckpointSidecar)
    (asmManifestsHash : Buf32) : CheckpointClaim where
  epoch := newTip.epoch
  l2Range := ⟨lastVerifiedTip.l2Commitment, newTip.l2Commitment⟩
  asmManifestsHash := asmManifestsHash
  stateDiffHash := sha256 sidecar.olStateDiff
  olLogsHash := sha256 (CheckpointLibs.encodeOlLogs sidecar.olLogs)
  terminalHeaderComplementHash := CheckpointLibs.complementHash sidecar.terminalHeaderComplement

def verifyProof (predicate : PredicateKey) (lastVerifiedTip : CheckpointTip)
    (payload : CheckpointPayload) (asmManifestsHash : Buf32) :
    Except InvalidCheckpointPayload Unit :=
  let claim := constructFullClaim lastVerifiedTip payload.newTip payload.sidecar asmManifestsHash
  if CheckpointLibs.verifyClaimWitness predicate (CheckpointLibs.encodeClaim claim) payload.proof then
    .ok ()
  else .error .checkpointPredicateVerification

/-- One log of the loop that collects withdrawals. A log of another account, or one of the gateway
that is not a withdrawal, is skipped. -/
def extractWithdrawalIntent (intents : List WithdrawalIntent) (log : OLLog) :
    Except InvalidCheckpointPayload (List WithdrawalIntent) :=
  if log.accountSerial ≠ CheckpointLibs.bridgeGatewayAcctSerial then .ok intents
  else
    match CheckpointLibs.decodeWithdrawalLog log with
    | none => .ok intents
    | some data =>
      match CheckpointLibs.descriptorFromBytes data.dest with
      | none => .error .malformedWithdrawalDestDesc
      | some destination =>
        if data.amt ≤ maxMoneySat then
          .ok (intents ++ [⟨destination, data.amt, ⟨data.selectedOperator⟩⟩])
        else .error (.invalidWithdrawalAmount data.amt)

def extractWithdrawalIntents (logs : List OLLog) :
    Except InvalidCheckpointPayload (List WithdrawalIntent) :=
  logs.foldlM extractWithdrawalIntent []

end

namespace CheckpointState

def init (config : CheckpointInitConfig) : CheckpointState where
  sequencerKey := config.sequencerKey
  checkpointPredicate := config.checkpointPredicate
  pendingTransition := []
  verifiedTip := ⟨0, config.genesisL1Height, ⟨0, config.genesisOlBlkid⟩⟩
  deposits := .newEmpty

def nextTransition (state : CheckpointState) : Option PendingPredicateTransition :=
  state.pendingTransition.head?

def updateSequencerKey (state : CheckpointState) (newKey : Buf32) : CheckpointState :=
  { state with sequencerKey := newKey }

/-- Queues a transition behind those pending. A full queue drops its oldest one, whose predicate then
never becomes active. -/
def queuePredicateTransition (state : CheckpointState) (transition : PendingPredicateTransition) :
    Exec CheckpointState :=
  match state.pendingTransition.getLast?.filter (transition.boundary ≤ ·.boundary) with
  | some last => throw (.predicateBoundaryNotIncreasing last.boundary transition.boundary)
  | none =>
    let room :=
      if state.pendingTransition.length = maxPendingPredicateTransitions then
        state.pendingTransition.tail
      else state.pendingTransition
    pure { state with pendingTransition := room ++ [transition] }

/-- Activates the oldest pending predicate once the verified tip has reached its boundary. -/
def promoteElapsedTransition (state : CheckpointState) : CheckpointState :=
  match state.pendingTransition with
  | [] => state
  | transition :: rest =>
    if transition.boundary ≤ state.verifiedTip.l1Height then
      { state with checkpointPredicate := transition.predicate, pendingTransition := rest }
    else state

def recordDeposit (state : CheckpointState) (amount : Nat) : Exec CheckpointState := do
  let deposits ← state.deposits.record amount
  pure { state with deposits }

def advance [CheckpointLibs] (state : CheckpointState) (payload : CheckpointPayload)
    (asmManifestsHash : Buf32) :
    Exec (Except InvalidCheckpointPayload (List WithdrawalIntent × CheckpointState)) :=
  match extractWithdrawalIntents payload.sidecar.olLogs with
  | .error error => pure (.error error)
  | .ok intents => do
    match ← state.deposits.verifyWithdrawals intents with
    | .error error => pure (.error error)
    | .ok remainingCount =>
      match verifyProof state.checkpointPredicate state.verifiedTip payload asmManifestsHash with
      | .error error => pure (.error error)
      | .ok () =>
        let advanced := { state with
          deposits := state.deposits.applyWithdrawals remainingCount
          verifiedTip := payload.newTip }
        pure (.ok (intents, advanced.promoteElapsedTransition))

end CheckpointState
end Asm
