import AnchorStateMachine.Bridge.Txs

/-! The bridge state: the deposits waiting to be assigned, the withdrawal assignments, and the
operations on them. -/

namespace Asm

class ChaCha20 where
  /-- The first `next_u32` of `ChaCha20Rng::from_seed(seed)` on a stream. -/
  nextU32 : Buf32 → Nat → Nat

/-! ### Deposits -/

structure DepositEntry where
  depositIdx : Nat
  notarySet : Nat
  amt : Nat
  deriving DecidableEq

inductive DepositValidationError
  | wrongOutputLock (mismatch : Mismatch Bytes)
  | mismatchDepositAmount (mismatch : Mismatch Nat)
  | depositIdxAlreadyExists (depositIdx : Nat)
  | depositIdxAssigned (depositIdx : Nat)
  | drtOutputScriptMismatch (mismatch : Mismatch Bytes)
  | drtParseError (error : TxStructureError)
  deriving DecidableEq

abbrev DepositsTable := List DepositEntry

namespace DepositsTable

def getDeposit (deposits : DepositsTable) (depositIdx : Nat) : Option DepositEntry :=
  SortedVec.get DepositEntry.depositIdx depositIdx deposits

def insertDeposit (deposits : DepositsTable) (entry : DepositEntry) :
    Except DepositValidationError DepositsTable :=
  match getDeposit deposits entry.depositIdx with
  | some _ => .error (.depositIdxAlreadyExists entry.depositIdx)
  | none => .ok (SortedVec.insert DepositEntry.depositIdx entry deposits)

def oldestDeposit (deposits : DepositsTable) : Option DepositEntry := deposits.head?

def removeDeposit (deposits : DepositsTable) (depositIdx : Nat) :
    Option (DepositEntry × DepositsTable) :=
  (getDeposit deposits depositIdx).map fun entry =>
    (entry, (SortedVec.remove DepositEntry.depositIdx entry.depositIdx deposits).1)

end DepositsTable

/-! ### Assignments -/

structure AssignmentEntry where
  depositEntry : DepositEntry
  withdrawalOutput : WithdrawalOutput
  operatorFee : Nat
  currentAssignee : Nat
  previousAssignees : OperatorBitmap
  fulfillmentDeadline : Nat
  deriving DecidableEq

section Selection

variable [ChaCha20]

def selectRandomOperator (eligible : OperatorBitmap) (seed : Buf32) (depositIdx : Nat) :
    Except WithdrawalAssignmentError Nat :=
  let draw := ChaCha20.nextU32 seed depositIdx
  let index := if eligible.activeCount = 0 then none else some (draw % eligible.activeCount)
  match index.bind fun index => eligible.activeIndices[index]? with
  | some operator => .ok operator
  | none => .error (.noEligibleOperators depositIdx)

namespace AssignmentEntry

def depositIdx (entry : AssignmentEntry) : Nat := entry.depositEntry.depositIdx

def notarySet (entry : AssignmentEntry) : Nat := entry.depositEntry.notarySet

/-- What the fulfillment transaction has to pay: the amount less the operator fee. -/
def netAmount (entry : AssignmentEntry) : Nat := entry.withdrawalOutput.amt - entry.operatorFee

def create (depositEntry : DepositEntry) (intent : WithdrawalIntent) (operatorFee deadline : Nat)
    (notaryOperators currentActiveOperators : OperatorBitmap) (seed : Buf32) :
    Except WithdrawalAssignmentError AssignmentEntry := do
  let previousAssignees := OperatorBitmap.newWithSize notaryOperators.len false
  let eligible ← (filterEligibleOperators notaryOperators previousAssignees
    currentActiveOperators).mapError .bitmapError
  -- the preferred operator is honored only when it is eligible
  let currentAssignee ← match intent.selectedOperator.asSpecific.filter (eligible.isActive ·) with
    | some idx => pure idx
    | none => selectRandomOperator eligible seed depositEntry.depositIdx
  pure {
    depositEntry
    withdrawalOutput := intent.toOutput
    operatorFee
    currentAssignee
    previousAssignees
    fulfillmentDeadline := deadline }

/-- Moves the assignment to another operator, not tried before if there is one. -/
def reassign (entry : AssignmentEntry) (newDeadline : Nat) (seed : Buf32)
    (notaryOperators currentActiveOperators : OperatorBitmap) :
    Except WithdrawalAssignmentError AssignmentEntry := do
  let previousAssignees ←
    (entry.previousAssignees.trySet entry.currentAssignee true).mapError .bitmapError
  let eligible ← (filterEligibleOperators notaryOperators previousAssignees
    currentActiveOperators).mapError .bitmapError
  match selectRandomOperator eligible seed entry.depositIdx with
  | .ok newAssignee =>
    pure { entry with
      previousAssignees, currentAssignee := newAssignee, fulfillmentDeadline := newDeadline }
  | .error (.noEligibleOperators _) =>
    -- every operator has been tried: start over from the whole notary set
    let previousAssignees := OperatorBitmap.newWithSize notaryOperators.len false
    let eligible ← (filterEligibleOperators notaryOperators previousAssignees
      currentActiveOperators).mapError .bitmapError
    let newAssignee ← selectRandomOperator eligible seed entry.depositIdx
    pure { entry with
      previousAssignees, currentAssignee := newAssignee, fulfillmentDeadline := newDeadline }
  | .error error => .error error

/-- `reassign` with the assignment as the call leaves it, also when it fails. -/
def reassignMut (entry : AssignmentEntry) (newDeadline : Nat) (seed : Buf32)
    (notaryOperators currentActiveOperators : OperatorBitmap) :
    AssignmentEntry × Except WithdrawalAssignmentError Unit :=
  match entry.previousAssignees.trySet entry.currentAssignee true with
  | .error error => (entry, .error (.bitmapError error))
  | .ok previousAssignees =>
    match filterEligibleOperators notaryOperators previousAssignees currentActiveOperators with
    | .error error => ({ entry with previousAssignees }, .error (.bitmapError error))
    | .ok eligible =>
      match selectRandomOperator eligible seed entry.depositIdx with
      | .ok newAssignee =>
        ({ entry with
          previousAssignees, currentAssignee := newAssignee, fulfillmentDeadline :=
            newDeadline }, .ok ())
      | .error (.noEligibleOperators _) =>
        let previousAssignees := OperatorBitmap.newWithSize notaryOperators.len false
        match filterEligibleOperators notaryOperators previousAssignees currentActiveOperators with
        | .error error => ({ entry with previousAssignees }, .error (.bitmapError error))
        | .ok eligible =>
          match selectRandomOperator eligible seed entry.depositIdx with
          | .ok newAssignee =>
            ({ entry with
              previousAssignees, currentAssignee := newAssignee, fulfillmentDeadline :=
                newDeadline }, .ok ())
          | .error error => ({ entry with previousAssignees }, .error error)
      | .error error => ({ entry with previousAssignees }, .error error)

end AssignmentEntry
end Selection

structure AssignmentTable where
  assignments : List AssignmentEntry
  assignmentDuration : Nat
  deriving DecidableEq

namespace AssignmentTable

def new (assignmentDuration : Nat) : AssignmentTable := ⟨[], assignmentDuration⟩

def calculateDeadline (table : AssignmentTable) (currentHeight : Nat) : Exec Nat :=
  addU32 currentHeight table.assignmentDuration

def getAssignment (table : AssignmentTable) (depositIdx : Nat) : Option AssignmentEntry :=
  SortedVec.get AssignmentEntry.depositIdx depositIdx table.assignments

def insert (table : AssignmentTable) (entry : AssignmentEntry) : Exec AssignmentTable :=
  if (table.getAssignment entry.depositIdx).isSome then throw (.duplicateAssignment entry.depositIdx)
  else pure { table with
    assignments := SortedVec.insert AssignmentEntry.depositIdx entry table.assignments }

def removeAssignment (table : AssignmentTable) (depositIdx : Nat) :
    Option (AssignmentEntry × AssignmentTable) :=
  match table.getAssignment depositIdx with
  | none => none
  | some assignment =>
    match SortedVec.remove AssignmentEntry.depositIdx assignment.depositIdx table.assignments with
    | (assignments, true) => some (assignment, { table with assignments })
    | (_, false) => none

variable [ChaCha20]

def reassignIfExpired (history : List HistoricalNnScript) (currentActiveOperators : OperatorBitmap)
    (l1Block : L1BlockCommitment) (newDeadline : Nat) (entry : AssignmentEntry) :
    Exec (Except WithdrawalAssignmentError AssignmentEntry) :=
  if entry.fulfillmentDeadline ≤ l1Block.height then
    match history[entry.notarySet]? with
    | none => throw (.unknownNnConfiguration entry.notarySet)
    | some configuration =>
      pure (entry.reassign newDeadline l1Block.blkid configuration.operators currentActiveOperators)
  else
    pure (.ok entry)

def reassignAll (history : List HistoricalNnScript) (currentActiveOperators : OperatorBitmap)
    (l1Block : L1BlockCommitment) (newDeadline : Nat) :
    List AssignmentEntry → Exec (Except WithdrawalAssignmentError (List AssignmentEntry))
  | [] => pure (.ok [])
  | entry :: rest => do
    match ← reassignIfExpired history currentActiveOperators l1Block newDeadline entry with
    | .error error => pure (.error error)
    | .ok entry =>
      match ← reassignAll history currentActiveOperators l1Block newDeadline rest with
      | .error error => pure (.error error)
      | .ok rest => pure (.ok (entry :: rest))

def reassignExpiredAssignments (table : AssignmentTable) (history : List HistoricalNnScript)
    (currentActiveOperators : OperatorBitmap) (l1Block : L1BlockCommitment) :
    Exec (Except WithdrawalAssignmentError AssignmentTable) := do
  let newDeadline ← table.calculateDeadline l1Block.height
  match ← reassignAll history currentActiveOperators l1Block newDeadline table.assignments with
  | .error error => pure (.error error)
  | .ok assignments => pure (.ok { table with assignments })

def buildAssignment (table : AssignmentTable) (depositEntry : DepositEntry)
    (intent : WithdrawalIntent) (operatorFee : Nat)
    (notaryOperators currentActiveOperators : OperatorBitmap) (l1Block : L1BlockCommitment) :
    Exec (Except WithdrawalAssignmentError AssignmentEntry) := do
  let deadline ← table.calculateDeadline l1Block.height
  pure (AssignmentEntry.create depositEntry intent operatorFee deadline notaryOperators
    currentActiveOperators l1Block.blkid)

end AssignmentTable

/-! ### The bridge -/

structure BridgeInitConfig where
  operators : List Buf32
  denomination : Nat
  assignmentDuration : Nat
  operatorFee : Nat
  recoveryDelay : Nat
  safeHarborAddress : SafeHarborAddress
  deriving DecidableEq

structure BridgeStateV1 where
  operators : OperatorTable
  deposits : DepositsTable
  assignments : AssignmentTable
  denomination : Nat
  operatorFee : Nat
  recoveryDelay : Nat
  safeHarbor : SafeHarbor
  deriving DecidableEq

namespace BridgeStateV1

def new [TaprootKeys] (config : BridgeInitConfig) : Exec BridgeStateV1 := do
  let operators ← OperatorTable.fromOperatorList config.operators
  pure {
    operators
    deposits := []
    assignments := .new config.assignmentDuration
    denomination := config.denomination
    operatorFee := config.operatorFee
    recoveryDelay := config.recoveryDelay
    safeHarbor := .new config.safeHarborAddress }

/-- Admits a deposit under the current N/N configuration. An index that backs a live assignment is
refused: its deposit has left the deposits table, which therefore cannot see it. -/
def addDeposit (state : BridgeStateV1) (info : DepositInfo) :
    Exec (Except DepositValidationError BridgeStateV1) :=
  if (state.assignments.getAssignment info.depositIdx).isSome then
    pure (.error (.depositIdxAssigned info.depositIdx))
  else do
    let notarySet ← state.operators.currentNnScriptIndex
    match DepositsTable.insertDeposit state.deposits ⟨info.depositIdx, notarySet, info.amt⟩ with
    | .error error => pure (.error error)
    | .ok deposits => pure (.ok { state with deposits })

/-- Assigns the oldest deposit to a withdrawal, without changing the state yet. -/
def createWithdrawalAssignment [ChaCha20] (state : BridgeStateV1) (intent : WithdrawalIntent)
    (l1Block : L1BlockCommitment) : Exec (Except WithdrawalAssignmentError AssignmentEntry) :=
  match DepositsTable.oldestDeposit state.deposits with
  | none => pure (.error .noUnassignedDeposits)
  | some deposit =>
    if deposit.amt ≠ intent.amt then
      pure (.error (.depositWithdrawalAmountMismatch ⟨deposit.amt, intent.amt⟩))
    else
      match state.operators.nnScript deposit.notarySet with
      | none => throw (.unknownNnConfiguration deposit.notarySet)
      | some configuration => do
        let currentMultisig ← state.operators.currentMultisig
        state.assignments.buildAssignment deposit intent state.operatorFee configuration.operators
          currentMultisig l1Block

def insertWithdrawalAssignment (state : BridgeStateV1) (assignment : AssignmentEntry) :
    Exec BridgeStateV1 :=
  match DepositsTable.removeDeposit state.deposits assignment.depositIdx with
  | none => throw (.depositNotPresent assignment.depositIdx)
  | some (_, deposits) => do
    let assignments ← state.assignments.insert assignment
    pure { state with deposits, assignments }

def reassignExpiredAssignments [ChaCha20] (state : BridgeStateV1) (currentBlock : L1BlockCommitment) :
    Exec (Except WithdrawalAssignmentError BridgeStateV1) := do
  let currentMultisig ← state.operators.currentMultisig
  match ← state.assignments.reassignExpiredAssignments state.operators.historicalNnScripts
      currentMultisig currentBlock with
  | .error error => pure (.error error)
  | .ok assignments => pure (.ok { state with assignments })

def removeAssignment (state : BridgeStateV1) (depositIdx : Nat) :
    Option (AssignmentEntry × BridgeStateV1) :=
  (state.assignments.removeAssignment depositIdx).map fun (entry, assignments) =>
    (entry, { state with assignments })

def applyOperatorSetUpdate [TaprootKeys] (state : BridgeStateV1) (addMembers : List Buf32)
    (removeMembers : List Nat) : Exec BridgeStateV1 := do
  let operators ← state.operators.applyMembershipChanges addMembers removeMembers
  pure { state with operators }

def removeOperator [TaprootKeys] (state : BridgeStateV1) (operatorIdx : Nat) : Exec BridgeStateV1 :=
  state.applyOperatorSetUpdate [] [operatorIdx]

def activateSafeHarbor (state : BridgeStateV1) : BridgeStateV1 :=
  { state with safeHarbor := { state.safeHarbor with activated := true } }

def updateSafeHarborAddress (state : BridgeStateV1) (address : SafeHarborAddress) : BridgeStateV1 :=
  { state with safeHarbor := state.safeHarbor.updateAddress address }

end BridgeStateV1
end Asm
