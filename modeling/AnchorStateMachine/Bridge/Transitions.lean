import AnchorStateMachine.Bridge.Assignment
import AnchorStateMachine.Bridge.Subprotocol

/-! What each step of the bridge can do. Every later result about runs of the bridge is a case
analysis on these transitions. -/

namespace Asm
open Outcome

/-! ### The transitions -/

structure Admits (state : BridgeStateV1) (info : DepositInfo) (after : BridgeStateV1) : Prop where
  unassigned : state.assignments.getAssignment info.depositIdx = none
  absent : DepositsTable.getDeposit state.deposits info.depositIdx = none
  amount : info.amt = state.denomination
  after : ∃ notarySet, state.operators.currentNnScriptIndex = .ok notarySet ∧
    after = { state with
      deposits := SortedVec.insert DepositEntry.depositIdx ⟨info.depositIdx, notarySet, info.amt⟩
        state.deposits }

/-- An assignment is paid as agreed and leaves the assignments table. -/
structure Fulfills [BridgeLibs] (state : BridgeStateV1) (info : WithdrawalFulfillmentInfo)
    (entry : AssignmentEntry) (after : BridgeStateV1) : Prop where
  found : state.assignments.getAssignment info.depositIdx = some entry
  amount : entry.netAmount = info.withdrawalAmount
  destination : toScript entry.withdrawalOutput.destination = info.withdrawalDestination
  after : after = { state with
    assignments.assignments :=
      (SortedVec.remove AssignmentEntry.depositIdx info.depositIdx state.assignments.assignments).1 }

structure Assigns [BridgeLibs] (l1ref : L1BlockCommitment) (state : BridgeStateV1)
    (intent : WithdrawalIntent) (entry : AssignmentEntry) (after : BridgeStateV1) : Prop where
  oldest : state.deposits.head? = some entry.depositEntry
  amount : entry.depositEntry.amt = intent.amt
  created : state.createWithdrawalAssignment intent l1ref = .ok (.ok entry)
  fresh : state.assignments.getAssignment entry.depositIdx = none
  after : after = { state with
    deposits := state.deposits.tail
    assignments.assignments :=
      SortedVec.insert AssignmentEntry.depositIdx entry state.assignments.assignments }

/-! ### Operations of the state -/

namespace BridgeStateV1

variable {state after : BridgeStateV1}

theorem addDeposit_ok {info : DepositInfo} (amount : info.amt = state.denomination)
    (h : state.addDeposit info = .ok (.ok after)) : Admits state info after := by
  unfold addDeposit at h
  split at h
  · cases h
  · rename_i unassigned
    obtain ⟨notarySet, current, h⟩ := bind_ok h
    unfold DepositsTable.insertDeposit at h
    split at h
    · cases h
    · rename_i deposits inserted
      split at inserted
      · cases inserted
      · rename_i absent
        cases inserted
        cases h
        exact ⟨by simpa using unassigned, absent, amount, notarySet, current, rfl⟩

theorem removeAssignment_found {depositIdx : Nat} {entry : AssignmentEntry}
    (found : state.assignments.getAssignment depositIdx = some entry) :
    state.removeAssignment depositIdx = some (entry, { state with
      assignments.assignments :=
        (SortedVec.remove AssignmentEntry.depositIdx depositIdx state.assignments.assignments).1 }) := by
  have key : entry.depositIdx = depositIdx := (SortedVec.get_some found).2
  have flag := (SortedVec.remove_found found).1
  simp only [removeAssignment, AssignmentTable.removeAssignment, found, key]
  cases removal : SortedVec.remove AssignmentEntry.depositIdx depositIdx
      state.assignments.assignments with
  | mk remaining removed =>
    rw [removal] at flag
    subst flag
    rfl

theorem removeAssignment_ok {depositIdx : Nat} {entry : AssignmentEntry}
    (h : state.removeAssignment depositIdx = some (entry, after)) :
    state.assignments.getAssignment depositIdx = some entry ∧
      after = { state with
        assignments.assignments := (SortedVec.remove AssignmentEntry.depositIdx depositIdx
          state.assignments.assignments).1 } := by
  cases found : state.assignments.getAssignment depositIdx with
  | none => simp [removeAssignment, AssignmentTable.removeAssignment, found] at h
  | some assignment =>
    rw [removeAssignment_found found] at h
    cases h
    exact ⟨rfl, rfl⟩

theorem insertWithdrawalAssignment_ok {entry : AssignmentEntry} {deposit : DepositEntry}
    {rest : DepositsTable} (deposits : state.deposits = deposit :: rest)
    (backed : entry.depositEntry = deposit)
    (h : state.insertWithdrawalAssignment entry = .ok after) :
    state.assignments.getAssignment entry.depositIdx = none ∧
      after = { state with
        deposits := rest
        assignments.assignments :=
          SortedVec.insert AssignmentEntry.depositIdx entry state.assignments.assignments } := by
  subst backed
  have removed : DepositsTable.removeDeposit state.deposits entry.depositIdx =
      some (entry.depositEntry, rest) := by
    simp [DepositsTable.removeDeposit, DepositsTable.getDeposit, AssignmentEntry.depositIdx, deposits,
      SortedVec.get_cons, SortedVec.remove_cons]
  unfold insertWithdrawalAssignment at h
  rw [removed] at h
  obtain ⟨assignments, inserted, h⟩ := bind_ok h
  cases pure_ok h
  unfold AssignmentTable.insert at inserted
  split at inserted
  · cases inserted
  · rename_i fresh
    cases pure_ok inserted
    exact ⟨by simpa using fresh, rfl⟩

theorem createWithdrawalAssignment_ok [ChaCha20] {intent : WithdrawalIntent}
    {l1Block : L1BlockCommitment} {entry : AssignmentEntry}
    (h : state.createWithdrawalAssignment intent l1Block = .ok (.ok entry)) :
    state.deposits.head? = some entry.depositEntry ∧ entry.depositEntry.amt = intent.amt ∧
      entry.withdrawalOutput = intent.toOutput ∧ entry.operatorFee = state.operatorFee ∧
      entry.fulfillmentDeadline = l1Block.height + state.assignments.assignmentDuration ∧
      ∃ size, entry.previousAssignees = .newWithSize size false := by
  unfold createWithdrawalAssignment DepositsTable.oldestDeposit at h
  split at h
  · cases h
  · rename_i deposit oldest
    split at h
    · cases h
    · rename_i amount
      split at h
      · cases h
      · obtain ⟨current, -, h⟩ := bind_ok h
        unfold AssignmentTable.buildAssignment AssignmentTable.calculateDeadline at h
        obtain ⟨deadline, added, h⟩ := bind_ok h
        obtain ⟨rfl, -⟩ := addU32_ok added
        obtain ⟨rfl, output, fee, deadline, cleared⟩ := AssignmentEntry.create_ok (pure_ok h)
        exact ⟨oldest, by simpa using amount, output, fee, deadline, _, cleared⟩

end BridgeStateV1

theorem BridgeStateV1.applyOperatorSetUpdate_ok [TaprootKeys] {state after : BridgeStateV1}
    {add : List Buf32} {remove : List Nat} (h : state.applyOperatorSetUpdate add remove = .ok after) :
    ∃ operators, state.operators.applyMembershipChanges add remove = .ok operators ∧
      after = { state with operators } := by
  unfold BridgeStateV1.applyOperatorSetUpdate at h
  obtain ⟨operators, changed, h⟩ := bind_ok h
  exact ⟨operators, changed, (pure_ok h).symm⟩

/-! ### Transactions -/

variable [BridgeLibs] {state after : BridgeStateV1} {relayer relayed : MsgRelayer}

theorem validateDepositInfo_ok {info : DepositInfo} {drtInfo : DepositRequestInfo}
    (h : validateDepositInfo state info drtInfo = .ok (.ok ())) : info.amt = state.denomination := by
  unfold validateDepositInfo at h
  obtain ⟨current, -, h⟩ := bind_ok h
  dsimp only at h
  split at h
  · cases h
  · split at h
    · cases h
    · split at h
      · cases h
      · rename_i amount
        exact not_not.mp amount

theorem parseDrt_destination {tx : Transaction} {drtInfo : DepositRequestInfo}
    (h : parseDrt tx = .ok drtInfo) :
    drtInfo.destination.length ≤ maxDestinationLen := by
  unfold parseDrt at h
  split at h
  · cases h
  · split at h
    · cases h
    · rename_i read
      obtain ⟨output, _, h⟩ := bind_ok h
      cases pure_ok h
      obtain ⟨recoveryPk, _, read⟩ := Option.bind_eq_some_iff.mp read
      dsimp only at read
      split at read
      · cases read
      · rename_i short
        cases read
        exact Nat.not_lt.mp short

theorem handleDeposit_ok {info : DepositInfo} {aux : VerifiedAuxData}
    (h : handleDeposit state info aux relayer = .ok (.ok (after, relayed))) :
    Admits state info after ∧ ∃ destination, destination.length ≤ maxDestinationLen ∧
      relayed = (relayer.relayMsg (.checkpoint (.depositProcessed info.amt))).emitLog
        (.deposit destination info.amt) := by
  unfold handleDeposit at h
  split at h
  · cases h
  · split at h
    · cases h
    · rename_i parsed
      obtain ⟨validated, validation, h⟩ := bind_ok h
      split at h
      · cases h
      · obtain ⟨added, addition, h⟩ := bind_ok h
        split at h
        · cases h
        · rename_i valid _ _
          cases pure_ok h
          exact ⟨BridgeStateV1.addDeposit_ok (validateDepositInfo_ok validation) addition, _,
            parseDrt_destination parsed, rfl⟩

theorem validateWithdrawalFulfillmentInfo_ok {info : WithdrawalFulfillmentInfo}
    (h : validateWithdrawalFulfillmentInfo state info = .ok ()) :
    ∃ entry, state.assignments.getAssignment info.depositIdx = some entry ∧
      entry.netAmount = info.withdrawalAmount ∧
      toScript entry.withdrawalOutput.destination = info.withdrawalDestination := by
  unfold validateWithdrawalFulfillmentInfo at h
  split at h
  · cases h
  · rename_i entry found
    dsimp only at h
    split at h
    · cases h
    · rename_i amount
      split at h
      · cases h
      · rename_i destination
        exact ⟨entry, found, not_not.mp amount, not_not.mp destination⟩

theorem handleWithdrawalFulfillment_ok {claim : ClaimVersion} {info : WithdrawalFulfillmentInfo}
    (h : handleWithdrawalFulfillment claim state info relayer = .ok (.ok (after, relayed))) :
    ∃ entry leaf, Fulfills state info entry after ∧
      claim.exportLeaf state.operators info.depositIdx entry.currentAssignee = .ok leaf ∧
      relayed = relayer.emitLog (.newExportEntry bridgeSubprotocolId leaf) := by
  unfold handleWithdrawalFulfillment at h
  split at h
  · cases h
  · rename_i valid
    obtain ⟨entry, found, amount, destination⟩ := validateWithdrawalFulfillmentInfo_ok valid
    split at h
    · cases h
    · rename_i removed remaining removal
      obtain ⟨foundAgain, rfl⟩ := BridgeStateV1.removeAssignment_ok removal
      obtain rfl : entry = removed := Option.some.inj (found.symm.trans foundAgain)
      obtain ⟨leaf, exported, h⟩ := bind_ok h
      cases pure_ok h
      exact ⟨entry, leaf, ⟨found, amount, destination, rfl⟩, exported, rfl⟩

theorem handleRemoval_ok {stakeInpoint : OutPoint} {operatorIdx : Nat}
    {validate : Bytes → Except BridgeSubprotocolError Unit} {aux : VerifiedAuxData}
    (h : handleRemoval state stakeInpoint operatorIdx validate aux relayer = .ok (.ok (after, relayed))) :
    state.removeOperator operatorIdx = .ok after ∧ relayed = relayer := by
  unfold handleRemoval at h
  split at h
  · cases h
  · split at h
    · cases h
    · obtain ⟨removed, removal, h⟩ := bind_ok h
      cases pure_ok h
      exact ⟨removal, rfl⟩

theorem parseTx_fulfillment {tx : TxInput} {info : WithdrawalFulfillmentInfo}
    (h : parseTx tx = some (.withdrawalFulfillment info)) :
    tx.tx.output[1]? = some ⟨info.withdrawalAmount, info.withdrawalDestination⟩ := by
  unfold parseTx at h
  split at h
  case h_2 =>
    unfold parseWithdrawalFulfillmentTx at h
    split at h
    · cases h
    · split at h
      · cases h
      · rename_i output second
        cases h
        exact second
  all_goals simp at h

namespace Bridge

theorem processTx_cases {claim : ClaimVersion} {aux : VerifiedAuxData} {tx : TxInput}
    (h : processTx claim aux (state, relayer) tx = .ok (after, relayed)) :
    (after = state ∧ relayed = relayer) ∨
    (∃ info destination, parseTx tx = some (.deposit info) ∧ Admits state info after ∧
      destination.length ≤ maxDestinationLen ∧
      relayed = (relayer.relayMsg (.checkpoint (.depositProcessed info.amt))).emitLog
        (.deposit destination info.amt)) ∨
    (∃ info entry leaf, parseTx tx = some (.withdrawalFulfillment info) ∧
      Fulfills state info entry after ∧
      claim.exportLeaf state.operators info.depositIdx entry.currentAssignee = .ok leaf ∧
      relayed = relayer.emitLog (.newExportEntry bridgeSubprotocolId leaf)) ∨
    (∃ operatorIdx, state.removeOperator operatorIdx = .ok after ∧ relayed = relayer) := by
  rw [processTx] at h
  split at h
  · cases pure_ok h
    exact .inl ⟨rfl, rfl⟩
  · rename_i parsedTx parsed
    obtain ⟨outcome, handled, h⟩ := bind_ok h
    cases outcome with
    | error error =>
      cases pure_ok h
      exact .inl ⟨rfl, rfl⟩
    | ok processed =>
      cases pure_ok h
      cases parsedTx with
      | deposit info =>
        obtain ⟨admits, destination, short, relayed⟩ := handleDeposit_ok handled
        exact .inr (.inl ⟨info, destination, parsed, admits, short, relayed⟩)
      | withdrawalFulfillment info =>
        obtain ⟨entry, leaf, fulfills, exported, relayed⟩ := handleWithdrawalFulfillment_ok handled
        exact .inr (.inr (.inl ⟨info, entry, leaf, parsed, fulfills, exported, relayed⟩))
      | slash info =>
        replace handled : handleSlash state info aux relayer = .ok (.ok (after, relayed)) := handled
        exact .inr (.inr (.inr ⟨_, handleRemoval_ok handled⟩))
      | unstake info =>
        replace handled : handleUnstake state info aux relayer = .ok (.ok (after, relayed)) := handled
        exact .inr (.inr (.inr ⟨_, handleRemoval_ok handled⟩))

theorem reassignExpired_frame {l1Block : L1BlockCommitment}
    (h : reassignExpired state l1Block = .ok after) :
    ∃ assignments, after = { state with assignments } := by
  obtain ⟨outcome, passed, h⟩ := bind_ok h
  cases outcome with
  | error error => cases h
  | ok reassigned =>
    cases pure_ok h
    obtain ⟨_, _, passed⟩ := bind_ok passed
    obtain ⟨outcome, _, passed⟩ := bind_ok passed
    cases outcome with
    | error error => cases pure_ok passed
    | ok assignments =>
      cases pure_ok passed
      exact ⟨assignments, rfl⟩

/-! ### Messages -/

theorem assignWithdrawal_ok {l1ref : L1BlockCommitment} {intent : WithdrawalIntent}
    (h : assignWithdrawal l1ref state intent = .ok after) :
    ∃ entry, Assigns l1ref state intent entry after := by
  unfold assignWithdrawal at h
  obtain ⟨outcome, created, h⟩ := bind_ok h
  cases outcome with
  | error error => cases h
  | ok entry =>
    obtain ⟨oldest, amount, -⟩ := BridgeStateV1.createWithdrawalAssignment_ok created
    obtain ⟨rest, deposits⟩ := List.head?_eq_some_iff.mp oldest
    obtain ⟨fresh, after⟩ := BridgeStateV1.insertWithdrawalAssignment_ok deposits rfl h
    refine ⟨entry, oldest, amount, created, fresh, ?_⟩
    rw [after, deposits]
    rfl

end Bridge
end Asm
