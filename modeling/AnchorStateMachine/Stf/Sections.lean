import AnchorStateMachine.Admin.Subprotocol
import AnchorStateMachine.Bridge.StoredState
import AnchorStateMachine.Checkpoint.State

/-! The encodings of the administration and checkpoint states that their sections keep, and what the
checkpoint state takes. -/

namespace Asm
open Ssz

namespace Stored

/-! ### Administration -/

def role : Codec Role :=
  (Codec.uint 1).via Role.index fun index =>
    [Role.strataAdministrator, .strataSequencerManager, .alpenAdministrator,
      .strataSecurityCouncil][index]?

def thresholdConfig : Codec ThresholdConfig :=
  (Fields.cons Wire.p2wpkhAddress.list (.cons Wire.nonZeroU8 .nil)).container.via
    (fun config => (config.signers, config.threshold, ())) fun (signers, threshold, ()) =>
      some ⟨signers, threshold⟩

def multisigAuthority : Codec MultisigAuthority :=
  (Fields.cons role (.cons thresholdConfig (.cons (.uint 8) .nil))).container.via
    (fun authority => (authority.role, authority.config, authority.lastSeqno, ()))
    fun (role, config, lastSeqno, ()) => some ⟨role, config, lastSeqno⟩

def confirmationDepths : Codec ConfirmationDepths :=
  (Fields.cons (.uint 2) (.cons (.uint 2) (.cons (.uint 2) (.cons (.uint 2) (.cons (.uint 2)
    (.cons (.uint 2) (.cons (.uint 2) (.cons (.uint 2) (.cons (.uint 2) (.cons (.uint 2)
      (.cons (.uint 2) .nil))))))))))).container.via
    (fun depths => (depths.strataAdminMultisigUpdate, depths.strataSeqManagerMultisigUpdate,
      depths.alpenAdminMultisigUpdate, depths.strataSecurityCouncilMultisigUpdate, depths.operatorUpdate,
      depths.sequencerUpdate, depths.olStfVkUpdate, depths.asmStfVkUpdate, depths.eeStfVkUpdate,
      depths.defcon3, depths.safeHarborAddressUpdate, ()))
    fun (strataAdmin, strataSeqManager, alpenAdmin, strataSecurityCouncil, operator, sequencer, olStfVk,
        asmStfVk, eeStfVk, defcon3, safeHarborAddress, ()) =>
      some ⟨strataAdmin, strataSeqManager, alpenAdmin, strataSecurityCouncil, operator, sequencer,
        olStfVk, asmStfVk, eeStfVk, defcon3, safeHarborAddress⟩

section

variable [WireLibs]

def updateAction : Codec UpdateAction :=
  .union
    (fun
      | .strataAdminMultisig config => (0, Wire.multisigUpdate.encode config)
      | .strataSeqManagerMultisig config => (1, Wire.multisigUpdate.encode config)
      | .alpenAdminMultisig config => (2, Wire.multisigUpdate.encode config)
      | .strataSecurityCouncilMultisig config => (3, Wire.multisigUpdate.encode config)
      | .operatorSet addMembers removeMembers =>
        (4, Wire.operatorSetUpdate.encode (addMembers, removeMembers))
      | .sequencer pubKey => (5, Wire.sequencerUpdate.encode pubKey)
      | .olStfVk key => (6, Wire.stfVkUpdate.encode key)
      | .asmStfVk key => (7, Wire.stfVkUpdate.encode key)
      | .eeStfVk key => (8, Wire.stfVkUpdate.encode key)
      | .defcon1 => (9, Wire.defconUpdate.encode ())
      | .defcon3 => (10, Wire.defconUpdate.encode ())
      | .safeHarborAddress address => (11, Wire.safeHarborAddressUpdate.encode address))
    fun
      | 0, bytes => (Wire.multisigUpdate.decode bytes).map .strataAdminMultisig
      | 1, bytes => (Wire.multisigUpdate.decode bytes).map .strataSeqManagerMultisig
      | 2, bytes => (Wire.multisigUpdate.decode bytes).map .alpenAdminMultisig
      | 3, bytes => (Wire.multisigUpdate.decode bytes).map .strataSecurityCouncilMultisig
      | 4, bytes => (Wire.operatorSetUpdate.decode bytes).map fun update => .operatorSet update.1 update.2
      | 5, bytes => (Wire.sequencerUpdate.decode bytes).map .sequencer
      | 6, bytes => (Wire.stfVkUpdate.decode bytes).map .olStfVk
      | 7, bytes => (Wire.stfVkUpdate.decode bytes).map .asmStfVk
      | 8, bytes => (Wire.stfVkUpdate.decode bytes).map .eeStfVk
      | 9, bytes => (Wire.defconUpdate.decode bytes).map fun _ => .defcon1
      | 10, bytes => (Wire.defconUpdate.decode bytes).map fun _ => .defcon3
      | 11, bytes => (Wire.safeHarborAddressUpdate.decode bytes).map .safeHarborAddress
      | _, _ => none

def queuedUpdate : Codec QueuedUpdate :=
  (Fields.cons Wire.updateId (.cons updateAction (.cons (.uint 4) .nil))).container.via
    (fun queued => (queued.id, queued.action, queued.activationHeight, ()))
    fun (id, action, activationHeight, ()) => some ⟨id, action, activationHeight⟩

def administrationState : Codec AdministrationSubprotoState :=
  (Fields.cons multisigAuthority.list (.cons queuedUpdate.list (.cons Wire.updateId
    (.cons confirmationDepths (.cons Wire.nonZeroU8 .nil))))).container.via
    (fun state => (state.authorities, state.queued, state.nextUpdateId, state.confirmationDepths,
      state.maxSeqnoGap, ()))
    fun (authorities, queued, nextUpdateId, confirmationDepths, maxSeqnoGap, ()) =>
      some ⟨authorities, queued, nextUpdateId, confirmationDepths, maxSeqnoGap⟩

end

/-! ### Checkpoint -/

def buf32 : Codec Buf32 := (Codec.byteVector 32).via Buf32.bytes Buf32.ofSlice

def olBlockCommitment : Codec OLBlockCommitment :=
  (Fields.cons (.uint 8) (.cons buf32 .nil)).container.via
    (fun commitment => (commitment.slot, commitment.blkid, ())) fun (slot, blkid, ()) =>
      some ⟨slot, blkid⟩

def checkpointTip : Codec CheckpointTip :=
  (Fields.cons (.uint 4) (.cons (.uint 4) (.cons olBlockCommitment .nil))).container.via
    (fun tip => (tip.epoch, tip.l1Height, tip.l2Commitment, ())) fun (epoch, l1Height, l2Commitment, ()) =>
      some ⟨epoch, l1Height, l2Commitment⟩

def pendingPredicateTransition : Codec PendingPredicateTransition :=
  (Fields.cons Wire.predicateKey (.cons (.uint 4) .nil)).container.via
    (fun transition => (transition.predicate, transition.boundary, ()))
    fun (predicate, boundary, ()) => some ⟨predicate, boundary⟩

variable [StateLibs]

def depositPool : Codec DepositPool :=
  (Fields.cons StateLibs.amount (.cons (.uint 4) .nil)).container.via
    (fun pool => (pool.denomination, pool.count, ())) fun (denomination, count, ()) =>
      some ⟨denomination, count⟩

def checkpointState : Codec CheckpointState :=
  (Fields.cons buf32 (.cons Wire.predicateKey (.cons
    (pendingPredicateTransition.variableList maxPendingPredicateTransitions) (.cons checkpointTip
      (.cons depositPool .nil))))).container.via
    (fun state => (state.sequencerKey, state.checkpointPredicate, state.pendingTransition,
      state.verifiedTip, state.deposits, ()))
    fun (sequencerKey, checkpointPredicate, pendingTransition, verifiedTip, deposits, ()) =>
      some ⟨sequencerKey, checkpointPredicate, pendingTransition, verifiedTip, deposits⟩

end Stored

/-! ### Sizes -/

/-- What the types of the source bound: the conditions of the keys, and the number of transitions. -/
structure CheckpointState.Bounded (state : CheckpointState) : Prop where
  active : state.checkpointPredicate.condition.length ≤ Wire.maxConditionLen
  pending : ∀ transition ∈ state.pendingTransition,
    transition.predicate.condition.length ≤ Wire.maxConditionLen
  few : state.pendingTransition.length ≤ maxPendingPredicateTransitions

namespace Stored

/-- An update of the operator set that waits is kept with all the keys it adds. -/
theorem queued_operators_lt [WireLibs] {state : AdministrationSubprotoState} {queued : QueuedUpdate}
    {addMembers : List Buf32} {removeMembers : List Nat} (mem : queued ∈ state.queued)
    (isSet : queued.action = .operatorSet addMembers removeMembers) :
    32 * addMembers.length < (administrationState.encode state).length := by
  have action : 32 * addMembers.length < (updateAction.encode queued.action).length := by
    rw [isSet]
    show _ < (Wire.operatorSetUpdate.encode (addMembers, removeMembers)).length + 1
    rw [Wire.operatorSetUpdate_size]
    omega
  have entry : (updateAction.encode queued.action).length ≤ (queuedUpdate.encode queued).length := by
    have field := length_le_fieldSize (updateAction.fixedLen, updateAction.encode queued.action)
    simp only [queuedUpdate, Codec.via_encode, Fields.cons_size]
    dsimp only at field
    omega
  have queue : (queuedUpdate.list.encode state.queued).length ≤
      (administrationState.encode state).length := by
    have field := length_le_fieldSize (queuedUpdate.list.fixedLen, queuedUpdate.list.encode state.queued)
    simp only [administrationState, Codec.via_encode, Fields.cons_size]
    dsimp only at field
    omega
  exact action.trans_le (entry.trans ((Codec.length_le_list mem).trans queue))

theorem pendingPredicateTransition_size (transition : PendingPredicateTransition) :
    (pendingPredicateTransition.encode transition).length =
      13 + transition.predicate.condition.length := by
  have key : Wire.predicateKey.fixedLen = none := rfl
  simp [pendingPredicateTransition, key, Wire.predicateKey_size, offsetLen]
  omega

theorem pendingTransition_size_le {state : CheckpointState} (bounded : state.Bounded) :
    ((pendingPredicateTransition.variableList maxPendingPredicateTransitions).encode
      state.pendingTransition).length ≤ 8 * 1041 := by
  have each : ∀ transition ∈ state.pendingTransition, fieldSize (pendingPredicateTransition.fixedLen,
      pendingPredicateTransition.encode transition) ≤ 1041 := by
    intro transition mem
    have short : transition.predicate.condition.length ≤ 1024 := bounded.pending transition mem
    have size := fieldSize_le (pendingPredicateTransition.fixedLen,
      pendingPredicateTransition.encode transition)
    rw [pendingPredicateTransition_size] at size
    exact size.trans (by unfold offsetLen; omega)
  exact (Codec.list_size_le each).trans (Nat.mul_le_mul_right _ bounded.few)

theorem checkpointTip_size (tip : CheckpointTip) : (checkpointTip.encode tip).length = 48 := by
  have commitment : olBlockCommitment.fixedLen = some 40 := rfl
  simp [checkpointTip, commitment]
  simp [olBlockCommitment, buf32, Buf32.size]

/-- With amounts of eight bytes, a checkpoint state takes less than ten thousand bytes. -/
theorem checkpointState_size_lt [StateLibs]
    (amounts : ∀ amount, (StateLibs.amount.encode amount).length ≤ 8) {state : CheckpointState}
    (bounded : state.Bounded) : (checkpointState.encode state).length < 10000 := by
  have active : state.checkpointPredicate.condition.length ≤ 1024 := bounded.active
  have pending := pendingTransition_size_le bounded
  have pool : (depositPool.encode state.deposits).length ≤ 16 := by
    have denomination := fieldSize_le
      (StateLibs.amount.fixedLen, StateLibs.amount.encode state.deposits.denomination)
    have amount := amounts state.deposits.denomination
    simp only [depositPool, Codec.via_encode, Fields.cons_size, Fields.nil_size, Codec.uint_fixedLen,
      fieldSize_some, Codec.uint_size]
    dsimp only [offsetLen] at denomination
    omega
  have key : Wire.predicateKey.fixedLen = none := rfl
  have list : (pendingPredicateTransition.variableList maxPendingPredicateTransitions).fixedLen = none := rfl
  have tip : checkpointTip.fixedLen = some 48 := rfl
  have deposits := fieldSize_le (depositPool.fixedLen, depositPool.encode state.deposits)
  simp only [checkpointState, Codec.via_encode, Fields.cons_size, Fields.nil_size, buf32,
    Codec.via_fixedLen, Codec.byteVector_fixedLen, Codec.byteVector_encode, key, list, tip,
    fieldSize_some, fieldSize_none, checkpointTip_size, Wire.predicateKey_size, Buf32.size]
  dsimp only [offsetLen] at deposits ⊢
  omega

end Stored
end Asm
