import AnchorStateMachine.Checkpoint.Requests
import AnchorStateMachine.Governance.Provenance

/-! What administration governs: the signers of each role, the sequencer key, the operators and the
safe harbor. They are spread over the three subprotocols and reached by messages, but along a run
they follow one list of changes. -/

namespace Asm
open Outcome

/-! ### The governed state -/

structure Governance where
  signers : Role → ThresholdConfig
  sequencerKey : Buf32
  operators : OperatorTable
  safeHarbor : SafeHarbor

/-- An operator leaves by its own stake transaction, or an update is enacted. -/
inductive GovernanceChange
  | expelled (operatorIdx : Nat)
  | enacted (update : UpdateAction)
  deriving DecidableEq

def enactSequencerKey (key : Buf32) : UpdateAction → Buf32
  | .sequencer pubKey => pubKey
  | _ => key

/-- A defcon signal freezes the address for good. -/
def enactSafeHarbor (harbor : SafeHarbor) : UpdateAction → SafeHarbor
  | .defcon1 | .defcon3 => { harbor with activated := true }
  | .safeHarborAddress address => harbor.updateAddress address
  | _ => harbor

section

variable [TaprootKeys]

def expelOperator (operators : OperatorTable) (operatorIdx : Nat) : Exec OperatorTable :=
  operators.applyMembershipChanges [] [operatorIdx]

def enactOperators (operators : OperatorTable) : UpdateAction → Exec OperatorTable
  | .operatorSet addMembers removeMembers => operators.applyMembershipChanges addMembers removeMembers
  | _ => pure operators

namespace Governance

def new (params : AsmParams) : Exec Governance := do
  let operators ← OperatorTable.fromOperatorList params.bridge.operators
  pure ⟨params.admin.signers, params.checkpoint.sequencerKey, operators,
    .new params.bridge.safeHarborAddress⟩

def apply (governance : Governance) : GovernanceChange → Exec Governance
  | .expelled operatorIdx => do
    let operators ← expelOperator governance.operators operatorIdx
    pure { governance with operators }
  | .enacted update => do
    let operators ← enactOperators governance.operators update
    pure ⟨enactSigners governance.signers update, enactSequencerKey governance.sequencerKey update,
      operators, enactSafeHarbor governance.safeHarbor update⟩

/-- Its parts change independently of each other. -/
theorem foldlM_expelled {governance : Governance} {operators : OperatorTable} {indices : List Nat}
    (h : indices.foldlM expelOperator governance.operators = .ok operators) :
    (indices.map GovernanceChange.expelled).foldlM apply governance =
      .ok { governance with operators } := by
  induction indices generalizing governance with
  | nil =>
    cases pure_ok h
    rfl
  | cons operatorIdx indices ih =>
    rw [List.foldlM_cons] at h
    obtain ⟨next, expelled, rest⟩ := bind_ok h
    simp only [List.map_cons, List.foldlM_cons, apply, expelled, ok_bind, pure_eq_ok]
    exact ih rest

theorem foldlM_enacted {governance : Governance} {operators : OperatorTable}
    {updates : List UpdateAction}
    (h : updates.foldlM enactOperators governance.operators = .ok operators) :
    (updates.map GovernanceChange.enacted).foldlM apply governance =
      .ok ⟨updates.foldl enactSigners governance.signers,
        updates.foldl enactSequencerKey governance.sequencerKey, operators,
        updates.foldl enactSafeHarbor governance.safeHarbor⟩ := by
  induction updates generalizing governance with
  | nil =>
    cases pure_ok h
    rfl
  | cons update updates ih =>
    rw [List.foldlM_cons] at h
    obtain ⟨next, enacted, rest⟩ := bind_ok h
    simp only [List.map_cons, List.foldlM_cons, apply, enacted, ok_bind, pure_eq_ok, List.foldl_cons]
    exact ih rest

end Governance
end

/-! ### The sequencer key -/

namespace Checkpoint

theorem processMsg_sequencerKey {l1ref : L1BlockCommitment} {state after : CheckpointState}
    {msg : CheckpointIncomingMsg} (h : processMsg l1ref state msg = .ok after)
    (other : ∀ key, msg ≠ .updateSequencerKey key) : after.sequencerKey = state.sequencerKey := by
  cases msg with
  | updateSequencerKey key => exact absurd rfl (other key)
  | updateCheckpointPredicate predicate =>
    replace h : state.queuePredicateTransition ⟨predicate, l1ref.height⟩ = .ok after := h
    unfold CheckpointState.queuePredicateTransition at h
    split at h
    · cases h
    · cases pure_ok h
      rfl
  | depositProcessed amount =>
    obtain ⟨deposits, -, h⟩ := bind_ok h
    cases pure_ok h
    rfl

/-- The messages of enacted updates, delivered one after another. -/
theorem processMsgs_governed {l1ref : L1BlockCommitment} {updates : List UpdateAction}
    {state after : CheckpointState}
    (h : (checkpointMsgs (updates.flatMap UpdateAction.msgs)).foldlM (processMsg l1ref) state =
      .ok after) :
    after.sequencerKey = updates.foldl enactSequencerKey state.sequencerKey := by
  induction updates generalizing state with
  | nil =>
    cases pure_ok h
    rfl
  | cons update updates ih =>
    rw [List.flatMap_cons, checkpointMsgs_append] at h
    obtain ⟨middle, first, rest⟩ := foldlM_append_ok h
    rw [List.foldl_cons, ih rest]
    congr 1
    cases update with
    | sequencer pubKey =>
      obtain ⟨_, delivered, done⟩ := bind_ok first
      cases pure_ok done
      cases pure_ok delivered
      rfl
    | olStfVk key =>
      obtain ⟨_, delivered, done⟩ := bind_ok first
      cases pure_ok done
      exact processMsg_sequencerKey delivered nofun
    | _ =>
      cases pure_ok first
      rfl

variable [CheckpointLibs]

/-- A checkpoint transaction leaves the sequencer key alone and sends nothing but withdrawals. -/
theorem processTx_governed {height : Nat} {aux : VerifiedAuxData} {tx : TxInput}
    {before after : CheckpointState × MsgRelayer}
    (dispatched : ∀ msg ∈ bridgeMsgs before.2.msgs, ∃ intent, msg = .dispatchWithdrawal intent)
    (h : processTx height aux before tx = .ok after) :
    after.1.sequencerKey = before.1.sequencerKey ∧
      ∀ msg ∈ bridgeMsgs after.2.msgs, ∃ intent, msg = .dispatchWithdrawal intent := by
  obtain ⟨state, relayer⟩ := before
  rw [processTx] at h
  split at h
  · obtain ⟨outcome, handled, h⟩ := bind_ok h
    cases outcome with
    | none =>
      cases pure_ok h
      exact ⟨rfl, dispatched⟩
    | some accepted =>
      cases pure_ok h
      obtain ⟨remaining, -, post⟩ := (acceptCheckpoint_some handled).covered
      refine ⟨by rw [post, CheckpointState.promoteElapsedTransition_sequencerKey], ?_⟩
      simp only [relayWithdrawals_msgs, MsgRelayer.emitLog_msgs, bridgeMsgs_append, List.mem_append]
      rintro msg (old | new)
      · exact dispatched msg old
      · obtain ⟨_, listed, isMsg⟩ := List.mem_filterMap.mp new
        obtain ⟨intent, -, rfl⟩ := List.mem_map.mp listed
        exact ⟨intent, (Option.some.inj isMsg).symm⟩
  · cases pure_ok h
    exact ⟨rfl, dispatched⟩

theorem processTxs_governed {state after : CheckpointState} {txs : List TxInput} {height : Nat}
    {aux : VerifiedAuxData} {relayer : MsgRelayer}
    (h : processTxs state txs height aux .new = .ok (after, relayer)) :
    after.sequencerKey = state.sequencerKey ∧
      ∀ msg ∈ bridgeMsgs relayer.msgs, ∃ intent, msg = .dispatchWithdrawal intent := by
  refine foldlM_preserves (fun current : CheckpointState × MsgRelayer =>
    current.1.sequencerKey = state.sequencerKey ∧
      ∀ msg ∈ bridgeMsgs current.2.msgs, ∃ intent, msg = .dispatchWithdrawal intent) ?_ ?_ h
  · rintro tx - before after ⟨same, dispatched⟩ step
    obtain ⟨kept, sent⟩ := processTx_governed dispatched step
    exact ⟨kept.trans same, sent⟩
  · exact ⟨rfl, List.forall_mem_nil _⟩

end Checkpoint

/-! ### Operators and the safe harbor -/

namespace Bridge

/-- The operator that an accepted slash or unstake transaction expels. -/
def expels [BridgeLibs] (aux : VerifiedAuxData) (visit : Visit (BridgeStateV1 × MsgRelayer) TxInput) :
    Option Nat :=
  match parseTx visit.input with
  | some (.slash info) =>
    match handleSlash visit.pre.1 info aux visit.pre.2 with
    | .ok (.ok _) => some info.operatorIdx
    | _ => none
  | some (.unstake info) =>
    match handleUnstake visit.pre.1 info aux visit.pre.2 with
    | .ok (.ok _) => some info.operatorIdx
    | _ => none
  | _ => none

variable [BridgeLibs]

theorem expelled {state after : BridgeStateV1} {operatorIdx : Nat}
    (removed : state.removeOperator operatorIdx = .ok after) :
    [operatorIdx].foldlM expelOperator state.operators = .ok after.operators ∧
      after.safeHarbor = state.safeHarbor := by
  obtain ⟨operators, changed, rfl⟩ := BridgeStateV1.applyOperatorSetUpdate_ok removed
  refine ⟨?_, rfl⟩
  rw [List.foldlM_cons, expelOperator, changed]
  rfl

theorem processTx_governed {claim : ClaimVersion} {aux : VerifiedAuxData} {tx : TxInput}
    {before after : BridgeStateV1 × MsgRelayer} (h : processTx claim aux before tx = .ok after) :
    (expels aux ⟨before, tx, after⟩).toList.foldlM expelOperator before.1.operators =
      .ok after.1.operators ∧ after.1.safeHarbor = before.1.safeHarbor := by
  obtain ⟨state, relayer⟩ := before
  rw [processTx] at h
  unfold expels
  split at h
  · rename_i skipped
    cases pure_ok h
    refine ⟨?_, rfl⟩
    simp only [skipped]
    rfl
  · rename_i parsedTx parsed
    simp only [parsed]
    obtain ⟨outcome, handled, h⟩ := bind_ok h
    cases parsedTx with
    | deposit info =>
      cases outcome with
      | error error =>
        cases pure_ok h
        exact ⟨rfl, rfl⟩
      | ok processed =>
        cases pure_ok h
        obtain ⟨notarySet, -, same⟩ := (handleDeposit_ok handled).1.after
        rw [same]
        exact ⟨rfl, rfl⟩
    | withdrawalFulfillment info =>
      cases outcome with
      | error error =>
        cases pure_ok h
        exact ⟨rfl, rfl⟩
      | ok processed =>
        cases pure_ok h
        obtain ⟨entry, leaf, fulfills, -⟩ := handleWithdrawalFulfillment_ok handled
        rw [fulfills.after]
        exact ⟨rfl, rfl⟩
    | slash info | unstake info =>
      dsimp only [handleParsedTx] at handled
      simp only [handled]
      cases outcome with
      | error error =>
        cases pure_ok h
        exact ⟨rfl, rfl⟩
      | ok processed =>
        cases pure_ok h
        exact expelled (handleRemoval_ok handled).1

theorem processTxs_governed {claim : ClaimVersion} {state after : BridgeStateV1} {txs : List TxInput}
    {l1Block : L1BlockCommitment} {accumulatedPow : Nat} {aux : VerifiedAuxData} {relayer : MsgRelayer}
    (h : processTxs claim state txs l1Block accumulatedPow aux .new = .ok (after, relayer)) :
    ((visits (processTx claim aux) (state, .new) txs).filterMap (expels aux)).foldlM expelOperator
      state.operators = .ok after.operators ∧ after.safeHarbor = state.safeHarbor := by
  obtain ⟨processed, ran, h⟩ := bind_ok h
  obtain ⟨reassigned, passed, h⟩ := bind_ok h
  cases pure_ok h
  obtain ⟨assignments, rfl⟩ := reassignExpired_frame passed
  refine foldlM_history (fun visited (current : BridgeStateV1 × MsgRelayer) =>
    (visited.filterMap (expels aux)).foldlM expelOperator state.operators = .ok current.1.operators ∧
      current.1.safeHarbor = state.safeHarbor) [] ?_ ⟨rfl, rfl⟩ ran
  rintro tx - visited before after ⟨expelled, harbor⟩ step
  obtain ⟨now, same⟩ := processTx_governed step
  refine ⟨?_, same.trans harbor⟩
  rw [List.filterMap_append, List.foldlM_append, expelled, ok_bind]
  cases left : expels aux ⟨before, tx, after⟩ with
  | none =>
    rw [left] at now
    simpa [left] using now
  | some operatorIdx =>
    rw [left] at now
    simpa [left] using now

/-- A withdrawal is dispatched to the operators there are. -/
theorem dispatchWithdrawal_governed {l1ref : L1BlockCommitment} {state after : BridgeStateV1}
    {intent : WithdrawalIntent} (h : dispatchWithdrawal l1ref state intent = .ok after) :
    after.operators = state.operators ∧ after.safeHarbor = state.safeHarbor := by
  unfold dispatchWithdrawal at h
  split at h
  · cases h
  · refine foldlM_preserves (fun current : BridgeStateV1 => current.operators = state.operators ∧
      current.safeHarbor = state.safeHarbor) ?_ ⟨rfl, rfl⟩ h
    rintro single - before after kept assigned
    obtain ⟨entry, assigns⟩ := assignWithdrawal_ok assigned
    rw [assigns.after]
    exact kept

/-- The messages of enacted updates, delivered one after another. -/
theorem processMsgs_governed {l1ref : L1BlockCommitment} {updates : List UpdateAction}
    {state after : BridgeStateV1}
    (h : (bridgeMsgs (updates.flatMap UpdateAction.msgs)).foldlM (processMsg l1ref) state = .ok after) :
    updates.foldlM enactOperators state.operators = .ok after.operators ∧
      after.safeHarbor = updates.foldl enactSafeHarbor state.safeHarbor := by
  induction updates generalizing state with
  | nil =>
    cases pure_ok h
    exact ⟨rfl, rfl⟩
  | cons update updates ih =>
    rw [List.flatMap_cons, bridgeMsgs_append] at h
    obtain ⟨middle, first, rest⟩ := foldlM_append_ok h
    obtain ⟨operators, harbor⟩ := ih rest
    rw [List.foldlM_cons, List.foldl_cons, harbor]
    cases update with
    | operatorSet addMembers removeMembers =>
      obtain ⟨_, delivered, done⟩ := bind_ok first
      cases pure_ok done
      obtain ⟨changed, applied, rfl⟩ := BridgeStateV1.applyOperatorSetUpdate_ok delivered
      rw [enactOperators, applied, ok_bind]
      exact ⟨operators, rfl⟩
    | safeHarborAddress _ | defcon1 | defcon3 =>
      obtain ⟨_, delivered, done⟩ := bind_ok first
      cases pure_ok done
      cases pure_ok delivered
      exact ⟨operators, rfl⟩
    | _ =>
      cases pure_ok first
      exact ⟨operators, rfl⟩

end Bridge

/-! ### Runs -/

section

variable [AsmLibs] {params : AsmParams} {records : List BlockRecord} {state : AnchorState}

/-- The operators that the transactions of the block expel, in order. -/
def BlockRecord.expelled (record : BlockRecord) : List Nat :=
  (visits (Bridge.processTx record.claim record.aux) (record.states.bridge, .new)
    (record.txs bridgeSubprotocolId)).filterMap (Bridge.expels record.aux)

def BlockRecord.changes (record : BlockRecord) (network : Network) : List GovernanceChange :=
  record.expelled.map .expelled ++ (enactedUpdates (record.adminEvents network)).map .enacted

structure Subprotocols.GovernedBy (states : Subprotocols) (governance : Governance) : Prop where
  signers : states.admin.SignedBy governance.signers
  sequencerKey : states.checkpoint.sequencerKey = governance.sequencerKey
  operators : states.bridge.operators = governance.operators
  safeHarbor : states.bridge.safeHarbor = governance.safeHarbor

theorem Processes.adminEnacted {pre post : AnchorState} {record : BlockRecord}
    (processed : Processes pre record post) :
    record.trace.adminRelayer.Enacted
      (enactedUpdates (record.adminEvents pre.chainView.powState.network)) := by
  obtain ⟨ran, events⟩ := processed.adminTxs
  rw [events]
  exact Admin.processTxs_enacted ⟨pre.height, record.states.admin⟩ ran

section

variable {pre post : AnchorState} {record : BlockRecord} (processed : Processes pre record post)

include processed

theorem Processes.signers {signers : Role → ThresholdConfig}
    (signed : record.states.admin.SignedBy signers) : record.trace.post.admin.SignedBy
      ((enactedUpdates (record.adminEvents pre.chainView.powState.network)).foldl enactSigners
        signers) := by
  obtain ⟨context, part, same, events⟩ := processed.adminPart
  have held := @Admin.Keeps.part _ _ _ [] ⟨pre.height, record.states.admin⟩
    (Admin.signers_keeps pre.chainView.powState.network signers) signed _ _ part
  rw [Admin.signersAfter_append, ← events, same] at held
  exact held

theorem Processes.sequencerKey : record.trace.post.checkpoint.sequencerKey =
    (enactedUpdates (record.adminEvents pre.chainView.powState.network)).foldl enactSequencerKey
      record.states.checkpoint.sequencerKey := by
  have ran := processed.ran
  have delivered := ran.checkpointMsgs
  obtain ⟨count, reports⟩ := Bridge.processTxs_reports ran.bridgeTxs
  rw [Checkpoint.processMsgs, BlockTrace.checkpointInbox, checkpointMsgs_append,
    processed.adminEnacted.msgs, reports.relayed, checkpointMsgs_depositMsgs] at delivered
  obtain ⟨middle, enacted, deposits⟩ := foldlM_append_ok delivered
  rw [← (Checkpoint.processTxs_governed ran.checkpointTxs).1, ← Checkpoint.processMsgs_governed enacted]
  refine foldlM_preserves (fun current : CheckpointState =>
    current.sequencerKey = middle.sequencerKey) ?_ rfl deposits
  intro msg mem before after kept step
  rw [List.eq_of_mem_replicate mem] at step
  exact (Checkpoint.processMsg_sequencerKey step nofun).trans kept

theorem Processes.operators : ∃ operators,
    record.expelled.foldlM expelOperator record.states.bridge.operators = .ok operators ∧
    (enactedUpdates (record.adminEvents pre.chainView.powState.network)).foldlM enactOperators
      operators = .ok record.trace.post.bridge.operators ∧
    record.trace.post.bridge.safeHarbor =
      (enactedUpdates (record.adminEvents pre.chainView.powState.network)).foldl enactSafeHarbor
        record.states.bridge.safeHarbor := by
  have ran := processed.ran
  have delivered := ran.bridgeMsgs
  obtain ⟨-, dispatched⟩ := Checkpoint.processTxs_governed ran.checkpointTxs
  obtain ⟨expelled, harbor⟩ := Bridge.processTxs_governed ran.bridgeTxs
  rw [Bridge.processMsgs, BlockTrace.bridgeInbox, bridgeMsgs_append, processed.adminEnacted.msgs]
    at delivered
  obtain ⟨middle, enacted, withdrawals⟩ := foldlM_append_ok delivered
  obtain ⟨operators, activated⟩ := Bridge.processMsgs_governed enacted
  obtain ⟨same, frozen⟩ : record.trace.post.bridge.operators = middle.operators ∧
      record.trace.post.bridge.safeHarbor = middle.safeHarbor := by
    refine foldlM_preserves (fun current : BridgeStateV1 => current.operators = middle.operators ∧
      current.safeHarbor = middle.safeHarbor) ?_ ⟨rfl, rfl⟩ withdrawals
    intro msg mem before after kept step
    obtain ⟨intent, rfl⟩ := dispatched msg mem
    obtain ⟨operators, harbor⟩ := Bridge.dispatchWithdrawal_governed step
    exact ⟨operators.trans kept.1, harbor.trans kept.2⟩
  rw [same, frozen, activated, harbor]
  exact ⟨_, expelled, operators, rfl⟩

theorem Processes.governed {governance : Governance}
    (governed : record.states.GovernedBy governance) :
    ∃ after, (record.changes pre.chainView.powState.network).foldlM Governance.apply governance =
      .ok after ∧ record.trace.post.GovernedBy after := by
  obtain ⟨operators, expelled, enacted, harbor⟩ := processed.operators
  rw [governed.operators] at expelled
  rw [BlockRecord.changes, List.foldlM_append, Governance.foldlM_expelled expelled, ok_bind]
  refine ⟨_, Governance.foldlM_enacted enacted, processed.signers governed.signers, ?_, rfl, ?_⟩
  · rw [processed.sequencerKey, governed.sequencerKey]
  · rw [harbor, governed.safeHarbor]

end

/-- The changes of all blocks, applied to the genesis of the parameters. -/
def governanceAfter (params : AsmParams) (records : List BlockRecord) : Exec Governance := do
  let genesis ← Governance.new params
  (records.flatMap (·.changes params.anchor.network)).foldlM Governance.apply genesis

/-- After every run the signers, the sequencer key, the operators and the safe harbor are what the
genesis parameters and the list of changes make of them: the operators that slash and unstake
transactions expelled and the updates that administration enacted, block by block. No deposit,
withdrawal, checkpoint, cancel or rejected action has changed any of them. -/
theorem governance_refines (run : Run params records state) :
    ∃ states governance, state.subprotocols = some states ∧
      governanceAfter params records = .ok governance ∧ states.GovernedBy governance := by
  induction run with
  | genesis specId started =>
    obtain ⟨bridge, made, loaded, -⟩ := genesisState_ok started
    obtain ⟨operators, table, made⟩ := bind_ok made
    cases pure_ok made
    refine ⟨_, ⟨params.admin.signers, params.checkpoint.sequencerKey, operators,
      .new params.bridge.safeHarborAddress⟩, loaded, ?_,
      AdministrationSubprotoState.new_signedBy params.admin, rfl, rfl, rfl⟩
    rw [governanceAfter, Governance.new, table]
    rfl
  | @block past pre post record before processed ih =>
    obtain ⟨states, governance, loaded, followed, governed⟩ := ih
    obtain rfl : states = record.states :=
      Option.some.inj (loaded.symm.trans processed.transitions.loaded)
    obtain ⟨after, changed, governs⟩ := processed.governed governed
    rw [run_network before] at changed
    refine ⟨_, after, processed.transitions.exported.states, ?_, governs⟩
    obtain ⟨genesis, made, followed⟩ := bind_ok followed
    rw [governanceAfter, made, ok_bind, List.flatMap_append, List.foldlM_append, followed, ok_bind,
      List.flatMap_singleton]
    exact changed

/-! ### The safe harbor -/

end

def UpdateAction.isDefcon : UpdateAction → Bool
  | .defcon1 | .defcon3 => true
  | _ => false

def UpdateAction.harborAddress : UpdateAction → Option SafeHarborAddress
  | .safeHarborAddress address => some address
  | _ => none

theorem enactSafeHarbor_defcon {update : UpdateAction} (defcon : update.isDefcon = true)
    (harbor : SafeHarbor) : enactSafeHarbor harbor update = { harbor with activated := true } := by
  cases update <;> first | rfl | cases defcon

theorem enactSafeHarbor_other {update : UpdateAction} (other : update.isDefcon = false)
    {harbor : SafeHarbor} (inactive : harbor.activated = false) :
    enactSafeHarbor harbor update = ⟨update.harborAddress.getD harbor.address, false⟩ := by
  obtain ⟨address, activated⟩ := harbor
  cases inactive
  cases update <;> first | rfl | cases other

theorem foldl_enactSafeHarbor_active (updates : List UpdateAction) {harbor : SafeHarbor}
    (active : harbor.activated = true) : updates.foldl enactSafeHarbor harbor = harbor := by
  induction updates with
  | nil => rfl
  | cons update updates ih =>
    obtain ⟨address, activated⟩ := harbor
    cases active
    rw [List.foldl_cons]
    cases update <;> exact ih

theorem foldl_enactSafeHarbor (updates : List UpdateAction) {harbor : SafeHarbor}
    (inactive : harbor.activated = false) : updates.foldl enactSafeHarbor harbor =
      ⟨((updates.takeWhile (! ·.isDefcon)).filterMap UpdateAction.harborAddress).getLast?.getD
        harbor.address, updates.any UpdateAction.isDefcon⟩ := by
  induction updates generalizing harbor with
  | nil =>
    obtain ⟨address, activated⟩ := harbor
    cases inactive
    rfl
  | cons update updates ih =>
    rw [List.foldl_cons, List.any_cons]
    cases defcon : update.isDefcon with
    | true =>
      rw [enactSafeHarbor_defcon defcon, foldl_enactSafeHarbor_active updates rfl,
        List.takeWhile_cons_of_neg (by simp [defcon])]
      rfl
    | false =>
      rw [enactSafeHarbor_other defcon inactive, ih rfl, List.takeWhile_cons_of_pos (by simp [defcon]),
        List.filterMap_cons]
      cases update.harborAddress with
      | none => rfl
      | some address =>
        rw [List.getLast?_cons]
        rfl

section

variable [AsmLibs] {params : AsmParams} {records : List BlockRecord} {state : AnchorState}

/-- The updates that a run has enacted, in order. -/
def enactedIn (network : Network) (records : List BlockRecord) : List UpdateAction :=
  records.flatMap fun record => enactedUpdates (record.adminEvents network)

/-- In every run the safe harbor is active exactly if a defcon update was enacted. Its address is the
one enacted last before the first of these, or the initial one, and never changes afterwards. -/
theorem safe_harbor_latches (run : Run params records state) :
    ∃ states, state.subprotocols = some states ∧
      (states.bridge.safeHarbor.activated = true ↔
        ∃ update ∈ enactedIn params.anchor.network records, update.isDefcon = true) ∧
      states.bridge.safeHarbor.address =
        (((enactedIn params.anchor.network records).takeWhile (! ·.isDefcon)).filterMap
          UpdateAction.harborAddress).getLast?.getD params.bridge.safeHarborAddress := by
  have followed : ∃ states, state.subprotocols = some states ∧ states.bridge.safeHarbor =
      (enactedIn params.anchor.network records).foldl enactSafeHarbor
        (.new params.bridge.safeHarborAddress) := by
    induction run with
    | genesis specId started =>
      obtain ⟨bridge, made, loaded, -⟩ := genesisState_ok started
      obtain ⟨operators, table, made⟩ := bind_ok made
      cases pure_ok made
      exact ⟨_, loaded, rfl⟩
    | @block past pre post record before processed ih =>
      obtain ⟨states, loaded, harbor⟩ := ih
      obtain rfl : states = record.states :=
        Option.some.inj (loaded.symm.trans processed.transitions.loaded)
      obtain ⟨_, -, -, enacted⟩ := processed.operators
      rw [run_network before] at enacted
      refine ⟨_, processed.transitions.exported.states, ?_⟩
      rw [enacted, harbor, enactedIn, enactedIn, List.flatMap_append, List.flatMap_singleton,
        List.foldl_append]
  obtain ⟨states, loaded, harbor⟩ := followed
  rw [foldl_enactSafeHarbor _ rfl] at harbor
  refine ⟨states, loaded, ?_, ?_⟩
  · rw [harbor, List.any_eq_true]
  · rw [harbor]
    rfl

end

/-! ### A concrete block -/

/-- An address, a defcon signal, another address, and a sequencer key. -/
def sampleControlBlock : Block :=
  { sampleUpdateBlock [
      sampleUpdateTx 3 14 ⟨1, .update (.safeHarborAddress ⟨⟨[4, 7]⟩⟩), [sampleSignature 0]⟩,
      sampleUpdateTx 4 41 ⟨1, .update .defcon1, [sampleSignature 0]⟩,
      sampleUpdateTx 5 14 ⟨2, .update (.safeHarborAddress ⟨⟨[4, 8]⟩⟩), [sampleSignature 0]⟩,
      sampleUpdateTx 6 21 ⟨1, .update (.sequencer (.fill 9)), [sampleSignature 0]⟩] with
    header := ⟨2, .zero, .fill 6, 1, 0, 0⟩ }

section

attribute [local instance] sampleUpdateLibs

set_option maxRecDepth 8000 in
theorem sampleControl_transitions : ∃ genesis post manifest,
    genesisState sampleParams = .ok genesis ∧
    computeAsmTransition (asmSpec .v1) genesis sampleControlBlock ⟨[], []⟩
      (TxidInclusionProof.generate sampleControlBlock.txdata 0) = .ok (.ok ⟨post, manifest⟩) ∧
    post.subprotocols.map (fun states => (states.checkpoint.sequencerKey, states.bridge.safeHarbor)) =
      some (.fill 9, ⟨⟨⟨[4, 7]⟩⟩, true⟩) :=
  ⟨_, _, _, rfl, rfl, rfl⟩

theorem sampleControl_run : ∃ record state states, Run sampleParams [record] state ∧
    state.subprotocols = some states ∧ states.checkpoint.sequencerKey = .fill 9 ∧
    states.bridge.safeHarbor = ⟨⟨⟨[4, 7]⟩⟩, true⟩ := by
  obtain ⟨genesis, post, manifest, started, ran, governed⟩ := sampleControl_transitions
  obtain ⟨_, _, _, processed⟩ := processes_of_succeeded ran
  obtain ⟨states, loaded, same⟩ := Option.map_eq_some_iff.mp governed
  have start : Run sampleParams [] genesis := .genesis genesis.specId started
  exact ⟨_, post, states, start.block processed, loaded, congrArg Prod.fst same, congrArg Prod.snd same⟩

theorem governance_refines_sample : ∃ record state governance, Run sampleParams [record] state ∧
    governanceAfter sampleParams [record] = .ok governance ∧ governance.sequencerKey = .fill 9 ∧
    governance.safeHarbor = ⟨⟨⟨[4, 7]⟩⟩, true⟩ := by
  obtain ⟨record, state, states, run, loaded, key, harbor⟩ := sampleControl_run
  obtain ⟨others, governance, same, followed, governed⟩ := governance_refines run
  cases loaded.symm.trans same
  exact ⟨record, state, governance, run, followed, governed.sequencerKey.symm.trans key,
    governed.safeHarbor.symm.trans harbor⟩

theorem safe_harbor_latches_sample : ∃ record state, Run sampleParams [record] state ∧
    (∃ update ∈ enactedIn .regtest [record], update.isDefcon = true) ∧
    (((enactedIn .regtest [record]).takeWhile (! ·.isDefcon)).filterMap
      UpdateAction.harborAddress).getLast?.getD ⟨⟨[]⟩⟩ = ⟨⟨[4, 7]⟩⟩ := by
  obtain ⟨record, state, states, run, loaded, -, harbor⟩ := sampleControl_run
  obtain ⟨others, same, activated, address⟩ := safe_harbor_latches run
  cases loaded.symm.trans same
  rw [harbor] at activated address
  exact ⟨record, state, run, activated.mp rfl, address.symm⟩

end
end Asm
