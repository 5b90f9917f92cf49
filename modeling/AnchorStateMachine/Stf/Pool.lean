import AnchorStateMachine.Checkpoint.Pool
import AnchorStateMachine.Stf.Reach

/-! The two copies of the bridge's funds. The checkpoint subprotocol counts deposits and accepts
withdrawals against its count, the bridge keeps the deposits and assigns them a phase later; the
counts agree at the end of every block, and the bridge can pay for everything it is told to. -/

namespace Asm
open Outcome

/-! ### Administration -/

theorem depositProcessed_notMem_enacted (updates : List UpdateAction) (amount : Nat) :
    .depositProcessed amount ∉ checkpointMsgs (updates.flatMap UpdateAction.msgs) := by
  simp only [checkpointMsgs, List.mem_filterMap, List.mem_flatMap, not_exists, not_and]
  rintro msg ⟨update, -, relayed⟩
  cases update <;> simp_all [UpdateAction.msgs]

theorem dispatches_enacted (updates : List UpdateAction) :
    dispatches (bridgeMsgs (updates.flatMap UpdateAction.msgs)) = [] := by
  induction updates with
  | nil => rfl
  | cons update updates ih =>
    rw [List.flatMap_cons, bridgeMsgs_append, dispatches_append, ih, List.append_nil]
    cases update <;> rfl

/-! ### Checkpoints -/

namespace Checkpoint

section

variable [CheckpointLibs]

theorem processTx_draws {height : Nat} {aux : VerifiedAuxData} {tx : TxInput} {pool : DepositPool}
    {before after : CheckpointState × MsgRelayer}
    (draws : pool.Draws before.1.deposits (dispatches (bridgeMsgs before.2.msgs)))
    (h : processTx height aux before tx = .ok after) :
    pool.Draws after.1.deposits (dispatches (bridgeMsgs after.2.msgs)) := by
  obtain ⟨state, relayer⟩ := before
  rw [processTx] at h
  split at h
  · obtain ⟨outcome, decided, h⟩ := bind_ok h
    cases outcome with
    | none =>
      cases pure_ok h
      exact draws
    | some accepted =>
      cases pure_ok h
      obtain ⟨remaining, verified, post⟩ := (acceptCheckpoint_some decided).covered
      obtain ⟨payable, covered⟩ := verifyWithdrawals_ok verified
      have sent : dispatches (bridgeMsgs
          (accepted.intents.map fun intent => .bridge (.dispatchWithdrawal intent))) =
          accepted.intents := by
        simp [dispatches, bridgeMsgs]
      simp only [relayWithdrawals_msgs, MsgRelayer.emitLog_msgs, bridgeMsgs_append, dispatches_append,
        sent, post, CheckpointState.promoteElapsedTransition_deposits]
      exact draws.trans ⟨rfl, payable, covered⟩
  · cases pure_ok h
    exact draws

theorem processTxs_draws {state after : CheckpointState} {txs : List TxInput} {height : Nat}
    {aux : VerifiedAuxData} {relayer : MsgRelayer}
    (h : processTxs state txs height aux .new = .ok (after, relayer)) :
    state.deposits.Draws after.deposits (dispatches (bridgeMsgs relayer.msgs)) :=
  foldlM_preserves
    (fun current => state.deposits.Draws current.1.deposits (dispatches (bridgeMsgs current.2.msgs)))
    (fun _ _ _ _ draws h => processTx_draws draws h) state.deposits.draws_nil h

end

theorem processMsgs_enacted {state after : CheckpointState} {updates : List UpdateAction}
    {l1ref : L1BlockCommitment}
    (h : processMsgs state (checkpointMsgs (updates.flatMap UpdateAction.msgs)) l1ref = .ok after) :
    after.deposits = state.deposits := by
  refine foldlM_preserves (fun current => current.deposits = state.deposits)
    (fun msg sent before next same taken => ?_) rfl h
  cases msg with
  | depositProcessed amount => exact absurd sent (depositProcessed_notMem_enacted updates amount)
  | updateSequencerKey key =>
    cases pure_ok taken
    exact same
  | updateCheckpointPredicate predicate =>
    rw [CheckpointState.queuePredicateTransition_ok taken]
    exact same

theorem processMsgs_deposits {state after : CheckpointState} {count denomination : Nat}
    {l1ref : L1BlockCommitment}
    (uniform : state.deposits.Uniform denomination)
    (h : processMsgs state (List.replicate count (.depositProcessed denomination)) l1ref = .ok after) :
    after.deposits.count = state.deposits.count + count ∧ after.deposits.Uniform denomination := by
  induction count generalizing state with
  | zero =>
    cases pure_ok h
    exact ⟨rfl, uniform⟩
  | succ count ih =>
    rw [List.replicate_succ, processMsgs, List.foldlM_cons] at h
    obtain ⟨next, taken, h⟩ := bind_ok h
    obtain ⟨deposits, recorded, taken⟩ := bind_ok taken
    cases pure_ok taken
    have deposits := DepositPool.record_ok uniform recorded
    subst deposits
    obtain ⟨counted, uniform⟩ := ih (.inl rfl) h
    dsimp only at counted
    exact ⟨by omega, uniform⟩

end Checkpoint

/-! ### The bridge -/

/-- The failures of an assignment that mean the bridge cannot pay. -/
def IsPoolPanic : Panic → Prop
  | .withdrawalAssignmentFailed .noUnassignedDeposits => True
  | .withdrawalAssignmentFailed (.depositWithdrawalAmountMismatch _) => True
  | _ => False

theorem IsPoolPanic.failed {panic : Panic} (h : IsPoolPanic panic) :
    ∃ error, panic = .withdrawalAssignmentFailed error := by
  unfold IsPoolPanic at h
  split at h
  · exact ⟨_, rfl⟩
  · exact ⟨_, rfl⟩
  · exact h.elim

namespace Bridge

structure Covers (state : BridgeStateV1) (msgs : List BridgeIncomingMsg) : Prop where
  payable : Payable state.denomination (dispatches msgs)
  enough : totalUnits state.denomination (dispatches msgs) ≤ state.deposits.length

/-- The messages used up the deposits that their withdrawals are worth. -/
structure Spends (state after : BridgeStateV1) (units : Nat) : Prop where
  denomination : after.denomination = state.denomination
  deposits : after.deposits.length + units = state.deposits.length

variable [BridgeLibs] {state after : BridgeStateV1} {l1ref : L1BlockCommitment}

theorem assigns_spends {intent : WithdrawalIntent} {entry : AssignmentEntry}
    (assigns : Assigns l1ref state intent entry after) : Spends state after 1 := by
  obtain ⟨rest, deposits⟩ := List.head?_eq_some_iff.mp assigns.oldest
  rw [assigns.after]
  exact ⟨rfl, by simp [deposits]⟩

theorem assignWithdrawals_spend {intents : List WithdrawalIntent}
    (h : intents.foldlM (assignWithdrawal l1ref) state = .ok after) :
    Spends state after intents.length := by
  induction intents generalizing state with
  | nil =>
    cases pure_ok h
    exact ⟨rfl, rfl⟩
  | cons intent intents ih =>
    rw [List.foldlM_cons] at h
    obtain ⟨next, assigned, h⟩ := bind_ok h
    obtain ⟨entry, assigns⟩ := assignWithdrawal_ok assigned
    have first := assigns_spends assigns
    have rest := ih h
    refine ⟨rest.denomination.trans first.denomination, ?_⟩
    have before := first.deposits
    have later := rest.deposits
    rw [List.length_cons]
    omega

theorem processMsg_spends {msg : BridgeIncomingMsg} (h : processMsg l1ref state msg = .ok after) :
    Spends state after (totalUnits state.denomination (dispatches [msg])) := by
  cases msg with
  | dispatchWithdrawal payload =>
    simp only [processMsg, dispatchWithdrawal] at h
    split at h
    · cases h
    · rename_i intents decomposed
      obtain ⟨units, whole, rfl⟩ := Option.map_eq_some_iff.mp decomposed
      have spent := assignWithdrawals_spend h
      rw [List.length_replicate] at spent
      simpa [totalUnits, dispatches, whole] using spent
  | updateOperatorSet payload =>
    obtain ⟨operators, -, rfl⟩ := BridgeStateV1.applyOperatorSetUpdate_ok h
    exact ⟨rfl, rfl⟩
  | updateSafeHarborAddress address =>
    cases pure_ok h
    exact ⟨rfl, rfl⟩
  | defcon =>
    cases pure_ok h
    exact ⟨rfl, rfl⟩

theorem processMsgs_spend {msgs : List BridgeIncomingMsg}
    (h : processMsgs state msgs l1ref = .ok after) :
    Spends state after (totalUnits state.denomination (dispatches msgs)) := by
  induction msgs generalizing state with
  | nil =>
    cases pure_ok h
    exact ⟨rfl, rfl⟩
  | cons msg msgs ih =>
    rw [processMsgs, List.foldlM_cons] at h
    obtain ⟨next, taken, h⟩ := bind_ok h
    have first := processMsg_spends taken
    have rest := ih h
    refine ⟨rest.denomination.trans first.denomination, ?_⟩
    have before := first.deposits
    have later := rest.deposits
    rw [first.denomination] at later
    rw [← List.singleton_append, dispatches_append, totalUnits_append]
    omega

theorem assignWithdrawal_pays (inv : state.Invariant) {intent : WithdrawalIntent}
    (amount : intent.amt = state.denomination) (enough : 0 < state.deposits.length) :
    Avoids IsPoolPanic (assignWithdrawal l1ref state intent) := by
  obtain ⟨deposit, rest, deposits⟩ := List.exists_cons_of_length_pos enough
  have oldest : state.deposits.head? = some deposit := by rw [deposits, List.head?_cons]
  have same : deposit.amt = intent.amt :=
    (inv.amounts deposit (List.mem_of_head? oldest)).trans amount.symm
  obtain ⟨config, -, outcome⟩ := BridgeStateV1.createWithdrawalAssignment_cases inv oldest same l1ref
  unfold assignWithdrawal
  rcases outcome with ⟨entry, created, -⟩ | ⟨failed, -⟩ | ⟨overflow, -⟩
  · obtain ⟨after, inserted⟩ := insertWithdrawalAssignment_total inv
      (BridgeStateV1.createWithdrawalAssignment_ok created).1
    simp only [created, ok_bind, inserted]
    exact avoids_ok _
  · rw [failed]
    exact avoids_error id
  · rw [overflow]
    exact avoids_error id

theorem assignWithdrawals_pay (inv : state.Invariant) {intent : WithdrawalIntent} {count : Nat}
    (amount : intent.amt = state.denomination) (enough : count ≤ state.deposits.length) :
    Avoids IsPoolPanic ((List.replicate count intent).foldlM (assignWithdrawal l1ref) state) := by
  induction count generalizing state with
  | zero => exact avoids_ok _
  | succ count ih =>
    rw [List.replicate_succ, List.foldlM_cons]
    refine (assignWithdrawal_pays inv amount (by omega)).bind fun next assigned => ?_
    obtain ⟨entry, assigns⟩ := assignWithdrawal_ok assigned
    have spent := assigns_spends assigns
    have left := spent.deposits
    exact ih (BridgeStateV1.assigns_invariant inv assigns) (amount.trans spent.denomination.symm)
      (by omega)

theorem processMsg_pays (inv : state.Invariant) {msg : BridgeIncomingMsg} (covers : Covers state [msg]) :
    Avoids IsPoolPanic (processMsg l1ref state msg) := by
  cases msg with
  | dispatchWithdrawal payload =>
    obtain ⟨units, whole⟩ := Option.isSome_iff_exists.mp (covers.payable payload (.head _))
    have enough := covers.enough
    simp only [totalUnits, dispatches, List.filterMap_cons, List.filterMap_nil, List.map_cons, whole,
      List.map_nil, List.sum_cons, List.sum_nil, Option.getD_some, Nat.add_zero] at enough
    simp only [processMsg, dispatchWithdrawal, WithdrawalIntent.decompose, whole, Option.map_some]
    exact assignWithdrawals_pay inv rfl enough
  | updateOperatorSet payload =>
    refine (applyOperatorSetUpdate_avoids inv _ _).mono fun panic isPool => ?_
    obtain ⟨_, rfl⟩ := isPool.failed
    simp [IsMembershipPanic]
  | updateSafeHarborAddress address => exact avoids_ok _
  | defcon => exact avoids_ok _

theorem processMsgs_pay (inv : state.Invariant) {msgs : List BridgeIncomingMsg}
    (covers : Covers state msgs) : Avoids IsPoolPanic (processMsgs state msgs l1ref) := by
  induction msgs generalizing state with
  | nil => exact avoids_ok _
  | cons msg msgs ih =>
    obtain ⟨payable, enough⟩ := covers
    rw [← List.singleton_append, dispatches_append] at payable enough
    rw [totalUnits_append] at enough
    have first : Covers state [msg] :=
      ⟨fun intent mem => payable intent (List.mem_append_left _ mem), by omega⟩
    rw [processMsgs, List.foldlM_cons]
    refine (processMsg_pays inv first).bind fun next taken => ?_
    have spent := processMsg_spends taken
    have left := spent.deposits
    refine ih (Bridge.processMsg_invariant inv taken) ⟨?_, ?_⟩
    · rw [spent.denomination]
      exact fun intent mem => payable intent (List.mem_append_right _ mem)
    · rw [spent.denomination]
      omega

end Bridge

/-! ### Blocks -/

/-- The pool of the checkpoint subprotocol counts the deposits of the bridge. -/
structure Pooled (denomination : Nat) (states : Subprotocols) : Prop where
  counted : states.checkpoint.deposits.count = states.bridge.deposits.length
  uniform : states.checkpoint.deposits.Uniform denomination
  denomination : states.bridge.denomination = denomination

section

variable [AsmLibs] {denomination count : Nat} {states : Subprotocols} {updates : List UpdateAction}
  {adminRelayer checkpointRelayer : MsgRelayer}

theorem dispatches_inbox (enacted : adminRelayer.Enacted updates) :
    dispatches (bridgeMsgs (adminRelayer.msgs ++ checkpointRelayer.msgs)) =
      dispatches (bridgeMsgs checkpointRelayer.msgs) := by
  rw [bridgeMsgs_append, dispatches_append, enacted.msgs, dispatches_enacted, List.nil_append]

/-- The bridge can pay for the withdrawals of the checkpoints a block accepts, however many. -/
theorem Pooled.covers (pooled : Pooled denomination states) {mid : CheckpointState}
    {bridgeMid : BridgeStateV1} {msgs : List InterprotoMsg} (enacted : adminRelayer.Enacted updates)
    (draws : states.checkpoint.deposits.Draws mid.deposits
      (dispatches (bridgeMsgs checkpointRelayer.msgs)))
    (reports : Bridge.Reports states.bridge bridgeMid msgs count) :
    Bridge.Covers bridgeMid (bridgeMsgs (adminRelayer.msgs ++ checkpointRelayer.msgs)) := by
  obtain ⟨payable, spent, -⟩ := draws.uniform pooled.uniform
  have same : bridgeMid.denomination = denomination := reports.denomination.trans pooled.denomination
  have counted := reports.counted
  have pool := pooled.counted
  refine ⟨?_, ?_⟩
  · rw [dispatches_inbox enacted, same]
    exact payable
  · rw [dispatches_inbox enacted, same]
    omega

theorem Pooled.block {claim : ClaimVersion} {powState : HeaderVerificationState}
    {txs : Nat → List TxInput} {aux : VerifiedAuxData} {trace : BlockTrace}
    (pooled : Pooled denomination states) (ran : Ran claim powState txs aux states trace)
    (enacted : trace.adminRelayer.Enacted updates) : Pooled denomination trace.post := by
  obtain ⟨payable, spent, uniform⟩ := (Checkpoint.processTxs_draws ran.checkpointTxs).uniform
    pooled.uniform
  obtain ⟨count, reports⟩ := Bridge.processTxs_reports ran.bridgeTxs
  have delivered := ran.checkpointMsgs
  rw [BlockTrace.checkpointInbox, checkpointMsgs_append, enacted.msgs, reports.relayed,
    checkpointMsgs_depositMsgs, Checkpoint.processMsgs, List.foldlM_append] at delivered
  obtain ⟨keyed, ofAdmin, ofBridge⟩ := bind_ok delivered
  have kept := Checkpoint.processMsgs_enacted ofAdmin
  rw [← kept] at uniform
  rw [pooled.denomination] at ofBridge
  obtain ⟨counted, uniform⟩ := Checkpoint.processMsgs_deposits uniform ofBridge
  have paid := Bridge.processMsgs_spend ran.bridgeMsgs
  have same : trace.bridgeMid.denomination = denomination :=
    reports.denomination.trans pooled.denomination
  refine ⟨?_, uniform, paid.denomination.trans same⟩
  have left := paid.deposits
  rw [BlockTrace.bridgeInbox, dispatches_inbox enacted, same] at left
  have joined := reports.counted
  have before := pooled.counted
  rw [counted, kept]
  omega

theorem Pooled.processBlock_pays {params : AsmParams} {records : List BlockRecord} {state : AnchorState}
    {claim : ClaimVersion} {powState : HeaderVerificationState} (pooled : Pooled denomination states)
    (reached : Reached params records state states)
    (next : powState.lastVerifiedBlock.height = state.height + 1) (txs : Nat → List TxInput)
    (aux : VerifiedAuxData) : Avoids IsPoolPanic (processBlock claim powState txs aux states) := by
  intro panic stopped isPool
  cases processBlock_error stopped with
  | admin halted =>
    cases Admin.processTxs_error halted
    exact isPool
  | checkpointTxs halted =>
    have events := Checkpoint.processTxs_events states.checkpoint (txs checkpointSubprotocolId)
      powState.lastVerifiedBlock.height aux .new
    rw [halted] at events
    obtain ⟨_, rfl⟩ := isPool.failed
    exact Checkpoint.events_error events.symm
  | bridgeTxs halted =>
    obtain ⟨_, rfl⟩ := isPool.failed
    refine Bridge.processTxs_avoids reached.bridge _ _ _ _ _ _ _ halted ?_
    simp [UnexpectedInTxs, IsTxPanic, IsMembershipPanic]
  | checkpointMsgs adminRan checkpointRan bridgeRan halted =>
    rw [Checkpoint.processMsgs_events] at halted
    obtain ⟨_, rfl⟩ := isPool.failed
    exact Checkpoint.events_error halted
  | bridgeMsgs adminRan checkpointRan bridgeRan halted =>
    rw [next] at adminRan
    obtain ⟨-, -, updates, enacted, -⟩ := Admin.processTxs_staggered reached.staggered adminRan
    obtain ⟨count, reports⟩ := Bridge.processTxs_reports bridgeRan
    have covers := pooled.covers enacted (Checkpoint.processTxs_draws checkpointRan) reports
    exact Bridge.processMsgs_pay (Bridge.processTxs_invariant reached.bridge bridgeRan) covers panic
      halted isPool

end

/-! ### Runs -/

section

variable [AsmLibs]

theorem pooled_genesis {config : BridgeInitConfig} {bridge : BridgeStateV1}
    (h : BridgeStateV1.new config = .ok bridge) (admin : AdministrationSubprotoState)
    (checkpoint : CheckpointInitConfig) :
    Pooled config.denomination ⟨admin, .init checkpoint, bridge⟩ := by
  obtain ⟨operators, -, h⟩ := bind_ok h
  cases pure_ok h
  exact ⟨rfl, .inr rfl, rfl⟩

theorem run_pooled {params : AsmParams} {records : List BlockRecord} {state : AnchorState}
    (run : Run params records state) : ∃ states, Reached params records state states ∧
      Pooled params.bridge.denomination states ∧
      ∀ record ∈ records, Payable params.bridge.denomination (dispatches record.trace.bridgeInbox) := by
  induction run with
  | genesis specId started =>
    obtain ⟨bridge, fresh, loaded, -⟩ := genesisState_ok started
    obtain ⟨states, reached⟩ := reached_genesis specId started
    obtain rfl := Option.some.inj (reached.loaded.symm.trans loaded)
    exact ⟨_, reached, pooled_genesis fresh _ _, List.forall_mem_nil _⟩
  | @block past pre post record before processed ih =>
    obtain ⟨states, reached, pooled, payable⟩ := ih
    obtain rfl := Option.some.inj (reached.loaded.symm.trans processed.transitions.loaded)
    have ran := processed.ran
    have next := reached.block processed
    obtain ⟨updates, enacted, -⟩ := next.enacted record (by simp)
    obtain ⟨count, reports⟩ := Bridge.processTxs_reports ran.bridgeTxs
    have covers := pooled.covers enacted (Checkpoint.processTxs_draws ran.checkpointTxs) reports
    refine ⟨_, next, pooled.block ran enacted, ?_⟩
    intro other mem
    rcases List.mem_append.mp mem with old | new
    · exact payable other old
    · obtain rfl := List.mem_singleton.mp new
      have same := reports.denomination.trans pooled.denomination
      exact same ▸ covers.payable

/-- At the end of every block of a run the pool of the checkpoint subprotocol counts the deposits of
the bridge, which all have the denomination of its config. So no block, whatever its checkpoints
withdraw, makes an assignment fail for want of a deposit of the right amount, and every amount that
was dispatched splits into denominations. -/
theorem pool_counts_deposits (params : AsmParams) (records : List BlockRecord) (state : AnchorState)
    (run : Run params records state) :
    (∃ states, state.subprotocols = some states ∧
      states.checkpoint.deposits.count = states.bridge.deposits.length ∧
      states.bridge.denomination = params.bridge.denomination ∧
      ∀ deposit ∈ states.bridge.deposits, deposit.amt = params.bridge.denomination) ∧
    (∀ record ∈ records, ∀ intent, .dispatchWithdrawal intent ∈ record.trace.bridgeInbox →
      (intent.decompose params.bridge.denomination).isSome) ∧
    ∀ claim block auxData inclusionProof error,
      computeAsmTransition (asmSpec claim) state block auxData inclusionProof =
        .error (.withdrawalAssignmentFailed error) →
      error ≠ .noUnassignedDeposits ∧ ∀ mismatch, error ≠ .depositWithdrawalAmountMismatch mismatch := by
  obtain ⟨states, reached, pooled, payable⟩ := run_pooled run
  refine ⟨⟨states, reached.loaded, pooled.counted, pooled.denomination, ?_⟩, ?_, ?_⟩
  · intro deposit mem
    exact (reached.bridge.amounts deposit mem).trans pooled.denomination
  · intro record mem intent sent
    have listed : intent ∈ dispatches record.trace.bridgeInbox := List.mem_filterMap.mpr ⟨_, sent, rfl⟩
    simpa [WithdrawalIntent.decompose] using payable record mem intent listed
  · intro claim block auxData inclusionProof error stopped
    have avoids := reached.transition_avoids (fun _ outside isPool => ?_)
      (fun _ aux height _ => pooled.processBlock_pays reached height _ aux) inclusionProof _ stopped
    · constructor
      · rintro rfl
        exact avoids trivial
      · rintro mismatch rfl
        exact avoids trivial
    · obtain ⟨_, rfl⟩ := isPool.failed
      exact outside

end

section

attribute [local instance] sampleAsmLibs

theorem pool_counts_deposits_sample : ∃ first second state, Run sampleParams [first, second] state ∧
    ∃ states, state.subprotocols = some states ∧
      states.checkpoint.deposits.count = states.bridge.deposits.length := by
  obtain ⟨first, second, state, run, -, -⟩ := sample_run
  obtain ⟨⟨states, loaded, counted, -, -⟩, -, -⟩ := pool_counts_deposits sampleParams _ _ run
  exact ⟨first, second, state, run, states, loaded, counted⟩

end
end Asm
