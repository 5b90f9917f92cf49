import AnchorStateMachine.Checkpoint.Governance
import AnchorStateMachine.Stf.Reach

/-! The predicate queue of the checkpoint subprotocol along a run of the whole state machine. -/

namespace Asm
open Outcome Checkpoint

section

variable [AsmLibs]

def checkpointVisits (params : AsmParams) (records : List BlockRecord) :
    List (Visit CheckpointState Event) :=
  visits step (.init params.checkpoint) (records.flatMap (·.checkpointEvents))

section

variable {params : AsmParams} {records : List BlockRecord} {state : AnchorState} {states : Subprotocols}
  (genesis : params.checkpoint.genesisL1Height ≤ params.anchor.block.height)
  (reached : Reached params records state states)

include genesis reached

theorem Reached.ordered : states.checkpoint.Ordered state.height :=
  events_ordered reached.schedule (CheckpointState.init_ordered genesis) reached.events

theorem Reached.processBlock_avoids {claim : ClaimVersion} {powState : HeaderVerificationState}
    (next : powState.lastVerifiedBlock.height = state.height + 1) (txs : Nat → List TxInput)
    (aux : VerifiedAuxData) : Avoids IsOrderPanic (processBlock claim powState txs aux states) := by
  intro panic stopped isOrder
  have ordered := reached.ordered genesis
  have txsEvents := processTxs_events states.checkpoint (txs checkpointSubprotocolId)
    powState.lastVerifiedBlock.height aux .new
  rw [next] at txsEvents
  have scheduled := scheduled_txs state.height aux (txs checkpointSubprotocolId)
  cases processBlock_error stopped with
  | admin halted =>
    obtain ⟨_, _, rfl⟩ := isOrder
    cases Admin.processTxs_error halted
  | checkpointTxs halted =>
    rw [next] at halted
    rw [halted] at txsEvents
    exact events_avoid scheduled ordered panic txsEvents.symm isOrder
  | bridgeTxs halted =>
    obtain ⟨_, _, rfl⟩ := isOrder
    refine Bridge.processTxs_avoids reached.bridge _ _ _ _ _ _ _ halted ?_
    simp [UnexpectedInTxs, IsTxPanic, IsMembershipPanic]
  | checkpointMsgs adminRan checkpointRan bridgeRan halted =>
    rw [next] at adminRan checkpointRan
    rw [checkpointRan] at txsEvents
    obtain ⟨-, -, updates, enacted, single⟩ := Admin.processTxs_staggered reached.staggered adminRan
    obtain ⟨count, reports⟩ := Bridge.processTxs_reports bridgeRan
    rw [← predicateUpdates_inbox enacted reports] at single
    rw [processMsgs_events] at halted
    exact events_avoid (scheduled_msgs next single) (events_ordered scheduled ordered txsEvents.symm)
      panic halted isOrder
  | bridgeMsgs adminRan checkpointRan bridgeRan halted =>
    obtain ⟨_, _, rfl⟩ := isOrder
    refine Bridge.processMsgs_avoids (Bridge.processTxs_invariant reached.bridge bridgeRan) _ _
      _ halted ?_
    simp [UnexpectedInMsgs, IsMsgPanic, IsMembershipPanic]

end

/-- In every run, with any delays, a block enacts at most one OL verifying key and the checkpoint
subprotocol queues them at ascending heights. At the end of each block the pending ones ascend, are
few, and lie beyond the verified tip; a checkpoint activates at most one of them and leaves none
behind that its tip has reached. The assertion of the queue never fires. -/
theorem predicate_queue_safe (params : AsmParams)
    (genesis : params.checkpoint.genesisL1Height ≤ params.anchor.block.height)
    (records : List BlockRecord) (state : AnchorState) (run : Run params records state) :
    (∀ record ∈ records, ∃ updates, record.trace.adminRelayer.Enacted updates ∧
      (olKeys updates).length ≤ 1) ∧
    (queuedTransitions (records.flatMap (·.checkpointEvents))).Pairwise (·.boundary < ·.boundary) ∧
    (∀ claim block auxData inclusionProof last next,
      computeAsmTransition (asmSpec claim) state block auxData inclusionProof ≠
        .error (.predicateBoundaryNotIncreasing last next)) ∧
    (∃ states, state.subprotocols = some states ∧ states.checkpoint.Ordered state.height) ∧
    ∀ visit ∈ checkpointVisits params records, Promotes visit := by
  obtain ⟨states, reached⟩ := run_reached run
  refine ⟨?_, (queuedTransitions_ordered reached.schedule).1, ?_,
    ⟨states, reached.loaded, reached.ordered genesis⟩,
    events_promote reached.schedule (CheckpointState.init_ordered genesis) reached.events⟩
  · intro record mem
    obtain ⟨updates, enacted, single, -⟩ := reached.enacted record mem
    exact ⟨updates, enacted, single⟩
  · intro claim block auxData inclusionProof last next stopped
    refine reached.transition_avoids ?_ (fun _ aux height _ => reached.processBlock_avoids genesis
      height _ aux)
      inclusionProof _ stopped ⟨last, next, rfl⟩
    rintro _ outside ⟨_, _, rfl⟩
    exact outside

end

section

attribute [local instance] sampleAsmLibs

theorem predicate_queue_safe_sample : ∃ first second state, Run sampleParams [first, second] state ∧
    (∃ states, state.subprotocols = some states ∧ states.checkpoint.Ordered state.height) ∧
    ∀ visit ∈ checkpointVisits sampleParams [first, second], Promotes visit := by
  obtain ⟨first, second, state, run, -, -⟩ := sample_run
  obtain ⟨-, -, -, ordered, promotes⟩ := predicate_queue_safe sampleParams (by decide) _ _ run
  exact ⟨first, second, state, run, ordered, promotes⟩

end

section

variable [AsmLibs]

/-- In every run the proof of an accepted checkpoint is verified under the key that governs each
height it covers, or the next height if it covers none, and after every step the active predicate is
the key that governs the height after the tip. Keys are those of the transitions no full queue has
dropped in the whole run, and every height has one. -/
theorem governing_key (params : AsmParams)
    (genesis : params.checkpoint.genesisL1Height ≤ params.anchor.block.height)
    (records : List BlockRecord) (state : AnchorState) (run : Run params records state) :
    (∃ states, state.subprotocols = some states ∧
      (records.flatMap (·.checkpointEvents)).foldlM step (.init params.checkpoint) =
        .ok states.checkpoint) ∧
    (∀ visit ∈ checkpointVisits params records, GovernedVisit params.checkpoint.checkpointPredicate
      (Survives (checkpointVisits params records)) visit) ∧
    ∀ height key other,
      Governs params.checkpoint.checkpointPredicate (Survives (checkpointVisits params records))
        height key →
      Governs params.checkpoint.checkpointPredicate (Survives (checkpointVisits params records))
        height other → key = other := by
  obtain ⟨states, reached⟩ := run_reached run
  refine ⟨⟨states, reached.loaded, reached.events⟩,
    (events_governed genesis reached.schedule reached.events).visits,
    fun height key other governs also => ?_⟩
  refine governs.unique (fun first second survives others => survives_distinct ?_ survives others) also
  have inputs : (checkpointVisits params records).map Visit.input = _ := visits_input reached.events
  rw [inputs]
  exact (queuedTransitions_ordered reached.schedule).1

end

section

attribute [local instance] sampleAsmLibs

theorem governing_key_sample : ∃ first second state, Run sampleParams [first, second] state ∧
    ∀ visit ∈ checkpointVisits sampleParams [first, second], GovernedVisit ⟨0, []⟩
      (Survives (checkpointVisits sampleParams [first, second])) visit := by
  obtain ⟨first, second, state, run, -, -⟩ := sample_run
  exact ⟨first, second, state, run, (governing_key sampleParams (by decide) _ _ run).2.1⟩

end
end Asm
