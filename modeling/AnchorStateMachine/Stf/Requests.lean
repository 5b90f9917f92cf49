import AnchorStateMachine.Bridge.Requests
import AnchorStateMachine.Checkpoint.Requests
import AnchorStateMachine.Common.AuxSound
import AnchorStateMachine.Stf.Reach

/-! The requests of the pre-process stage against the reads of the process stage. -/

namespace Asm
open Outcome

section

variable [AsmLibs] {params : AsmParams} {records : List BlockRecord} {state : AnchorState}
  {states : Subprotocols} {claim : ClaimVersion} {block : Block}

theorem groupTxs_mem {magic : Bytes} {id : Nat} {tx : TxInput}
    (mem : tx ∈ groupTxsBySubprotocol magic block id) : tx.tx ∈ block.txdata.drop 1 := by
  obtain ⟨raw, listed, tagged⟩ := List.mem_filterMap.mp (List.mem_filter.mp mem).1
  obtain ⟨tag, -, rfl⟩ := Option.map_eq_some_iff.mp tagged
  exact listed

theorem preProcessAsm_ok {requests : AuxRequests} (loaded : state.subprotocols = some states)
    (h : preProcessAsm (asmSpec claim) state block = .ok (.ok requests)) :
    ∃ lastHeight, HistoryAccumulator.lastInsertedHeight state.chainView.historyAccumulator =
      .ok lastHeight ∧
      requests = (Bridge.preProcessTxs (groupTxsBySubprotocol state.magic block bridgeSubprotocolId)
        (Checkpoint.preProcessTxs states.checkpoint
          (groupTxsBySubprotocol state.magic block checkpointSubprotocolId)
          (.new lastHeight))).requests := by
  obtain ⟨prepared, took, h⟩ := bind_ok h
  obtain ⟨specId, rfl⟩ := asmSpec_prepare_ok took
  obtain ⟨outcome, _, h⟩ := bind_ok h
  cases outcome with
  | error error => cases pure_ok h
  | ok powState =>
    obtain ⟨manager, load, h⟩ := bind_ok h
    obtain ⟨lastHeight, inserted, h⟩ := bind_ok h
    obtain ⟨collector, collected, h⟩ := bind_ok h
    cases pure_ok h
    refine ⟨lastHeight, inserted, ?_⟩
    cases load.symm.trans (loadSubprotocols_of claim { state with specId } loaded)
    rw [asmSpec_subprotocols] at collected
    cases collected
    rfl

theorem run_lastInsertedHeight (run : Run params records state)
    (prefilled : ∀ leaf count,
      MerkleMountainRange.numEntries (MerkleMountainRange.newRepeated leaf count) = count) :
    HistoryAccumulator.lastInsertedHeight state.chainView.historyAccumulator = .ok state.height := by
  cases run with
  | genesis specId started =>
    obtain ⟨_, -, -, chainView⟩ := genesisState_ok started
    simp only [AnchorState.height, chainView, HistoryAccumulator.lastInsertedHeight,
      HistoryAccumulator.new, prefilled]
    rfl
  | block before processed =>
    have exported := processed.transitions.exported
    rw [exported.inserted, exported.height]
    rfl

theorem Reached.tip (reached : Reached params records state states) :
    params.checkpoint.genesisL1Height ≤ states.checkpoint.verifiedTip.l1Height :=
  Checkpoint.events_tip reached.events

/-- What a block in any order of transactions reads is what was requested for it. -/
theorem Reached.processBlock_provided {powState : HeaderVerificationState} {txs : Nat → List TxInput}
    {aux : VerifiedAuxData} (reached : Reached params records state states)
    (next : powState.lastVerifiedBlock.height = state.height + 1)
    (toCheckpoint : ∀ tx ∈ txs checkpointSubprotocolId,
      Checkpoint.Provided states.checkpoint state.height aux tx)
    (toBridge : ∀ tx ∈ txs bridgeSubprotocolId, Bridge.Provided aux tx)
    (spendable : ∀ id, ∀ tx ∈ txs id, ∀ input ∈ tx.tx.input, ∀ spent,
      aux.txs input.previousOutput.txid = some spent → input.previousOutput.vout < spent.output.length) :
    Avoids IsAuxMissing (processBlock claim powState txs aux states) := by
  intro panic stopped
  cases processBlock_error stopped with
  | admin halted =>
    cases Admin.processTxs_error halted
    exact id
  | checkpointTxs halted =>
    rw [next] at halted
    exact Checkpoint.processTxs_provided toCheckpoint (spendable _) _ panic halted
  | bridgeTxs halted =>
    exact Bridge.processTxs_provided reached.bridge claim toBridge (spendable _) _ _ _ panic halted
  | checkpointMsgs adminRan checkpointRan bridgeRan halted =>
    exact Checkpoint.processMsgs_provided panic halted
  | bridgeMsgs adminRan checkpointRan bridgeRan halted =>
    intro missing
    refine Bridge.processMsgs_avoids (Bridge.processTxs_invariant reached.bridge bridgeRan) _ _
      _ halted ?_
    unfold IsAuxMissing at missing
    split at missing <;> first | exact missing.elim |
      simp [UnexpectedInMsgs, IsMsgPanic, IsMembershipPanic]

/-- Before any block of a run, the requests of the pre-process stage are for manifests between genesis
and the last processed height. Auxiliary data that answers them is all that processing the block
reads, even when each of several accepted checkpoints moves the tip that the next is checked against.
An outpoint that the block spends is one that the transaction of that id has. -/
theorem requests_suffice (params : AsmParams)
    (genesis : params.checkpoint.genesisL1Height = params.anchor.block.height)
    (prefilled : ∀ leaf count,
      MerkleMountainRange.numEntries (MerkleMountainRange.newRepeated leaf count) = count)
    (records : List BlockRecord) (state : AnchorState) (run : Run params records state)
    (claim : ClaimVersion) (block : Block) (requests : AuxRequests)
    (collected : preProcessAsm (asmSpec claim) state block = .ok (.ok requests)) :
    (∀ range ∈ requests.manifestHashes, ∀ height, range.startHeight ≤ height →
      height ≤ range.endHeight → params.anchor.block.height < height ∧ height ≤ state.height) ∧
    ∀ auxData aux, VerifiedAuxData.tryNew auxData state.chainView.historyAccumulator = .ok aux →
      requests.AnsweredBy aux →
      (∀ tx ∈ block.txdata.drop 1, ∀ input ∈ tx.input, ∀ spent,
        aux.txs input.previousOutput.txid = some spent →
        computeTxid spent = input.previousOutput.txid →
          input.previousOutput.vout < spent.output.length) →
      ∀ inclusionProof panic, IsAuxMissing panic →
        computeAsmTransition (asmSpec claim) state block auxData inclusionProof ≠ .error panic := by
  obtain ⟨states, reached⟩ := run_reached run
  obtain ⟨lastHeight, inserted, rfl⟩ := preProcessAsm_ok reached.loaded collected
  cases inserted.symm.trans (run_lastInsertedHeight run prefilled)
  refine ⟨?_, ?_⟩
  · intro range mem height above below
    rw [Bridge.preProcessTxs_manifestHashes] at mem
    have start : (AuxRequestCollector.new state.height).Within
        states.checkpoint.verifiedTip.l1Height := nofun
    obtain ⟨within, max⟩ := Checkpoint.preProcessTxs_within start
    obtain ⟨beyond, ordered, resolvable⟩ := within range mem
    have tip := reached.tip
    rw [max] at resolvable
    dsimp only [AuxRequestCollector.new] at resolvable
    omega
  · intro auxData aux verified answered outpoints inclusionProof panic missing stopped
    obtain ⟨answered, toBridge⟩ := Bridge.preProcessTxs_answered answered
    obtain ⟨-, toCheckpoint⟩ := Checkpoint.preProcessTxs_answered answered
    refine reached.transition_avoids (fun panic outside => ?_) (fun powState other next same => ?_)
      inclusionProof panic stopped missing
    · unfold IsFramePanic at outside
      split at outside <;> first | exact outside.elim | exact id
    · cases verified.symm.trans same
      refine reached.processBlock_provided next toCheckpoint toBridge
        fun id tx mem input spends spent found => ?_
      exact outpoints tx.tx (groupTxs_mem mem) input spends spent found
        (VerifiedAuxData.tryNew_txs verified found).1

end

section

attribute [local instance] sampleAsmLibs

set_option maxRecDepth 8000 in
theorem sample_requests : ∃ genesis first manifest requests aux,
    genesisState sampleParams = .ok genesis ∧
    computeAsmTransition (asmSpec .v1) genesis sampleFirstBlock sampleFirstAux
      (some ⟨0, [.fill 3, .fill 5]⟩) = .ok (.ok ⟨first, manifest⟩) ∧
    preProcessAsm (asmSpec .v1) first sampleSecondBlock = .ok (.ok requests) ∧
    requests = ⟨[⟨2, 2⟩], [.fill 8]⟩ ∧
    VerifiedAuxData.tryNew sampleSecondAux first.chainView.historyAccumulator = .ok aux ∧
    aux.txs (.fill 8) = some ⟨2, 8, [], [⟨0, []⟩, ⟨10, (Buf32.fill 1).bytes⟩]⟩ ∧
    (aux.manifestHashes 2).isSome = true :=
  ⟨_, _, _, _, _, rfl, rfl, rfl, rfl, rfl, rfl, rfl⟩

theorem requests_suffice_sample : ∃ first state, Run sampleParams [first] state ∧
    ∀ inclusionProof panic, IsAuxMissing panic →
      computeAsmTransition (asmSpec .v1) state sampleSecondBlock sampleSecondAux inclusionProof ≠
        .error panic := by
  obtain ⟨genesis, first, manifest, requests, aux, started, ran, collected, rfl, verified, tx, hash⟩ :=
    sample_requests
  obtain ⟨_, _, _, processed⟩ := processes_of_succeeded ran
  have start : Run sampleParams [] genesis := .genesis genesis.specId started
  have run := Run.block start processed
  refine ⟨_, first, run, ?_⟩
  refine (requests_suffice sampleParams rfl (fun _ _ => List.length_replicate) _ _ run .v1 _ _
    collected).2 _ aux verified ⟨?_, ?_⟩ ?_
  · intro txid mem
    cases List.mem_singleton.mp mem
    rw [tx]
    rfl
  · intro range mem height above below
    cases List.mem_singleton.mp mem
    cases Nat.le_antisymm below above
    exact hash
  · intro spender mem input spends spent found _
    cases List.mem_singleton.mp mem
    cases List.mem_singleton.mp spends
    cases tx.symm.trans found
    decide

end
end Asm
