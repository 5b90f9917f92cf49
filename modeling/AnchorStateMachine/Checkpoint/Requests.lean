import AnchorStateMachine.Checkpoint.Queue
import AnchorStateMachine.Common.AuxRequests

/-! The auxiliary data of checkpoint transactions. Requests are made once, against the tip before the
block. While the block is processed the tip only moves forward, so that what a later checkpoint reads
lies in what was requested for it. -/

namespace Asm
namespace Checkpoint
open Outcome

theorem processMsgs_provided {state : CheckpointState} {msgs : List CheckpointIncomingMsg}
    {l1ref : L1BlockCommitment} : Avoids IsAuxMissing (processMsgs state msgs l1ref) := by
  refine foldlM_avoids (fun _ => True) (fun _ _ _ _ _ _ => trivial) (fun msg _ current _ => ?_) trivial
  intro panic halted
  cases msg with
  | depositProcessed amount =>
    cases recordDeposit_error halted
    exact id
  | updateSequencerKey key => cases halted
  | updateCheckpointPredicate predicate =>
    obtain ⟨_, _, rfl⟩ := CheckpointState.queuePredicateTransition_panic halted
    exact id

variable [CheckpointLibs]

/-- What handling a transaction may read is supplied, for tips up to a bound. -/
structure Provided (state : CheckpointState) (bound : Nat) (aux : VerifiedAuxData) (tx : TxInput) :
    Prop where
  spent : tx.tag.txType = olStfCheckpointTxType → ∀ spend, parseCheckpointEnvelope tx = .ok spend →
    verifyEnvelopeKey state.sequencerKey spend = .ok () → (aux.txs spend.spentOutpoint.txid).isSome
  manifests : tx.tag.txType = olStfCheckpointTxType → ∀ spend payload,
    parseCheckpointEnvelope tx = .ok spend → verifyEnvelopeKey state.sequencerKey spend = .ok () →
    decodeCheckpointPayload spend.unverifiedLeaf.payload = .ok payload →
    payload.newTip.l1Height ≤ bound → ∀ height, state.verifiedTip.l1Height < height →
    height ≤ payload.newTip.l1Height → (aux.manifestHashes height).isSome

/-! ### Requests -/

section

variable {state : CheckpointState} {collector : AuxRequestCollector} {aux : VerifiedAuxData}

/-- What is requested for one transaction: nothing, unless its envelope is under the sequencer key;
then the transaction it spends, and the manifests of a payload that moves the tip. -/
theorem preProcessTx_cases (state : CheckpointState) (collector : AuxRequestCollector) (tx : TxInput) :
    (preProcessTx state collector tx = collector ∧ (tx.tag.txType = olStfCheckpointTxType →
      ∀ spend, parseCheckpointEnvelope tx = .ok spend →
        verifyEnvelopeKey state.sequencerKey spend ≠ .ok ())) ∨
    ∃ spend, parseCheckpointEnvelope tx = .ok spend ∧
      ((preProcessTx state collector tx = collector.requestBitcoinTx spend.spentOutpoint.txid ∧
        ∀ payload, decodeCheckpointPayload spend.unverifiedLeaf.payload = .ok payload →
          payload.newTip.l1Height ≤ state.verifiedTip.l1Height) ∨
      ∃ payload, decodeCheckpointPayload spend.unverifiedLeaf.payload = .ok payload ∧
        preProcessTx state collector tx =
          (collector.requestBitcoinTx spend.spentOutpoint.txid).requestManifestHashes
            (state.verifiedTip.l1Height + 1) payload.newTip.l1Height) := by
  unfold preProcessTx requestCheckpointAux
  split
  · split
    · rename_i malformed
      exact .inl ⟨rfl, fun _ spend parsed => by rw [malformed] at parsed; cases parsed⟩
    · rename_i spend parsed
      split
      · rename_i unsigned
        refine .inl ⟨rfl, fun _ other same signed => ?_⟩
        cases parsed.symm.trans same
        rw [unsigned] at signed
        cases signed
      · refine .inr ⟨spend, parsed, ?_⟩
        dsimp only
        split
        · rename_i undecoded
          exact .inl ⟨rfl, fun payload decoded => by rw [undecoded] at decoded; cases decoded⟩
        · rename_i payload decoded
          split
          · exact .inr ⟨payload, decoded, rfl⟩
          · rename_i behind
            refine .inl ⟨rfl, fun other same => ?_⟩
            cases decoded.symm.trans same
            omega
  · rename_i other
    exact .inl ⟨rfl, fun isCheckpoint => absurd isCheckpoint other⟩

theorem preProcessTx_max (tx : TxInput) : (preProcessTx state collector tx).maxResolvableManifestHeight =
    collector.maxResolvableManifestHeight := by
  rcases preProcessTx_cases state collector tx with ⟨none, -⟩ |
    ⟨spend, -, ⟨spent, -⟩ | ⟨payload, -, both⟩⟩
  · rw [none]
  · rw [spent]
    rfl
  · rw [both, AuxRequestCollector.requestManifestHashes_max]
    rfl

theorem preProcessTx_within (within : collector.Within state.verifiedTip.l1Height) (tx : TxInput) :
    (preProcessTx state collector tx).Within state.verifiedTip.l1Height := by
  rcases preProcessTx_cases state collector tx with ⟨none, -⟩ |
    ⟨spend, -, ⟨spent, -⟩ | ⟨payload, -, both⟩⟩
  · rw [none]
    exact within
  · rw [spent]
    exact within
  · rw [both]
    exact AuxRequestCollector.Within.requestManifestHashes within (Nat.lt_succ_self _)

theorem preProcessTxs_within {txs : List TxInput}
    (within : collector.Within state.verifiedTip.l1Height) :
    (preProcessTxs state txs collector).Within state.verifiedTip.l1Height ∧
      (preProcessTxs state txs collector).maxResolvableManifestHeight =
        collector.maxResolvableManifestHeight := by
  unfold preProcessTxs
  induction txs generalizing collector with
  | nil => exact ⟨within, rfl⟩
  | cons tx txs ih =>
    obtain ⟨within, max⟩ := ih (preProcessTx_within within tx)
    exact ⟨within, max.trans (preProcessTx_max tx)⟩

theorem preProcessTx_answered {tx : TxInput}
    (h : (preProcessTx state collector tx).requests.AnsweredBy aux) :
    collector.requests.AnsweredBy aux ∧
      Provided state collector.maxResolvableManifestHeight aux tx := by
  rcases preProcessTx_cases state collector tx with
    ⟨none, unsigned⟩ | ⟨spend, parsed, ⟨spent, behind⟩ | ⟨payload, decoded, both⟩⟩
  · rw [none] at h
    exact ⟨h, fun isCheckpoint spend parsed signed => absurd signed (unsigned isCheckpoint spend parsed),
      fun isCheckpoint spend _ parsed signed => absurd signed (unsigned isCheckpoint spend parsed)⟩
  · rw [spent] at h
    obtain ⟨answered, found⟩ := AuxRequestCollector.requestBitcoinTx_answered h
    refine ⟨answered, fun _ other same _ => ?_,
      fun _ other payload same _ decoded _ height above below => ?_⟩
    · cases parsed.symm.trans same
      exact found
    · cases parsed.symm.trans same
      have still := behind payload decoded
      omega
  · rw [both] at h
    obtain ⟨answered, known⟩ := AuxRequestCollector.requestManifestHashes_answered h
    obtain ⟨answered, found⟩ := AuxRequestCollector.requestBitcoinTx_answered answered
    refine ⟨answered, fun _ other same _ => ?_,
      fun _ other moved same _ its bounded height above below => ?_⟩
    · cases parsed.symm.trans same
      exact found
    · cases parsed.symm.trans same
      cases decoded.symm.trans its
      exact known bounded height above below

theorem preProcessTxs_answered {txs : List TxInput}
    (h : (preProcessTxs state txs collector).requests.AnsweredBy aux) :
    collector.requests.AnsweredBy aux ∧
      ∀ tx ∈ txs, Provided state collector.maxResolvableManifestHeight aux tx := by
  induction txs generalizing collector with
  | nil => exact ⟨h, nofun⟩
  | cons tx txs ih =>
    obtain ⟨answered, rest⟩ := ih h
    rw [preProcessTx_max] at rest
    obtain ⟨answered, first⟩ := preProcessTx_answered answered
    exact ⟨answered, List.forall_mem_cons.mpr ⟨first, rest⟩⟩

end

/-! ### Reads -/

theorem step_tip {state post : CheckpointState} {event : Event} (h : step state event = .ok post) :
    state.verifiedTip.l1Height ≤ post.verifiedTip.l1Height := by
  rcases step_cases h with ⟨-, rfl, -⟩ | ⟨_, _, _, accepted, -, -, accepts, rfl⟩ |
    ⟨_, _, -, -, delivered⟩
  · exact Nat.le_refl _
  · rw [accepts.tip]
    exact (verifyProgression_ok accepts.progression).ascends
  · exact Nat.le_of_eq (congrArg CheckpointTip.l1Height (processMsg_tip delivered)).symm

theorem events_tip {state post : CheckpointState} {events : List Event}
    (h : events.foldlM step state = .ok post) :
    state.verifiedTip.l1Height ≤ post.verifiedTip.l1Height :=
  foldlM_preserves (f := step) (fun current => state.verifiedTip.l1Height ≤ current.verifiedTip.l1Height)
    (fun _ _ _ _ reached stepped => Nat.le_trans reached (step_tip stepped)) (Nat.le_refl _) h

structure Follows (start state : CheckpointState) : Prop where
  sequencerKey : state.sequencerKey = start.sequencerKey
  tip : start.verifiedTip.l1Height ≤ state.verifiedTip.l1Height

section

variable {start state post : CheckpointState} {height : Nat} {aux : VerifiedAuxData} {tx : TxInput}

theorem Follows.step (follows : Follows start state) (h : step state (.tx height aux tx) = .ok post) :
    Follows start post := by
  refine ⟨?_, Nat.le_trans follows.tip (step_tip h)⟩
  rcases step_cases h with ⟨-, rfl, -⟩ | ⟨_, _, _, accepted, -, -, accepts, rfl⟩ | ⟨_, _, isMsg, -, -⟩
  · exact follows.sequencerKey
  · obtain ⟨remaining, -, post⟩ := accepts.covered
    rw [post, CheckpointState.promoteElapsedTransition_sequencerKey]
    exact follows.sequencerKey
  · cases isMsg

theorem parseCheckpointEnvelope_input {spend : SignedEnvelopeSpend}
    (h : parseCheckpointEnvelope tx = .ok spend) : spend.input ∈ tx.tx.input := by
  unfold parseCheckpointEnvelope at h
  split at h
  · cases h
  · rename_i input first
    split at h
    · cases h
    · cases h
      exact List.mem_of_head? first

/-- A transaction that is provided for before the block can be handled at any tip the block reaches.
-/
theorem Provided.handled {panic : Panic} {bound : Nat} (provided : Provided start bound aux tx)
    (follows : Follows start state)
    (spendable : ∀ input ∈ tx.tx.input, ∀ spent, aux.txs input.previousOutput.txid = some spent →
      input.previousOutput.vout < spent.output.length)
    (isCheckpoint : tx.tag.txType = olStfCheckpointTxType)
    (stops : Stops state tx (bound + 1) aux panic) : ¬ IsAuxMissing panic := by
  cases stops with
  | spentOutput parsed signed absent =>
    rw [follows.sequencerKey] at signed
    obtain ⟨output, read⟩ := VerifiedAuxData.getBitcoinTxout_ok
      (provided.spent isCheckpoint _ parsed signed) (spendable _ (parseCheckpointEnvelope_input parsed))
    rw [read] at absent
    cases absent
  | manifests parsed signed decoded progression absent =>
    rw [follows.sequencerKey] at signed
    have progresses := verifyProgression_ok progression
    obtain ⟨ordered, covered⟩ := progresses.range
    have below := progresses.below
    have known := provided.manifests isCheckpoint _ _ parsed signed decoded (by omega)
    obtain ⟨hashes, read⟩ := VerifiedAuxData.getManifestHashes_ok ordered fun height above below =>
      have inside := covered height above below
      known height (Nat.lt_of_le_of_lt follows.tip inside.1) inside.2
    rw [read] at absent
    cases absent
  | depositTotal => exact id

theorem processTxs_provided {txs : List TxInput} {bound : Nat}
    (provided : ∀ tx ∈ txs, Provided start bound aux tx)
    (spendable : ∀ tx ∈ txs, ∀ input ∈ tx.tx.input, ∀ spent,
      aux.txs input.previousOutput.txid = some spent → input.previousOutput.vout < spent.output.length)
    (relayer : MsgRelayer) : Avoids IsAuxMissing (processTxs start txs (bound + 1) aux relayer) := by
  intro panic halted
  have events := processTxs_events start txs (bound + 1) aux relayer
  rw [halted] at events
  obtain ⟨event, mem, state, follows, stopped⟩ := foldlM_error (f := step) (Follows start)
    (fun event mem _ _ follows stepped => by
      obtain ⟨tx, -, rfl⟩ := List.mem_map.mp mem
      exact follows.step stepped) ⟨rfl, Nat.le_refl _⟩ events.symm
  obtain ⟨tx, listed, rfl⟩ := List.mem_map.mp mem
  rcases step_error stopped with ⟨_, _, _, same, isCheckpoint, stops⟩ | ⟨_, _, isMsg, -⟩
  · cases same
    exact (provided tx listed).handled follows (spendable tx listed) isCheckpoint stops
  · cases isMsg

end

end Checkpoint
end Asm
