import AnchorStateMachine.Common.AuxSound
import AnchorStateMachine.Stf.Reach

/-! The state transition does not depend on its prover. Auxiliary data that is missing halts it, and
of what is supplied it reads only what the history and the txids commit to. -/

namespace Asm
open Outcome

/-! ### Checkpoints -/

section

variable [CheckpointLibs] {aux aux' : VerifiedAuxData}

theorem coveredManifestsHash_agree (consistent : aux.Consistent aux') (coverage : CheckpointL1Range) :
    Agree (coveredManifestsHash coverage aux) (coveredManifestsHash coverage aux') := by
  unfold coveredManifestsHash
  cases coverage with
  | empty => exact agree_refl _
  | range startHeight endHeight =>
    have hashes := consistent.getManifestHashes startHeight endHeight
    dsimp only
    split
    · exact agree_error _
    · rename_i found
      split
      · exact agree_error_right _
      · rename_i found'
        rw [hashes _ _ found found']
        exact agree_refl _

theorem acceptPayload_agree (consistent : aux.Consistent aux') (state : CheckpointState)
    (payload : CheckpointPayload) (height : Nat) :
    Agree (acceptPayload state payload height aux) (acceptPayload state payload height aux') := by
  unfold acceptPayload
  split
  · exact agree_refl _
  · exact (coveredManifestsHash_agree consistent _).bind fun _ => agree_refl _

theorem acceptCheckpoint_agree (consistent : aux.Consistent aux') (state : CheckpointState)
    (tx : TxInput) (height : Nat) :
    Agree (acceptCheckpoint state tx height aux) (acceptCheckpoint state tx height aux') := by
  unfold acceptCheckpoint
  split
  · exact agree_refl _
  · rename_i spend _
    unfold authenticateCheckpointEnvelope
    cases verifyEnvelopeKey state.sequencerKey spend with
    | error error => cases error <;> exact agree_refl _
    | ok signed =>
      have outputs := consistent.getBitcoinTxout spend.spentOutpoint
      cases found : aux.getBitcoinTxout spend.spentOutpoint with
      | error error => exact agree_error _
      | ok output =>
        cases found' : aux'.getBitcoinTxout spend.spentOutpoint with
        | error error => exact agree_error_right _
        | ok output' =>
          cases outputs output output' found found'
          simp only [ok_bind, Except.mapError]
          split
          · exact agree_refl _
          · exact agree_refl _
          · split
            · exact agree_refl _
            · exact acceptPayload_agree consistent state _ height

theorem Checkpoint.processTxs_agree (consistent : aux.Consistent aux') (state : CheckpointState)
    (txs : List TxInput) (height : Nat) (relayer : MsgRelayer) :
    Agree (Checkpoint.processTxs state txs height aux relayer)
      (Checkpoint.processTxs state txs height aux' relayer) := by
  refine foldlM_agree (fun current tx => ?_) txs _
  obtain ⟨current, relayer⟩ := current
  simp only [Checkpoint.processTx]
  split
  · exact (acceptCheckpoint_agree consistent current tx height).bind fun _ => agree_refl _
  · exact agree_refl _

end

/-! ### The bridge -/

section

variable [BridgeLibs] {aux aux' : VerifiedAuxData}

theorem parseDrt_congr {tx tx' : Transaction} (same : tx.output = tx'.output) :
    parseDrt tx = parseDrt tx' := by
  unfold parseDrt boundedOutput
  rw [same]

theorem handleDeposit_agree (consistent : aux.Consistent aux') (state : BridgeStateV1)
    (info : DepositInfo) (relayer : MsgRelayer) :
    Agree (handleDeposit state info aux relayer) (handleDeposit state info aux' relayer) := by
  unfold handleDeposit
  cases found : aux.getBitcoinTx info.drtInpoint.txid with
  | error error => exact agree_error _
  | ok drtTx =>
    cases found' : aux'.getBitcoinTx info.drtInpoint.txid with
    | error error => exact agree_error_right _
    | ok drtTx' =>
      dsimp only
      rw [parseDrt_congr (consistent.output found found')]
      exact agree_refl _

theorem handleRemoval_agree (consistent : aux.Consistent aux') (state : BridgeStateV1)
    (stakeInpoint : OutPoint) (operatorIdx : Nat)
    (validate : Bytes → Except BridgeSubprotocolError Unit) (relayer : MsgRelayer) :
    Agree (handleRemoval state stakeInpoint operatorIdx validate aux relayer)
      (handleRemoval state stakeInpoint operatorIdx validate aux' relayer) := by
  unfold handleRemoval
  cases found : aux.getBitcoinTxout stakeInpoint with
  | error error => exact agree_error _
  | ok stakeConnector =>
    cases found' : aux'.getBitcoinTxout stakeInpoint with
    | error error => exact agree_error_right _
    | ok stakeConnector' =>
      cases consistent.getBitcoinTxout _ _ _ found found'
      exact agree_refl _

theorem handleParsedTx_agree (consistent : aux.Consistent aux') (claim : ClaimVersion)
    (state : BridgeStateV1) (parsedTx : ParsedTx) (relayer : MsgRelayer) :
    Agree (handleParsedTx claim state parsedTx aux relayer)
      (handleParsedTx claim state parsedTx aux' relayer) := by
  cases parsedTx with
  | deposit info => exact handleDeposit_agree consistent state info relayer
  | withdrawalFulfillment info => exact agree_refl _
  | slash info =>
    show Agree (handleSlash state info aux relayer) (handleSlash state info aux' relayer)
    exact handleRemoval_agree consistent state _ _ _ relayer
  | unstake info =>
    show Agree (handleUnstake state info aux relayer) (handleUnstake state info aux' relayer)
    exact handleRemoval_agree consistent state _ _ _ relayer

theorem Bridge.processTxs_agree (consistent : aux.Consistent aux') (claim : ClaimVersion)
    (state : BridgeStateV1) (txs : List TxInput) (l1Block : L1BlockCommitment) (accumulatedPow : Nat)
    (relayer : MsgRelayer) :
    Agree (Bridge.processTxs claim state txs l1Block accumulatedPow aux relayer)
      (Bridge.processTxs claim state txs l1Block accumulatedPow aux' relayer) := by
  refine Agree.bind (foldlM_agree (fun current tx => ?_) txs _) fun _ => agree_refl _
  obtain ⟨current, relayer⟩ := current
  simp only [Bridge.processTx]
  split
  · exact agree_refl _
  · exact (handleParsedTx_agree consistent claim current _ relayer).bind fun _ => agree_refl _

end

/-! ### Transitions -/

section

variable [AsmLibs] {aux aux' : VerifiedAuxData}

theorem runSubprotocols_agree (consistent : aux.Consistent aux') (spec : AsmSpec)
    (manager : SubprotoManager) (powState : HeaderVerificationState) (txs : Nat → List TxInput) :
    Agree (runSubprotocols spec manager powState txs aux)
      (runSubprotocols spec manager powState txs aux') := by
  refine Agree.bind (foldlM_agree (fun current kind => ?_) _ _) fun _ => agree_refl _
  cases kind with
  | admin => exact agree_refl _
  | checkpoint =>
    simp only [SubprotoManager.processTxs]
    split
    · exact agree_refl _
    · exact (Checkpoint.processTxs_agree consistent _ _ _ _).bind fun _ => agree_refl _
  | bridge claim =>
    simp only [SubprotoManager.processTxs]
    split
    · exact agree_refl _
    · exact (Bridge.processTxs_agree consistent claim _ _ _ _ _).bind fun _ => agree_refl _

theorem checkBlockIntegrity_agree (block : Block) (proof proof' : Option TxidInclusionProof) :
    Agree (checkBlockIntegrity block proof) (checkBlockIntegrity block proof') := by
  unfold checkBlockIntegrity
  split
  · exact agree_refl _
  · split
    · exact agree_refl _
    · split
      · -- The proof is checked, but the root is that of the body.
        cases proof with
        | none => exact agree_error _
        | some proof =>
          cases proof' with
          | none => exact agree_error_right _
          | some proof' =>
            refine (agree_refl _).bind fun nonce => (agree_refl _).bind fun witnessRoot => ?_
            dsimp only
            split
            · exact agree_refl _
            · split
              · exact agree_error _
              · split
                · exact agree_error_right _
                · exact agree_refl _
      · exact agree_refl _

theorem checkBlock_agree {leaves : Mmr → List Buf32} (sound : MmrSound leaves) {pre : AnchorState}
    {block : Block} {auxData auxData' : AuxData} {proof proof' : Option TxidInclusionProof}
    (commit : TxidsCommit (auxData.bitcoinTxs ++ auxData'.bitcoinTxs))
    {checked checked' : Buf32 × HeaderVerificationState × VerifiedAuxData}
    (h : checkBlock pre block auxData proof = .ok (.ok checked))
    (h' : checkBlock pre block auxData' proof' = .ok (.ok checked')) :
    checked.1 = checked'.1 ∧ checked.2.1 = checked'.2.1 ∧ checked.2.2.Consistent checked'.2.2 := by
  obtain ⟨root, header, verified⟩ := checkBlock_ok h
  obtain ⟨root', header', verified'⟩ := checkBlock_ok h'
  refine ⟨checkBlockIntegrity_agree block proof proof' _ _ root root', ?_, ?_⟩
  · exact Except.ok.inj (Except.ok.inj (header.symm.trans header'))
  · exact VerifiedAuxData.tryNew_consistent sound commit verified verified'

/-- Two provers that both get a block accepted by a ruleset get the same state and the same manifest,
whatever auxiliary data and inclusion proof each of them supplies. -/
theorem prover_independent (leaves : Mmr → List Buf32) (sound : MmrSound leaves) (spec : AsmSpec)
    (pre : AnchorState) (block : Block) (auxData auxData' : AuxData)
    (commit : TxidsCommit (auxData.bitcoinTxs ++ auxData'.bitcoinTxs))
    (proof proof' : Option TxidInclusionProof) (output output' : AsmStfOutput)
    (h : computeAsmTransition spec pre block auxData proof = .ok (.ok output))
    (h' : computeAsmTransition spec pre block auxData' proof' = .ok (.ok output')) :
    output = output' := by
  obtain ⟨prepared, took, h⟩ := bind_ok h
  obtain ⟨prepared', took', h'⟩ := bind_ok h'
  cases took.symm.trans took'
  obtain ⟨outcome, checked, h⟩ := bind_ok h
  obtain ⟨outcome', checked', h'⟩ := bind_ok h'
  cases outcome with
  | error error => cases pure_ok h
  | ok outcome =>
    cases outcome' with
    | error error => cases pure_ok h'
    | ok outcome' =>
      obtain ⟨root, powState, aux⟩ := outcome
      obtain ⟨root', powState', aux'⟩ := outcome'
      obtain ⟨sameRoot, samePow, consistent⟩ := checkBlock_agree sound commit checked checked'
      dsimp only at sameRoot samePow consistent h h'
      subst sameRoot samePow
      have agree := Agree.bind (agree_refl (loadSubprotocols spec prepared)) fun manager =>
        (runSubprotocols_agree consistent spec manager powState
          (groupTxsBySubprotocol prepared.magic block)).bind fun manager =>
            agree_refl (exportOutput spec prepared powState root manager)
      exact Except.ok.inj (agree _ _ h h')

end

section

attribute [local instance] sampleAsmLibs

/-- What the second block needs, with a repeated hash, a transaction nobody asked for and a proof that
proves nothing. -/
def sampleOtherAux : AuxData := ⟨[⟨.fill 2, (2 : Nat)⟩, ⟨.fill 2, (2 : Nat)⟩], [[9], [8]]⟩

set_option maxRecDepth 8000 in
theorem sample_provers : ∃ genesis first manifest output output',
    genesisState sampleParams = .ok genesis ∧
    computeAsmTransition (asmSpec .v1) genesis sampleFirstBlock sampleFirstAux
      (some ⟨0, [.fill 3, .fill 5]⟩) = .ok (.ok ⟨first, manifest⟩) ∧
    computeAsmTransition (asmSpec .v1) first sampleSecondBlock sampleSecondAux none = .ok (.ok output) ∧
    computeAsmTransition (asmSpec .v1) first sampleSecondBlock sampleOtherAux (some ⟨3, []⟩) =
      .ok (.ok output') :=
  ⟨_, _, _, _, _, rfl, rfl, rfl, rfl⟩

theorem sample_commit : TxidsCommit (sampleSecondAux.bitcoinTxs ++ sampleOtherAux.bitcoinTxs) := by
  intro raw mem raw' mem' tx tx' decoded decoded' id
  simp only [sampleSecondAux, sampleOtherAux, List.cons_append, List.nil_append, List.mem_cons,
    List.not_mem_nil, or_false] at mem mem'
  rcases mem with rfl | rfl | rfl <;> rcases mem' with rfl | rfl | rfl <;> cases decoded <;>
    cases decoded' <;> first | rfl | exact absurd id (by decide)

theorem prover_independent_sample : ∃ first output output',
    computeAsmTransition (asmSpec .v1) first sampleSecondBlock sampleSecondAux none = .ok (.ok output) ∧
    computeAsmTransition (asmSpec .v1) first sampleSecondBlock sampleOtherAux (some ⟨3, []⟩) =
      .ok (.ok output') ∧ output = output' := by
  obtain ⟨genesis, first, manifest, output, output', -, -, ran, ran'⟩ := sample_provers
  refine ⟨first, output, output', ran, ran', ?_⟩
  have sound : MmrSound (fun mmr : Mmr => (mmr : List Buf32)) :=
    fun _ _ _ verified => of_decide_eq_true verified
  exact prover_independent _ sound (asmSpec .v1) first sampleSecondBlock _ _ sample_commit _ _
    _ _ ran ran'

end
end Asm
