import AnchorStateMachine.Bridge.PanicFreedom
import AnchorStateMachine.Common.AuxRequests

/-! The auxiliary data of bridge transactions: each reads at most one transaction, whose output it
spends. -/

namespace Asm
open Outcome

/-- The output of an earlier transaction that handling this one reads. -/
def ParsedTx.reads : ParsedTx → Option OutPoint
  | .deposit info => some info.drtInpoint
  | .withdrawalFulfillment _ => none
  | .slash info => some info.stakeInpoint
  | .unstake info => some info.stakeInpoint

theorem preprocessParsedTx_answered {parsedTx : ParsedTx} {collector : AuxRequestCollector}
    {aux : VerifiedAuxData} (h : (preprocessParsedTx parsedTx collector).requests.AnsweredBy aux) :
    collector.requests.AnsweredBy aux ∧
      ∀ outpoint, parsedTx.reads = some outpoint → (aux.txs outpoint.txid).isSome := by
  cases parsedTx with
  | withdrawalFulfillment info => exact ⟨h, nofun⟩
  | deposit info | slash info | unstake info =>
    obtain ⟨answered, found⟩ := AuxRequestCollector.requestBitcoinTx_answered h
    refine ⟨answered, fun outpoint read => ?_⟩
    cases read
    exact found

theorem parseSlashTx_input {tx : TxInput} {info : SlashInfo} (h : parseSlashTx tx = .ok info) :
    ∃ input ∈ tx.tx.input, input.previousOutput = info.stakeInpoint := by
  unfold parseSlashTx at h
  split at h
  · cases h
  · split at h
    · cases h
    · rename_i input found
      cases h
      exact ⟨input, List.mem_of_getElem? found, rfl⟩

section

variable [BridgeTxLibs] {tx : TxInput}

theorem parseDepositTx_input {info : DepositInfo} (h : parseDepositTx tx = .ok info) :
    ∃ input ∈ tx.tx.input, input.previousOutput = info.drtInpoint := by
  unfold parseDepositTx at h
  split at h
  · cases h
  · obtain ⟨_, -, h⟩ := bind_ok h
    split at h
    · cases h
    · rename_i input found
      dsimp only at h
      split at h
      · cases h
      · split at h
        · cases h
        · cases h
          exact ⟨input, List.mem_of_getElem? found, rfl⟩

theorem parseUnstakeTx_input {info : UnstakeInfo} (h : parseUnstakeTx tx = .ok info) :
    ∃ input ∈ tx.tx.input, input.previousOutput = info.stakeInpoint := by
  unfold parseUnstakeTx at h
  split at h
  · cases h
  · split at h
    · cases h
    · rename_i input found
      split at h
      · split at h
        · cases h
        · cases h
          exact ⟨input, List.mem_of_getElem? found, rfl⟩
      · cases h

theorem parseTx_reads {parsedTx : ParsedTx} (h : parseTx tx = some parsedTx) {outpoint : OutPoint}
    (read : parsedTx.reads = some outpoint) :
    ∃ input ∈ tx.tx.input, input.previousOutput = outpoint := by
  unfold parseTx at h
  split at h
  · obtain ⟨info, parsed, rfl⟩ := Option.map_eq_some_iff.mp h
    cases read
    exact parseDepositTx_input (toOption_some parsed)
  · obtain ⟨info, -, rfl⟩ := Option.map_eq_some_iff.mp h
    cases read
  · obtain ⟨info, parsed, rfl⟩ := Option.map_eq_some_iff.mp h
    cases read
    exact parseSlashTx_input (toOption_some parsed)
  · obtain ⟨info, parsed, rfl⟩ := Option.map_eq_some_iff.mp h
    cases read
    exact parseUnstakeTx_input (toOption_some parsed)
  · cases h
  · cases h
  · cases h

end

/-! ### Handling -/

section

variable [BridgeLibs] {state : BridgeStateV1} {aux : VerifiedAuxData}

theorem handleDeposit_provided (inv : state.Invariant) {info : DepositInfo} {output : TxOut}
    (provided : aux.getBitcoinTxout info.drtInpoint = .ok output) (relayer : MsgRelayer) :
    Avoids IsAuxMissing (handleDeposit state info aux relayer) := by
  obtain ⟨drtTx, found, -⟩ := bind_ok provided
  unfold handleDeposit
  rw [found]
  dsimp only
  split
  · exact avoids_ok _
  · refine (validateDepositInfo_avoids inv info _).bind fun outcome _ => ?_
    cases outcome with
    | error error => exact avoids_ok _
    | ok _ =>
      refine (addDeposit_avoids inv info).bind fun outcome _ => ?_
      cases outcome with
      | error error => exact avoids_ok _
      | ok _ => exact avoids_ok _

theorem removeOperator_provided (inv : state.Invariant) (operatorIdx : Nat) :
    Avoids IsAuxMissing (state.removeOperator operatorIdx) := by
  refine (applyOperatorSetUpdate_avoids inv [] [operatorIdx]).mono fun panic missing isMembership => ?_
  simp only [IsMembershipPanic, List.mem_cons, List.not_mem_nil, or_false] at isMembership
  rcases isMembership with rfl | rfl | rfl | rfl <;> exact missing

theorem handleRemoval_provided (inv : state.Invariant) {stakeInpoint : OutPoint} {output : TxOut}
    (found : aux.getBitcoinTxout stakeInpoint = .ok output) (operatorIdx : Nat)
    (validate : Bytes → Except BridgeSubprotocolError Unit) (relayer : MsgRelayer) :
    Avoids IsAuxMissing (handleRemoval state stakeInpoint operatorIdx validate aux relayer) := by
  simp only [handleRemoval, found]
  split
  · exact avoids_ok _
  · exact (removeOperator_provided inv _).bind fun _ _ => avoids_ok _

theorem handleParsedTx_provided (inv : state.Invariant) (claim : ClaimVersion) {parsedTx : ParsedTx}
    (provided : ∀ outpoint, parsedTx.reads = some outpoint →
      ∃ output, aux.getBitcoinTxout outpoint = .ok output) (relayer : MsgRelayer) :
    Avoids IsAuxMissing (handleParsedTx claim state parsedTx aux relayer) := by
  cases parsedTx with
  | deposit info =>
    obtain ⟨output, found⟩ := provided _ rfl
    exact handleDeposit_provided inv found relayer
  | withdrawalFulfillment info => exact handleWithdrawalFulfillment_avoids inv claim info relayer
  | slash info =>
    obtain ⟨output, found⟩ := provided _ rfl
    show Avoids IsAuxMissing (handleSlash state info aux relayer)
    exact handleRemoval_provided inv found _ _ relayer
  | unstake info =>
    obtain ⟨output, found⟩ := provided _ rfl
    show Avoids IsAuxMissing (handleUnstake state info aux relayer)
    exact handleRemoval_provided inv found _ _ relayer

end

namespace Bridge

variable [BridgeLibs] {aux : VerifiedAuxData}

def Provided (aux : VerifiedAuxData) (tx : TxInput) : Prop :=
  ∀ parsedTx outpoint, parseTx tx = some parsedTx → parsedTx.reads = some outpoint →
    (aux.txs outpoint.txid).isSome

theorem preProcessTx_answered {collector : AuxRequestCollector} {tx : TxInput}
    (h : (preProcessTx collector tx).requests.AnsweredBy aux) :
    collector.requests.AnsweredBy aux ∧ Provided aux tx := by
  unfold preProcessTx at h
  split at h
  · rename_i parsedTx parsed
    obtain ⟨answered, found⟩ := preprocessParsedTx_answered h
    refine ⟨answered, fun other outpoint same => ?_⟩
    cases parsed.symm.trans same
    exact found outpoint
  · rename_i skipped
    exact ⟨h, fun _ _ parsed => nomatch skipped.symm.trans parsed⟩

theorem preProcessTxs_answered {txs : List TxInput} {collector : AuxRequestCollector}
    (h : (preProcessTxs txs collector).requests.AnsweredBy aux) :
    collector.requests.AnsweredBy aux ∧ ∀ tx ∈ txs, Provided aux tx := by
  induction txs generalizing collector with
  | nil => exact ⟨h, nofun⟩
  | cons tx txs ih =>
    obtain ⟨answered, rest⟩ := ih h
    obtain ⟨answered, first⟩ := preProcessTx_answered answered
    exact ⟨answered, List.forall_mem_cons.mpr ⟨first, rest⟩⟩

theorem preProcessTxs_manifestHashes (txs : List TxInput) (collector : AuxRequestCollector) :
    (preProcessTxs txs collector).requests.manifestHashes = collector.requests.manifestHashes := by
  unfold preProcessTxs
  induction txs generalizing collector with
  | nil => rfl
  | cons tx txs ih =>
    rw [List.foldl_cons, ih]
    unfold preProcessTx
    split
    · rename_i parsedTx _
      cases parsedTx <;> rfl
    · rfl

/-- The transactions of a block find everything that was requested for them. -/
theorem processTxs_provided {state : BridgeStateV1} (inv : state.Invariant) (claim : ClaimVersion)
    {txs : List TxInput} (provided : ∀ tx ∈ txs, Provided aux tx)
    (spendable : ∀ tx ∈ txs, ∀ input ∈ tx.tx.input, ∀ spent,
      aux.txs input.previousOutput.txid = some spent → input.previousOutput.vout < spent.output.length)
    (l1Block : L1BlockCommitment) (accumulatedPow : Nat) (relayer : MsgRelayer) :
    Avoids IsAuxMissing (processTxs claim state txs l1Block accumulatedPow aux relayer) := by
  have loop : Avoids IsAuxMissing (txs.foldlM (processTx claim aux) (state, relayer)) := by
    refine foldlM_avoids (fun current => current.1.Invariant)
      (fun _ _ _ _ inv taken => processTx_invariant inv taken) (fun tx mem current inv => ?_) inv
    obtain ⟨current, relayer⟩ := current
    rw [processTx]
    split
    · exact avoids_ok _
    · rename_i parsedTx parsed
      refine (handleParsedTx_provided inv claim ?_ relayer).bind fun outcome _ => ?_
      · intro outpoint read
        obtain ⟨input, listed, rfl⟩ := parseTx_reads parsed read
        exact VerifiedAuxData.getBitcoinTxout_ok (provided tx mem parsedTx _ parsed read)
          (spendable tx mem input listed)
      · cases outcome with
        | error error => exact avoids_ok _
        | ok processed => exact avoids_ok _
  refine loop.bind fun processed ran => ?_
  have kept : processed.1.Invariant := txs_invariant inv ran
  refine Avoids.bind (fun panic halted => ?_) fun _ _ => avoids_ok _
  rcases reassignExpired_error kept halted with ⟨_, rfl⟩ | rfl
  · exact id
  · exact id

end Bridge
end Asm
