import AnchorStateMachine.Checkpoint.Pool

/-! The two decisions a checkpoint transaction depends on: whether the pool covers its withdrawals,
and whether it is accepted at all. -/

namespace Asm
open Outcome

/-! ### Coverage -/

namespace WithdrawalIntent

variable {denomination : Nat} {intent : WithdrawalIntent}

theorem denominationUnits_eq_some_iff {units : Nat} :
    intent.denominationUnits denomination = some units ↔
    denomination ≠ 0 ∧ intent.amt = units * denomination := by
  unfold denominationUnits
  split
  · rename_i unusable
    refine iff_of_false nofun ?_
    rintro ⟨priced, amount⟩
    exact unusable.elim priced fun indivisible => indivisible (amount ▸ Nat.dvd_mul_left _ _)
  · rename_i usable
    obtain ⟨priced, divides⟩ := not_or.mp usable
    rw [not_not] at divides
    rw [Option.some.injEq]
    constructor
    · rintro rfl
      exact ⟨priced, (Nat.div_mul_cancel divides).symm⟩
    · rintro ⟨-, amount⟩
      rw [amount, Nat.mul_div_cancel _ (Nat.pos_of_ne_zero priced)]

theorem length_decompose : ((intent.decompose denomination).getD []).length =
    (intent.denominationUnits denomination).getD 0 := by
  unfold decompose
  cases intent.denominationUnits denomination with
  | none => rfl
  | some units => exact List.length_replicate

end WithdrawalIntent

namespace DepositPool

variable {denomination : Nat} {intents : List WithdrawalIntent}

theorem addUnits_ok {intent : WithdrawalIntent} {required next : Option Nat}
    (h : addUnits denomination required intent = .ok next) :
    ∃ units, 0 < units ∧ intent.denominationUnits denomination = some units := by
  unfold addUnits at h
  split at h
  · cases h
  · rename_i units counted
    obtain ⟨whole, positive⟩ := Option.filter_eq_some_iff.mp counted
    exact ⟨units, of_decide_eq_true positive, whole⟩

theorem addUnits_fold_ok {start required : Option Nat}
    (h : intents.foldlM (addUnits denomination) start = .ok required) :
    ∀ intent ∈ intents, ∃ units, 0 < units ∧ intent.denominationUnits denomination = some units := by
  induction intents generalizing start with
  | nil => exact nofun
  | cons intent intents ih =>
    rw [List.foldlM_cons] at h
    obtain ⟨next, added, h⟩ := bind_ok h
    exact List.forall_mem_cons.mpr ⟨addUnits_ok added, ih h⟩

theorem addUnits_fold_eq {base : Nat}
    (whole : ∀ intent ∈ intents, ∃ units, 0 < units ∧ intent.denominationUnits denomination = some units)
    (small : base + totalUnits denomination intents < 2 ^ 64) :
    intents.foldlM (addUnits denomination) (some base) =
      .ok (some (base + totalUnits denomination intents)) := by
  induction intents generalizing base with
  | nil => rfl
  | cons intent intents ih =>
    obtain ⟨units, positive, isUnits⟩ := whole intent (.head _)
    have total : totalUnits denomination (intent :: intents) =
        units + totalUnits denomination intents := by
      simp [totalUnits, isUnits]
    rw [total] at small ⊢
    have added : addUnits denomination (some base) intent = .ok (some (base + units)) := by
      unfold addUnits
      rw [isUnits, Option.filter_some, if_pos (decide_eq_true positive)]
      dsimp only
      rw [Option.bind_some, checkedAddU64, if_pos (by omega)]
    rw [List.foldlM_cons, added, ok_bind, ih (fun other mem => whole other (.tail _ mem)) (by omega),
      Nat.add_assoc]

/-- A pool within the money supply decides about any list of withdrawals without a panic. -/
theorem verifyWithdrawals_returns {pool : DepositPool}
    (supply : pool.count * pool.denomination ≤ maxMoneySat) (intents : List WithdrawalIntent) :
    ∃ outcome, pool.verifyWithdrawals intents = .ok outcome := by
  unfold verifyWithdrawals
  split
  · exact ⟨_, rfl⟩
  · split
    · exact ⟨_, rfl⟩
    · split
      · exact ⟨_, rfl⟩
      · split
        · exact ⟨_, rfl⟩
        · rw [total, if_pos (by rw [Nat.mul_comm]; exact supply)]
          exact ⟨_, rfl⟩

theorem verifyWithdrawals_whole {pool : DepositPool} {remaining : Nat}
    (h : pool.verifyWithdrawals intents = .ok (.ok remaining)) :
    ∀ intent ∈ intents, ∃ units, 0 < units ∧
      intent.denominationUnits pool.denomination = some units := by
  unfold verifyWithdrawals at h
  split at h
  · rename_i empty
    rw [List.isEmpty_iff.mp empty]
    exact nofun
  · split at h
    · obtain ⟨_, _, h⟩ := bind_ok (pure_ok h)
      cases h
    · split at h
      · cases pure_ok h
      · rename_i summed
        exact addUnits_fold_ok summed

theorem verifyWithdrawals_covers {pool : DepositPool}
    (whole : ∀ intent ∈ intents, ∃ units, 0 < units ∧
      intent.denominationUnits pool.denomination = some units)
    (enough : totalUnits pool.denomination intents ≤ pool.count) (small : pool.count < 2 ^ 64) :
    pool.verifyWithdrawals intents = .ok (.ok (pool.count - totalUnits pool.denomination intents)) := by
  cases intents with
  | nil => rfl
  | cons intent intents =>
    obtain ⟨units, positive, isUnits⟩ := whole intent (.head _)
    have drawn : 0 < totalUnits pool.denomination (intent :: intents) := by
      simp only [totalUnits, List.map_cons, isUnits, Option.getD_some, List.sum_cons]
      omega
    have bounded : 0 + totalUnits pool.denomination (intent :: intents) < 2 ^ 64 := by omega
    have summed := addUnits_fold_eq whole bounded
    rw [Nat.zero_add] at summed
    unfold verifyWithdrawals
    rw [if_neg (by simp), if_neg (by omega), summed]
    dsimp only
    rw [Option.filter_some, if_pos (decide_eq_true enough)]
    rfl

end DepositPool

theorem totalUnits_eq_div {denomination : Nat} {intents : List WithdrawalIntent}
    (priced : denomination ≠ 0)
    (whole : ∀ intent ∈ intents, ∃ units, 0 < units ∧ intent.amt = units * denomination) :
    totalUnits denomination intents = (intents.map (·.amt / denomination)).sum := by
  refine congrArg List.sum (List.map_congr_left fun intent mem => ?_)
  obtain ⟨units, -, amount⟩ := whole intent mem
  rw [WithdrawalIntent.denominationUnits_eq_some_iff.mpr ⟨priced, amount⟩, amount,
    Nat.mul_div_cancel _ (Nat.pos_of_ne_zero priced), Option.getD_some]

theorem length_flatMap_decompose (denomination : Nat) (intents : List WithdrawalIntent) :
    (intents.flatMap fun intent => (intent.decompose denomination).getD []).length =
      totalUnits denomination intents := by
  rw [List.length_flatMap]
  exact congrArg List.sum (List.map_congr_left fun intent _ => intent.length_decompose)

/-- The pool covers a list of withdrawals exactly if each is a positive multiple of the denomination
and the multiples add up to no more than its deposits. The deposits it then gives up are those the
bridge assigns. A pool that was never used covers nothing. -/
theorem withdrawals_covered_iff (pool : DepositPool) (intents : List WithdrawalIntent) :
    (pool.denomination ≠ 0 → pool.count * pool.denomination ≤ maxMoneySat →
      ∃ outcome, pool.verifyWithdrawals intents = .ok outcome ∧
        ((∃ remaining, outcome = .ok remaining) ↔
          (∀ intent ∈ intents, ∃ units, 0 < units ∧ intent.amt = units * pool.denomination) ∧
          (intents.map (·.amt / pool.denomination)).sum ≤ pool.count) ∧
        ∀ remaining, outcome = .ok remaining →
          pool.applyWithdrawals remaining =
            ⟨pool.denomination, pool.count - (intents.map (·.amt / pool.denomination)).sum⟩ ∧
          (intents.flatMap fun intent => (intent.decompose pool.denomination).getD []).length =
            (intents.map (·.amt / pool.denomination)).sum) ∧
    (pool.denomination = 0 → ∃ outcome, pool.verifyWithdrawals intents = .ok outcome ∧
      ((∃ remaining, outcome = .ok remaining) ↔ intents = [])) := by
  constructor
  · intro priced supply
    obtain ⟨outcome, returned⟩ := DepositPool.verifyWithdrawals_returns supply intents
    have passes : ∀ remaining, outcome = .ok remaining →
        (∀ intent ∈ intents, ∃ units, 0 < units ∧ intent.amt = units * pool.denomination) ∧
        remaining + totalUnits pool.denomination intents = pool.count := by
      rintro remaining rfl
      refine ⟨fun intent mem => ?_, (verifyWithdrawals_ok returned).2⟩
      obtain ⟨units, positive, isUnits⟩ := DepositPool.verifyWithdrawals_whole returned intent mem
      exact ⟨units, positive, (WithdrawalIntent.denominationUnits_eq_some_iff.mp isUnits).2⟩
    refine ⟨outcome, returned, ⟨?_, ?_⟩, ?_⟩
    · rintro ⟨remaining, isOk⟩
      obtain ⟨whole, counted⟩ := passes remaining isOk
      rw [totalUnits_eq_div priced whole] at counted
      exact ⟨whole, by omega⟩
    · rintro ⟨whole, enough⟩
      have small : pool.count < 2 ^ 64 := by
        have count : pool.count * 1 ≤ pool.count * pool.denomination :=
          Nat.mul_le_mul_left _ (Nat.pos_of_ne_zero priced)
        have supplied : maxMoneySat = 2100000000000000 := rfl
        omega
      rw [← totalUnits_eq_div priced whole] at enough
      have covered := DepositPool.verifyWithdrawals_covers (fun intent mem => by
        obtain ⟨units, positive, amount⟩ := whole intent mem
        exact ⟨units, positive, WithdrawalIntent.denominationUnits_eq_some_iff.mpr
          ⟨priced, amount⟩⟩) enough small
      exact ⟨_, Except.ok.inj (returned.symm.trans covered)⟩
    · intro remaining isOk
      obtain ⟨whole, counted⟩ := passes remaining isOk
      rw [length_flatMap_decompose, ← totalUnits_eq_div priced whole]
      refine ⟨?_, rfl⟩
      rw [DepositPool.applyWithdrawals, ← counted, Nat.add_sub_cancel]
  · intro unset
    have worthless : pool.count * pool.denomination ≤ maxMoneySat := by simp [unset]
    obtain ⟨outcome, returned⟩ := DepositPool.verifyWithdrawals_returns worthless intents
    refine ⟨outcome, returned, ?_, ?_⟩
    · rintro ⟨remaining, rfl⟩
      exact payable_zero (unset ▸ (verifyWithdrawals_ok returned).1)
    · rintro rfl
      cases returned
      exact ⟨_, rfl⟩

/-- Two deposits of ten cover withdrawals of ten and ten, but not of ten and twenty. -/
theorem withdrawals_covered_iff_sample :
    (∃ remaining, DepositPool.verifyWithdrawals ⟨10, 2⟩ [⟨⟨[4]⟩, 10, .any⟩, ⟨⟨[5]⟩, 10, .any⟩] =
      .ok (.ok remaining)) ∧
    ¬ ∃ remaining, DepositPool.verifyWithdrawals ⟨10, 2⟩ [⟨⟨[4]⟩, 10, .any⟩, ⟨⟨[5]⟩, 20, .any⟩] =
      .ok (.ok remaining) := by
  constructor
  · obtain ⟨outcome, returned, covered, -⟩ :=
      (withdrawals_covered_iff ⟨10, 2⟩ [⟨⟨[4]⟩, 10, .any⟩, ⟨⟨[5]⟩, 10, .any⟩]).1 (by decide) (by decide)
    obtain ⟨remaining, rfl⟩ := covered.mpr ⟨fun intent mem => ⟨1, by decide, by
      rcases List.mem_pair.mp mem with rfl | rfl <;> rfl⟩, by decide⟩
    exact ⟨remaining, returned⟩
  · rintro ⟨remaining, returned⟩
    obtain ⟨outcome, returned', covered, -⟩ :=
      (withdrawals_covered_iff ⟨10, 2⟩ [⟨⟨[4]⟩, 10, .any⟩, ⟨⟨[5]⟩, 20, .any⟩]).1 (by decide) (by decide)
    cases returned.symm.trans returned'
    exact absurd (covered.mp ⟨_, rfl⟩).2 (by decide)

/-! ### Acceptance -/

section

variable [CheckpointLibs]

/-- The withdrawal that a log of the OL asks for. -/
def OLLog.withdrawalIntent (log : OLLog) : Option WithdrawalIntent := do
  let data ← if log.accountSerial = CheckpointLibs.bridgeGatewayAcctSerial then
    CheckpointLibs.decodeWithdrawalLog log else none
  let destination ← CheckpointLibs.descriptorFromBytes data.dest
  pure ⟨destination, data.amt, ⟨data.selectedOperator⟩⟩

theorem extractWithdrawalIntents_eq {logs : List OLLog} {intents : List WithdrawalIntent}
    (h : extractWithdrawalIntents logs = .ok intents) :
    intents = logs.filterMap OLLog.withdrawalIntent := by
  suffices collected : ∀ start, logs.foldlM extractWithdrawalIntent start = .ok intents →
      intents = start ++ logs.filterMap OLLog.withdrawalIntent from collected [] h
  clear h
  induction logs with
  | nil =>
    intro start h
    cases pure_ok h
    simp
  | cons log logs ih =>
    intro start h
    rw [List.foldlM_cons] at h
    obtain ⟨next, taken, h⟩ := bind_ok h
    rw [ih next h, List.filterMap_cons]
    unfold extractWithdrawalIntent at taken
    unfold OLLog.withdrawalIntent
    split at taken
    · rename_i other
      cases taken
      simp [other]
    · rename_i gateway
      rw [not_not] at gateway
      split at taken
      · rename_i skipped
        cases taken
        simp [gateway, skipped]
      · rename_i data decoded
        split at taken
        · cases taken
        · rename_i destination parsed
          split at taken
          · cases taken
            simp [gateway, decoded, parsed]
          · cases taken

/-- All that an accepted checkpoint changes, and all that it emits. -/
structure Advances (state after : CheckpointState) (relayer relayed : MsgRelayer)
    (payload : CheckpointPayload) (intents : List WithdrawalIntent) : Prop where
  verifiedTip : after.verifiedTip = payload.newTip
  extracted : intents = payload.sidecar.olLogs.filterMap OLLog.withdrawalIntent
  payable : Payable state.deposits.denomination intents
  count : after.deposits.count + totalUnits state.deposits.denomination intents = state.deposits.count
  denomination : after.deposits.denomination = state.deposits.denomination
  sequencerKey : after.sequencerKey = state.sequencerKey
  promoted : ∀ first rest, state.pendingTransition = first :: rest →
    first.boundary ≤ payload.newTip.l1Height →
    after.pendingTransition = rest ∧ after.checkpointPredicate = first.predicate
  kept : (∀ first, state.pendingTransition.head? = some first →
    payload.newTip.l1Height < first.boundary) →
    after.pendingTransition = state.pendingTransition ∧
      after.checkpointPredicate = state.checkpointPredicate
  logs : relayed.logs = relayer.logs ++ [.checkpointTipUpdate payload.newTip]
  msgs : relayed.msgs = relayer.msgs ++ intents.map fun intent => .bridge (.dispatchWithdrawal intent)

variable {state after : CheckpointState} {tx : TxInput} {height : Nat} {aux : VerifiedAuxData}

theorem Accepts.advances {accepted : AcceptedCheckpoint} (accepts : Accepts state height aux accepted)
    (relayer : MsgRelayer) : Advances state accepted.post relayer
      (relayWithdrawals (relayer.emitLog (.checkpointTipUpdate accepted.payload.newTip))
        accepted.intents)
      accepted.payload accepted.intents := by
  obtain ⟨remaining, covered, post⟩ := accepts.covered
  obtain ⟨payable, count⟩ := verifyWithdrawals_ok covered
  have promotes := CheckpointState.promoteElapsedTransition_cases { state with
    deposits := state.deposits.applyWithdrawals remaining
    verifiedTip := accepted.payload.newTip }
  rw [← post] at promotes
  refine {
    verifiedTip := by rw [post, CheckpointState.promoteElapsedTransition_verifiedTip]
    extracted := extractWithdrawalIntents_eq accepts.extracted
    payable := payable
    count := by rw [post, CheckpointState.promoteElapsedTransition_deposits]; exact count
    denomination := by rw [post, CheckpointState.promoteElapsedTransition_deposits]; rfl
    sequencerKey := by rw [post, CheckpointState.promoteElapsedTransition_sequencerKey]
    promoted := ?_
    kept := ?_
    logs := by rw [relayWithdrawals_logs]; rfl
    msgs := by rw [relayWithdrawals_msgs]; rfl }
  · intro first rest pending elapsed
    rcases promotes with ⟨_, early⟩ | ⟨next, others, isPending, -, same⟩
    · have beyond := early first (by simp [pending])
      exact absurd elapsed (by simpa using beyond)
    · cases pending.symm.trans isPending
      rw [same]
      exact ⟨rfl, rfl⟩
  · intro early
    rcases promotes with ⟨same, _⟩ | ⟨next, others, isPending, elapsed, -⟩
    · rw [same]
      exact ⟨rfl, rfl⟩
    · have isPending : state.pendingTransition = next :: others := isPending
      have beyond := early next (by simp [isPending])
      exact absurd beyond (Nat.not_lt.mpr elapsed)

/-- A checkpoint transaction changes everything that an accepted checkpoint changes, or nothing. -/
theorem handleCheckpointTx_all_or_nothing {relayer relayed : MsgRelayer}
    (h : handleCheckpointTx state tx height aux relayer = .ok (after, relayed)) :
    (after = state ∧ relayed = relayer) ∨
    ∃ spend payload intents, parseCheckpointEnvelope tx = .ok spend ∧
      decodeCheckpointPayload spend.unverifiedLeaf.payload = .ok payload ∧
      extractWithdrawalIntents payload.sidecar.olLogs = .ok intents ∧
      Advances state after relayer relayed payload intents := by
  obtain ⟨outcome, handled, h⟩ := bind_ok h
  cases outcome with
  | none =>
    cases pure_ok h
    exact .inl ⟨rfl, rfl⟩
  | some accepted =>
    cases pure_ok h
    obtain ⟨spend, parsed, -, decoded⟩ := acceptCheckpoint_payload handled
    have accepts := acceptCheckpoint_some handled
    exact .inr ⟨spend, accepted.payload, accepted.intents, parsed, decoded, accepts.extracted,
      accepts.advances relayer⟩

end

/-- Every envelope carries a checkpoint of epoch 1 that reaches height 2 and withdraws one deposit. -/
@[reducible] def sampleCheckpointLibs : CheckpointLibs where
  sha256 _ := .zero
  parseSignedEnvelopeLeaf input := some ⟨(Buf32.fill 3).bytes, input.scriptSig⟩
  verifySpentOutput _ _ := true
  decodePayload bytes := some ⟨⟨1, 2, ⟨1, .fill 4⟩⟩, ⟨[], [⟨5, bytes⟩], ⟨0, .zero, .zero, .zero⟩⟩, []⟩
  encodeClaim _ := []
  encodeOlLogs _ := []
  complementHash _ := .zero
  verifyClaimWitness _ _ _ := true
  decodeWithdrawalLog log := some ⟨10, log.payload, 0⟩
  descriptorFromBytes bytes := some ⟨bytes⟩
  bridgeGatewayAcctSerial := 5

section

attribute [local instance] sampleCheckpointLibs

/-- The checkpoint reaches the boundary of the transition that was pending. -/
def sampleRotating : CheckpointState where
  sequencerKey := .fill 3
  checkpointPredicate := ⟨0, []⟩
  pendingTransition := [⟨⟨1, []⟩, 2⟩]
  verifiedTip := ⟨0, 1, ⟨0, .zero⟩⟩
  deposits := ⟨10, 3⟩

def sampleCheckpointTx : TxInput :=
  ⟨⟨2, 4, [⟨⟨.fill 8, 1⟩, [4], 0, []⟩], []⟩, ⟨1, 1, []⟩⟩

def sampleCheckpointAux : VerifiedAuxData where
  txs _ := some ⟨2, 8, [], [⟨0, []⟩, ⟨10, (Buf32.fill 1).bytes⟩]⟩
  manifestHashes _ := some .zero

theorem handleCheckpointTx_all_or_nothing_sample : ∃ after relayed,
    handleCheckpointTx sampleRotating sampleCheckpointTx 3 sampleCheckpointAux ⟨[], []⟩ =
      .ok (after, relayed) ∧
    after ≠ sampleRotating ∧
    ((after = sampleRotating ∧ relayed = ⟨[], []⟩) ∨
      ∃ spend payload intents, parseCheckpointEnvelope sampleCheckpointTx = .ok spend ∧
        decodeCheckpointPayload spend.unverifiedLeaf.payload = .ok payload ∧
        extractWithdrawalIntents payload.sidecar.olLogs = .ok intents ∧
        Advances sampleRotating after ⟨[], []⟩ relayed payload intents) := by
  obtain ⟨after, relayed, handled, moved⟩ : ∃ after relayed,
      handleCheckpointTx sampleRotating sampleCheckpointTx 3 sampleCheckpointAux ⟨[], []⟩ =
        .ok (after, relayed) ∧
      after ≠ sampleRotating := ⟨_, _, rfl, by decide⟩
  exact ⟨after, relayed, handled, moved, handleCheckpointTx_all_or_nothing handled⟩

end
end Asm
