import AnchorStateMachine.Bridge.Invariant

/-! The panics that would mean a corrupted bridge state are out of reach from the initial state. -/

namespace Asm
open Outcome BridgeStateV1

/-- The panics that only a state outside the bridge invariant could cause. -/
def IsStatePanic : Panic → Prop
  | .operatorBitmap _ => True
  | .emptyNnHistory => True
  | .unknownNnConfiguration _ => True
  | .depositNotPresent _ => True
  | .duplicateAssignment _ => True
  | .fulfilledAssignmentMissing _ => True
  | .assigneeNotRegistered _ => True
  | .reassignmentFailed (.bitmapError _) => True
  | .withdrawalAssignmentFailed (.bitmapError _) => True
  | _ => False

/-- The panics of a membership change: bad keys, or a multisig that would be left without members. -/
def IsMembershipPanic (panic : Panic) : Prop :=
  panic ∈ [.emptyOperatorList, .operatorIndexExhausted, .emptyMultisig, .keyAggregation]

def IsTxPanic : Panic → Prop
  | .depositRequestNotProvided _ => True
  | .stakeConnectorNotProvided _ => True
  | .reassignmentFailed (.noEligibleOperators _) => True
  | .arithmeticOverflow => True
  | panic => IsMembershipPanic panic

def IsMsgPanic : Panic → Prop
  | .withdrawalAssignmentFailed (.bitmapError _) => False
  | .withdrawalAssignmentFailed _ => True
  | .arithmeticOverflow => True
  | panic => IsMembershipPanic panic

def UnexpectedInTxs (panic : Panic) : Prop := ¬ IsTxPanic panic

def UnexpectedInMsgs (panic : Panic) : Prop := ¬ IsMsgPanic panic

theorem IsMembershipPanic.inTxs {panic : Panic} (h : IsMembershipPanic panic) : IsTxPanic panic := by
  simp only [IsMembershipPanic, List.mem_cons, List.not_mem_nil, or_false] at h
  rcases h with rfl | rfl | rfl | rfl <;> simp [IsTxPanic, IsMembershipPanic]

theorem IsMembershipPanic.inMsgs {panic : Panic} (h : IsMembershipPanic panic) : IsMsgPanic panic := by
  simp only [IsMembershipPanic, List.mem_cons, List.not_mem_nil, or_false] at h
  rcases h with rfl | rfl | rfl | rfl <;> simp [IsMsgPanic, IsMembershipPanic]

theorem IsStatePanic.unexpected {panic : Panic} (h : IsStatePanic panic) :
    UnexpectedInTxs panic ∧ UnexpectedInMsgs panic := by
  unfold IsStatePanic at h
  split at h <;> first | exact h.elim | simp [UnexpectedInTxs, UnexpectedInMsgs, IsTxPanic, IsMsgPanic,
    IsMembershipPanic]

section

variable [BridgeLibs] {state : BridgeStateV1}

theorem applyOperatorSetUpdate_avoids (inv : Invariant state) (add : List Buf32) (remove : List Nat) :
    Avoids (¬ IsMembershipPanic ·) (state.applyOperatorSetUpdate add remove) :=
  (OperatorTable.applyMembershipChanges_avoids inv.operators add remove).bind fun _ _ => avoids_ok _

theorem currentNnScript_ok (inv : Invariant state) :
    ∃ current, state.operators.currentNnScript = .ok current := by
  have last := List.getLast?_eq_getLast_of_ne_nil inv.recorded
  unfold history at last
  exact ⟨_, by rw [OperatorTable.currentNnScript, last]; rfl⟩

theorem validateDepositInfo_avoids {bad : Panic → Prop} (inv : Invariant state) (info : DepositInfo)
    (drtInfo : DepositRequestInfo) : Avoids bad (validateDepositInfo state info drtInfo) := by
  obtain ⟨current, known⟩ := currentNnScript_ok inv
  unfold validateDepositInfo
  rw [known, ok_bind]
  dsimp only
  repeat' split
  all_goals exact avoids_ok _

theorem addDeposit_avoids {bad : Panic → Prop} (inv : Invariant state) (info : DepositInfo) :
    Avoids bad (state.addDeposit info) := by
  unfold addDeposit
  split
  · exact avoids_ok _
  · have recorded : state.operators.historicalNnScripts.isEmpty = false := by
      simpa [history] using inv.recorded
    unfold OperatorTable.currentNnScriptIndex
    rw [recorded]
    simp only [Bool.false_eq_true, ↓reduceIte, pure_eq_ok, ok_bind]
    split
    · exact avoids_ok _
    · exact avoids_ok _

theorem handleDeposit_avoids (inv : Invariant state) (info : DepositInfo) (aux : VerifiedAuxData)
    (relayer : MsgRelayer) : Avoids UnexpectedInTxs (handleDeposit state info aux relayer) := by
  unfold handleDeposit
  split
  · exact avoids_error (· trivial)
  · split
    · exact avoids_ok _
    · refine (validateDepositInfo_avoids inv info _).bind fun outcome _ => ?_
      cases outcome with
      | error error => exact avoids_ok _
      | ok _ =>
        refine (addDeposit_avoids inv info).bind fun outcome _ => ?_
        cases outcome with
        | error error => exact avoids_ok _
        | ok _ => exact avoids_ok _

theorem exportLeaf_ok (inv : Invariant state) {entry : AssignmentEntry}
    (mem : entry ∈ state.assignments.assignments) (claim : ClaimVersion) (depositIdx : Nat) :
    ∃ leaf, claim.exportLeaf state.operators depositIdx entry.currentAssignee = .ok leaf := by
  obtain ⟨config, known, assignee, -⟩ := inv.assignments entry mem
  have inside : entry.currentAssignee < state.operators.operators.length := by
    have bound := OperatorBitmap.isActive_lt assignee
    have covered := (inv.operators.coherent config (List.mem_of_getElem? known)).1
    rw [inv.operators.next] at covered
    omega
  cases claim with
  | v0 => exact ⟨_, rfl⟩
  | v1 =>
    have registered := inv.operators.toRegistry.getOperator_eq entry.currentAssignee
    rw [List.getElem?_eq_getElem inside] at registered
    exact ⟨_, by rw [ClaimVersion.exportLeaf, registered]; rfl⟩

theorem handleWithdrawalFulfillment_avoids {bad : Panic → Prop} (inv : Invariant state)
    (claim : ClaimVersion) (info : WithdrawalFulfillmentInfo) (relayer : MsgRelayer) :
    Avoids bad (handleWithdrawalFulfillment claim state info relayer) := by
  unfold handleWithdrawalFulfillment
  split
  · exact avoids_ok _
  · rename_i valid
    obtain ⟨entry, found, -⟩ := validateWithdrawalFulfillmentInfo_ok valid
    rw [removeAssignment_found found]
    have mem := (SortedVec.get_some found).1
    obtain ⟨leaf, exported⟩ := exportLeaf_ok inv mem claim info.depositIdx
    dsimp only
    rw [exported]
    exact avoids_ok _

theorem handleRemoval_avoids (inv : Invariant state) (stakeInpoint : OutPoint) (operatorIdx : Nat)
    (validate : Bytes → Except BridgeSubprotocolError Unit) (aux : VerifiedAuxData)
    (relayer : MsgRelayer) :
    Avoids UnexpectedInTxs (handleRemoval state stakeInpoint operatorIdx validate aux relayer) := by
  have removal := (applyOperatorSetUpdate_avoids inv [] [operatorIdx]).mono
    fun _ => mt IsMembershipPanic.inTxs
  unfold handleRemoval
  split
  · exact avoids_error (· trivial)
  · split
    · exact avoids_ok _
    · exact removal.bind fun _ _ => avoids_ok _

end

namespace Bridge

section

variable [BridgeLibs] {state : BridgeStateV1}

theorem processTx_avoids (inv : Invariant state) (claim : ClaimVersion) (aux : VerifiedAuxData)
    (relayer : MsgRelayer) (tx : TxInput) :
    Avoids UnexpectedInTxs (processTx claim aux (state, relayer) tx) := by
  rw [processTx]
  split
  · exact avoids_ok _
  · rename_i parsedTx _
    have handling : Avoids UnexpectedInTxs (handleParsedTx claim state parsedTx aux relayer) := by
      cases parsedTx with
      | deposit info => exact handleDeposit_avoids inv info aux relayer
      | withdrawalFulfillment info => exact handleWithdrawalFulfillment_avoids inv claim info relayer
      | slash info =>
        show Avoids UnexpectedInTxs (handleSlash state info aux relayer)
        exact handleRemoval_avoids inv _ _ _ aux relayer
      | unstake info =>
        show Avoids UnexpectedInTxs (handleUnstake state info aux relayer)
        exact handleRemoval_avoids inv _ _ _ aux relayer
    refine handling.bind fun outcome _ => ?_
    cases outcome with
    | error error => exact avoids_ok _
    | ok processed => exact avoids_ok _

theorem reassignExpired_error (inv : Invariant state) {l1Block : L1BlockCommitment} {panic : Panic}
    (h : reassignExpired state l1Block = .error panic) :
    (∃ depositIdx, panic = .reassignmentFailed (.noEligibleOperators depositIdx)) ∨
      panic = .arithmeticOverflow := by
  unfold reassignExpired at h
  rcases reassignExpiredAssignments_cases inv l1Block with
    ⟨renewed, returned, -⟩ | ⟨entry, -, failed, -⟩ | ⟨overflow, -⟩
  · rw [returned] at h
    cases h
  · rw [failed] at h
    cases h
    exact .inl ⟨_, rfl⟩
  · rw [overflow] at h
    cases h
    exact .inr rfl

theorem reassignExpired_avoids (inv : Invariant state) (l1Block : L1BlockCommitment) :
    Avoids UnexpectedInTxs (reassignExpired state l1Block) := by
  intro panic h unexpected
  rcases reassignExpired_error inv h with ⟨_, rfl⟩ | rfl
  · exact unexpected trivial
  · exact unexpected trivial

theorem insertWithdrawalAssignment_total (inv : Invariant state) {entry : AssignmentEntry}
    (oldest : state.deposits.head? = some entry.depositEntry) :
    ∃ after, state.insertWithdrawalAssignment entry = .ok after := by
  obtain ⟨rest, deposits⟩ := List.head?_eq_some_iff.mp oldest
  have removed : DepositsTable.removeDeposit state.deposits entry.depositIdx =
      some (entry.depositEntry, rest) := by
    simp [DepositsTable.removeDeposit, DepositsTable.getDeposit, AssignmentEntry.depositIdx, deposits,
      SortedVec.get_cons, SortedVec.remove_cons]
  have free : state.assignments.getAssignment entry.depositIdx = none :=
    (SortedVec.get_eq_none_iff inv.assignmentsSorted).mpr fun other mem =>
      (inv.disjoint entry.depositEntry (List.mem_of_head? oldest) other mem).symm
  exact ⟨_, by simp [insertWithdrawalAssignment, removed, AssignmentTable.insert, free]; rfl⟩

theorem assignWithdrawal_avoids (inv : Invariant state) (l1ref : L1BlockCommitment)
    (intent : WithdrawalIntent) : Avoids UnexpectedInMsgs (assignWithdrawal l1ref state intent) := by
  unfold assignWithdrawal
  cases oldest : state.deposits.head? with
  | none =>
    simp only [createWithdrawalAssignment, DepositsTable.oldestDeposit, oldest]
    exact avoids_error (· trivial)
  | some deposit =>
    by_cases amount : deposit.amt = intent.amt
    · obtain ⟨config, -, outcome⟩ := createWithdrawalAssignment_cases inv oldest amount l1ref
      rcases outcome with ⟨entry, created, -⟩ | ⟨failed, -⟩ | ⟨overflow, -⟩
      · obtain ⟨after, inserted⟩ := insertWithdrawalAssignment_total inv
          (createWithdrawalAssignment_ok created).1
        simp only [created, ok_bind, inserted]
        exact avoids_ok _
      · rw [failed]
        exact avoids_error (· trivial)
      · rw [overflow]
        exact avoids_error (· trivial)
    · simp only [createWithdrawalAssignment, DepositsTable.oldestDeposit, oldest, ne_eq, amount,
        not_false_eq_true, ↓reduceIte]
      exact avoids_error (· trivial)

theorem dispatchWithdrawal_avoids (inv : Invariant state) (l1ref : L1BlockCommitment)
    (payload : WithdrawalIntent) : Avoids UnexpectedInMsgs (dispatchWithdrawal l1ref state payload) := by
  unfold dispatchWithdrawal
  split
  · exact avoids_error (· trivial)
  · refine foldlM_avoids Invariant (fun intent _ s t inv step => ?_)
      (fun intent _ s inv => assignWithdrawal_avoids inv l1ref intent) inv
    obtain ⟨entry, assigns⟩ := assignWithdrawal_ok step
    exact assigns_invariant inv assigns

theorem processMsg_avoids (inv : Invariant state) (l1ref : L1BlockCommitment) (msg : BridgeIncomingMsg) :
    Avoids UnexpectedInMsgs (processMsg l1ref state msg) := by
  cases msg with
  | dispatchWithdrawal payload => exact dispatchWithdrawal_avoids inv l1ref payload
  | updateOperatorSet payload =>
    exact (applyOperatorSetUpdate_avoids inv _ _).mono fun _ => mt IsMembershipPanic.inMsgs
  | updateSafeHarborAddress address => exact avoids_ok _
  | defcon => exact avoids_ok _

theorem processTxs_avoids (inv : Invariant state) (claim : ClaimVersion) (txs : List TxInput)
    (l1Block : L1BlockCommitment) (accumulatedPow : Nat) (aux : VerifiedAuxData) (relayer : MsgRelayer) :
    Avoids UnexpectedInTxs (processTxs claim state txs l1Block accumulatedPow aux relayer) := by
  have loop : Avoids UnexpectedInTxs (txs.foldlM (processTx claim aux) (state, relayer)) :=
    foldlM_avoids (fun s => Invariant s.1) (fun _ _ _ _ inv taken => processTx_invariant inv taken)
      (fun tx _ s inv => processTx_avoids inv claim aux s.2 tx) inv
  refine loop.bind fun processed ran => ?_
  have kept : Invariant processed.1 := txs_invariant inv ran
  exact (reassignExpired_avoids kept l1Block).bind fun _ _ => avoids_ok _

theorem processMsgs_avoids (inv : Invariant state) (msgs : List BridgeIncomingMsg)
    (l1ref : L1BlockCommitment) : Avoids UnexpectedInMsgs (processMsgs state msgs l1ref) :=
  foldlM_avoids Invariant (fun _ _ _ _ inv taken => processMsg_invariant inv taken)
    (fun msg _ _ inv => processMsg_avoids inv l1ref msg) inv

theorem step_avoids {before : BridgeStateV1 × MsgRelayer} (inv : Invariant before.1) (event : Event) :
    Avoids IsStatePanic (step before event) := by
  obtain ⟨state, relayer⟩ := before
  cases event with
  | tx claim aux tx =>
    exact (processTx_avoids inv claim aux relayer tx).mono fun _ h => h.unexpected.1
  | reassign l1Block =>
    have safe := (reassignExpired_avoids inv l1Block).mono fun _ (h : IsStatePanic _) => h.unexpected.1
    exact safe.bind fun _ _ => avoids_ok _
  | publishPow accumulatedPow => exact avoids_ok _
  | msg l1ref msg =>
    have safe := (processMsg_avoids inv l1ref msg).mono fun _ (h : IsStatePanic _) => h.unexpected.2
    exact safe.bind fun _ _ => avoids_ok _

theorem events_avoid {before : BridgeStateV1 × MsgRelayer} (inv : Invariant before.1)
    (events : List Event) : Avoids IsStatePanic (events.foldlM step before) :=
  foldlM_avoids (fun s => Invariant s.1) (fun _ _ _ _ inv taken => step_invariant inv taken)
    (fun event _ _ inv => step_avoids inv event) inv

theorem events_invariant {before after : BridgeStateV1 × MsgRelayer} (inv : Invariant before.1)
    {events : List Event} (h : events.foldlM step before = .ok after) : Invariant after.1 :=
  foldlM_preserves (fun s => Invariant s.1) (fun _ _ _ _ inv taken => step_invariant inv taken) inv h

/-! ### The contract of the bridge state -/

structure Sound (state : BridgeStateV1) : Prop where
  depositsSorted : SortedVec.StrictlySorted DepositEntry.depositIdx state.deposits
  assignmentsSorted :
    SortedVec.StrictlySorted AssignmentEntry.depositIdx state.assignments.assignments
  disjoint : ∀ deposit ∈ state.deposits, ∀ entry ∈ state.assignments.assignments,
    deposit.depositIdx ≠ entry.depositIdx
  depositNotary : ∀ deposit ∈ state.deposits,
    deposit.notarySet < state.operators.historicalNnScripts.length
  assignmentNotary : ∀ entry ∈ state.assignments.assignments,
    entry.notarySet < state.operators.historicalNnScripts.length
  assignees : ∀ entry ∈ state.assignments.assignments, ∃ config current,
    state.operators.nnScript entry.notarySet = some config ∧
      state.operators.currentMultisig = .ok current ∧
      config.operators.isActive entry.currentAssignee ∧
      entry.previousAssignees.len = config.operators.len ∧ config.operators.len ≤ current.len

theorem invariant_sound (inv : Invariant state) : Sound state where
  depositsSorted := inv.depositsSorted
  assignmentsSorted := inv.assignmentsSorted
  disjoint := inv.disjoint
  depositNotary := inv.notarySets
  assignmentNotary := by
    intro entry mem
    obtain ⟨config, known, -⟩ := inv.assignments entry mem
    exact (List.getElem?_eq_some_iff.mp known).1
  assignees := by
    intro entry mem
    obtain ⟨config, known, assignee, previousLen⟩ := inv.assignments entry mem
    exact ⟨config, _, known, inv.currentMultisig, assignee, previousLen,
      inv.fits config (List.mem_of_getElem? known)⟩

/-- The notary set is known and none of its operators is in the current multisig. -/
def NobodyLeft (state : BridgeStateV1) (notarySet : Nat) : Prop :=
  ∃ config current, state.operators.nnScript notarySet = some config ∧
    state.operators.currentMultisig = .ok current ∧ NoMemberLeft config.operators current

theorem run_invariant {config : BridgeInitConfig} {calls : List Call} {relayer : MsgRelayer}
    (h : run config calls = .ok (state, relayer)) : Invariant state := by
  unfold run at h
  obtain ⟨initial, created, h⟩ := bind_ok h
  rw [foldlM_apply_events] at h
  exact events_invariant (new_invariant created) h

/-- From the initial state, no sequence of calls runs into a panic of a corrupted state, and every
state it reaches is sound. In such a state an assignment for a deposit of the right amount, and the
reassignment pass, are refused only when a notary set has lost all its members, and panic only when
the new deadline is out of range. -/
theorem run_sound (config : BridgeInitConfig) (calls : List Call) :
    Avoids IsStatePanic (run config calls) ∧
    ∀ state relayer, run config calls = .ok (state, relayer) →
      Sound state ∧
      (∀ intent l1Block deposit, state.deposits.head? = some deposit → deposit.amt = intent.amt →
        (∃ entry, state.createWithdrawalAssignment intent l1Block = .ok (.ok entry)) ∨
        (∃ error, state.createWithdrawalAssignment intent l1Block = .ok (.error error) ∧
          NobodyLeft state deposit.notarySet) ∨
        (state.createWithdrawalAssignment intent l1Block = .error .arithmeticOverflow ∧
          u32Bound ≤ l1Block.height + state.assignments.assignmentDuration)) ∧
      (∀ l1Block,
        (∃ after, state.reassignExpiredAssignments l1Block = .ok (.ok after)) ∨
        (∃ error, state.reassignExpiredAssignments l1Block = .ok (.error error) ∧
          ∃ entry ∈ state.assignments.assignments, entry.fulfillmentDeadline ≤ l1Block.height ∧
            NobodyLeft state entry.notarySet) ∨
        (state.reassignExpiredAssignments l1Block = .error .arithmeticOverflow ∧
          u32Bound ≤ l1Block.height + state.assignments.assignmentDuration)) := by
  refine ⟨?_, fun state relayer h => ?_⟩
  · unfold run
    have creating : Avoids IsStatePanic (BridgeStateV1.new config) := by
      have listing : Avoids IsStatePanic (OperatorTable.fromOperatorList config.operators) := by
        refine (OperatorTable.fromOperatorList_avoids config.operators).mono
          fun panic isPanic documented => ?_
        simp only [List.mem_cons, List.not_mem_nil, or_false] at documented
        rcases documented with rfl | rfl | rfl | rfl <;> exact isPanic
      exact listing.bind fun _ _ => avoids_ok _
    refine creating.bind fun state created => ?_
    rw [foldlM_apply_events]
    exact events_avoid (new_invariant created) _
  · have inv := run_invariant h
    refine ⟨invariant_sound inv, fun intent l1Block deposit oldest amount => ?_, fun l1Block => ?_⟩
    · obtain ⟨config, known, outcome⟩ := createWithdrawalAssignment_cases inv oldest amount l1Block
      rcases outcome with ⟨entry, created, -⟩ | ⟨failed, noMember⟩ | overflow
      · exact .inl ⟨entry, created⟩
      · exact .inr (.inl ⟨_, failed, config, _, known, inv.currentMultisig, noMember⟩)
      · exact .inr (.inr overflow)
    · rcases reassignExpiredAssignments_cases inv l1Block with
        ⟨renewed, returned, -⟩ | ⟨entry, mem, failed, due, config, known, noMember⟩ | overflow
      · exact .inl ⟨_, returned⟩
      · exact .inr (.inl ⟨_, failed, entry, mem, due, config, _, known, inv.currentMultisig, noMember⟩)
      · exact .inr (.inr overflow)

end

section

attribute [local instance] sampleLibs

theorem run_sound_sample :
    ∃ state relayer, run sampleConfig sampleCalls = .ok (state, relayer) ∧ Sound state ∧
      state.assignments.assignments.map (·.depositIdx) = [7] ∧ state.deposits = [⟨8, 0, 10⟩] ∧
      ((∃ entry, state.createWithdrawalAssignment ⟨⟨[4]⟩, 10, .any⟩ (sampleBlock 101) =
        .ok (.ok entry)) ∨
        (∃ error, state.createWithdrawalAssignment ⟨⟨[4]⟩, 10, .any⟩ (sampleBlock 101) =
          .ok (.error error) ∧ NobodyLeft state 0) ∨
        (state.createWithdrawalAssignment ⟨⟨[4]⟩, 10, .any⟩ (sampleBlock 101) =
          .error .arithmeticOverflow ∧
          u32Bound ≤ 101 + state.assignments.assignmentDuration)) := by
  obtain ⟨state, relayer, reached, assigned, deposits⟩ :
      ∃ state relayer, run sampleConfig sampleCalls = .ok (state, relayer) ∧
        state.assignments.assignments.map (·.depositIdx) = [7] ∧ state.deposits = [⟨8, 0, 10⟩] :=
    ⟨_, _, rfl, rfl, rfl⟩
  obtain ⟨sound, creation, -⟩ := (run_sound sampleConfig sampleCalls).2 state relayer reached
  exact ⟨state, relayer, reached, sound, assigned, deposits,
    creation ⟨⟨[4]⟩, 10, .any⟩ (sampleBlock 101) ⟨8, 0, 10⟩ (by rw [deposits]; rfl) rfl⟩

end
end Bridge
end Asm
