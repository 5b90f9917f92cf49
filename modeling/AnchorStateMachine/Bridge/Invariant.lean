import AnchorStateMachine.Bridge.Run
import AnchorStateMachine.Library.Keyed

/-!
The bridge invariant. Deposits and assignments are keyed by deposit index and share none, every notary
set is a recorded N/N configuration, and every assignee belongs to the notary set of its deposit. No
sequence of deposits, fulfillments, slashes, unstakes, operator updates, dispatches and reassignments
leaves it, so the checks the code makes on the way cannot fail.
-/

namespace Asm
open Outcome

namespace BridgeStateV1

def history (state : BridgeStateV1) : List HistoricalNnScript := state.operators.historicalNnScripts

section

variable [TaprootKeys]

structure Invariant (state : BridgeStateV1) : Prop where
  operators : OperatorTable.Consistent state.operators
  recorded : state.history ≠ []
  depositsSorted : SortedVec.StrictlySorted DepositEntry.depositIdx state.deposits
  assignmentsSorted :
    SortedVec.StrictlySorted AssignmentEntry.depositIdx state.assignments.assignments
  disjoint : ∀ deposit ∈ state.deposits, ∀ entry ∈ state.assignments.assignments,
    deposit.depositIdx ≠ entry.depositIdx
  notarySets : ∀ deposit ∈ state.deposits, deposit.notarySet < state.history.length
  assignments : ∀ entry ∈ state.assignments.assignments, entry.SoundIn state.history
  amounts : ∀ deposit ∈ state.deposits, deposit.amt = state.denomination

theorem new_invariant {config : BridgeInitConfig} {state : BridgeStateV1}
    (h : new config = .ok state) : Invariant state := by
  unfold new at h
  obtain ⟨operators, listed, h⟩ := bind_ok h
  cases pure_ok h
  obtain ⟨consistent, recorded⟩ := OperatorTable.fromOperatorList_consistent listed
  exact {
    operators := consistent
    recorded
    depositsSorted := .nil
    assignmentsSorted := .nil
    disjoint := fun _ mem => by cases mem
    notarySets := fun _ mem => by cases mem
    assignments := fun _ mem => by cases mem
    amounts := fun _ mem => by cases mem }

variable {state after : BridgeStateV1}

theorem Invariant.currentMultisig (inv : Invariant state) :
    state.operators.currentMultisig = .ok state.operators.currentBitmap :=
  (OperatorTable.currentMultisig_ok inv.operators inv.recorded).1

theorem Invariant.currentLen (inv : Invariant state) :
    state.operators.currentBitmap.len ≤ u32Bound := by
  have len := inv.operators.currentLen
  have bound := inv.operators.bound
  unfold u32Max at bound
  omega

theorem Invariant.fits (inv : Invariant state) :
    ∀ config ∈ state.history, config.operators.len ≤ state.operators.currentBitmap.len :=
  fun _ mem => (OperatorTable.currentBitmap_succeeds inv.operators mem).1

theorem Invariant.currentNnScriptIndex (inv : Invariant state) {notarySet : Nat}
    (h : state.operators.currentNnScriptIndex = .ok notarySet) : notarySet < state.history.length := by
  have positive := List.length_pos_iff.mpr inv.recorded
  unfold OperatorTable.currentNnScriptIndex at h
  split at h
  · cases h
  · cases pure_ok h
    have below := Nat.mod_le (state.history.length - 1) u32Bound
    unfold history at below positive ⊢
    omega

end

theorem soundIn_prefix {entry : AssignmentEntry} {before after : List HistoricalNnScript}
    (grows : before <+: after) (sound : entry.SoundIn before) : entry.SoundIn after := by
  obtain ⟨more, rfl⟩ := grows
  obtain ⟨config, known, facts⟩ := sound
  have inside := (List.getElem?_eq_some_iff.mp known).1
  exact ⟨config, by rw [List.getElem?_append_left inside]; exact known, facts⟩

variable [BridgeLibs] {state after : BridgeStateV1}

theorem membership_invariant {add : List Buf32} {remove : List Nat} (inv : Invariant state)
    (h : state.applyOperatorSetUpdate add remove = .ok after) : Invariant after := by
  obtain ⟨operators, changed, rfl⟩ := applyOperatorSetUpdate_ok h
  have grows : state.history <+: operators.historicalNnScripts :=
    OperatorTable.applyMembershipChanges_history inv.operators changed
  exact {
    operators := OperatorTable.applyMembershipChanges_consistent inv.operators changed
    recorded := fun empty => inv.recorded (List.prefix_nil.mp (empty ▸ grows))
    depositsSorted := inv.depositsSorted
    assignmentsSorted := inv.assignmentsSorted
    disjoint := inv.disjoint
    notarySets := fun deposit mem => Nat.lt_of_lt_of_le (inv.notarySets deposit mem) grows.length_le
    assignments := fun entry mem => soundIn_prefix grows (inv.assignments entry mem)
    amounts := inv.amounts }

theorem admits_invariant {info : DepositInfo} (inv : Invariant state)
    (admits : Admits state info after) :
    Invariant after := by
  obtain ⟨notarySet, current, rfl⟩ := admits.after
  have unassigned := (SortedVec.get_eq_none_iff inv.assignmentsSorted).mp admits.unassigned
  have absent := (SortedVec.get_eq_none_iff inv.depositsSorted).mp admits.absent
  exact {
    operators := inv.operators
    recorded := inv.recorded
    depositsSorted := SortedVec.insert_sorted inv.depositsSorted absent
    assignmentsSorted := inv.assignmentsSorted
    disjoint := fun deposit mem entry assigned => by
      rcases SortedVec.mem_insert.mp mem with rfl | mem
      · exact (unassigned entry assigned).symm
      · exact inv.disjoint deposit mem entry assigned
    notarySets := fun deposit mem => by
      rcases SortedVec.mem_insert.mp mem with rfl | mem
      · exact inv.currentNnScriptIndex current
      · exact inv.notarySets deposit mem
    assignments := inv.assignments
    amounts := fun deposit mem => by
      rcases SortedVec.mem_insert.mp mem with rfl | mem
      · exact admits.amount
      · exact inv.amounts deposit mem }

theorem fulfills_invariant {info : WithdrawalFulfillmentInfo} {entry : AssignmentEntry}
    (inv : Invariant state) (fulfills : Fulfills state info entry after) : Invariant after := by
  obtain rfl := fulfills.after
  have remaining : ∀ {entry}, entry ∈ (SortedVec.remove AssignmentEntry.depositIdx info.depositIdx
      state.assignments.assignments).1 → entry ∈ state.assignments.assignments :=
    fun mem => (SortedVec.remove_sublist _ _).subset mem
  exact {
    operators := inv.operators
    recorded := inv.recorded
    depositsSorted := inv.depositsSorted
    assignmentsSorted := SortedVec.remove_sorted inv.assignmentsSorted
    disjoint := fun deposit mem entry assigned => inv.disjoint deposit mem entry (remaining assigned)
    notarySets := inv.notarySets
    assignments := fun entry mem => inv.assignments entry (remaining mem)
    amounts := inv.amounts }

/-- Creating an assignment on a deposit of the right amount fails only when the notary set of the
deposit has nobody left, short of a deadline that does not fit its type. -/
theorem createWithdrawalAssignment_cases {intent : WithdrawalIntent} {deposit : DepositEntry}
    (inv : Invariant state) (oldest : state.deposits.head? = some deposit)
    (amount : deposit.amt = intent.amt) (l1Block : L1BlockCommitment) :
    ∃ config, state.operators.nnScript deposit.notarySet = some config ∧
      ((∃ entry, state.createWithdrawalAssignment intent l1Block = .ok (.ok entry) ∧
          entry.AssignedIn config.operators state.operators.currentBitmap) ∨
        (state.createWithdrawalAssignment intent l1Block =
            .ok (.error (.noEligibleOperators deposit.depositIdx)) ∧
          NoMemberLeft config.operators state.operators.currentBitmap) ∨
        (state.createWithdrawalAssignment intent l1Block = .error .arithmeticOverflow ∧
          u32Bound ≤ l1Block.height + state.assignments.assignmentDuration)) := by
  have inside := inv.notarySets deposit (List.mem_of_head? oldest)
  have known : state.operators.nnScript deposit.notarySet = some (state.history[deposit.notarySet]) :=
    List.getElem?_eq_getElem inside
  have fits := inv.fits _ (List.getElem_mem inside)
  refine ⟨_, known, ?_⟩
  simp only [createWithdrawalAssignment, DepositsTable.oldestDeposit, oldest, amount, ne_eq,
    not_true_eq_false, ↓reduceIte, known, inv.currentMultisig, ok_bind, AssignmentTable.buildAssignment,
    AssignmentTable.calculateDeadline, addU32]
  split
  · simp only [pure_eq_ok, ok_bind]
    rcases AssignmentEntry.create_cases deposit intent state.operatorFee
      (l1Block.height + state.assignments.assignmentDuration) l1Block.blkid fits
      (fits.trans inv.currentLen) with ⟨entry, created, assigned⟩ | ⟨failed, noMember⟩
    · exact .inl ⟨entry, by rw [created], assigned⟩
    · exact .inr (.inl ⟨by rw [failed], noMember⟩)
  · exact .inr (.inr ⟨rfl, by omega⟩)

theorem assigns_soundIn {l1ref : L1BlockCommitment} {intent : WithdrawalIntent}
    {entry : AssignmentEntry} (inv : Invariant state)
    (assigns : Assigns l1ref state intent entry after) :
    entry.SoundIn state.history := by
  obtain ⟨config, known, outcome⟩ :=
    createWithdrawalAssignment_cases inv assigns.oldest assigns.amount l1ref
  rw [assigns.created] at outcome
  rcases outcome with ⟨created, same, assigned⟩ | ⟨failed, -⟩ | ⟨overflow, -⟩
  · cases same
    exact ⟨config, known, assigned.inNotary, assigned.previousLen⟩
  · cases failed
  · cases overflow

theorem assigns_invariant {l1ref : L1BlockCommitment} {intent : WithdrawalIntent}
    {entry : AssignmentEntry} (inv : Invariant state)
    (assigns : Assigns l1ref state intent entry after) :
    Invariant after := by
  have sound := assigns_soundIn inv assigns
  obtain ⟨rest, deposits⟩ := List.head?_eq_some_iff.mp assigns.oldest
  have sorted := inv.depositsSorted
  rw [deposits] at sorted
  obtain ⟨above, restSorted⟩ := (SortedVec.strictlySorted_cons _).mp sorted
  have listed : ∀ {deposit}, deposit ∈ rest → deposit ∈ state.deposits := by
    intro deposit mem
    rw [deposits]
    exact .tail _ mem
  have fresh := (SortedVec.get_eq_none_iff inv.assignmentsSorted).mp assigns.fresh
  obtain rfl := assigns.after
  simp only [deposits, List.tail_cons]
  exact {
    operators := inv.operators
    recorded := inv.recorded
    depositsSorted := restSorted
    assignmentsSorted := SortedVec.insert_sorted inv.assignmentsSorted fresh
    disjoint := fun deposit mem other assigned => by
      rcases SortedVec.mem_insert.mp assigned with rfl | assigned
      · exact (above deposit mem).ne'
      · exact inv.disjoint deposit (listed mem) other assigned
    notarySets := fun deposit mem => inv.notarySets deposit (listed mem)
    assignments := fun other assigned => by
      rcases SortedVec.mem_insert.mp assigned with rfl | assigned
      · exact sound
      · exact inv.assignments other assigned
    amounts := fun deposit mem => inv.amounts deposit (listed mem) }

/-! ### The reassignment pass -/

/-- The pass treats every assignment by itself. It fails only when the notary set of a due assignment
has nobody left, short of a deadline that does not fit its type. -/
theorem reassignExpiredAssignments_cases (inv : Invariant state) (l1Block : L1BlockCommitment) :
    (∃ renewed, state.reassignExpiredAssignments l1Block =
          .ok (.ok { state with assignments.assignments := renewed }) ∧
        l1Block.height + state.assignments.assignmentDuration < u32Bound ∧
        List.Forall₂ (AssignmentTable.Passed state.history state.operators.currentBitmap l1Block
          (l1Block.height + state.assignments.assignmentDuration))
            state.assignments.assignments renewed) ∨
      (∃ entry ∈ state.assignments.assignments, state.reassignExpiredAssignments l1Block =
          .ok (.error (.noEligibleOperators entry.depositIdx)) ∧
        AssignmentTable.Stuck state.history state.operators.currentBitmap l1Block entry) ∨
      (state.reassignExpiredAssignments l1Block = .error .arithmeticOverflow ∧
        u32Bound ≤ l1Block.height + state.assignments.assignmentDuration) := by
  simp only [reassignExpiredAssignments, inv.currentMultisig, ok_bind,
    AssignmentTable.reassignExpiredAssignments, AssignmentTable.calculateDeadline, addU32]
  split
  · rename_i inRange
    simp only [pure_eq_ok, ok_bind]
    rcases AssignmentTable.reassignAll_cases l1Block
      (l1Block.height + state.assignments.assignmentDuration) inv.assignments inv.fits
        inv.currentLen with
      ⟨renewed, returned, passed⟩ | ⟨entry, mem, failed, stuck⟩
    · unfold history at returned
      exact .inl ⟨renewed, by simp [returned], inRange, passed⟩
    · unfold history at failed
      exact .inr (.inl ⟨entry, mem, by simp [failed], stuck⟩)
  · exact .inr (.inr ⟨rfl, by omega⟩)

theorem passed_invariant {renewed : List AssignmentEntry} {l1Block : L1BlockCommitment} {deadline : Nat}
    (inv : Invariant state)
    (passed : List.Forall₂ (AssignmentTable.Passed state.history state.operators.currentBitmap l1Block
      deadline) state.assignments.assignments renewed) :
    Invariant { state with assignments.assignments := renewed } where
  operators := inv.operators
  recorded := inv.recorded
  depositsSorted := inv.depositsSorted
  assignmentsSorted := by
    have deposits := congrArg (List.map DepositEntry.depositIdx)
      (AssignmentTable.forall₂_passed_depositEntry passed)
    rw [List.map_map, List.map_map] at deposits
    have sorted : (state.assignments.assignments.map AssignmentEntry.depositIdx).Pairwise (· < ·) :=
      List.pairwise_map.mpr inv.assignmentsSorted
    have same : renewed.map AssignmentEntry.depositIdx =
        state.assignments.assignments.map AssignmentEntry.depositIdx := deposits
    rw [← same] at sorted
    exact List.pairwise_map.mp sorted
  disjoint := by
    intro deposit mem entry assigned
    obtain ⟨earlier, listed, passed⟩ := Keyed.exists_of_forall₂ passed assigned
    have other := inv.disjoint deposit mem earlier listed
    unfold AssignmentEntry.depositIdx at other ⊢
    rwa [passed.depositEntry]
  notarySets := inv.notarySets
  assignments := by
    intro entry assigned
    obtain ⟨earlier, listed, passed⟩ := Keyed.exists_of_forall₂ passed assigned
    exact passed.soundIn (inv.assignments earlier listed)
  amounts := inv.amounts

end BridgeStateV1

namespace Bridge
open BridgeStateV1

variable [BridgeLibs] {state after : BridgeStateV1}

theorem reassignExpired_ok {l1Block : L1BlockCommitment} (inv : Invariant state)
    (h : reassignExpired state l1Block = .ok after) :
    ∃ renewed, after = { state with assignments.assignments := renewed } ∧
      List.Forall₂ (AssignmentTable.Passed state.history state.operators.currentBitmap l1Block
        (l1Block.height + state.assignments.assignmentDuration)) state.assignments.assignments
          renewed := by
  unfold reassignExpired at h
  rcases reassignExpiredAssignments_cases inv l1Block with
    ⟨renewed, returned, -, passed⟩ | ⟨entry, -, failed, -⟩ | ⟨overflow, -⟩
  · rw [returned] at h
    cases h
    exact ⟨renewed, rfl, passed⟩
  · rw [failed] at h
    cases h
  · rw [overflow] at h
    cases h

theorem dispatchWithdrawal_invariant {l1ref : L1BlockCommitment} {payload : WithdrawalIntent}
    (inv : Invariant state) (h : dispatchWithdrawal l1ref state payload = .ok after) :
    Invariant after := by
  unfold dispatchWithdrawal at h
  split at h
  · cases h
  · refine foldlM_preserves Invariant (fun intent _ s t inv step => ?_) inv h
    obtain ⟨entry, assigns⟩ := assignWithdrawal_ok step
    exact assigns_invariant inv assigns

theorem processMsg_invariant {l1ref : L1BlockCommitment} {msg : BridgeIncomingMsg}
    (inv : Invariant state) (h : processMsg l1ref state msg = .ok after) : Invariant after := by
  cases msg with
  | dispatchWithdrawal payload => exact dispatchWithdrawal_invariant inv h
  | updateOperatorSet payload => exact membership_invariant inv h
  | updateSafeHarborAddress address =>
    cases pure_ok h
    exact { inv with }
  | defcon =>
    cases pure_ok h
    exact { inv with }

theorem processTx_invariant {claim : ClaimVersion} {aux : VerifiedAuxData} {tx : TxInput}
    {relayer relayed : MsgRelayer} (inv : Invariant state)
    (h : processTx claim aux (state, relayer) tx = .ok (after, relayed)) : Invariant after := by
  rcases processTx_cases h with ⟨rfl, -⟩ | ⟨info, -, -, admits, -⟩ | ⟨info, entry, -, -, fulfills, -⟩ |
    ⟨operatorIdx, removed, -⟩
  · exact inv
  · exact admits_invariant inv admits
  · exact fulfills_invariant inv fulfills
  · exact membership_invariant inv removed

theorem step_invariant {event : Event} {before next : BridgeStateV1 × MsgRelayer}
    (inv : Invariant before.1) (h : step before event = .ok next) : Invariant next.1 := by
  obtain ⟨state, relayer⟩ := before
  obtain ⟨after, relayed⟩ := next
  cases event with
  | tx claim aux tx => exact processTx_invariant inv h
  | reassign l1Block =>
    obtain ⟨reassigned, pass, h⟩ := bind_ok h
    cases pure_ok h
    obtain ⟨renewed, rfl, passed⟩ := reassignExpired_ok inv pass
    exact passed_invariant inv passed
  | publishPow accumulatedPow =>
    cases pure_ok h
    exact inv
  | msg l1ref msg =>
    obtain ⟨processed, processing, h⟩ := bind_ok h
    cases pure_ok h
    exact processMsg_invariant inv processing

theorem txs_invariant {claim : ClaimVersion} {aux : VerifiedAuxData} {txs : List TxInput}
    {before next : BridgeStateV1 × MsgRelayer} (inv : Invariant before.1)
    (h : txs.foldlM (processTx claim aux) before = .ok next) : Invariant next.1 :=
  foldlM_preserves (fun s => Invariant s.1) (fun _ _ _ _ inv step => processTx_invariant inv step) inv h

theorem msgs_invariant {msgs : List BridgeIncomingMsg} {l1ref : L1BlockCommitment}
    (inv : Invariant state) (h : processMsgs state msgs l1ref = .ok after) : Invariant after :=
  foldlM_preserves Invariant (fun _ _ _ _ inv step => processMsg_invariant inv step) inv h

theorem reassignExpired_invariant {l1Block : L1BlockCommitment} (inv : Invariant state)
    (h : reassignExpired state l1Block = .ok after) : Invariant after := by
  obtain ⟨renewed, rfl, passed⟩ := reassignExpired_ok inv h
  exact passed_invariant inv passed

theorem processTxs_invariant {claim : ClaimVersion} {txs : List TxInput} {l1Block : L1BlockCommitment}
    {accumulatedPow : Nat} {aux : VerifiedAuxData} {relayer relayed : MsgRelayer}
    (inv : Invariant state)
    (h : processTxs claim state txs l1Block accumulatedPow aux relayer = .ok (after, relayed)) :
    Invariant after := by
  obtain ⟨processed, ran, h⟩ := bind_ok h
  obtain ⟨reassigned, pass, h⟩ := bind_ok h
  cases pure_ok h
  have kept : Invariant processed.1 := txs_invariant inv ran
  exact reassignExpired_invariant kept pass

end Bridge
end Asm
