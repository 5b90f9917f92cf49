import AnchorStateMachine.Bridge.PanicFreedom

/-!
The assignment window. A block processes its transactions, then reassigns what is due, and receives
its messages last. An assignment made or renewed at height `H` can therefore be paid in each of the
blocks `H + 1` to `H + D`, is taken from its operator in the last of them if it was not, and no
block ends with an assignment that is already due.
-/

namespace Asm.Bridge
open Outcome BridgeStateV1

structure BlockInput where
  l1Block : L1BlockCommitment
  claim : ClaimVersion
  txs : List TxInput
  accumulatedPow : Nat
  aux : VerifiedAuxData
  msgs : List BridgeIncomingMsg

inductive Numbered : Nat → List BlockInput → Prop
  | nil (first : Nat) : Numbered first []
  | cons {first : Nat} {block : BlockInput} {rest : List BlockInput}
      (height : block.l1Block.height = first) (tail : Numbered (first + 1) rest) :
      Numbered first (block :: rest)

theorem numbered_append {first : Nat} {left right : List BlockInput}
    (numbered : Numbered first (left ++ right)) :
    Numbered first left ∧ Numbered (first + left.length) right := by
  induction left generalizing first with
  | nil => exact ⟨.nil first, numbered⟩
  | cons block left ih =>
    cases numbered with
    | cons height tail =>
      obtain ⟨start, rest⟩ := ih tail
      refine ⟨.cons height start, ?_⟩
      rw [List.length_cons, Nat.add_comm left.length 1, ← Nat.add_assoc]
      exact rest

def AddedOnly (before : BridgeStateV1) (height : Nat) (after : BridgeStateV1) : Prop :=
  after.assignments.assignmentDuration = before.assignments.assignmentDuration ∧
    ∀ entry ∈ after.assignments.assignments, entry ∈ before.assignments.assignments ∨
      entry.fulfillmentDeadline = height + before.assignments.assignmentDuration

theorem addedOnly_trans {a b c : BridgeStateV1} {height : Nat} (first : AddedOnly a height b)
    (second : AddedOnly b height c) : AddedOnly a height c := by
  refine ⟨second.1.trans first.1, fun entry mem => ?_⟩
  rcases second.2 entry mem with old | added
  · exact first.2 entry old
  · rw [first.1] at added
    exact .inr added

section

variable [BridgeLibs]

def processBlockTxs (state : BridgeStateV1) (block : BlockInput) : Exec (BridgeStateV1 × MsgRelayer) :=
  block.txs.foldlM (processTx block.claim block.aux) (state, .new)

def processBlock (state : BridgeStateV1) (block : BlockInput) : Exec BridgeStateV1 := do
  let (state, _) ← processTxs block.claim state block.txs block.l1Block block.accumulatedPow
    block.aux .new
  processMsgs state block.msgs block.l1Block

/-- The transaction fulfills the assignment: same deposit, net amount and destination. -/
def Matches (entry : AssignmentEntry) (tx : TxInput) : Prop :=
  ∃ info, parseTx tx = some (.withdrawalFulfillment info) ∧ info.depositIdx = entry.depositIdx ∧
    info.withdrawalAmount = entry.netAmount ∧
    info.withdrawalDestination = toScript entry.withdrawalOutput.destination

/-- The assignment was made or renewed by the block: it is there at the end, and was not yet after the
block's transactions. -/
def AssignedBy (start : BridgeStateV1) (block : BlockInput) (after : BridgeStateV1)
    (entry : AssignmentEntry) : Prop :=
  entry ∈ after.assignments.assignments ∧
    ∀ processed, processBlockTxs start block = .ok processed →
      entry ∉ processed.1.assignments.assignments

variable {state after : BridgeStateV1} {entry : AssignmentEntry}

theorem processBlock_ok {block : BlockInput} (h : processBlock state block = .ok after) :
    ∃ processed relayer reassigned, processBlockTxs state block = .ok (processed, relayer) ∧
      reassignExpired processed block.l1Block = .ok reassigned ∧
      processMsgs reassigned block.msgs block.l1Block = .ok after := by
  unfold processBlock processTxs at h
  obtain ⟨⟨final, logs⟩, txs, msgs⟩ := bind_ok h
  obtain ⟨⟨processed, relayer⟩, folded, txs⟩ := bind_ok txs
  obtain ⟨reassigned, pass, txs⟩ := bind_ok txs
  cases pure_ok txs
  exact ⟨processed, relayer, final, folded, pass, msgs⟩

/-! ### What stays in the table -/

theorem processBlock_invariant {block : BlockInput} (inv : Invariant state)
    (h : processBlock state block = .ok after) : Invariant after := by
  obtain ⟨processed, relayer, reassigned, txs, pass, msgs⟩ := processBlock_ok h
  exact msgs_invariant (reassignExpired_invariant (txs_invariant inv txs) pass) msgs

theorem processTx_keeps {claim : ClaimVersion} {aux : VerifiedAuxData} {tx : TxInput}
    {before next : BridgeStateV1 × MsgRelayer} (inv : Invariant before.1)
    (mem : entry ∈ before.1.assignments.assignments) (noMatch : ¬ Matches entry tx)
    (h : processTx claim aux before tx = .ok next) : entry ∈ next.1.assignments.assignments := by
  obtain ⟨state, relayer⟩ := before
  rcases processTx_cases h with ⟨same, -⟩ | ⟨info, -, -, admits, -⟩ |
    ⟨info, other, -, parsed, fulfills, -⟩ |
    ⟨operatorIdx, removed, -⟩
  · rw [same]
    exact mem
  · obtain ⟨notarySet, -, after⟩ := admits.after
    rw [after]
    exact mem
  · rw [fulfills.after]
    refine (SortedVec.mem_remove inv.assignmentsSorted).mpr ⟨mem, fun sameIdx => noMatch ?_⟩
    obtain ⟨listed, key⟩ := SortedVec.get_some fulfills.found
    obtain rfl : other = entry :=
      SortedVec.eq_of_key_eq inv.assignmentsSorted listed mem (key.trans sameIdx.symm)
    exact ⟨info, parsed, key.symm, fulfills.amount.symm, fulfills.destination.symm⟩
  · obtain ⟨operators, -, after⟩ := applyOperatorSetUpdate_ok removed
    rw [after]
    exact mem

theorem txs_keep {claim : ClaimVersion} {aux : VerifiedAuxData} {txs : List TxInput}
    {before next : BridgeStateV1 × MsgRelayer} (inv : Invariant before.1)
    (mem : entry ∈ before.1.assignments.assignments) (noMatch : ∀ tx ∈ txs, ¬ Matches entry tx)
    (h : txs.foldlM (processTx claim aux) before = .ok next) :
    entry ∈ next.1.assignments.assignments := by
  have kept := foldlM_preserves (fun s => Invariant s.1 ∧ entry ∈ s.1.assignments.assignments)
    (fun tx inList s t before step => ?_) ⟨inv, mem⟩ h
  · exact kept.2
  · exact ⟨processTx_invariant before.1 step, processTx_keeps before.1 before.2 (noMatch tx inList) step⟩

theorem assignWithdrawal_keeps {l1ref : L1BlockCommitment} {intent : WithdrawalIntent}
    (mem : entry ∈ state.assignments.assignments) (h : assignWithdrawal l1ref state intent = .ok after) :
    entry ∈ after.assignments.assignments := by
  obtain ⟨made, assigns⟩ := assignWithdrawal_ok h
  rw [assigns.after]
  exact SortedVec.mem_insert.mpr (.inr mem)

theorem processMsg_keeps {l1ref : L1BlockCommitment} {msg : BridgeIncomingMsg}
    (mem : entry ∈ state.assignments.assignments) (h : processMsg l1ref state msg = .ok after) :
    entry ∈ after.assignments.assignments := by
  cases msg with
  | dispatchWithdrawal payload =>
    simp only [processMsg, dispatchWithdrawal] at h
    split at h
    · cases h
    · exact foldlM_preserves (fun s => entry ∈ s.assignments.assignments)
        (fun _ _ _ _ mem step => assignWithdrawal_keeps mem step) mem h
  | updateOperatorSet payload =>
    obtain ⟨operators, -, rfl⟩ := applyOperatorSetUpdate_ok h
    exact mem
  | updateSafeHarborAddress address =>
    cases pure_ok h
    exact mem
  | defcon =>
    cases pure_ok h
    exact mem

theorem msgs_keep {msgs : List BridgeIncomingMsg} {l1ref : L1BlockCommitment}
    (mem : entry ∈ state.assignments.assignments) (h : processMsgs state msgs l1ref = .ok after) :
    entry ∈ after.assignments.assignments :=
  foldlM_preserves (fun s => entry ∈ s.assignments.assignments)
    (fun _ _ _ _ mem step => processMsg_keeps mem step) mem h

theorem reassignExpired_keeps {l1Block : L1BlockCommitment} (inv : Invariant state)
    (mem : entry ∈ state.assignments.assignments) (early : l1Block.height < entry.fulfillmentDeadline)
    (h : reassignExpired state l1Block = .ok after) : entry ∈ after.assignments.assignments := by
  obtain ⟨renewed, rfl, passed⟩ := reassignExpired_ok inv h
  obtain ⟨later, listed, passed⟩ := Keyed.exists_of_forall₂ (List.Forall₂.flip passed) mem
  rw [passed.kept early] at listed
  exact listed

theorem processBlock_keeps {block : BlockInput} (inv : Invariant state)
    (mem : entry ∈ state.assignments.assignments)
    (early : block.l1Block.height < entry.fulfillmentDeadline)
    (noMatch : ∀ tx ∈ block.txs, ¬ Matches entry tx) (h : processBlock state block = .ok after) :
    entry ∈ after.assignments.assignments := by
  obtain ⟨processed, relayer, reassigned, txs, pass, msgs⟩ := processBlock_ok h
  have kept := txs_keep inv mem noMatch txs
  exact msgs_keep (reassignExpired_keeps (txs_invariant inv txs) kept early pass) msgs

/-! ### Deadlines -/

theorem processTx_duration {claim : ClaimVersion} {aux : VerifiedAuxData} {tx : TxInput}
    {before next : BridgeStateV1 × MsgRelayer} (h : processTx claim aux before tx = .ok next) :
    next.1.assignments.assignmentDuration = before.1.assignments.assignmentDuration := by
  obtain ⟨state, relayer⟩ := before
  rcases processTx_cases h with ⟨same, -⟩ | ⟨info, -, -, admits, -⟩ | ⟨info, other, -, -, fulfills, -⟩ |
    ⟨operatorIdx, removed, -⟩
  · rw [same]
  · obtain ⟨notarySet, -, after⟩ := admits.after
    rw [after]
  · rw [fulfills.after]
  · obtain ⟨operators, -, after⟩ := applyOperatorSetUpdate_ok removed
    rw [after]

theorem txs_duration {claim : ClaimVersion} {aux : VerifiedAuxData} {txs : List TxInput}
    {before next : BridgeStateV1 × MsgRelayer}
    (h : txs.foldlM (processTx claim aux) before = .ok next) :
    next.1.assignments.assignmentDuration = before.1.assignments.assignmentDuration :=
  foldlM_preserves
    (fun s => s.1.assignments.assignmentDuration = before.1.assignments.assignmentDuration)
    (fun _ _ _ _ same step => (processTx_duration step).trans same) rfl h

theorem reassignExpired_deadlines {l1Block : L1BlockCommitment} (inv : Invariant state)
    (duration : 1 ≤ state.assignments.assignmentDuration)
    (h : reassignExpired state l1Block = .ok after) :
    after.assignments.assignmentDuration = state.assignments.assignmentDuration ∧
    ∀ entry ∈ after.assignments.assignments, l1Block.height < entry.fulfillmentDeadline ∧
      (entry ∈ state.assignments.assignments ∨
        entry.fulfillmentDeadline = l1Block.height + state.assignments.assignmentDuration) := by
  obtain ⟨renewed, rfl, passed⟩ := reassignExpired_ok inv h
  refine ⟨rfl, fun entry mem => ?_⟩
  obtain ⟨earlier, listed, passed⟩ := Keyed.exists_of_forall₂ passed mem
  by_cases early : l1Block.height < earlier.fulfillmentDeadline
  · rw [passed.kept early]
    exact ⟨early, .inl listed⟩
  · obtain ⟨config, -, -, -, renewal⟩ := passed.moved (Nat.le_of_not_lt early)
    have deadline := renewal.deadline
    exact ⟨by omega, .inr deadline⟩

theorem assignWithdrawal_addedOnly {l1ref : L1BlockCommitment} {intent : WithdrawalIntent}
    (h : assignWithdrawal l1ref state intent = .ok after) : AddedOnly state l1ref.height after := by
  obtain ⟨made, assigns⟩ := assignWithdrawal_ok h
  rw [assigns.after]
  refine ⟨rfl, fun entry mem => ?_⟩
  rcases SortedVec.mem_insert.mp mem with rfl | mem
  · exact .inr (createWithdrawalAssignment_ok assigns.created).2.2.2.2.1
  · exact .inl mem

theorem processMsg_addedOnly {l1ref : L1BlockCommitment} {msg : BridgeIncomingMsg}
    (h : processMsg l1ref state msg = .ok after) : AddedOnly state l1ref.height after := by
  have unchanged : AddedOnly state l1ref.height state := ⟨rfl, fun _ mem => .inl mem⟩
  cases msg with
  | dispatchWithdrawal payload =>
    simp only [processMsg, dispatchWithdrawal] at h
    split at h
    · cases h
    · exact foldlM_preserves (AddedOnly state l1ref.height)
        (fun _ _ _ _ added step => addedOnly_trans added (assignWithdrawal_addedOnly step)) unchanged h
  | updateOperatorSet payload =>
    obtain ⟨operators, -, rfl⟩ := applyOperatorSetUpdate_ok h
    exact unchanged
  | updateSafeHarborAddress address =>
    cases pure_ok h
    exact unchanged
  | defcon =>
    cases pure_ok h
    exact unchanged

theorem msgs_addedOnly {msgs : List BridgeIncomingMsg} {l1ref : L1BlockCommitment}
    (h : processMsgs state msgs l1ref = .ok after) : AddedOnly state l1ref.height after :=
  foldlM_preserves (AddedOnly state l1ref.height)
    (fun _ _ _ _ added step => addedOnly_trans added (processMsg_addedOnly step))
    ⟨rfl, fun _ mem => .inl mem⟩ h

/-- A block ends with nothing due, and what it assigned has a full window. -/
theorem processBlock_deadlines {block : BlockInput} (inv : Invariant state)
    (duration : 1 ≤ state.assignments.assignmentDuration) (h : processBlock state block = .ok after) :
    after.assignments.assignmentDuration = state.assignments.assignmentDuration ∧
    (∀ entry ∈ after.assignments.assignments, block.l1Block.height < entry.fulfillmentDeadline) ∧
    ∀ entry, AssignedBy state block after entry →
      entry.fulfillmentDeadline = block.l1Block.height + state.assignments.assignmentDuration := by
  obtain ⟨processed, relayer, reassigned, txs, pass, msgs⟩ := processBlock_ok h
  have txsDuration : processed.assignments.assignmentDuration = state.assignments.assignmentDuration :=
    txs_duration txs
  have processedInv : Invariant processed := txs_invariant inv txs
  rw [← txsDuration] at duration ⊢
  obtain ⟨passDuration, passed⟩ := reassignExpired_deadlines processedInv duration pass
  obtain ⟨msgsDuration, added⟩ := msgs_addedOnly msgs
  rw [passDuration] at msgsDuration added
  refine ⟨msgsDuration, fun entry mem => ?_, fun entry assigned => ?_⟩
  · rcases added entry mem with old | new
    · exact (passed entry old).1
    · omega
  · rcases added entry assigned.1 with old | new
    · rcases (passed entry old).2 with unchanged | renewed
      · exact absurd unchanged (assigned.2 _ txs)
      · exact renewed
    · exact new

/-! ### The window -/

/-- While nobody pays it, an assignment stays as it is through all blocks below its deadline. -/
theorem blocks_keep {blocks : List BlockInput} {first : Nat} (inv : Invariant state)
    (mem : entry ∈ state.assignments.assignments) (numbered : Numbered first blocks)
    (early : first + blocks.length ≤ entry.fulfillmentDeadline)
    (noMatch : ∀ block ∈ blocks, ∀ tx ∈ block.txs, ¬ Matches entry tx)
    (h : blocks.foldlM processBlock state = .ok after) :
    Invariant after ∧ entry ∈ after.assignments.assignments := by
  induction blocks generalizing state first with
  | nil =>
    cases pure_ok h
    exact ⟨inv, mem⟩
  | cons block blocks ih =>
    rw [List.foldlM_cons] at h
    obtain ⟨next, processed, h⟩ := bind_ok h
    cases numbered with
    | cons height tail =>
      rw [List.length_cons] at early
      have kept := processBlock_keeps inv mem (by omega) (noMatch block (.head _)) processed
      exact ih (processBlock_invariant inv processed) kept tail (by omega)
        (fun other listed => noMatch other (.tail _ listed)) h

theorem blocks_invariant {config : BridgeInitConfig} {blocks : List BlockInput}
    (duration : 1 ≤ config.assignmentDuration) (genesis : BridgeStateV1.new config = .ok state)
    (h : blocks.foldlM processBlock state = .ok after) :
    Invariant after ∧ after.assignments.assignmentDuration = config.assignmentDuration := by
  refine foldlM_preserves
    (fun s => Invariant s ∧ s.assignments.assignmentDuration = config.assignmentDuration)
    (fun block _ s t before step => ?_) ⟨new_invariant genesis, ?_⟩ h
  · obtain ⟨inv, same⟩ := before
    have kept := (processBlock_deadlines inv (by omega) step).1
    exact ⟨processBlock_invariant inv step, kept.trans same⟩
  · unfold BridgeStateV1.new at genesis
    obtain ⟨operators, -, genesis⟩ := bind_ok genesis
    cases pure_ok genesis
    rfl

theorem processTx_pays {claim : ClaimVersion} {aux : VerifiedAuxData} {tx : TxInput}
    {before : BridgeStateV1 × MsgRelayer} (inv : Invariant before.1)
    (mem : entry ∈ before.1.assignments.assignments) (matching : Matches entry tx) :
    ∃ leaf next, claim.exportLeaf before.1.operators entry.depositIdx entry.currentAssignee = .ok leaf ∧
      processTx claim aux before tx =
        .ok (next, before.2.emitLog (.newExportEntry bridgeSubprotocolId leaf)) ∧
      next.assignments.getAssignment entry.depositIdx = none := by
  obtain ⟨state, relayer⟩ := before
  obtain ⟨info, parsed, index, amount, destination⟩ := matching
  have found : state.assignments.getAssignment info.depositIdx = some entry := by
    rw [index]
    exact SortedVec.get_of_mem inv.assignmentsSorted mem
  have valid : validateWithdrawalFulfillmentInfo state info = .ok () := by
    simp [validateWithdrawalFulfillmentInfo, found, amount, destination]
  have removal := removeAssignment_found found
  rw [index] at removal
  obtain ⟨leaf, exported⟩ := exportLeaf_ok inv mem claim entry.depositIdx
  refine ⟨leaf, { state with
    assignments.assignments := (SortedVec.remove AssignmentEntry.depositIdx entry.depositIdx
      state.assignments.assignments).1 }, exported, ?_, ?_⟩
  · simp only [processTx, parsed, handleParsedTx, handleWithdrawalFulfillment, valid, index, removal,
      exported, ok_bind, pure_eq_ok]
  · refine (SortedVec.get_eq_none_iff (SortedVec.remove_sorted inv.assignmentsSorted)).mpr ?_
    exact fun other listed => ((SortedVec.mem_remove inv.assignmentsSorted).mp listed).2

/-- In the block of its deadline an unpaid assignment is renewed. -/
theorem processBlock_renews {block : BlockInput} (inv : Invariant state)
    (mem : entry ∈ state.assignments.assignments)
    (due : entry.fulfillmentDeadline ≤ block.l1Block.height)
    (duration : 1 ≤ state.assignments.assignmentDuration)
    (noMatch : ∀ tx ∈ block.txs, ¬ Matches entry tx) (h : processBlock state block = .ok after) :
    ∃ renewed, AssignedBy state block after renewed ∧
      entry.Renewed renewed (block.l1Block.height + state.assignments.assignmentDuration) := by
  obtain ⟨processed, relayer, reassigned, txs, pass, msgs⟩ := processBlock_ok h
  have processedInv : Invariant processed := txs_invariant inv txs
  have kept : entry ∈ processed.assignments.assignments := txs_keep inv mem noMatch txs
  have sameDuration : processed.assignments.assignmentDuration = state.assignments.assignmentDuration :=
    txs_duration txs
  obtain ⟨table, rfl, passed⟩ := reassignExpired_ok processedInv pass
  obtain ⟨renewed, listed, passed⟩ := Keyed.exists_of_forall₂ (List.Forall₂.flip passed) kept
  obtain ⟨config, -, -, -, renewal⟩ := passed.moved due
  rw [sameDuration] at renewal
  refine ⟨renewed, ⟨msgs_keep listed msgs, fun other again present => ?_⟩, renewal⟩
  cases again.symm.trans txs
  -- the table after the transactions holds the old entry under the same index
  have sameIdx : renewed.depositIdx = entry.depositIdx := by
    unfold AssignmentEntry.depositIdx
    rw [renewal.deposit]
  have same := SortedVec.eq_of_key_eq processedInv.assignmentsSorted present kept sameIdx
  have later := renewal.deadline
  rw [same] at later
  omega

/-- For every block of a run at consecutive heights: nothing is due at its end; and whatever it
assigned has a window of `assignment_duration` blocks. In each block of the window, while the
assignment is unpaid, it is unchanged as the transactions are processed; the first that matches it
removes it and exports its assignee's claim; and a block without one keeps it until the last block
of the window, which renews it. -/
theorem assignment_window {config : BridgeInitConfig} {initial start made : BridgeStateV1} {first : Nat}
    {earlier : List BlockInput} {block : BlockInput} (duration : 1 ≤ config.assignmentDuration)
    (genesis : BridgeStateV1.new config = .ok initial) (numbered : Numbered first (earlier ++ [block]))
    (reached : earlier.foldlM processBlock initial = .ok start)
    (processed : processBlock start block = .ok made) :
    block.l1Block.height = first + earlier.length ∧
    (∀ entry ∈ made.assignments.assignments, block.l1Block.height < entry.fulfillmentDeadline) ∧
    ∀ entry, AssignedBy start block made entry →
      entry.fulfillmentDeadline = block.l1Block.height + config.assignmentDuration ∧
      ∀ window current pre, Numbered (block.l1Block.height + 1) (window ++ [current]) →
        window.length < config.assignmentDuration → window.foldlM processBlock made = .ok pre →
        (∀ other ∈ window, ∀ tx ∈ other.txs, ¬ Matches entry tx) →
        (∀ done rest at_, current.txs = done ++ rest → (∀ tx ∈ done, ¬ Matches entry tx) →
          done.foldlM (processTx current.claim current.aux) (pre, .new) = .ok at_ →
          entry ∈ at_.1.assignments.assignments) ∧
        (∀ done tx rest at_, current.txs = done ++ tx :: rest → (∀ tx ∈ done, ¬ Matches entry tx) →
          Matches entry tx → done.foldlM (processTx current.claim current.aux) (pre, .new) = .ok at_ →
          ∃ leaf next, current.claim.exportLeaf at_.1.operators entry.depositIdx entry.currentAssignee =
              .ok leaf ∧
            processTx current.claim current.aux at_ tx =
              .ok (next, at_.2.emitLog (.newExportEntry bridgeSubprotocolId leaf)) ∧
            next.assignments.getAssignment entry.depositIdx = none) ∧
        ((∀ tx ∈ current.txs, ¬ Matches entry tx) → ∀ next, processBlock pre current = .ok next →
          (window.length + 1 < config.assignmentDuration → entry ∈ next.assignments.assignments) ∧
          (window.length + 1 = config.assignmentDuration →
            ∃ renewed, AssignedBy pre current next renewed ∧
            entry.Renewed renewed (current.l1Block.height + config.assignmentDuration))) := by
  have height : block.l1Block.height = first + earlier.length := by
    cases (numbered_append numbered).2 with
    | cons height tail => exact height
  obtain ⟨startInv, startDuration⟩ := blocks_invariant duration genesis reached
  obtain ⟨madeDuration, notDue, deadlines⟩ := processBlock_deadlines startInv (by omega) processed
  refine ⟨height, notDue, fun entry assigned => ?_⟩
  have deadline := deadlines entry assigned
  rw [startDuration] at deadline
  refine ⟨deadline, fun window current pre ahead inside open_ unpaid => ?_⟩
  obtain ⟨windowNumbered, last⟩ := numbered_append ahead
  have madeInv := processBlock_invariant startInv processed
  obtain ⟨preInv, kept⟩ := blocks_keep madeInv assigned.1 windowNumbered (by omega) unpaid open_
  have currentHeight : current.l1Block.height = block.l1Block.height + 1 + window.length := by
    cases last with
    | cons height tail => exact height
  refine ⟨fun done rest at_ _ noMatch folded => txs_keep preInv kept noMatch folded,
    fun done tx rest at_ _ noMatch matching folded => ?_, fun noMatch next step =>
      ⟨fun more => ?_, fun all => ?_⟩⟩
  · exact processTx_pays (txs_invariant preInv folded) (txs_keep preInv kept noMatch folded) matching
  · exact processBlock_keeps preInv kept (by omega) noMatch step
  · have whole : (earlier ++ block :: window).foldlM processBlock initial = .ok pre := by
      rw [List.foldlM_append, reached, ok_bind, List.foldlM_cons, processed, ok_bind, open_]
    have preDuration := (blocks_invariant duration genesis whole).2
    rw [← preDuration]
    exact processBlock_renews preInv kept (by omega) (by omega) noMatch step

end

section

attribute [local instance] sampleLibs

def sampleAssigning : BlockInput :=
  ⟨sampleBlock 100, .v0, [sampleDeposit 7, sampleDeposit 8], 0, sampleAux,
    [.dispatchWithdrawal ⟨⟨[4]⟩, 10, .any⟩]⟩

def samplePaying : BlockInput := ⟨sampleBlock 101, .v0, [sampleFulfillment 7], 0, sampleAux, []⟩

def sampleEntry : AssignmentEntry :=
  ⟨⟨7, 0, 10⟩, ⟨⟨[4]⟩, 10⟩, 1, 0, .newWithSize 2 false, 102⟩

theorem assignment_window_sample :
    ∃ initial made leaf next, BridgeStateV1.new sampleConfig = .ok initial ∧
      processBlock initial sampleAssigning = .ok made ∧
      AssignedBy initial sampleAssigning made sampleEntry ∧
      ClaimVersion.v0.exportLeaf made.operators 7 0 = .ok leaf ∧
      processTx .v0 sampleAux (made, .new) (sampleFulfillment 7) =
        .ok (next, MsgRelayer.new.emitLog (.newExportEntry bridgeSubprotocolId leaf)) ∧
      next.assignments.getAssignment 7 = none := by
  obtain ⟨initial, made, genesis, processed, txs, table⟩ :
      ∃ initial made, BridgeStateV1.new sampleConfig = .ok initial ∧
        processBlock initial sampleAssigning = .ok made ∧
        (∃ after, processBlockTxs initial sampleAssigning = .ok after ∧
          after.1.assignments.assignments = []) ∧
        made.assignments.assignments = [sampleEntry] := ⟨_, _, rfl, rfl, ⟨_, rfl, rfl⟩, rfl⟩
  have assigned : AssignedBy initial sampleAssigning made sampleEntry := by
    obtain ⟨after, txs, empty⟩ := txs
    refine ⟨by rw [table]; exact .head _, fun again returned => ?_⟩
    cases returned.symm.trans txs
    rw [empty]
    exact List.not_mem_nil
  have numbered : Numbered 100 ([] ++ [sampleAssigning]) := .cons rfl (.nil _)
  have start : ([] : List BlockInput).foldlM processBlock initial = .ok initial := rfl
  obtain ⟨-, -, window⟩ := assignment_window (by decide) genesis numbered start processed
  obtain ⟨-, pays, -⟩ := (window sampleEntry assigned).2 [] samplePaying made (.cons rfl (.nil _))
    (by decide) rfl (by simp)
  obtain ⟨leaf, next, exported, paid, gone⟩ :=
    pays [] (sampleFulfillment 7) [] (made, .new) rfl (by simp)
    ⟨⟨7, [4], 9⟩, rfl, rfl, rfl, rfl⟩ rfl
  exact ⟨initial, made, leaf, next, genesis, processed, assigned, exported, paid, gone⟩

end
end Asm.Bridge
