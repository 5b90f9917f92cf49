import AnchorStateMachine.Bridge.PanicFreedom

/-!
Conservation of deposits. An accepted deposit is in exactly one place: in the deposits table, behind
an assignment, or turned into the claim of the operator that paid the withdrawal. The index of a
deposit may be used again once its claim is exported, so the accounting is by counts.
-/

namespace Asm.Bridge
open Outcome BridgeStateV1

abbrev StepVisit := Visit (BridgeStateV1 × MsgRelayer) Event

def emittedLogs (visit : StepVisit) : List AsmLogEntry :=
  visit.post.2.logs.drop visit.pre.2.logs.length

def exportedLeaf : AsmLogEntry → Option Buf32
  | .newExportEntry _ leaf => some leaf
  | _ => none

section

theorem noLeaves_of_same {visit : StepVisit} (same : visit.post.2.logs = visit.pre.2.logs) :
    (emittedLogs visit).filterMap exportedLeaf = [] := by
  simp [emittedLogs, same]

theorem emittedLogs_emitLog {visit : StepVisit} {log : AsmLogEntry}
    (emitted : visit.post.2.logs = visit.pre.2.logs ++ [log]) : emittedLogs visit = [log] := by
  simp [emittedLogs, emitted]

def backing (state : BridgeStateV1) : List DepositEntry :=
  state.deposits ++ state.assignments.assignments.map (·.depositEntry)

def held (state : BridgeStateV1) (i : Nat) : Nat :=
  state.deposits.countP (·.depositIdx = i) + state.assignments.assignments.countP (·.depositIdx = i)

theorem countP_backing (state : BridgeStateV1) (i : Nat) :
    (backing state).countP (·.depositIdx = i) = held state i := by
  simp only [backing, List.countP_append, List.countP_map, held]
  rfl

variable {before next : BridgeStateV1 × MsgRelayer} [BridgeLibs]

def acceptedDeposit (visit : StepVisit) : Option Nat :=
  match visit.input with
  | .tx claim aux tx =>
    match parseTx tx with
    | some (.deposit info) =>
      match handleParsedTx claim visit.pre.1 (.deposit info) aux visit.pre.2 with
      | .ok (.ok _) => some info.depositIdx
      | _ => none
    | _ => none
  | _ => none

/-- The claim leaves a step exports, each with the deposit index of the transaction behind it. -/
def claimLeaves (visit : StepVisit) : List (Nat × Buf32) :=
  match visit.input with
  | .tx _ _ tx =>
    match parseTx tx with
    | some (.withdrawalFulfillment info) =>
      ((emittedLogs visit).filterMap exportedLeaf).map fun leaf => (info.depositIdx, leaf)
    | _ => []
  | _ => []

/-- The step paid an assignment: the transaction's second output pays its net amount to its
destination, the assignment is gone, and the leaf is the claim of its assignee. -/
def PaidClaim (visit : StepVisit) (depositIdx : Nat) (leaf : Buf32) : Prop :=
  ∃ claim aux tx entry, visit.input = .tx claim aux tx ∧
    visit.pre.1.assignments.getAssignment depositIdx = some entry ∧
    visit.post.1.assignments.getAssignment depositIdx = none ∧
    tx.tx.output[1]? = some ⟨entry.netAmount, toScript entry.withdrawalOutput.destination⟩ ∧
    claim.exportLeaf visit.pre.1.operators depositIdx entry.currentAssignee = .ok leaf

def IsDispatch : Event → Prop
  | .msg _ (.dispatchWithdrawal _) => True
  | _ => False

/-- What a step does to deposits, assignments and claims. -/
inductive Accounted (visit : StepVisit) : Prop
  | deposit (entry : DepositEntry) (accepted : acceptedDeposit visit = some entry.depositIdx)
      (leaves : (emittedLogs visit).filterMap exportedLeaf = [])
      (deposits : visit.post.1.deposits.Perm (entry :: visit.pre.1.deposits))
      (assignments : visit.post.1.assignments = visit.pre.1.assignments)
  | claim (entry : AssignmentEntry) (leaf : Buf32) (rejected : acceptedDeposit visit = none)
      (leaves : claimLeaves visit = [(entry.depositIdx, leaf)])
      (exported : (emittedLogs visit).filterMap exportedLeaf = [leaf])
      (paid : PaidClaim visit entry.depositIdx leaf)
      (assignments : visit.pre.1.assignments.assignments.Perm
        (entry :: visit.post.1.assignments.assignments))
      (deposits : visit.post.1.deposits = visit.pre.1.deposits)
  | dispatch (event : IsDispatch visit.input) (leaves : (emittedLogs visit).filterMap exportedLeaf = [])
      (moved : (backing visit.post.1).Perm (backing visit.pre.1))
  | other (rejected : acceptedDeposit visit = none)
      (leaves : (emittedLogs visit).filterMap exportedLeaf = [])
      (deposits : visit.post.1.deposits = visit.pre.1.deposits)
      (assignments : visit.post.1.assignments.assignments.map (·.depositEntry) =
        visit.pre.1.assignments.assignments.map (·.depositEntry))

theorem accounted_idle {event : Event} (rejected : acceptedDeposit ⟨before, event, next⟩ = none)
    (logs : next.2.logs = before.2.logs) (deposits : next.1.deposits = before.1.deposits)
    (assignments : next.1.assignments = before.1.assignments) : Accounted ⟨before, event, next⟩ :=
  .other rejected (noLeaves_of_same logs) deposits
    (congrArg (fun table => table.assignments.map (·.depositEntry)) assignments)

theorem deposit_accounted {claim : ClaimVersion} {aux : VerifiedAuxData} {tx : TxInput}
    {info : DepositInfo} (parsed : parseTx tx = some (.deposit info))
    (h : processTx claim aux before tx = .ok next) : Accounted ⟨before, .tx claim aux tx, next⟩ := by
  obtain ⟨state, relayer⟩ := before
  simp only [processTx, parsed] at h
  obtain ⟨outcome, handled, h⟩ := bind_ok h
  cases outcome with
  | error error =>
    cases pure_ok h
    exact accounted_idle (by simp [acceptedDeposit, parsed, handled]) rfl rfl rfl
  | ok processed =>
    obtain ⟨after, relayed⟩ := processed
    cases pure_ok h
    obtain ⟨admits, destination, -, rfl⟩ := handleDeposit_ok handled
    obtain ⟨notarySet, -, after⟩ := admits.after
    refine .deposit ⟨info.depositIdx, notarySet, info.amt⟩ ?_ ?_ ?_ ?_
    · simp [acceptedDeposit, parsed, handled]
    · rw [emittedLogs_emitLog rfl]
      rfl
    · simp only [after]
      exact SortedVec.insert_perm _ _
    · simp only [after]

theorem fulfillment_accounted {claim : ClaimVersion} {aux : VerifiedAuxData} {tx : TxInput}
    {info : WithdrawalFulfillmentInfo} (inv : Invariant before.1)
    (parsed : parseTx tx = some (.withdrawalFulfillment info))
    (h : processTx claim aux before tx = .ok next) : Accounted ⟨before, .tx claim aux tx, next⟩ := by
  obtain ⟨state, relayer⟩ := before
  simp only [processTx, parsed] at h
  obtain ⟨outcome, handled, h⟩ := bind_ok h
  cases outcome with
  | error error =>
    cases pure_ok h
    exact accounted_idle (by simp [acceptedDeposit, parsed]) rfl rfl rfl
  | ok processed =>
    obtain ⟨after, relayed⟩ := processed
    cases pure_ok h
    obtain ⟨entry, leaf, fulfills, exported, rfl⟩ := handleWithdrawalFulfillment_ok handled
    have key : entry.depositIdx = info.depositIdx := (SortedVec.get_some fulfills.found).2
    have emitted : emittedLogs ⟨(state, relayer), .tx claim aux tx,
        (after, relayer.emitLog (.newExportEntry bridgeSubprotocolId leaf))⟩ =
          [.newExportEntry bridgeSubprotocolId leaf] := emittedLogs_emitLog rfl
    refine .claim entry leaf ?_ ?_ ?_ ?_ ?_ ?_
    · simp [acceptedDeposit, parsed]
    · simp [claimLeaves, parsed, emitted, exportedLeaf, key]
    · simp [emitted, exportedLeaf]
    · refine ⟨claim, aux, tx, entry, rfl, ?_, ?_, ?_, ?_⟩
      · rw [key]
        exact fulfills.found
      · rw [key, fulfills.after]
        refine (SortedVec.get_eq_none_iff (SortedVec.remove_sorted inv.assignmentsSorted)).mpr ?_
        exact fun other mem => ((SortedVec.mem_remove inv.assignmentsSorted).mp mem).2
      · rw [parseTx_fulfillment parsed, ← fulfills.amount, ← fulfills.destination]
      · rw [key]
        exact exported
    · rw [fulfills.after]
      exact (SortedVec.remove_found fulfills.found).2
    · rw [fulfills.after]

theorem removal_accounted {claim : ClaimVersion} {aux : VerifiedAuxData} {tx : TxInput}
    (noDeposit : ∀ info, parseTx tx ≠ some (.deposit info))
    (noFulfillment : ∀ info, parseTx tx ≠ some (.withdrawalFulfillment info))
    (h : processTx claim aux before tx = .ok next) : Accounted ⟨before, .tx claim aux tx, next⟩ := by
  have rejected : acceptedDeposit ⟨before, .tx claim aux tx, next⟩ = none := by
    dsimp only [acceptedDeposit]
    split
    · rename_i info parsed
      exact absurd parsed (noDeposit info)
    · rfl
  obtain ⟨state, relayer⟩ := before
  rcases processTx_cases h with ⟨after, relayed⟩ | ⟨info, -, parsed, -⟩ | ⟨info, -, -, parsed, -⟩ |
    ⟨operatorIdx, removed, relayed⟩
  · exact accounted_idle rejected (by rw [relayed]) (by rw [after]) (by rw [after])
  · exact absurd parsed (noDeposit info)
  · exact absurd parsed (noFulfillment info)
  · obtain ⟨operators, -, after⟩ := applyOperatorSetUpdate_ok removed
    exact accounted_idle rejected (by rw [relayed]) (by rw [after]) (by rw [after])

theorem tx_accounted {claim : ClaimVersion} {aux : VerifiedAuxData} {tx : TxInput}
    (inv : Invariant before.1) (h : processTx claim aux before tx = .ok next) :
    Accounted ⟨before, .tx claim aux tx, next⟩ := by
  by_cases deposit : ∃ info, parseTx tx = some (.deposit info)
  · obtain ⟨info, parsed⟩ := deposit
    exact deposit_accounted parsed h
  · by_cases fulfillment : ∃ info, parseTx tx = some (.withdrawalFulfillment info)
    · obtain ⟨info, parsed⟩ := fulfillment
      exact fulfillment_accounted inv parsed h
    · exact removal_accounted (not_exists.mp deposit) (not_exists.mp fulfillment) h

/-! ### Messages and the reassignment pass -/

theorem assigns_backing {l1ref : L1BlockCommitment} {intent : WithdrawalIntent} {entry : AssignmentEntry}
    {state after : BridgeStateV1} (assigns : Assigns l1ref state intent entry after) :
    (backing after).Perm (backing state) := by
  obtain ⟨rest, deposits⟩ := List.head?_eq_some_iff.mp assigns.oldest
  rw [assigns.after]
  simp only [backing, deposits, List.tail_cons]
  have inserted : ((SortedVec.insert AssignmentEntry.depositIdx entry
      state.assignments.assignments).map (·.depositEntry)).Perm
        (entry.depositEntry :: state.assignments.assignments.map (·.depositEntry)) :=
    (SortedVec.insert_perm entry state.assignments.assignments).map _
  exact (inserted.append_left rest).trans List.perm_middle

theorem dispatchWithdrawal_backing {l1ref : L1BlockCommitment} {payload : WithdrawalIntent}
    {state after : BridgeStateV1} (h : dispatchWithdrawal l1ref state payload = .ok after) :
    (backing after).Perm (backing state) := by
  unfold dispatchWithdrawal at h
  split at h
  · cases h
  · refine foldlM_preserves (fun s => (backing s).Perm (backing state))
      (fun intent _ s t moved step => ?_) (.refl _) h
    obtain ⟨entry, assigns⟩ := assignWithdrawal_ok step
    exact (assigns_backing assigns).trans moved

theorem msg_accounted {l1ref : L1BlockCommitment} {msg : BridgeIncomingMsg}
    (h : step before (.msg l1ref msg) = .ok next) : Accounted ⟨before, .msg l1ref msg, next⟩ := by
  obtain ⟨state, relayer⟩ := before
  obtain ⟨after, processed, h⟩ := bind_ok h
  cases pure_ok h
  cases msg with
  | dispatchWithdrawal payload =>
    exact .dispatch trivial (noLeaves_of_same rfl) (dispatchWithdrawal_backing processed)
  | updateOperatorSet payload =>
    obtain ⟨operators, -, rfl⟩ := applyOperatorSetUpdate_ok processed
    exact accounted_idle rfl rfl rfl rfl
  | updateSafeHarborAddress address =>
    cases pure_ok processed
    exact accounted_idle rfl rfl rfl rfl
  | defcon =>
    cases pure_ok processed
    exact accounted_idle rfl rfl rfl rfl

theorem step_accounted {event : Event} (inv : Invariant before.1) (h : step before event = .ok next) :
    Accounted ⟨before, event, next⟩ := by
  cases event with
  | tx claim aux tx => exact tx_accounted inv h
  | reassign l1Block =>
    obtain ⟨state, relayer⟩ := before
    obtain ⟨after, pass, h⟩ := bind_ok h
    cases pure_ok h
    obtain ⟨renewed, rfl, passed⟩ := reassignExpired_ok inv pass
    exact .other rfl (noLeaves_of_same rfl) rfl
      (AssignmentTable.forall₂_passed_depositEntry passed)
  | publishPow accumulatedPow =>
    obtain ⟨state, relayer⟩ := before
    cases pure_ok h
    exact .other rfl (by rw [emittedLogs_emitLog rfl]; rfl) rfl rfl
  | msg l1ref msg => exact msg_accounted h

/-! ### The balance -/

theorem held_le_one {state : BridgeStateV1} (inv : Invariant state) (i : Nat) : held state i ≤ 1 := by
  have deposits := SortedVec.countP_key_le_one inv.depositsSorted i
  have assignments := SortedVec.countP_key_le_one inv.assignmentsSorted i
  have notBoth : state.deposits.countP (·.depositIdx = i) = 0 ∨
      state.assignments.assignments.countP (·.depositIdx = i) = 0 := by
    by_contra both
    push Not at both
    obtain ⟨deposit, listed, index⟩ := List.countP_pos_iff.mp (Nat.pos_of_ne_zero both.1)
    obtain ⟨entry, assigned, same⟩ := List.countP_pos_iff.mp (Nat.pos_of_ne_zero both.2)
    have equal := (of_decide_eq_true index).trans (of_decide_eq_true same).symm
    exact inv.disjoint deposit listed entry assigned equal
  unfold held
  omega

theorem claimLeaves_nil {visit : StepVisit} (leaves : (emittedLogs visit).filterMap exportedLeaf = []) :
    claimLeaves visit = [] := by
  unfold claimLeaves
  split
  · split
    · rw [leaves]
      rfl
    · rfl
  · rfl

theorem acceptedDeposit_dispatch {visit : StepVisit} (event : IsDispatch visit.input) :
    acceptedDeposit visit = none := by
  unfold acceptedDeposit
  split
  · rename_i input
    rw [input] at event
    exact event.elim
  · rfl

/-- A step changes what the bridge holds by what it accepts and exports. -/
theorem Accounted.balance {visit : StepVisit} (accounted : Accounted visit) (i : Nat) :
    held visit.post.1 i + (claimLeaves visit).countP (·.1 = i) =
      held visit.pre.1 i + if acceptedDeposit visit = some i then 1 else 0 := by
  cases accounted with
  | deposit entry accepted leaves deposits assignments =>
    rw [claimLeaves_nil leaves, accepted]
    unfold held
    rw [deposits.countP_eq, assignments, List.countP_cons]
    by_cases same : entry.depositIdx = i
    · simp [same]
      omega
    · simp [same]
  | claim entry leaf rejected leaves exported paid assignments deposits =>
    rw [leaves, rejected]
    unfold held
    rw [assignments.countP_eq, deposits, List.countP_cons]
    by_cases same : entry.depositIdx = i
    · simp [same]
      omega
    · simp [same]
  | dispatch event leaves moved =>
    rw [claimLeaves_nil leaves, acceptedDeposit_dispatch event, ← countP_backing, ← countP_backing,
      moved.countP_eq]
    rfl
  | other rejected leaves deposits assignments =>
    rw [claimLeaves_nil leaves, rejected, ← countP_backing, ← countP_backing]
    simp [backing, deposits, assignments]

/-- For every deposit index, after any sequence of steps from the initial state: the deposits accepted
are those in the deposits table, those assigned and those turned into claims, and at most one is held.
Every step of the run accepts a deposit, pays a claim, dispatches, or leaves all three alone. -/
theorem run_conserves {config : BridgeInitConfig} {initial state : BridgeStateV1} {relayer : MsgRelayer}
    {events : List Event} (genesis : BridgeStateV1.new config = .ok initial)
    (reached : events.foldlM step (initial, .new) = .ok (state, relayer)) :
    let trace := visits step (initial, .new) events
    (∀ i, trace.countP (acceptedDeposit · = some i) =
        state.deposits.countP (·.depositIdx = i) +
        state.assignments.assignments.countP (·.depositIdx = i) +
        (trace.flatMap claimLeaves).countP (·.1 = i) ∧
      state.deposits.countP (·.depositIdx = i) +
        state.assignments.assignments.countP (·.depositIdx = i) ≤ 1) ∧
    ∀ visit ∈ trace, Accounted visit := by
  intro trace
  have history := foldlM_history
    (fun past s => Invariant s.1 ∧ (∀ visit ∈ past, Accounted visit) ∧
      ∀ i, past.countP (acceptedDeposit · = some i) =
        held s.1 i + (past.flatMap claimLeaves).countP (·.1 = i)) []
    (fun event _ past s t before taken => ?_) ⟨new_invariant genesis, ?_, ?_⟩ reached
  · obtain ⟨inv, accounted, balance⟩ := history
    exact ⟨fun i => ⟨balance i, held_le_one inv i⟩, accounted⟩
  · obtain ⟨inv, accounted, balance⟩ := before
    have last := step_accounted inv taken
    refine ⟨step_invariant inv taken, ?_, fun i => ?_⟩
    · intro visit mem
      rcases List.mem_append.mp mem with old | new
      · exact accounted visit old
      · rw [List.mem_singleton.mp new]
        exact last
    · have lastBalance := last.balance i
      have before := balance i
      simp only [List.countP_append, List.countP_singleton, List.flatMap_append, List.flatMap_cons,
        List.flatMap_nil, List.append_nil, decide_eq_true_eq] at lastBalance ⊢
      omega
  · intro visit mem
    cases mem
  · intro i
    unfold BridgeStateV1.new at genesis
    obtain ⟨operators, -, genesis⟩ := bind_ok genesis
    cases pure_ok genesis
    rfl

end

section

attribute [local instance] sampleLibs

def sampleEvents : List Event :=
  sampleCalls.flatMap Call.events ++ [.tx .v1 sampleAux (sampleFulfillment 7)]

theorem run_conserves_sample :
    ∃ initial state relayer, BridgeStateV1.new sampleConfig = .ok initial ∧
      sampleEvents.foldlM step (initial, .new) = .ok (state, relayer) ∧
      (visits step (initial, .new) sampleEvents).countP (acceptedDeposit · = some 7) =
        state.deposits.countP (·.depositIdx = 7) +
        state.assignments.assignments.countP (·.depositIdx = 7) +
        ((visits step (initial, .new) sampleEvents).flatMap claimLeaves).countP (·.1 = 7) ∧
      state.deposits.map (·.depositIdx) = [8] ∧ state.assignments.assignments = [] := by
  obtain ⟨initial, state, relayer, genesis, reached, deposits, assignments⟩ :
      ∃ initial state relayer, BridgeStateV1.new sampleConfig = .ok initial ∧
        sampleEvents.foldlM step (initial, .new) = .ok (state, relayer) ∧
        state.deposits.map (·.depositIdx) = [8] ∧ state.assignments.assignments = [] :=
    ⟨_, _, _, rfl, rfl, rfl, rfl⟩
  exact ⟨initial, state, relayer, genesis, reached, ((run_conserves genesis reached).1 7).1, deposits,
    assignments⟩

end
end Asm.Bridge
