import AnchorStateMachine.Bridge.OperatorInvariant
import AnchorStateMachine.Bridge.State

/-! Selecting an operator for a withdrawal. An assignment can be made, or moved to another operator,
exactly when the notary set of its deposit still has a member in the current multisig. -/

namespace Asm
open Outcome OperatorBitmap

variable [ChaCha20]

def NoMemberLeft (notary current : OperatorBitmap) : Prop :=
  ∀ i, ¬ (notary.isActive i ∧ current.isActive i)

theorem selectRandomOperator_cases {eligible : OperatorBitmap} (bound : eligible.len ≤ u32Bound)
    (seed : Buf32) (depositIdx : Nat) :
    (∃ operator, selectRandomOperator eligible seed depositIdx = .ok operator ∧
        eligible.isActive operator) ∨
      (selectRandomOperator eligible seed depositIdx = .error (.noEligibleOperators depositIdx) ∧
        ∀ i, ¬ eligible.isActive i) := by
  simp only [selectRandomOperator]
  by_cases none : eligible.activeCount = 0
  · refine .inr ⟨by simp [none], fun i active => ?_⟩
    have positive : 0 < eligible.activeCount := activeCount_pos_iff.mpr ⟨i, active⟩
    omega
  · have drawn : ChaCha20.nextU32 seed depositIdx % eligible.activeCount <
      eligible.activeIndices.length := by
      rw [length_activeIndices]
      exact Nat.mod_lt _ (Nat.pos_of_ne_zero none)
    refine .inl ⟨eligible.activeIndices[ChaCha20.nextU32 seed depositIdx % eligible.activeCount], ?_, ?_⟩
    · simp [none, drawn]
    · exact (mem_activeIndices bound).mp (List.getElem_mem drawn)

namespace AssignmentEntry

/-- The assignee belongs to the notary set and to the current multisig, and the operators tried before
are recorded for exactly the notary set. -/
structure AssignedIn (entry : AssignmentEntry) (notary current : OperatorBitmap) : Prop where
  inNotary : notary.isActive entry.currentAssignee
  inCurrent : current.isActive entry.currentAssignee
  previousLen : entry.previousAssignees.len = notary.len

theorem create_ok {deposit : DepositEntry} {intent : WithdrawalIntent} {fee deadline : Nat}
    {notary current : OperatorBitmap} {seed : Buf32} {entry : AssignmentEntry}
    (h : create deposit intent fee deadline notary current seed = .ok entry) :
    entry.depositEntry = deposit ∧ entry.withdrawalOutput = intent.toOutput ∧ entry.operatorFee = fee ∧
      entry.fulfillmentDeadline = deadline ∧
      entry.previousAssignees = newWithSize notary.len false := by
  unfold create at h
  obtain ⟨eligible, -, h⟩ := bind_ok h
  dsimp only at h
  split at h <;>
  · obtain ⟨assignee, -, h⟩ := bind_ok h
    cases pure_ok h
    exact ⟨rfl, rfl, rfl, rfl, rfl⟩

theorem create_cases (deposit : DepositEntry) (intent : WithdrawalIntent) (fee deadline : Nat)
    {notary current : OperatorBitmap} (seed : Buf32) (fits : notary.len ≤ current.len)
    (bound : notary.len ≤ u32Bound) :
    (∃ entry, create deposit intent fee deadline notary current seed = .ok entry ∧
        entry.AssignedIn notary current) ∨
      (create deposit intent fee deadline notary current seed =
          .error (.noEligibleOperators deposit.depositIdx) ∧ NoMemberLeft notary current) := by
  obtain ⟨eligible, filtered, len, active⟩ := filterEligibleOperators_ok
    (newWithSize_len notary.len false).symm fits
  simp only [newWithSize_isActive_false, Bool.not_false, Bool.and_true] at active
  simp only [create, filtered, Except.mapError, ok_bind]
  have member : ∀ {i}, eligible.isActive i → notary.isActive i ∧ current.isActive i := by
    intro i set
    rw [active, Bool.and_eq_true] at set
    exact set.symm
  cases preferred : intent.selectedOperator.asSpecific.filter (eligible.isActive ·) with
  | some idx =>
    have set := (Option.filter_eq_some_iff.mp preferred).2
    exact .inl ⟨_, rfl, ⟨(member set).1, (member set).2, newWithSize_len _ _⟩⟩
  | none =>
    rcases selectRandomOperator_cases (len.trans_le bound) seed deposit.depositIdx with
      ⟨operator, selected, set⟩ | ⟨failed, empty⟩
    · exact .inl ⟨_, by rw [selected]; rfl, ⟨(member set).1, (member set).2, newWithSize_len _ _⟩⟩
    · refine .inr ⟨by rw [failed]; rfl, fun i both => empty i ?_⟩
      rw [active, Bool.and_eq_true]
      exact both.symm

structure Renewed (entry renewed : AssignmentEntry) (deadline : Nat) : Prop where
  deposit : renewed.depositEntry = entry.depositEntry
  output : renewed.withdrawalOutput = entry.withdrawalOutput
  fee : renewed.operatorFee = entry.operatorFee
  deadline : renewed.fulfillmentDeadline = deadline

theorem reassign_eq (entry : AssignmentEntry) (deadline : Nat) (seed : Buf32)
    (notary current : OperatorBitmap) :
    entry.reassign deadline seed notary current =
      (entry.reassignMut deadline seed notary current).2.map
        fun _ => (entry.reassignMut deadline seed notary current).1 := by
  unfold reassign reassignMut
  cases entry.previousAssignees.trySet entry.currentAssignee true with
  | error => rfl
  | ok tried =>
    dsimp only [Except.mapError, ok_bind]
    cases filterEligibleOperators notary tried current with
    | error => rfl
    | ok eligible =>
      dsimp only [ok_bind]
      cases selectRandomOperator eligible seed entry.depositIdx with
      | ok operator => rfl
      | error error =>
        cases error with
        | noEligibleOperators =>
          dsimp only
          cases filterEligibleOperators notary (newWithSize notary.len false) current with
          | error => rfl
          | ok everyone =>
            dsimp only [ok_bind]
            cases selectRandomOperator everyone seed entry.depositIdx <;> rfl
        | _ => rfl

/-- The assignee and the operators tried before it. -/
def Recorded (entry : AssignmentEntry) (idx : Nat) : Prop :=
  entry.previousAssignees.isActive idx ∨ idx = entry.currentAssignee

/-- How a call to `reassign` ends: with an operator that was not tried, with any operator after all
were tried, or with an error when no operator is left. -/
inductive Reassigned (entry : AssignmentEntry) (deadline : Nat) (notary current : OperatorBitmap) :
    AssignmentEntry × Except WithdrawalAssignmentError Unit → Prop
  | fresh {tried : OperatorBitmap} {chosen : Nat} (member : notary.isActive chosen ∧
      current.isActive chosen)
      (untried : ¬ entry.Recorded chosen) (triedLen : tried.len = notary.len)
      (recorded : ∀ idx, tried.isActive idx ↔ entry.Recorded idx) :
      Reassigned entry deadline notary current ({ entry with
        previousAssignees := tried, currentAssignee := chosen, fulfillmentDeadline := deadline }, .ok ())
  | reset {chosen : Nat} (member : notary.isActive chosen ∧ current.isActive chosen)
      (allTried : ∀ idx, notary.isActive idx → current.isActive idx → entry.Recorded idx) :
      Reassigned entry deadline notary current ({ entry with
        previousAssignees := newWithSize notary.len false, currentAssignee := chosen
        fulfillmentDeadline := deadline }, .ok ())
  | stuck (noMember : NoMemberLeft notary current) :
      Reassigned entry deadline notary current
        ({ entry with previousAssignees := newWithSize notary.len false },
          .error (.noEligibleOperators entry.depositIdx))

theorem reassignMut_cases {entry : AssignmentEntry} (deadline : Nat) (seed : Buf32)
    {notary current : OperatorBitmap} (assignee : notary.isActive entry.currentAssignee)
    (previousLen : entry.previousAssignees.len = notary.len) (fits : notary.len ≤ current.len)
    (bound : notary.len ≤ u32Bound) :
    Reassigned entry deadline notary current (entry.reassignMut deadline seed notary current) := by
  have inside := isActive_lt assignee
  obtain ⟨tried, set⟩ : ∃ tried, entry.previousAssignees.trySet entry.currentAssignee true = .ok tried :=
    trySet_total true (by omega)
  obtain ⟨-, len, triedActive⟩ := trySet_ok set
  have triedLen : tried.len = notary.len := by omega
  have recorded (idx : Nat) : tried.isActive idx ↔ entry.Recorded idx := by
    rw [triedActive, Recorded]
    split
    · rename_i same
      simp [same]
    · rename_i other
      simp [other]
  obtain ⟨eligible, filtered, len, active⟩ := filterEligibleOperators_ok triedLen.symm fits
  obtain ⟨everyone, refiltered, everyoneLen, everyoneActive⟩ := filterEligibleOperators_ok
    (newWithSize_len notary.len false).symm fits
  simp only [newWithSize_isActive_false, Bool.not_false, Bool.and_true] at everyoneActive
  simp only [reassignMut, set, filtered, refiltered]
  rcases selectRandomOperator_cases (len.trans_le bound) seed entry.depositIdx with
    ⟨operator, selected, set⟩ | ⟨failed, noneEligible⟩
  · rw [selected]
    simp only [active, Bool.and_eq_true, Bool.not_eq_true'] at set
    obtain ⟨⟨inCurrent, inNotary⟩, untried⟩ := set
    exact .fresh ⟨inNotary, inCurrent⟩ (fun
      isRecorded => by simp [(recorded operator).mpr isRecorded] at untried)
      triedLen recorded
  · rw [failed]
    -- every eligible operator was tried before: the second selection is from the whole notary set
    rcases selectRandomOperator_cases (everyoneLen.trans_le bound) seed entry.depositIdx with
      ⟨operator, selected, set⟩ | ⟨failedAgain, empty⟩
    · dsimp only
      rw [selected]
      simp only [everyoneActive, Bool.and_eq_true] at set
      refine .reset set.symm fun idx inNotary inCurrent => (recorded idx).mp ?_
      by_contra untried
      exact noneEligible idx (by simp [active, inNotary, inCurrent, untried])
    · dsimp only
      rw [failedAgain]
      refine .stuck fun i both => empty i ?_
      rw [everyoneActive, Bool.and_eq_true]
      exact both.symm

theorem reassign_cases {entry : AssignmentEntry} (deadline : Nat) (seed : Buf32)
    {notary current : OperatorBitmap} (assignee : notary.isActive entry.currentAssignee)
    (previousLen : entry.previousAssignees.len = notary.len) (fits : notary.len ≤ current.len)
    (bound : notary.len ≤ u32Bound) :
    (∃ renewed, entry.reassign deadline seed notary current = .ok renewed ∧
        renewed.AssignedIn notary current ∧ entry.Renewed renewed deadline) ∨
      (entry.reassign deadline seed notary current =
          .error (.noEligibleOperators entry.depositIdx) ∧ NoMemberLeft notary current) := by
  have reassigned := reassignMut_cases deadline seed assignee previousLen fits bound
  rw [reassign_eq]
  generalize entry.reassignMut deadline seed notary current = result at reassigned
  cases reassigned with
  | fresh member untried triedLen recorded =>
    exact .inl ⟨_, rfl, ⟨member.1, member.2, triedLen⟩, ⟨rfl, rfl, rfl, rfl⟩⟩
  | reset member allTried =>
    exact .inl ⟨_, rfl, ⟨member.1, member.2, newWithSize_len _ _⟩, ⟨rfl, rfl, rfl, rfl⟩⟩
  | stuck noMember => exact .inr ⟨rfl, noMember⟩

end AssignmentEntry

/-! ### The reassignment pass -/

/-- The notary set of the assignment is a recorded configuration, its assignee is in it, and the
operators tried before are recorded for exactly that configuration. -/
def AssignmentEntry.SoundIn (entry : AssignmentEntry) (history : List HistoricalNnScript) : Prop :=
  ∃ config, history[entry.notarySet]? = some config ∧
    config.operators.isActive entry.currentAssignee ∧
    entry.previousAssignees.len = config.operators.len

namespace AssignmentTable

structure Passed (history : List HistoricalNnScript) (current : OperatorBitmap)
    (l1Block : L1BlockCommitment) (newDeadline : Nat) (entry renewed : AssignmentEntry) : Prop where
  kept : l1Block.height < entry.fulfillmentDeadline → renewed = entry
  moved : entry.fulfillmentDeadline ≤ l1Block.height → ∃ config,
    history[entry.notarySet]? = some config ∧
    entry.reassign newDeadline l1Block.blkid config.operators current = .ok renewed ∧
    renewed.AssignedIn config.operators current ∧ entry.Renewed renewed newDeadline

section

variable {history : List HistoricalNnScript} {current : OperatorBitmap} {l1Block : L1BlockCommitment}
  {newDeadline : Nat}

theorem Passed.depositEntry {entry renewed : AssignmentEntry}
    (passed : Passed history current l1Block newDeadline entry renewed) :
    renewed.depositEntry = entry.depositEntry := by
  by_cases expired : entry.fulfillmentDeadline ≤ l1Block.height
  · obtain ⟨config, -, -, -, renewal⟩ := passed.moved expired
    exact renewal.deposit
  · rw [passed.kept (Nat.lt_of_not_le expired)]

theorem Passed.soundIn {entry renewed : AssignmentEntry}
    (passed : Passed history current l1Block newDeadline entry renewed)
    (sound : entry.SoundIn history) : renewed.SoundIn history := by
  by_cases expired : entry.fulfillmentDeadline ≤ l1Block.height
  · obtain ⟨config, known, -, assigned, renewal⟩ := passed.moved expired
    refine ⟨config, ?_, assigned.inNotary, assigned.previousLen⟩
    unfold AssignmentEntry.notarySet
    rw [renewal.deposit]
    exact known
  · rw [passed.kept (Nat.lt_of_not_le expired)]
    exact sound

theorem forall₂_passed_depositEntry {entries renewed : List AssignmentEntry}
    (passed : List.Forall₂ (Passed history current l1Block newDeadline) entries renewed) :
    renewed.map (·.depositEntry) = entries.map (·.depositEntry) := by
  induction passed with
  | nil => rfl
  | cons first rest ih => rw [List.map_cons, List.map_cons, ih, first.depositEntry]

end

def Stuck (history : List HistoricalNnScript) (current : OperatorBitmap) (l1Block : L1BlockCommitment)
    (entry : AssignmentEntry) : Prop :=
  entry.fulfillmentDeadline ≤ l1Block.height ∧
    ∃ config, history[entry.notarySet]? = some config ∧ NoMemberLeft config.operators current

variable {history : List HistoricalNnScript} {current : OperatorBitmap}

theorem reassignIfExpired_cases (l1Block : L1BlockCommitment) (newDeadline : Nat)
    {entry : AssignmentEntry} (sound : entry.SoundIn history)
    (fits : ∀ config ∈ history, config.operators.len ≤ current.len) (bound : current.len ≤ u32Bound) :
    (∃ renewed, reassignIfExpired history current l1Block newDeadline entry = .ok (.ok renewed) ∧
        Passed history current l1Block newDeadline entry renewed) ∨
      (reassignIfExpired history current l1Block newDeadline entry =
          .ok (.error (.noEligibleOperators entry.depositIdx)) ∧
            Stuck history current l1Block entry) := by
  obtain ⟨config, known, assignee, previousLen⟩ := sound
  unfold reassignIfExpired
  split
  · rename_i expired
    have configFits := fits config (List.mem_of_getElem? known)
    rw [known]
    rcases AssignmentEntry.reassign_cases newDeadline l1Block.blkid assignee previousLen configFits
      (configFits.trans bound) with ⟨renewed, returned, assigned, renewal⟩ | ⟨failed, noMember⟩
    · refine .inl ⟨renewed, by rw [← returned]; rfl, ⟨fun early => ?_, fun _ => ?_⟩⟩
      · omega
      · exact ⟨config, known, returned, assigned, renewal⟩
    · exact .inr ⟨by rw [← failed]; rfl, expired, config, known, noMember⟩
  · rename_i early
    exact .inl ⟨entry, rfl, fun _ => rfl, fun expired => absurd expired early⟩

/-- The pass handles every entry by itself, and fails only at a stuck one. -/
theorem reassignAll_cases (l1Block : L1BlockCommitment) (newDeadline : Nat)
    {entries : List AssignmentEntry}
    (sound : ∀ entry ∈ entries, entry.SoundIn history)
    (fits : ∀ config ∈ history, config.operators.len ≤ current.len) (bound : current.len ≤ u32Bound) :
    (∃ renewed, reassignAll history current l1Block newDeadline entries = .ok (.ok renewed) ∧
        List.Forall₂ (Passed history current l1Block newDeadline) entries renewed) ∨
      (∃ entry ∈ entries, reassignAll history current l1Block newDeadline entries =
          .ok (.error (.noEligibleOperators entry.depositIdx)) ∧
            Stuck history current l1Block entry) := by
  induction entries with
  | nil => exact .inl ⟨[], rfl, .nil⟩
  | cons entry rest ih =>
    rw [reassignAll]
    rcases reassignIfExpired_cases l1Block newDeadline (sound entry (.head _)) fits bound with
      ⟨first, returned, passed⟩ | ⟨returned, stuck⟩
    · rcases ih fun entry mem => sound entry (.tail _ mem) with
        ⟨others, all, passedAll⟩ | ⟨entry, mem, failed, stuck⟩
      · exact .inl ⟨first :: others, by simp [returned, all], .cons passed passedAll⟩
      · exact .inr ⟨entry, .tail _ mem, by simp [returned, failed], stuck⟩
    · exact .inr ⟨entry, .head _, by simp [returned], stuck⟩

end AssignmentTable
end Asm
