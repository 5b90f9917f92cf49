import AnchorStateMachine.Bridge.Assignment
import AnchorStateMachine.Bridge.Run
import AnchorStateMachine.Library.Rounds

/-! Reassignment is fair over any sequence of calls: an operator that was tried is not asked again
while an untried one is left, so operators take turns. -/

namespace Asm
open Outcome OperatorBitmap AssignmentEntry

structure ReassignCall where
  newDeadline : Nat
  seed : Buf32
  currentActiveOperators : OperatorBitmap

section

variable [ChaCha20]

/-- One call to `reassign`, whether or not it succeeds. -/
def ReassignCall.apply (notary : OperatorBitmap) (entry : AssignmentEntry)
    (call : ReassignCall) : AssignmentEntry :=
  (entry.reassignMut call.newDeadline call.seed notary call.currentActiveOperators).1

/-- The assignees before the first call and after each one. -/
def assignees (notary : OperatorBitmap) (entry : AssignmentEntry)
    (calls : List ReassignCall) : List Nat :=
  (calls.scanl (ReassignCall.apply notary) entry).map (·.currentAssignee)

namespace AssignmentEntry

variable {notary : OperatorBitmap} {entry : AssignmentEntry} {call : ReassignCall}
  {calls : List ReassignCall}

/-- What every call keeps of the way an assignment was created. -/
structure Selectable (entry : AssignmentEntry) (notary : OperatorBitmap) : Prop where
  assignee : notary.isActive entry.currentAssignee
  previousLen : entry.previousAssignees.len = notary.len

theorem apply_reassigned (selectable : entry.Selectable notary) (bound : notary.len ≤ u32Bound)
    (fits : notary.len ≤ call.currentActiveOperators.len) :
    Reassigned entry call.newDeadline notary call.currentActiveOperators
      (entry.reassignMut call.newDeadline call.seed notary call.currentActiveOperators) := by
  apply reassignMut_cases
  · exact selectable.assignee
  · exact selectable.previousLen
  · exact fits
  · exact bound

theorem Selectable.apply (selectable : entry.Selectable notary) (bound : notary.len ≤ u32Bound)
    (fits : notary.len ≤ call.currentActiveOperators.len) :
    (call.apply notary entry).Selectable notary := by
  have reassigned := apply_reassigned selectable bound fits
  unfold ReassignCall.apply
  generalize entry.reassignMut call.newDeadline call.seed notary call.currentActiveOperators =
    result at reassigned
  cases reassigned with
  | fresh member untried triedLen recorded => exact ⟨member.1, triedLen⟩
  | reset member allTried => exact ⟨member.1, newWithSize_len _ _⟩
  | stuck noMember => exact ⟨selectable.assignee, newWithSize_len _ _⟩

theorem Selectable.applyAll (selectable : entry.Selectable notary) (bound : notary.len ≤ u32Bound)
    (fits : ∀ call ∈ calls, notary.len ≤ call.currentActiveOperators.len) :
    (calls.foldl (ReassignCall.apply notary) entry).Selectable notary := by
  induction calls generalizing entry with
  | nil => exact selectable
  | cons call calls ih =>
    apply ih (selectable.apply bound (fits call (.head _)))
    intro other mem
    exact fits other (.tail _ mem)

theorem create_assignedIn {deposit : DepositEntry} {intent : WithdrawalIntent} {fee deadline : Nat}
    {current : OperatorBitmap} {seed : Buf32} (fits : notary.len ≤ current.len)
    (bound : notary.len ≤ u32Bound)
    (h : create deposit intent fee deadline notary current seed = .ok entry) :
    entry.AssignedIn notary current := by
  rcases create_cases deposit intent fee deadline seed fits bound with ⟨other, created, assigned⟩ |
    ⟨failed, -⟩
  · cases h.symm.trans created
    exact assigned
  · cases h.symm.trans failed

/-! ### Turns -/

variable {pool round drawn : List Nat}

/-- A call draws from the operators that were not tried in this round, and begins a new round when
there are none. -/
theorem apply_drawn (selectable : entry.Selectable notary) (bound : notary.len ≤ u32Bound)
    (fits : notary.len ≤ call.currentActiveOperators.len)
    (members : ∀ idx, idx ∈ pool ↔ notary.isActive idx ∧ call.currentActiveOperators.isActive idx)
    (before : Rounds.Drawn pool round drawn) (recorded : ∀ idx, entry.Recorded idx ↔ idx ∈ round) :
    ∃ next, Rounds.Drawn pool next (drawn ++ [(call.apply notary entry).currentAssignee]) ∧
      ∀ idx, (call.apply notary entry).Recorded idx ↔ idx ∈ next := by
  have reassigned := apply_reassigned selectable bound fits
  unfold ReassignCall.apply
  generalize entry.reassignMut call.newDeadline call.seed notary call.currentActiveOperators =
    result at reassigned
  cases reassigned with
  | @fresh tried chosen member untried triedLen triedRecorded =>
    refine ⟨round ++ [chosen], ?_, ?_⟩
    · apply before.next ((members chosen).mpr member)
      rwa [← recorded]
    · intro idx
      simp [Recorded, triedRecorded, ← recorded]
  | @reset chosen member allTried =>
    refine ⟨[chosen], ?_, ?_⟩
    · refine before.refill (fun idx mem => ?_) ((members chosen).mpr member)
      have both := (members idx).mp mem
      exact (recorded idx).mp (allTried idx both.1 both.2)
    · intro idx
      simp [Recorded]
  | stuck noMember =>
    -- the pool is not empty: something was drawn from it
    have some : ∃ idx, idx ∈ pool := by
      cases before with
      | first mem => exact ⟨_, mem⟩
      | next _ mem _ => exact ⟨_, mem⟩
      | refill _ _ mem => exact ⟨_, mem⟩
    obtain ⟨idx, mem⟩ := some
    exact absurd ((members idx).mp mem) (noMember idx)

theorem applyAll_drawn (selectable : entry.Selectable notary) (bound : notary.len ≤ u32Bound)
    (fits : ∀ call ∈ calls, notary.len ≤ call.currentActiveOperators.len)
    (members : ∀ call ∈ calls, ∀ idx, idx ∈ pool ↔ notary.isActive idx ∧
      call.currentActiveOperators.isActive idx)
    (before : Rounds.Drawn pool round (drawn ++ [entry.currentAssignee]))
    (recorded : ∀ idx, entry.Recorded idx ↔ idx ∈ round) :
    ∃ last, Rounds.Drawn pool last (drawn ++ assignees notary entry calls) := by
  induction calls generalizing entry round drawn with
  | nil => exact ⟨round, by simpa [assignees] using before⟩
  | cons call calls ih =>
    obtain ⟨next, drawnNext, recordedNext⟩ := apply_drawn selectable bound (fits call (.head _))
      (members call (.head _)) before recorded
    obtain ⟨last, drawnLast⟩ := ih (selectable.apply bound (fits call (.head _)))
      (fun other mem => fits other (.tail _ mem)) (fun other mem => members other (.tail _ mem))
        drawnNext recordedNext
    refine ⟨last, ?_⟩
    simpa [assignees, List.scanl_cons] using drawnLast

end AssignmentEntry

/-- Over every sequence of calls for an assignment: a call succeeds exactly if the notary set has a
member in the current multisig, it chooses such a member, and one that is not recorded as long as
there is one. If these members are the same from the creation on, they take turns. -/
theorem reassignment_fair {deposit : DepositEntry} {intent : WithdrawalIntent} {fee deadline : Nat}
    {notary current : OperatorBitmap} {seed : Buf32} {entry : AssignmentEntry}
    {calls : List ReassignCall} (bound : notary.len ≤ u32Bound) (fits : notary.len ≤ current.len)
    (callsFit : ∀ call ∈ calls, notary.len ≤ call.currentActiveOperators.len)
    (created : create deposit intent fee deadline notary current seed = .ok entry) :
    (∀ earlier call later, calls = earlier ++ call :: later →
      ∀ before after result, before = earlier.foldl (ReassignCall.apply notary) entry →
      before.reassignMut call.newDeadline call.seed notary call.currentActiveOperators =
        (after, result) →
      (result = .ok () ↔ ∃ idx, notary.isActive idx ∧ call.currentActiveOperators.isActive idx) ∧
      (result = .ok () →
        notary.isActive after.currentAssignee ∧
          call.currentActiveOperators.isActive after.currentAssignee ∧
        ((∃ idx, notary.isActive idx ∧ call.currentActiveOperators.isActive idx ∧
          ¬ before.Recorded idx) →
          ¬ before.Recorded after.currentAssignee))) ∧
    ∀ members : List Nat, members.Nodup →
      (∀ idx, idx ∈ members ↔ notary.isActive idx ∧ current.isActive idx) →
      (∀ call ∈ calls, ∀ idx, idx ∈ members ↔ notary.isActive idx ∧
        call.currentActiveOperators.isActive idx) →
      ∀ k, (k + 1) * members.length ≤ (assignees notary entry calls).length →
        (((assignees notary entry calls).drop (k * members.length)).take members.length).Perm
          members := by
  have assigned := create_assignedIn fits bound created
  have selectable : entry.Selectable notary := ⟨assigned.inNotary, assigned.previousLen⟩
  constructor
  · rintro earlier call later rfl before after result rfl called
    have ready := selectable.applyAll bound fun other mem => callsFit other (List.mem_append_left _ mem)
    have reassigned := apply_reassigned ready bound (callsFit call (by simp))
    rw [called] at reassigned
    cases reassigned with
    | fresh member untried triedLen recorded =>
      exact ⟨iff_of_true rfl ⟨_, member⟩, fun _ => ⟨member.1, member.2, fun _ => untried⟩⟩
    | reset member allTried =>
      refine ⟨iff_of_true rfl ⟨_, member⟩, fun _ => ⟨member.1, member.2, ?_⟩⟩
      rintro ⟨idx, inNotary, inCurrent, untried⟩
      exact absurd (allTried idx inNotary inCurrent) untried
    | stuck noMember =>
      refine ⟨iff_of_false nofun ?_, nofun⟩
      rintro ⟨idx, both⟩
      exact noMember idx both
  · intro members distinct creation same k inside
    have first : Rounds.Drawn members [entry.currentAssignee] ([] ++ [entry.currentAssignee]) :=
      .first ((creation _).mpr ⟨assigned.inNotary, assigned.inCurrent⟩)
    have recorded : ∀ idx, entry.Recorded idx ↔ idx ∈ [entry.currentAssignee] := by
      intro idx
      simp [Recorded, (create_ok created).2.2.2.2]
    obtain ⟨last, drawn⟩ := applyAll_drawn selectable bound callsFit same first recorded
    exact drawn.block_perm distinct inside

end

section

attribute [local instance] Bridge.sampleLibs

def sampleTurns : List ReassignCall := List.replicate 3 ⟨6, .zero, newWithSize 3 true⟩

/-- Two of three operators are in the notary set, and each is asked twice in four turns. -/
theorem reassignment_fair_sample : ∃ entry,
    create ⟨0, 0, 10⟩ ⟨⟨[]⟩, 10, .any⟩ 1 5 (newWithSize 2 true) (newWithSize 3 true) .zero = .ok entry ∧
      ((assignees (newWithSize 2 true) entry sampleTurns).take 2).Perm [0, 1] ∧
      (((assignees (newWithSize 2 true) entry sampleTurns).drop 2).take 2).Perm [0, 1] := by
  obtain ⟨entry, created, count⟩ : ∃ entry,
      create ⟨0, 0, 10⟩ ⟨⟨[]⟩, 10, .any⟩ 1 5 (newWithSize 2 true) (newWithSize 3 true) .zero = .ok entry ∧
        (assignees (newWithSize 2 true) entry sampleTurns).length = 4 := ⟨_, rfl, rfl⟩
  have members : ∀ idx, idx ∈ [0, 1] ↔ isActive (newWithSize 2 true) idx ∧
      isActive (newWithSize 3 true) idx := by
    intro idx
    constructor
    · intro mem
      rcases List.mem_pair.mp mem with rfl | rfl <;> decide
    · rintro ⟨active, -⟩
      have inside : idx < 2 := isActive_lt active
      exact List.mem_pair.mpr (by omega)
  have fits : ∀ call ∈ sampleTurns, len (newWithSize 2 true) ≤ call.currentActiveOperators.len := by
    intro call mem
    rw [List.eq_of_mem_replicate mem]
    decide
  have turns := (reassignment_fair (by decide) (by decide) fits created).2 [0, 1]
      (by decide) members fun call mem => by
    rw [List.eq_of_mem_replicate mem]
    exact members
  exact ⟨entry, created, turns 0 (by rw [count]; decide), turns 1 (by rw [count]; decide)⟩

end
end Asm
