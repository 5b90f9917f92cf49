import AnchorStateMachine.Library.Ancestry
import AnchorStateMachine.Worker.Sync

/-! The walk back from a tip, whatever the lookups return: it ends, and it finds the nearest stored
ancestor at or above the floor. -/

namespace Asm
open Ancestry

section

variable {σ ε : Type} {tip : L1BlockCommitment} {floorHeight : Nat}
  {baseAt : L1BlockCommitment → Except ε (Option σ)} {parentOf : L1BlockCommitment →
    Except ε L1BlockCommitment}

/-! ### The blocks a walk passes -/

/-- The walk goes from one cursor to another over the listed blocks. -/
inductive Passes (floorHeight : Nat) (baseAt : L1BlockCommitment → Except ε (Option σ))
    (parentOf : L1BlockCommitment → Except ε L1BlockCommitment) :
    L1BlockCommitment → List L1BlockCommitment → L1BlockCommitment → Prop
  | here {cursor : L1BlockCommitment} : Passes floorHeight baseAt parentOf cursor [] cursor
  | step {cursor parent last : L1BlockCommitment} {rest : List L1BlockCommitment}
      (notBase : baseAt cursor = .ok none) (above : floorHeight < cursor.height)
      (isParent : parentOf cursor = .ok parent)
      (passes : Passes floorHeight baseAt parentOf parent rest last) :
      Passes floorHeight baseAt parentOf cursor (cursor :: rest) last

/-- How the walk ends at a cursor, with the blocks it has passed. -/
inductive Ends (tip : L1BlockCommitment) (floorHeight : Nat)
    (baseAt : L1BlockCommitment → Except ε (Option σ))
    (parentOf : L1BlockCommitment → Except ε L1BlockCommitment) (cursor : L1BlockCommitment)
    (pending : List L1BlockCommitment) : Except (SyncError ε) (SyncPlan σ) → Prop
  | base {baseState : σ} (isBase : baseAt cursor = .ok (some baseState)) :
      Ends tip floorHeight baseAt parentOf cursor pending (.ok ⟨baseState, cursor, pending⟩)
  | floor (notBase : baseAt cursor = .ok none) (low : cursor.height ≤ floorHeight) :
      Ends tip floorHeight baseAt parentOf cursor pending (.error (.reachedFloor tip floorHeight))
  | baseFails {error : ε} (failed : baseAt cursor = .error error) :
      Ends tip floorHeight baseAt parentOf cursor pending (.error (.provider error))
  | parentFails {error : ε} (notBase : baseAt cursor = .ok none) (above : floorHeight < cursor.height)
      (failed : parentOf cursor = .error error) :
      Ends tip floorHeight baseAt parentOf cursor pending (.error (.provider error))

section

variable (lower : ∀ block parent, parentOf block = .ok parent → parent.height < block.height)

include lower

theorem planSyncFuel_ends {fuel : Nat} {cursor : L1BlockCommitment}
    (passed : List L1BlockCommitment) (enough : cursor.height < fuel) :
    ∃ rest last outcome, Passes floorHeight baseAt parentOf cursor rest last ∧
      Ends tip floorHeight baseAt parentOf last (passed ++ rest) outcome ∧
      planSyncFuel tip floorHeight baseAt parentOf fuel cursor passed = some outcome := by
  induction fuel generalizing cursor passed with
  | zero => omega
  | succ fuel ih =>
    unfold planSyncFuel
    split
    · rename_i failed
      exact ⟨[], cursor, _, .here, .baseFails failed, rfl⟩
    · rename_i isBase
      exact ⟨[], cursor, _, .here, .base isBase, by rw [List.append_nil]⟩
    · rename_i notBase
      by_cases low : cursor.height ≤ floorHeight
      · rw [if_pos low]
        exact ⟨[], cursor, _, .here, .floor notBase low, rfl⟩
      · rw [if_neg low]
        split
        · rename_i failed
          exact ⟨[], cursor, _, .here, .parentFails notBase (by omega) failed, rfl⟩
        · rename_i parent isParent
          have shorter : parent.height < fuel := by
            have := lower cursor parent isParent
            omega
          obtain ⟨rest, last, outcome, passes, ends, returned⟩ := ih (passed ++ [cursor]) shorter
          refine ⟨cursor :: rest, last, outcome, .step notBase (by omega) isParent passes, ?_, returned⟩
          simpa using ends

theorem planSyncFuel_passes {fuel : Nat} {cursor last : L1BlockCommitment}
    {passed rest : List L1BlockCommitment} {outcome : Except (SyncError ε) (SyncPlan σ)}
    (passes : Passes floorHeight baseAt parentOf cursor rest last)
    (ends : Ends tip floorHeight baseAt parentOf last (passed ++ rest) outcome)
    (enough : cursor.height < fuel) :
    planSyncFuel tip floorHeight baseAt parentOf fuel cursor passed = some outcome := by
  induction passes generalizing fuel passed with
  | here =>
    obtain ⟨fuel, rfl⟩ : ∃ more, fuel = more + 1 := ⟨fuel - 1, by omega⟩
    rw [List.append_nil] at ends
    unfold planSyncFuel
    cases ends with
    | base isBase => rw [isBase]
    | floor notBase low => simp [notBase, low]
    | baseFails failed => rw [failed]
    | parentFails notBase above failed => simp [notBase, failed, above]
  | @step cursor parent last rest notBase above isParent passes ih =>
    have shorter := lower cursor parent isParent
    obtain ⟨fuel, rfl⟩ : ∃ more, fuel = more + 1 := ⟨fuel - 1, by omega⟩
    unfold planSyncFuel
    rw [notBase, isParent]
    dsimp only
    rw [if_neg (by omega)]
    apply ih
    · simpa using ends
    · omega

/-- The walk ends, and its outcome is that of the cursor at which it ends. -/
theorem planSync_iff {outcome : Except (SyncError ε) (SyncPlan σ)} :
    planSync tip floorHeight baseAt parentOf = some outcome ↔ ∃ pending last,
      Passes floorHeight baseAt parentOf tip pending last ∧
        Ends tip floorHeight baseAt parentOf last pending outcome := by
  constructor
  · intro h
    obtain ⟨rest, last, other, passes, ends, returned⟩ :=
      planSyncFuel_ends lower [] (Nat.lt_succ_self tip.height)
    cases h.symm.trans returned
    exact ⟨rest, last, passes, ends⟩
  · rintro ⟨pending, last, passes, ends⟩
    exact planSyncFuel_passes lower passes ends (Nat.lt_succ_self _)

end

/-! ### The ancestors of the tip -/

variable {parent : L1BlockCommitment → Option L1BlockCommitment} {stored : L1BlockCommitment → Option σ}
  {cursor last : L1BlockCommitment} {rest : List L1BlockCommitment}

namespace Passes

theorem fresh (passes : Passes floorHeight baseAt parentOf cursor rest last) :
    ∀ block ∈ rest, baseAt block = .ok none := by
  induction passes with
  | here => simp
  | step notBase above isParent passes ih => simpa [notBase] using ih

theorem head (passes : Passes floorHeight baseAt parentOf cursor rest last) :
    (rest ++ [last]).head? = some cursor := by
  cases passes <;> rfl

section

variable (parents : ∀ block p, parentOf block = .ok p → parent block = some p)

include parents

theorem line (passes : Passes floorHeight baseAt parentOf cursor rest last) :
    (rest ++ [last]).IsChain fun block next => parent block = some next := by
  induction passes with
  | here => simp
  | step notBase above isParent passes ih =>
    have isNext := parents _ _ isParent
    cases passes with
    | here => simpa using isNext
    | step => exact List.isChain_cons_cons.mpr ⟨isNext, ih⟩

theorem ancestor_eq (passes : Passes floorHeight baseAt parentOf cursor rest last) :
    ancestor parent rest.length cursor = some last := by
  induction passes with
  | here => rfl
  | step notBase above isParent passes ih =>
    rw [List.length_cons, ancestor, parents _ _ isParent]
    exact ih

variable (graded : Graded parent L1BlockCommitment.height)

include graded

theorem heights (passes : Passes floorHeight baseAt parentOf cursor rest last) :
    rest.map (·.height) = (List.range' (last.height + 1) rest.length).reverse ∧
      cursor.height = last.height + rest.length := by
  induction passes with
  | here => exact ⟨rfl, rfl⟩
  | step notBase above isParent passes ih =>
    have child := graded _ _ (parents _ _ isParent)
    refine ⟨?_, by rw [child, ih.2, List.length_cons]; omega⟩
    rw [List.map_cons, ih.1, List.length_cons, List.range'_1_concat, List.reverse_append, child, ih.2]
    simp
    omega

theorem floor_le (passes : Passes floorHeight baseAt parentOf cursor rest last)
    (floor : floorHeight ≤ cursor.height) : floorHeight ≤ last.height := by
  induction passes with
  | here => exact floor
  | step notBase above isParent passes ih =>
    have child := graded _ _ (parents _ _ isParent)
    exact ih (by omega)

/-- The blocks a walk has passed are all the ancestors above the one it has reached. -/
theorem mem_iff (passes : Passes floorHeight baseAt parentOf cursor rest last)
    (block : L1BlockCommitment) :
    block ∈ rest ↔ (∃ k, ancestor parent k cursor = some block) ∧ last.height < block.height := by
  induction passes with
  | @here cursor =>
    refine iff_of_false (by simp) ?_
    rintro ⟨⟨k, reaches⟩, above⟩
    have := ancestor_height graded reaches
    omega
  | @step cursor next last rest notBase above isParent passes ih =>
    have isNext := parents _ _ isParent
    have height := (Passes.step notBase above isParent passes).heights parents graded
    rw [List.mem_cons, ih]
    constructor
    · rintro (rfl | ⟨⟨k, reaches⟩, higher⟩)
      · refine ⟨⟨0, rfl⟩, ?_⟩
        rw [height.2, List.length_cons]
        omega
      · exact ⟨⟨k + 1, by rw [ancestor, isNext]; exact reaches⟩, higher⟩
    · rintro ⟨⟨k, reaches⟩, higher⟩
      cases k with
      | zero =>
        cases reaches
        exact .inl rfl
      | succ k =>
        rw [ancestor, isNext] at reaches
        exact .inr ⟨⟨k, reaches⟩, higher⟩

theorem eq_last (passes : Passes floorHeight baseAt parentOf cursor rest last) {k : Nat}
    {block : L1BlockCommitment} (reaches : ancestor parent k cursor = some block)
    (same : block.height = last.height) : block = last := by
  have height := (passes.heights parents graded).2
  have distance := ancestor_height graded reaches
  have found := passes.ancestor_eq parents
  rw [show rest.length = k by omega, reaches] at found
  exact Option.some.inj found

end
end Passes

/-- The plan whose base is the nearest stored ancestor of the tip, or the tip itself, and whose
pending blocks are all those above it. -/
structure SyncPlan.Nearest (plan : SyncPlan σ) (parent : L1BlockCommitment → Option L1BlockCommitment)
    (stored : L1BlockCommitment → Option σ) (floorHeight : Nat) (tip : L1BlockCommitment) : Prop where
  isAncestor : ∃ k, ancestor parent k tip = some plan.baseBlock
  isStored : stored plan.baseBlock = some plan.baseState
  aboveFloor : floorHeight ≤ plan.baseBlock.height
  nearest : ∀ k block, ancestor parent k tip = some block → stored block ≠ none →
    block.height ≤ plan.baseBlock.height
  pending : ∀ block, block ∈ plan.pending ↔
    (∃ k, ancestor parent k tip = some block) ∧ plan.baseBlock.height < block.height
  fresh : ∀ block ∈ plan.pending, stored block = none
  contiguous : plan.pending.map (·.height) =
    (List.range' (plan.baseBlock.height + 1) plan.pending.length).reverse
  newest : (plan.pending ++ [plan.baseBlock]).head? = some tip
  line : (plan.pending ++ [plan.baseBlock]).IsChain fun block next => parent block = some next

theorem SyncPlan.Nearest.passes {plan : SyncPlan σ}
    (nearest : plan.Nearest parent stored floorHeight tip)
    (bases : ∀ block, baseAt block = .ok (stored block))
    (parents : ∀ block p, floorHeight < block.height → parent block = some p → parentOf block = .ok p) :
    Passes floorHeight baseAt parentOf tip plan.pending plan.baseBlock := by
  obtain ⟨baseState, base, pending⟩ := plan
  have aboveFloor : floorHeight ≤ base.height := nearest.aboveFloor
  have newest : (pending ++ [base]).head? = some tip := nearest.newest
  have line : (pending ++ [base]).IsChain fun block next => parent block = some next := nearest.line
  have above : ∀ block ∈ pending, base.height < block.height :=
    fun block mem => ((nearest.pending block).mp mem).2
  have fresh : ∀ block ∈ pending, stored block = none := nearest.fresh
  clear nearest
  induction pending generalizing tip with
  | nil =>
    cases newest
    exact .here
  | cons block pending ih =>
    cases newest
    rw [List.forall_mem_cons] at above fresh
    have higher : floorHeight < block.height := by omega
    obtain ⟨next, isHead, isNext, tail⟩ : ∃ next, (pending ++ [base]).head? = some next ∧
      parent block = some next ∧
        (pending ++ [base]).IsChain fun block next => parent block = some next := by
      cases pending with
      | nil => exact ⟨base, rfl, by simpa using line, by simp⟩
      | cons other pending =>
        obtain ⟨isNext, tail⟩ := List.isChain_cons_cons.mp line
        exact ⟨other, rfl, isNext, tail⟩
    refine .step (by rw [bases, fresh.1]) higher (parents _ _ higher isNext) ?_
    exact ih isHead tail above.2 fresh.2

/-- Some ancestor of the tip at or above the floor, or the tip itself, is stored. -/
def HasBase (parent : L1BlockCommitment → Option L1BlockCommitment)
    (stored : L1BlockCommitment → Option σ) (floorHeight : Nat) (tip : L1BlockCommitment) : Prop :=
  ∃ k block, ancestor parent k tip = some block ∧ floorHeight ≤ block.height ∧ stored block ≠ none

theorem Passes.nearest {plan : SyncPlan σ} (graded : Graded parent L1BlockCommitment.height)
    (floor : floorHeight ≤ tip.height)
    (bases : ∀ block state, baseAt block = .ok state → state = stored block)
    (parents : ∀ block p, parentOf block = .ok p → parent block = some p)
    (passes : Passes floorHeight baseAt parentOf tip plan.pending plan.baseBlock)
    (isBase : baseAt plan.baseBlock = .ok (some plan.baseState)) :
    plan.Nearest parent stored floorHeight tip := by
  have fresh : ∀ block ∈ plan.pending, stored block = none :=
    fun block mem => (bases block none (passes.fresh block mem)).symm
  refine {
    isAncestor := ⟨_, passes.ancestor_eq parents⟩
    isStored := (bases _ _ isBase).symm
    aboveFloor := passes.floor_le parents graded floor
    nearest := ?_
    pending := passes.mem_iff parents graded
    fresh := fresh
    contiguous := (passes.heights parents graded).1
    newest := passes.head
    line := passes.line parents }
  intro k block reaches isStored
  by_contra higher
  exact isStored (fresh block ((passes.mem_iff parents graded block).mpr ⟨⟨k, reaches⟩, by omega⟩))

theorem Passes.no_base (graded : Graded parent L1BlockCommitment.height)
    (floor : floorHeight ≤ tip.height)
    (bases : ∀ block state, baseAt block = .ok state → state = stored block)
    (parents : ∀ block p, parentOf block = .ok p → parent block = some p)
    (passes : Passes floorHeight baseAt parentOf tip rest last) (notBase : baseAt last = .ok none)
    (low : last.height ≤ floorHeight) : ¬ HasBase parent stored floorHeight tip := by
  rintro ⟨k, block, reaches, high, isStored⟩
  by_cases higher : last.height < block.height
  · have mem := (passes.mem_iff parents graded block).mpr ⟨⟨k, reaches⟩, higher⟩
    exact isStored (bases block none (passes.fresh block mem)).symm
  · have reached := passes.floor_le parents graded floor
    have same := passes.eq_last parents graded reaches (by omega)
    exact isStored (bases block none (same ▸ notBase)).symm

/-- The walk always ends. With lookups that answer, it returns the plan for the nearest stored
ancestor, or it reaches the floor exactly if there is none; and a lookup that fails on the way is
its result. -/
theorem planSync_nearest (graded : Graded parent L1BlockCommitment.height)
    (floor : floorHeight ≤ tip.height)
    (bases : ∀ block state, baseAt block = .ok state → state = stored block)
    (parents : ∀ block p, parentOf block = .ok p → parent block = some p) :
    (∃ outcome, planSync tip floorHeight baseAt parentOf = some outcome) ∧
    ((∀ block, ∃ state, baseAt block = .ok state) →
      (∀ block, 0 < block.height → ∃ p, parentOf block = .ok p) →
      (∀ plan, planSync tip floorHeight baseAt parentOf = some (.ok plan) ↔
        plan.Nearest parent stored floorHeight tip) ∧
      ((∃ plan, planSync tip floorHeight baseAt parentOf = some (.ok plan)) ↔
        HasBase parent stored floorHeight tip) ∧
      (planSync tip floorHeight baseAt parentOf = some (.error (.reachedFloor tip floorHeight)) ↔
        ¬ HasBase parent stored floorHeight tip)) ∧
    ∀ error, planSync tip floorHeight baseAt parentOf = some (.error (.provider error)) ↔
      ∃ pending cursor, Passes floorHeight baseAt parentOf tip pending cursor ∧
        (baseAt cursor = .error error ∨
          baseAt cursor = .ok none ∧ floorHeight < cursor.height ∧ parentOf cursor = .error error) := by
  have lower : ∀ block p, parentOf block = .ok p → p.height < block.height := by
    intro block p isParent
    have child := graded _ _ (parents _ _ isParent)
    omega
  obtain ⟨pending, last, outcome, passes, ends, returned⟩ :
      ∃ rest last outcome, Passes floorHeight baseAt parentOf tip rest last ∧
        Ends tip floorHeight baseAt parentOf last ([] ++ rest) outcome ∧
        planSync tip floorHeight baseAt parentOf = some outcome :=
    planSyncFuel_ends lower [] (Nat.lt_succ_self _)
  refine ⟨⟨outcome, returned⟩, ?_, ?_⟩
  · intro basesTotal parentsTotal
    have found : ∀ plan, planSync tip floorHeight baseAt parentOf = some (.ok plan) ↔
        plan.Nearest parent stored floorHeight tip := by
      intro plan
      rw [planSync_iff lower]
      constructor
      · rintro ⟨_, _, passes, ends⟩
        cases ends with
        | base isBase => exact Passes.nearest graded floor bases parents passes isBase
      · intro nearest
        have answers (block : L1BlockCommitment) : baseAt block = .ok (stored block) := by
          obtain ⟨state, answer⟩ := basesTotal block
          rw [answer, bases block state answer]
        refine ⟨_, _, nearest.passes answers fun block p above isParent => ?_,
          .base ((answers _).trans (congrArg Except.ok nearest.isStored))⟩
        obtain ⟨other, answer⟩ := parentsTotal block (by omega)
        cases isParent.symm.trans (parents block other answer)
        exact answer
    have planned : (∃ plan, planSync tip floorHeight baseAt parentOf = some (.ok plan)) →
        HasBase parent stored floorHeight tip := by
      rintro ⟨plan, isPlan⟩
      have nearest := (found plan).mp isPlan
      obtain ⟨k, reaches⟩ := nearest.isAncestor
      exact ⟨k, _, reaches, nearest.aboveFloor, by simp [nearest.isStored]⟩
    rw [returned] at planned ⊢
    refine ⟨by simpa [returned] using found, ?_⟩
    cases ends with
    | base isBase => simpa using planned
    | floor notBase low =>
      have none := passes.no_base graded floor bases parents notBase low
      simpa using none
    | baseFails failed =>
      obtain ⟨state, answer⟩ := basesTotal last
      cases failed.symm.trans answer
    | parentFails notBase above failed =>
      obtain ⟨p, answer⟩ := parentsTotal last (by omega)
      cases failed.symm.trans answer
  · intro error
    rw [planSync_iff lower]
    constructor
    · rintro ⟨pending, last, passes, ends⟩
      cases ends with
      | baseFails failed => exact ⟨pending, last, passes, .inl failed⟩
      | parentFails notBase above failed => exact ⟨pending, last, passes, .inr ⟨notBase, above, failed⟩⟩
    · rintro ⟨pending, last, passes, failed | ⟨notBase, above, failed⟩⟩
      · exact ⟨pending, last, passes, .baseFails failed⟩
      · exact ⟨pending, last, passes, .parentFails notBase above failed⟩

end

/-- A tree with one block on each height that has children. -/
def sampleParent (block : L1BlockCommitment) : Option L1BlockCommitment :=
  if block.height = 0 then none else some ⟨block.height - 1, .zero⟩

def sampleParentOf (block : L1BlockCommitment) : Except Unit L1BlockCommitment :=
  (sampleParent block).elim (.error ()) .ok

def sampleStored (block : L1BlockCommitment) : Option Nat := if block = ⟨2, .zero⟩ then some 7 else none

/-- From a tip at height 4 the walk passes two blocks and stops above the floor. -/
theorem planSync_nearest_sample : ∃ plan : SyncPlan Nat,
    planSync ⟨4, .fill 1⟩ 1 (fun block => .ok (sampleStored block)) sampleParentOf = some (.ok plan) ∧
      plan.pending = [⟨4, .fill 1⟩, ⟨3, .zero⟩] ∧
        plan.Nearest sampleParent sampleStored 1 ⟨4, .fill 1⟩ := by
  have graded : Graded sampleParent L1BlockCommitment.height := by
    intro block parent isParent
    unfold sampleParent at isParent
    split at isParent
    · cases isParent
    · cases isParent
      dsimp only
      omega
  have parents : ∀ block parent, sampleParentOf block = .ok parent →
      sampleParent block = some parent := by
    intro block parent answer
    unfold sampleParentOf at answer
    cases isParent : sampleParent block with
    | none => simp [isParent] at answer
    | some other => simpa [isParent] using answer
  have total : ∀ block : L1BlockCommitment, 0 < block.height →
      ∃ parent, sampleParentOf block = .ok parent := by
    intro block positive
    refine ⟨⟨block.height - 1, .zero⟩, ?_⟩
    unfold sampleParentOf sampleParent
    rw [if_neg (by omega)]
    rfl
  obtain ⟨plan, planned, pending⟩ : ∃ plan : SyncPlan Nat,
      planSync ⟨4, .fill 1⟩ 1 (fun block => .ok (sampleStored block)) sampleParentOf = some (.ok plan) ∧
        plan.pending = [⟨4, .fill 1⟩, ⟨3, .zero⟩] := ⟨_, rfl, rfl⟩
  have floor : 1 ≤ L1BlockCommitment.height ⟨4, .fill 1⟩ := by decide
  have bases : ∀ block state, Except.ok (sampleStored block) = (.ok state : Except Unit (Option Nat)) →
      state = sampleStored block := fun _ _ answer => (Except.ok.inj answer).symm
  have nearest := (planSync_nearest graded floor bases parents).2.1 (fun _ => ⟨_, rfl⟩) total
  exact ⟨plan, planned, pending, (nearest.1 plan).mp planned⟩

end Asm
