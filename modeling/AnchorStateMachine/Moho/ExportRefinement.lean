import AnchorStateMachine.Moho.Containers

/-! The store of exported entries against lists: every container holds the entries it was given,
each with its height, and nothing that was pruned. -/

namespace Asm
open SledExportEntriesDb

/-! ### Containers as lists -/

namespace ContainerView

variable {view pruned : ContainerView} {pairs : List (Nat × Buf32)} {height fromHeight start : Nat}

/-- A container holds a list of entries with ascending heights. The row of a height is the index of
its first entry. -/
structure Holds (view : ContainerView) (pairs : List (Nat × Buf32)) : Prop where
  leaves : view.leaves = pairs.map Prod.snd
  byHeight : ∀ height, view.byHeight height = pairs.findIdx? fun pair => pair.1 = height
  ascending : pairs.Pairwise fun a b => a.1 ≤ b.1

theorem Holds.empty : Holds ⟨[], fun _ => none, fun _ => none⟩ [] := ⟨rfl, fun _ => rfl, .nil⟩

theorem Holds.absent_iff (holds : view.Holds pairs) :
    view.byHeight height = none ↔ ∀ pair ∈ pairs, pair.1 ≠ height := by
  rw [holds.byHeight, List.findIdx?_eq_none_iff]
  exact forall₂_congr fun pair _ => decide_eq_false_iff_not

theorem Holds.append (holds : view.Holds pairs) (above : ∀ pair ∈ pairs, pair.1 < height)
    (entries : List Buf32) :
    (view.append height entries).Holds (pairs ++ entries.map fun entry => (height, entry)) where
  leaves := by
    rw [append_leaves, holds.leaves, List.map_append, List.map_map]
    exact congrArg _ (List.map_id _).symm
  byHeight other := by
    cases entries with
    | nil =>
      rw [List.map_nil, List.append_nil]
      exact holds.byHeight other
    | cons entry entries =>
      rw [append_byHeight (List.cons_ne_nil _ _), Function.update_apply, List.findIdx?_append]
      split_ifs with same
      · have none : pairs.findIdx? (fun pair => pair.1 = other) = none :=
          List.findIdx?_eq_none_iff.mpr fun pair mem => decide_eq_false (same ▸ (above pair mem).ne)
        rw [none, holds.leaves, List.length_map]
        simp [same, List.findIdx?_cons]
      · have none : ((entry :: entries).map fun entry => (height, entry)).findIdx?
          (fun pair => pair.1 = other) = none := by
          refine List.findIdx?_eq_none_iff.mpr fun pair mem => decide_eq_false ?_
          obtain ⟨_, -, rfl⟩ := List.mem_map.mp mem
          exact Ne.symm same
        rw [none, holds.byHeight, Option.map_none, Option.or_none]
  ascending := by
    refine List.pairwise_append.mpr ⟨holds.ascending, ?_, ?_⟩
    · rw [List.pairwise_map]
      exact List.pairwise_of_forall fun _ _ => le_rfl
    · intro a memA b memB
      obtain ⟨_, -, rfl⟩ := List.mem_map.mp memB
      exact (above a memA).le

/-- The row of a height splits the entries: those from it on are at the height or above. -/
theorem Holds.starts (holds : view.Holds pairs) (isStart : view.byHeight height = some start) :
    start < pairs.length ∧ ∀ index (inside : index < pairs.length), start ≤ index ↔
      height ≤ pairs[index].1 := by
  rw [holds.byHeight, List.findIdx?_eq_some_iff_getElem] at isStart
  obtain ⟨bound, here, before⟩ := isStart
  have here := of_decide_eq_true here
  have ascending := List.pairwise_iff_getElem.mp holds.ascending
  refine ⟨bound, fun index inside => ⟨fun late => ?_, fun above => ?_⟩⟩
  · rcases late.eq_or_lt with rfl | late
    · exact here.ge
    · exact here ▸ ascending start index bound inside late
  · by_contra early
    have order := ascending index start inside bound (not_le.mp early)
    exact before index (not_le.mp early) (decide_eq_true (le_antisymm (here ▸ order) above))

/-- The entries before the first row at a height are those below it. -/
theorem Holds.split {first : Nat} (holds : view.Holds pairs)
    (row : view.FirstRow fromHeight first start) :
    (∀ pair ∈ pairs.take start, pair.1 < fromHeight) ∧
      ∀ pair ∈ pairs.drop start, fromHeight ≤ pair.1 := by
  obtain ⟨bound, starts⟩ := holds.starts row.isStart
  constructor
  · intro pair mem
    obtain ⟨index, inside, rfl⟩ := List.mem_take_iff_getElem.mp mem
    have below : pairs[index].1 < first :=
      not_le.mp fun above => absurd ((starts index (by omega)).mpr above) (by omega)
    by_contra above
    exact holds.absent_iff.mp (row.least _ (not_lt.mp above) below) _ (List.getElem_mem _) rfl
  · intro pair mem
    obtain ⟨index, inside, rfl⟩ := List.mem_drop_iff_getElem.mp mem
    exact row.above.trans ((starts _ (by omega)).mp (by omega))

theorem Holds.prune (holds : view.Holds pairs) (prunes : view.Prunes fromHeight pruned) :
    pruned.Holds (pairs.filter fun pair => pair.1 < fromHeight) := by
  cases prunes with
  | idle absent =>
    have all : pairs.filter (fun pair => pair.1 < fromHeight) = pairs := by
      refine List.filter_eq_self.mpr fun pair mem => decide_eq_true (not_le.mp fun above => ?_)
      exact holds.absent_iff.mp (absent pair.1 above) pair mem rfl
    rwa [all]
  | @cut first start row =>
    obtain ⟨below, above⟩ := holds.split row
    have kept : pairs.filter (fun pair => pair.1 < fromHeight) = pairs.take start := by
      conv_lhs => rw [← List.take_append_drop start pairs]
      rw [List.filter_append, List.filter_eq_self.mpr fun pair mem => decide_eq_true (below pair mem),
        List.filter_eq_nil_iff.mpr fun pair mem => by simpa using above pair mem, List.append_nil]
    rw [kept]
    refine ⟨?_, fun height => ?_, holds.ascending.sublist (List.take_sublist _ _)⟩
    · rw [List.map_take, ← holds.leaves]
      rfl
    · show (if height < fromHeight then view.byHeight height else none) = _
      split_ifs with isBelow
      · rw [holds.byHeight]
        conv_lhs => rw [← List.take_append_drop start pairs]
        have none : (pairs.drop start).findIdx? (fun pair => pair.1 = height) = none :=
          List.findIdx?_eq_none_iff.mpr fun pair mem =>
            decide_eq_false (isBelow.trans_le (above pair mem)).ne'
        rw [List.findIdx?_append, none, Option.map_none, Option.or_none]
      · refine (List.findIdx?_eq_none_iff.mpr fun pair mem => decide_eq_false ?_).symm
        exact fun same => isBelow (same ▸ below pair mem)

end ContainerView

/-! ### Reads -/

namespace SledExportEntriesDb

variable {db : SledExportEntriesDb} {id : ContainerId} {pairs : List (Nat × Buf32)}
  {height mmrIndex : Nat}

theorem scanHeights_of_later {rows : List ((ContainerId ×ₗ Nat) × Nat)} {found : Option Nat}
    (later : ∀ row ∈ rows, mmrIndex < row.2) : scanHeights mmrIndex found rows = found := by
  cases rows with
  | nil => rfl
  | cons row rows => exact if_pos (later row (.head _))

/-- The scan ends at the last row that does not start after the index. -/
theorem scanHeights_eq {rows : List ((ContainerId ×ₗ Nat) × Nat)} (found : Option Nat) {start : Nat}
    (sorted : rows.Pairwise fun a b => (ofLex a.1).2 < (ofLex b.1).2)
    (mem : (heightKey id height, start) ∈ rows)
    (starts : ∀ row ∈ rows, row.2 ≤ mmrIndex ↔ (ofLex row.1).2 ≤ height) :
    scanHeights mmrIndex found rows = some height := by
  induction rows generalizing found with
  | nil => cases mem
  | cons row rows ih =>
    obtain ⟨below, sorted⟩ := List.pairwise_cons.mp sorted
    rcases List.mem_cons.mp mem with rfl | mem
    · have before : start ≤ mmrIndex := (starts _ (.head _)).mpr le_rfl
      rw [scanHeights, if_neg (not_lt.mpr before)]
      refine scanHeights_of_later fun row mem => not_le.mp fun early => ?_
      exact absurd (below row mem) (not_lt.mpr ((starts row (.tail _ mem)).mp early))
    · have before : row.2 ≤ mmrIndex := (starts row (.head _)).mpr (below _ mem).le
      rw [scanHeights, if_neg (not_lt.mpr before)]
      exact ih _ sorted mem fun row mem => starts row (.tail _ mem)

theorem entryHeight_eq (holds : (db.container id).Holds pairs) :
    db.entryHeight id mmrIndex = .ok (pairs[mmrIndex]?.map Prod.fst) := by
  have leaf : db.get id mmrIndex = pairs[mmrIndex]?.map Prod.snd := by
    rw [get, ← List.getElem?_map, ← holds.leaves]
    rfl
  unfold entryHeight
  rw [leaf]
  by_cases bound : mmrIndex < pairs.length
  · rw [List.getElem?_eq_getElem bound]
    obtain ⟨start, isStart⟩ : ∃ start, (db.container id).byHeight pairs[mmrIndex].1 = some start := by
      refine Option.ne_none_iff_exists'.mp fun absent => ?_
      exact holds.absent_iff.mp absent _ (List.getElem_mem bound) rfl
    have isRow : (heightKey id pairs[mmrIndex].1, start) ∈ db.indexByHeight.scan fun key =>
        (ofLex key).1 = id :=
      OrderedTree.mem_scan.mpr ⟨isStart, decide_eq_true rfl⟩
    have scanned : scanHeights mmrIndex none _ = _ := scanHeights_eq none scan_ascending isRow ?_
    · simp only [scanned, Option.map_some]
    · rintro ⟨key, start⟩ mem
      obtain ⟨found, own⟩ := OrderedTree.mem_scan.mp mem
      cases of_decide_eq_true own
      exact (holds.starts found).2 mmrIndex bound
  · rw [List.getElem?_eq_none (not_lt.mp bound)]
    rfl

/-- The half-open range of the indices of a height, if there are any. -/
inductive IsRangeAt (pairs : List (Nat × Buf32)) (height : Nat) : Option (Nat × Nat) → Prop
  | nowhere (absent : ∀ pair ∈ pairs, pair.1 ≠ height) : IsRangeAt pairs height none
  | range {start stop : Nat} (nonempty : start < stop)
      (covers : ∀ index, start ≤ index ∧ index < stop ↔ pairs[index]?.map Prod.fst = some height) :
      IsRangeAt pairs height (some (start, stop))

theorem leafRangeAtHeight_isRange (holds : (db.container id).Holds pairs) :
    IsRangeAt pairs height (db.leafRangeAtHeight id height) := by
  unfold leafRangeAtHeight
  split
  · rename_i absent
    exact .nowhere (holds.absent_iff.mp absent)
  · rename_i start found
    obtain ⟨bound, starts⟩ := holds.starts found
    -- The range stops before the first later height.
    obtain ⟨within, stops⟩ : (db.nextStart id height).getD (db.numEntries id) ≤ pairs.length ∧
        ∀ index (inside : index < pairs.length), index < (db.nextStart id height).getD
          (db.numEntries id) ↔
          pairs[index].1 ≤ height := by
      cases isNext : db.nextStart id height with
      | none =>
        have length : db.numEntries id = pairs.length :=
          (congrArg List.length holds.leaves).trans (List.length_map _)
        refine ⟨length.le, fun index inside => iff_of_true (length ▸ inside) (not_lt.mp fun above => ?_)⟩
        exact holds.absent_iff.mp (nextStart_none isNext above) _ (List.getElem_mem inside) rfl
      | some stop =>
        obtain ⟨next, later, isStart, between⟩ := nextStart_some isNext
        obtain ⟨bound, nexts⟩ := holds.starts isStart
        refine ⟨bound.le, fun index inside => ?_⟩
        rw [Option.getD_some, ← not_le, nexts index inside, not_le]
        refine ⟨fun below => not_lt.mp fun above => ?_, fun low => low.trans_lt later⟩
        exact holds.absent_iff.mp (between _ above below) _ (List.getElem_mem inside) rfl
    have here : pairs[start].1 = height := by
      have isStart := (holds.byHeight height).symm.trans found
      obtain ⟨_, here, -⟩ := List.findIdx?_eq_some_iff_getElem.mp isStart
      exact of_decide_eq_true here
    refine .range ((stops start bound).mpr here.le) fun index => ?_
    rw [Option.map_eq_some_iff]
    constructor
    · rintro ⟨late, early⟩
      have inside : index < pairs.length := by omega
      refine ⟨pairs[index], List.getElem?_eq_getElem inside, ?_⟩
      exact le_antisymm ((stops index inside).mp early) ((starts index inside).mp late)
    · rintro ⟨pair, isPair, rfl⟩
      obtain ⟨inside, rfl⟩ := List.getElem?_eq_some_iff.mp isPair
      exact ⟨(starts index inside).mpr le_rfl, (stops index inside).mpr le_rfl⟩

end SledExportEntriesDb

/-! ### Runs -/

abbrev ExportedEntries := ContainerId → List (Nat × Buf32)

inductive EntryCall
  | append (id : ContainerId) (height : Nat) (entries : List Buf32)
  | pruneFrom (height : Nat)

namespace EntryCall

def program : EntryCall → SledExportEntriesDb → List EntryWrite
  | append id height entries => SledExportEntriesDb.append id height entries
  | pruneFrom height => SledExportEntriesDb.pruneFrom height

def run (call : EntryCall) (db : SledExportEntriesDb) :
    SledExportEntriesDb := Journal.run write call.program db

/-- What the containers should hold after a call. -/
def apply (held : ExportedEntries) : EntryCall → ExportedEntries
  | append id height entries => Function.update held id
      (held id ++ entries.map fun entry => (height, entry))
  | pruneFrom height => fun id => (held id).filter fun pair => pair.1 < height

/-- An append comes above every height that its container holds. -/
def Ascends (held : ExportedEntries) : EntryCall → Prop
  | append id height _ => ∀ pair ∈ held id, pair.1 < height
  | pruneFrom _ => True

instance (held : ExportedEntries) : (call : EntryCall) → Decidable (call.Ascends held)
  | append id height _ => inferInstanceAs (Decidable (∀ pair ∈ held id, pair.1 < height))
  | pruneFrom _ => instDecidableTrue

end EntryCall

structure EntryStep where
  held : ExportedEntries
  call : EntryCall
  post : SledExportEntriesDb

/-- Calls on an empty store, with what the containers should hold. -/
inductive EntryRun : List EntryStep → SledExportEntriesDb → ExportedEntries → Prop
  | start : EntryRun [] .empty fun _ => []
  | call {steps : List EntryStep} {db : SledExportEntriesDb} {held : ExportedEntries}
      (earlier : EntryRun steps db held) (call : EntryCall) (ascends : call.Ascends held) :
      EntryRun (steps ++ [⟨held, call, call.run db⟩]) (call.run db) (call.apply held)

section

variable {steps : List EntryStep} {db : SledExportEntriesDb} {held : ExportedEntries}

theorem container_append_of_ne (db : SledExportEntriesDb) {id other : ContainerId}
    (foreign : id ≠ other) (height : Nat) (entries : List Buf32) :
    (Journal.run write (append id height entries) db).container other = db.container other :=
  Journal.view_after write_isolated fun w mem same => foreign (append_owned w mem ▸ same)

theorem container_prune_of_ne {id other : ContainerId} (foreign : id ≠ other) (height : Nat) :
    (Journal.run write (prune id height) db).container other = db.container other :=
  Journal.view_after write_isolated fun w mem same => foreign (prune_owned id db w mem ▸ same)

theorem EntryCall.holds (call : EntryCall) (ascends : call.Ascends held)
    (holds : ∀ id, (db.container id).Holds (held id)) (id : ContainerId) :
    ((call.run db).container id).Holds (call.apply held id) := by
  cases call with
  | append target height entries =>
    simp only [apply, Function.update_apply]
    split_ifs with here
    · subst here
      exact container_append ▸ (holds id).append ascends entries
    · have kept := container_append_of_ne db (Ne.symm here) height entries
      exact kept ▸ holds id
  | pruneFrom height => exact (holds id).prune (pruneFrom_prunes db height id)

theorem EntryRun.holds (ran : EntryRun steps db held) (id : ContainerId) :
    (db.container id).Holds (held id) := by
  induction ran generalizing id with
  | start => exact .empty
  | call earlier call ascends ih => exact call.holds ascends ih id

/-- The store refines the lists: what is read of a container is read of its list, no container sees
the others, and a prune that is aborted can be run again. -/
theorem export_store_refines (ran : EntryRun steps db held) :
    (∀ id mmrIndex height, db.numEntries id = (held id).length ∧
      db.get id mmrIndex = (held id)[mmrIndex]?.map Prod.snd ∧
      db.entryHeight id mmrIndex = .ok ((held id)[mmrIndex]?.map Prod.fst) ∧
      IsRangeAt (held id) height (db.leafRangeAtHeight id height)) ∧
    (∀ id other height entries, id ≠ other →
      (Journal.run write (append id height entries) db).container other = db.container other ∧
      (Journal.run write (prune id height) db).container other = db.container other) ∧
    ∀ height aborted, Journal.Aborts write (pruneFrom height) db aborted →
      Journal.run write (pruneFrom height) aborted = Journal.run write (pruneFrom height) db := by
  refine ⟨fun id mmrIndex height => ?_, fun id other height entries foreign => ?_,
    fun height aborted => pruneFrom_restarts⟩
  · have holds := ran.holds id
    refine ⟨?_, ?_, entryHeight_eq holds, leafRangeAtHeight_isRange holds⟩
    · exact (congrArg List.length holds.leaves).trans (List.length_map _)
    · rw [SledExportEntriesDb.get, ← List.getElem?_map, ← holds.leaves]
      rfl
  · exact ⟨container_append_of_ne db foreign height entries, container_prune_of_ne foreign height⟩

end

/-- Two containers with a gap in the heights of the first, pruned into that gap. -/
theorem export_store_refines_sample : ∃ steps db held, EntryRun steps db held ∧
    held 0 = [(1, .fill 1), (1, .fill 2)] ∧ db.numEntries 0 = 2 ∧ db.entryHeight 0 1 = .ok (some 1) ∧
    db.leafRangeAtHeight 0 1 = some (0, 2) ∧ IsRangeAt (held 0) 1 (db.leafRangeAtHeight 0 1) ∧
    ∀ aborted, Journal.Aborts write (pruneFrom 1) db aborted →
      Journal.run write (pruneFrom 1) aborted = Journal.run write (pruneFrom 1) db := by
  have ran := ((((EntryRun.start.call (.append 0 1 [.fill 1, .fill 2]) (by decide)).call
    (.append 1 2 [.fill 1])
    (by decide)).call (.append 0 4 [.fill 3]) (by decide)).call (.pruneFrom 3) trivial)
  obtain ⟨reads, -, restarts⟩ := export_store_refines ran
  refine ⟨_, _, _, ran, ?_, ?_, ?_, ?_, (reads 0 0 1).2.2.2, restarts 1⟩
  · decide +kernel
  · exact (reads 0 0 0).1.trans (by decide +kernel)
  · exact (reads 0 1 0).2.2.1.trans (by decide +kernel)
  · decide +kernel

end Asm
