import AnchorStateMachine.Moho.ExportRefinement
import Mathlib.Order.Lattice.Nat

/-! The index by hash. It has one row per hash, which the last entry with the hash overwrites and
which goes when that entry is pruned. -/

namespace Asm
open SledExportEntriesDb

/-- Where a list has a hash. -/
def indicesOf (leaves : List Buf32) (hash : Buf32) : Set Nat := {index | leaves[index]? = some hash}

section

variable {leaves more : List Buf32} {hash : Buf32} {index : Nat}

theorem indicesOf_lt (here : index ∈ indicesOf leaves hash) : index < leaves.length :=
  (List.getElem?_eq_some_iff.mp here).1

theorem exists_greatest (mem : hash ∈ leaves) : ∃ index, IsGreatest (indicesOf leaves hash) index := by
  have bounded : BddAbove (indicesOf leaves hash) :=
    ⟨leaves.length, fun _ here => (indicesOf_lt here).le⟩
  have some : (indicesOf leaves hash).Nonempty := List.mem_iff_getElem?.mp mem
  exact ⟨_, Nat.sSup_mem some bounded, fun _ here => le_csSup bounded here⟩

theorem indicesOf_append_of_notMem (absent : hash ∉ more) :
    indicesOf (leaves ++ more) hash = indicesOf leaves hash := by
  refine Set.ext fun index => ?_
  show (leaves ++ more)[index]? = some hash ↔ leaves[index]? = some hash
  rw [List.getElem?_append]
  split_ifs with inside
  · rfl
  · refine iff_of_false (fun here => absent (List.mem_of_getElem? here)) fun here => inside ?_
    exact indicesOf_lt here

theorem isGreatest_concat : IsGreatest (indicesOf (leaves ++ [hash]) hash) leaves.length := by
  refine ⟨List.getElem?_concat_length, fun index here => ?_⟩
  have bound := indicesOf_lt here
  rw [List.length_append, List.length_singleton] at bound
  exact Nat.le_of_lt_succ bound

theorem mem_indicesOf_take {start : Nat} :
    index ∈ indicesOf (leaves.take start) hash ↔ index ∈ indicesOf leaves hash ∧ index < start := by
  show (leaves.take start)[index]? = some hash ↔ leaves[index]? = some hash ∧ index < start
  rw [List.getElem?_take]
  split_ifs with inside
  · exact (and_iff_left inside).symm
  · exact iff_of_false nofun fun here => inside here.2

end

/-! ### Containers -/

namespace ContainerView

variable {view pruned : ContainerView} {pairs : List (Nat × Buf32)} {fromHeight first start : Nat}

/-- The row of a hash is the greatest index of a leaf with it. -/
def IndexedAt (view : ContainerView) (hash : Buf32) : Prop :=
  ∀ index, view.byHash hash = some index ↔ IsGreatest (indicesOf view.leaves hash) index

def Indexed (view : ContainerView) : Prop := ∀ hash, view.IndexedAt hash

theorem IndexedAt.absent_iff {hash : Buf32} (indexed : view.IndexedAt hash) :
    view.byHash hash = none ↔ hash ∉ view.leaves := by
  constructor
  · intro absent mem
    obtain ⟨index, greatest⟩ := exists_greatest mem
    cases absent.symm.trans ((indexed index).mpr greatest)
  · intro absent
    refine Option.eq_none_iff_forall_ne_some.mpr fun index found => absent ?_
    exact List.mem_of_getElem? ((indexed index).mp found).1

theorem Indexed.appendEntry (indexed : view.Indexed) (entry : Buf32) :
    (view.appendEntry entry).Indexed := by
  intro hash index
  simp only [ContainerView.appendEntry, Function.update_apply]
  split_ifs with same
  · subst same
    rw [Option.some.injEq]
    exact ⟨fun isIndex => isIndex ▸ isGreatest_concat, fun greatest => isGreatest_concat.unique greatest⟩
  · rw [indicesOf_append_of_notMem (mt List.mem_singleton.mp same)]
    exact indexed hash index

theorem Indexed.append (indexed : view.Indexed) (height : Nat) (entries : List Buf32) :
    (view.append height entries).Indexed :=
  append_keeps indexed indexed fun _ indexed entry _ => indexed.appendEntry entry

theorem append_byHash_of_notMem {hash : Buf32} {entries : List Buf32} (absent : hash ∉ entries)
    (height : Nat) :
    (view.append height entries).byHash hash = view.byHash hash := by
  refine append_keeps (motive := fun later => later.byHash hash = view.byHash hash) rfl rfl
    fun mid same entry mem => ?_
  have other : hash ≠ entry := fun isEntry => absent (isEntry ▸ mem)
  exact (Function.update_of_ne other _ _).trans same

/-- Appending makes the rows of its own hashes right. -/
theorem indexed_append {entries : List Buf32}
    (indexed : ∀ hash, hash ∉ entries → view.IndexedAt hash) (height : Nat) :
    (view.append height entries).Indexed := by
  classical
  -- The same leaves with right rows for all hashes: the append cannot tell them apart.
  let fixed : ContainerView :=
    { view with
      byHash := fun hash =>
        if hash ∈ entries then
          if found : ∃ index, IsGreatest (indicesOf view.leaves hash) index then
            some found.choose else none
        else view.byHash hash }
  have isIndexed : fixed.Indexed := by
    intro hash index
    show (if _ then _ else _) = _ ↔ _
    split_ifs with isEntry found
    · rw [Option.some.injEq]
      exact ⟨fun isIndex => isIndex ▸ found.choose_spec,
        fun greatest => found.choose_spec.unique greatest⟩
    · exact iff_of_false nofun fun greatest => found ⟨index, greatest⟩
    · exact indexed hash isEntry index
  have same : view.append height entries = fixed.append height entries := by
    have byHash : ∀ hash, hash ∉ entries → view.byHash hash = fixed.byHash hash :=
      fun hash absent => (if_neg absent).symm
    unfold ContainerView.append
    split_ifs with nothing
    · exact ContainerView.ext rfl (funext fun hash => byHash hash (nothing ▸ List.not_mem_nil)) rfl
    · exact foldl_appendEntry_congr rfl rfl byHash
  rw [same]
  exact isIndexed.append height entries

/-- A cut keeps the row of a hash right exactly if the hash is not on both sides of it. -/
theorem IndexedAt.cut_iff {hash : Buf32} (indexed : view.IndexedAt hash) :
    (view.cut fromHeight start).IndexedAt hash ↔
    (hash ∈ view.leaves.take start → hash ∉ view.leaves.drop start) := by
  have found_iff : ∀ index, (view.cut fromHeight start).byHash hash = some index ↔
      IsGreatest (indicesOf view.leaves hash) index ∧ index < start := by
    intro index
    rw [← indexed index]
    show (view.byHash hash).filter _ = _ ↔ _
    rw [Option.filter_eq_some_iff, decide_eq_true_iff]
  constructor
  · intro indexed kept dropped
    obtain ⟨index, greatest⟩ := exists_greatest kept
    obtain ⟨⟨-, bound⟩, inside⟩ := (found_iff index).mp ((indexed index).mpr greatest)
    obtain ⟨later, isLater⟩ := List.mem_iff_getElem?.mp dropped
    rw [List.getElem?_drop] at isLater
    have := bound isLater
    omega
  · intro apart index
    rw [found_iff]
    constructor
    · rintro ⟨⟨here, bound⟩, inside⟩
      exact ⟨mem_indicesOf_take.mpr ⟨here, inside⟩, fun other mem => bound (mem_indicesOf_take.mp mem).1⟩
    · intro greatest
      obtain ⟨-, inside⟩ := mem_indicesOf_take.mp greatest.1
      have absent := apart (List.mem_of_getElem? greatest.1)
      refine ⟨?_, inside⟩
      rw [← List.take_append_drop start view.leaves, indicesOf_append_of_notMem absent]
      exact greatest

/-- Pruning keeps the row of a hash right exactly if the hash is not both kept and dropped. -/
theorem IndexedAt.prune_iff {hash : Buf32} (indexed : view.IndexedAt hash) (holds : view.Holds pairs)
    (prunes : view.Prunes fromHeight pruned) : pruned.IndexedAt hash ↔
      ((∃ kept ∈ pairs, kept.1 < fromHeight ∧ kept.2 = hash) →
        ∀ dropped ∈ pairs, fromHeight ≤ dropped.1 → dropped.2 ≠ hash) := by
  cases prunes with
  | idle absent =>
    refine iff_of_true indexed fun _ dropped mem above => ?_
    exact absurd rfl (holds.absent_iff.mp (absent dropped.1 above) dropped mem)
  | @cut first start row =>
    obtain ⟨below, above⟩ := holds.split row
    rw [indexed.cut_iff, holds.leaves, ← List.map_take, ← List.map_drop]
    have members : ∀ pair ∈ pairs, pair ∈ pairs.take start ∨ pair ∈ pairs.drop start := by
      intro pair mem
      rwa [← List.mem_append, List.take_append_drop]
    constructor
    · rintro apart ⟨kept, memKept, low, isKept⟩ dropped memDropped high isDropped
      have first := (members kept memKept).resolve_right fun mem => absurd low
        (not_lt.mpr (above kept mem))
      have second := (members dropped memDropped).resolve_left fun mem => absurd (below dropped mem)
        (not_lt.mpr high)
      exact apart (isKept ▸ List.mem_map_of_mem first) (isDropped ▸ List.mem_map_of_mem second)
    · intro apart isKept isDropped
      obtain ⟨kept, memKept, rfl⟩ := List.mem_map.mp isKept
      obtain ⟨dropped, memDropped, same⟩ := List.mem_map.mp isDropped
      exact apart ⟨kept, List.mem_of_mem_take memKept, below kept memKept, rfl⟩ dropped
        (List.mem_of_mem_drop memDropped) (above dropped memDropped) same

/-- The row of a hash goes with its last leaf. -/
theorem IndexedAt.lost {dropped : Nat × Buf32} (indexed : view.IndexedAt dropped.2)
    (holds : view.Holds pairs) (prunes : view.Prunes fromHeight pruned) (mem : dropped ∈ pairs)
    (above : fromHeight ≤ dropped.1) :
    pruned.byHash dropped.2 = none := by
  cases prunes with
  | idle absent => exact absurd rfl (holds.absent_iff.mp (absent dropped.1 above) dropped mem)
  | @cut first start row =>
    refine Option.eq_none_iff_forall_ne_some.mpr fun index found => ?_
    obtain ⟨found, inside⟩ := Option.filter_eq_some_iff.mp found
    obtain ⟨-, bound⟩ := (indexed index).mp found
    obtain ⟨later, isLater⟩ := List.mem_iff_getElem?.mp mem
    have isLeaf : view.leaves[later]? = some dropped.2 := by
      rw [holds.leaves, List.getElem?_map, isLater]
      rfl
    obtain ⟨inRange, isPair⟩ := List.getElem?_eq_some_iff.mp isLater
    have past : start ≤ later := by
      by_contra early
      have kept : dropped ∈ pairs.take start :=
        List.mem_take_iff_getElem.mpr ⟨later, by omega, isPair⟩
      exact absurd ((holds.split row).1 dropped kept) (not_lt.mpr above)
    have := bound isLeaf
    have := of_decide_eq_true inside
    omega

end ContainerView

/-! ### Runs -/

/-- Looking a hash up gives the greatest index at which it is stored, and nothing only if it is not
stored. -/
def SledExportEntriesDb.HashLaw (db : SledExportEntriesDb) : Prop :=
  ∀ id hash, (∀ index, db.findIndex id hash = some index ↔
    IsGreatest {i | db.get id i = some hash} index) ∧
    (db.findIndex id hash = none ↔ ∀ index, db.get id index ≠ some hash)

/-- No hash is on both sides of a prune. -/
def EntryStep.KeepsHashes (step : EntryStep) : Prop :=
  match step.call with
  | .append _ _ _ => True
  | .pruneFrom height => ∀ id, ∀ kept ∈ step.held id, kept.1 < height → ∀ dropped ∈ step.held id,
      height ≤ dropped.1 → kept.2 ≠ dropped.2

instance : (step : EntryStep) → Decidable step.KeepsHashes
  | ⟨_, .append _ _ _, _⟩ => instDecidableTrue
  | ⟨held, .pruneFrom height, _⟩ => inferInstanceAs (Decidable (∀ id, ∀ kept ∈ held id, kept.1 < height →
      ∀ dropped ∈ held id, height ≤ dropped.1 → kept.2 ≠ dropped.2))

section

variable {steps : List EntryStep} {db : SledExportEntriesDb} {held : ExportedEntries}

theorem hashLaw_iff : db.HashLaw ↔ ∀ id, (db.container id).Indexed := by
  constructor
  · exact fun law id hash => (law id hash).1
  · intro indexed id hash
    refine ⟨indexed id hash, (indexed id hash).absent_iff.trans ?_⟩
    rw [List.mem_iff_getElem?, not_exists]
    rfl

theorem EntryRun.hashLaw_step (ran : EntryRun steps db held) (law : db.HashLaw) (call : EntryCall) :
    (call.run db).HashLaw ↔ EntryStep.KeepsHashes ⟨held, call, call.run db⟩ := by
  rw [hashLaw_iff] at law ⊢
  cases call with
  | append target height entries =>
    refine iff_of_true (fun id => ?_) trivial
    by_cases here : target = id
    · subst here
      exact container_append ▸ (law target).append height entries
    · have kept := container_append_of_ne db here height entries
      exact kept ▸ law id
  | pruneFrom height =>
    refine forall_congr' fun id => (forall_congr' fun hash =>
      (law id hash).prune_iff (ran.holds id) (pruneFrom_prunes db height id)).trans ?_
    exact ⟨fun apart kept mem low dropped mem' high same => apart kept.2 ⟨kept, mem, low, rfl⟩
      dropped mem' high same.symm,
      fun apart hash ⟨kept, mem, low, isKept⟩ dropped mem' high same =>
        apart kept mem low dropped mem' high (isKept.trans same.symm)⟩

theorem EntryRun.hashLaw_iff (ran : EntryRun steps db held) :
    ((∀ step ∈ steps, step.post.HashLaw) → db.HashLaw) ∧
      ((∀ step ∈ steps, step.post.HashLaw) ↔ ∀ step ∈ steps, step.KeepsHashes) := by
  induction ran with
  | start =>
    refine ⟨fun _ => Asm.hashLaw_iff.mpr fun id hash index => iff_of_false nofun fun greatest => ?_,
      iff_of_true (List.forall_mem_nil _) (List.forall_mem_nil _)⟩
    exact absurd (indicesOf_lt greatest.1) (Nat.not_lt_zero _)
  | call earlier call ascends ih =>
    rw [List.forall_mem_append, List.forall_mem_singleton, List.forall_mem_append,
      List.forall_mem_singleton]
    refine ⟨And.right, ?_⟩
    rw [← ih.2]
    exact and_congr_right fun before => earlier.hashLaw_step (ih.1 before) call

/-- The index obeys its law after every call exactly if no prune has a hash on both sides of it. -/
theorem hash_index_law_iff (ran : EntryRun steps db held) :
    (∀ step ∈ steps, step.post.HashLaw) ↔ ∀ step ∈ steps, step.KeepsHashes := ran.hashLaw_iff.2

end

/-- One hash twice below a prune, and another above it. -/
theorem hash_index_law_iff_sample : ∃ steps db held, EntryRun steps db held ∧
    held 0 = [(1, .fill 7), (1, .fill 7)] ∧ db.findIndex 0 (.fill 7) = some 1 ∧
      ∀ step ∈ steps, step.post.HashLaw := by
  have ran := ((EntryRun.start.call (.append 0 1 [.fill 7, .fill 7]) (by decide)).call
    (.append 0 2 [.fill 8]) (by decide)).call (.pruneFrom 2) trivial
  have keeps := hash_index_law_iff ran
  exact ⟨_, _, _, ran, by decide +kernel, by decide +kernel, keeps.mpr (by decide +kernel)⟩

/-- An entry that is repeated above a prune is not found any more below it. -/
theorem hash_index_lost : ∃ steps db held, EntryRun steps db held ∧
    db.get 0 0 = some (.fill 7) ∧ db.findIndex 0 (.fill 7) = none ∧ ¬ db.HashLaw := by
  have ran := ((EntryRun.start.call (.append 0 1 [.fill 7]) (by decide)).call (.append 0 2 [.fill 7])
    (by decide)).call (.pruneFrom 2) trivial
  have stored : ((EntryCall.pruneFrom 2).run
    ((EntryCall.append 0 2 [.fill 7]).run ((EntryCall.append 0 1 [.fill 7]).run
      .empty))).get 0 0 = some (.fill 7) := by decide +kernel
  have lost : ((EntryCall.pruneFrom 2).run
    ((EntryCall.append 0 2 [.fill 7]).run ((EntryCall.append 0 1 [.fill 7]).run
      .empty))).findIndex 0 (.fill 7) = none := by decide +kernel
  exact ⟨_, _, _, ran, stored, lost, fun law => (law 0 (.fill 7)).2.mp lost 0 stored⟩

end Asm
