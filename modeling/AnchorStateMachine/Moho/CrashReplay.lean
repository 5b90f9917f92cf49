import AnchorStateMachine.Moho.ExportRefinement
import AnchorStateMachine.Moho.Worker

/-! A block that is processed again after a crash. Whatever the aborted call has written, the second
one ends in the stores that the first would have left. -/

namespace Asm
open SledExportEntriesDb

/-! ### Containers -/

namespace ContainerView

variable {view pruned mid : ContainerView} {fromHeight height : Nat} {entries : List Buf32}

/-- The rows of hashes point to leaves. -/
def Bounded (view : ContainerView) :
    Prop := ∀ hash index, view.byHash hash = some index → index < view.leaves.length

theorem Bounded.append (bounded : view.Bounded) (height : Nat) (entries : List Buf32) :
    (view.append height entries).Bounded := by
  refine append_keeps bounded bounded fun mid bounded entry _ hash index found => ?_
  simp only [appendEntry, Function.update_apply] at found ⊢
  rw [List.length_append, List.length_singleton]
  split_ifs at found with same
  · cases found
    exact Nat.lt_succ_self _
  · exact (bounded hash index found).trans (Nat.lt_succ_self _)

theorem Bounded.prune (bounded : view.Bounded)
    (prunes : view.Prunes fromHeight pruned) : pruned.Bounded := by
  cases prunes with
  | idle absent => exact bounded
  | cut row =>
    intro hash index found
    obtain ⟨found, inside⟩ := Option.filter_eq_some_iff.mp found
    exact List.length_take ▸ lt_min (of_decide_eq_true inside) (bounded hash index found)

/-- What an append left is pruned to what was there, but for rows of hashes that it adds again. -/
theorem Appending.prune (appending : view.Appending height entries mid) (bounded : view.Bounded)
    (clean : ∀ other, height ≤ other → view.byHeight other = none) :
    ∃ pruned, mid.Prunes height pruned ∧ pruned.append height entries = view.append height entries := by
  have row : mid.FirstRow height height view.leaves.length := by
    refine ⟨le_rfl, ?_, fun other above below => absurd below (not_lt.mpr above)⟩
    rw [appending.byHeight, Function.update_self]
  refine ⟨_, .cut row, ?_⟩
  have leaves : (mid.cut height view.leaves.length).leaves = view.leaves :=
    (List.prefix_iff_eq_take.mp appending.leaves).symm
  have byHeight : (mid.cut height view.leaves.length).byHeight = view.byHeight := by
    refine funext fun other => ?_
    simp only [ContainerView.cut, appending.byHeight]
    split_ifs with below
    · exact Function.update_of_ne below.ne _ _
    · exact (clean other (not_lt.mp below)).symm
  have byHash : ∀ hash, hash ∉ entries →
      (mid.cut height view.leaves.length).byHash hash = view.byHash hash := by
    intro hash absent
    rcases appending.byHash hash with same | ⟨isEntry, -⟩
    · show (mid.byHash hash).filter _ = _
      rw [same]
      cases found : view.byHash hash with
      | none => rfl
      | some index =>
        exact Option.filter_some_pos (p := (· < view.leaves.length))
          (decide_eq_true (bounded hash index found))
    · exact absurd isEntry absent
  unfold ContainerView.append
  split_ifs with nothing
  · exact ContainerView.ext leaves (funext fun hash => byHash hash (nothing ▸ List.not_mem_nil)) byHeight
  · refine foldl_appendEntry_congr leaves ?_ byHash
    rw [openHeight, openHeight, leaves, byHeight]

end ContainerView

/-! ### The entries of a block -/

section

variable {steps : List EntryStep} {db t : SledExportEntriesDb} {held : ExportedEntries}
  {block : L1BlockCommitment} {logs : List AsmLogEntry}

theorem EntryRun.bounded (ran : EntryRun steps db held) (id : ContainerId) :
    (db.container id).Bounded := by
  induction ran generalizing id with
  | start => exact fun hash index found => by cases found
  | call earlier call ascends ih =>
    cases call with
    | append target height entries =>
      by_cases here : target = id
      · subst here
        exact container_append ▸ (ih target).append height entries
      · rw [EntryCall.run, EntryCall.program, container_append_of_ne _ here]
        exact ih id
    | pruneFrom height => exact (ih id).prune (pruneFrom_prunes _ height id)

/-- The leaves that a block adds to a container. -/
def exportsOf (logs : List AsmLogEntry) (id : ContainerId) :
    List Buf32 := ((exportEntriesFromLogs logs).get id).getD []

theorem rows_nodup {ν : Type} (tree : OrderedTree ContainerId ν) : (tree.rows.map Prod.fst).Nodup :=
  List.pairwise_map.mpr (tree.sorted.imp fun below => below.ne)

theorem container_appends (height : Nat) (id : ContainerId) :
    (Journal.run write (Journal.forEach write
      (fun row : ContainerId × List Buf32 => append row.1 height row.2)
      (exportEntriesFromLogs logs).rows) db).container id =
        (db.container id).append height (exportsOf logs id) := by
  cases found : (exportEntriesFromLogs logs).get id with
  | none =>
    rw [exportsOf, found]
    refine Journal.view_forEach_of_notMem write_isolated (fun row db => append_owned) fun mem => ?_
    obtain ⟨⟨_, entries⟩, isRow, rfl⟩ := List.mem_map.mp mem
    cases found.symm.trans (OrderedTree.get_eq_some_iff.mpr isRow)
  | some entries =>
    rw [exportsOf, found]
    exact Journal.view_forEach (g := Prod.fst) (k := (id, entries))
      (R := fun view after => after = view.append height entries)
      write_isolated (fun row db => append_owned) (fun db => container_append) (rows_nodup _)
      (OrderedTree.get_eq_some_iff.mp found)

/-- Storing the entries of a block prunes every container and appends to it. -/
theorem container_storeExportEntries (db : SledExportEntriesDb) (block : L1BlockCommitment)
    (logs : List AsmLogEntry) (id : ContainerId) :
    ∃ pruned, (db.container id).Prunes block.height pruned ∧
    (Journal.run write (storeExportEntries block logs) db).container id = pruned.append block.height
    (exportsOf logs id) := by
  refine ⟨_, pruneFrom_prunes db block.height id, ?_⟩
  rw [storeExportEntries, Journal.run_andThen, container_appends]

theorem storeExportEntries_restarts (bounded : ∀ id, (db.container id).Bounded)
    (aborts : Journal.Aborts write (storeExportEntries block logs) db t) :
    Journal.run write (storeExportEntries block logs) t =
      Journal.run write (storeExportEntries block logs) db := by
  rcases Journal.aborts_andThen_iff.mp aborts with inPrune | inAppends
  · rw [storeExportEntries, Journal.run_andThen, Journal.run_andThen, pruneFrom_restarts inPrune]
  · refine eq_of_container fun id => ?_
    have prunes := pruneFrom_prunes db block.height id
    have kept : ∃ pruned, (t.container id).Prunes block.height pruned ∧
      pruned.append block.height (exportsOf logs id) =
        ((Journal.run write (pruneFrom block.height) db).container id).append block.height
        (exportsOf logs id) := by
      rcases inAppends.view_forEach (g := Prod.fst) write_isolated (fun row db => append_owned)
        (rows_nodup _) id with
        same | ⟨⟨target, entries⟩, isRow, rfl, s, t', before, stopped, left⟩
      · rw [same]
        exact ⟨_, .idle prunes.absent, rfl⟩
      · have isEntries : exportsOf logs target = entries := by
          rw [exportsOf, OrderedTree.get_eq_some_iff.mpr isRow]
          rfl
        rw [isEntries, left]
        rcases appending_of_aborts stopped with same | appending
        · rw [same, before]
          exact ⟨_, .idle prunes.absent, rfl⟩
        · rw [before] at appending
          exact appending.prune ((bounded _).prune prunes) prunes.absent
    obtain ⟨pruned, prunes', same⟩ := kept
    obtain ⟨_, again, isFinal⟩ := container_storeExportEntries t block logs id
    rw [isFinal, again.unique prunes', same, storeExportEntries, Journal.run_andThen, container_appends]

end

/-! ### Blocks -/

section

variable [MerkleMountainRange] [MohoLibs] {stores aborted : MohoStores} {block : L1BlockCommitment}
  {logs : List AsmLogEntry} {moho : MohoState}

theorem after_entries (writes : List EntryWrite) :
    Journal.after MohoStores.write stores (writes.map .entry) =
    { stores with exportEntries := Journal.after write stores.exportEntries writes } := by
  induction writes generalizing stores with
  | nil => rfl
  | cons w writes ih => exact ih

theorem run_persistBlock : Journal.run MohoStores.write (persistBlock block logs moho) stores =
    ⟨stores.mohoStates.insert block moho, Journal.run write (storeExportEntries block logs)
      stores.exportEntries⟩ := by
  rw [Journal.run, persistBlock, Journal.after_append, after_entries]
  rfl

/-- An aborted call has stored some of the entries, or all of them and the state. -/
theorem persistBlock_aborts
    (aborts : Journal.Aborts MohoStores.write (persistBlock block logs moho) stores aborted) :
    aborted = ⟨stores.mohoStates, aborted.exportEntries⟩ ∧
        Journal.Aborts write (storeExportEntries block logs) stores.exportEntries aborted.exportEntries ∨
      aborted = Journal.run MohoStores.write (persistBlock block logs moho) stores := by
  obtain ⟨done, isPrefix, rfl⟩ := aborts
  rcases List.prefix_concat_iff.mp isPrefix with rfl | first
  · exact .inr rfl
  · obtain ⟨writes, some, rfl⟩ := List.prefix_map_iff.mp first
    rw [after_entries]
    exact .inl ⟨rfl, writes, some, rfl⟩

theorem insert_insert (tree : OrderedTree L1BlockCommitment MohoState) :
    (tree.insert block moho).insert block moho = tree.insert block moho := by
  refine OrderedTree.eq_of_get fun key => ?_
  rw [OrderedTree.get_insert]
  split_ifs with same
  · rw [OrderedTree.get_insert, if_pos same]
  · rfl

/-- A block that was aborted and is processed again, from whichever stored state, ends in the stores
and in the state of a call that was not. -/
theorem moho_crash_replay {worker resumed : MohoWorkerServiceState} {steps : List EntryStep}
    {held : ExportedEntries} (ran : EntryRun steps worker.stores.exportEntries held)
    (current : worker.Current) (aborts : AbortsBlock worker block aborted)
    (isProvider : resumed.provider = worker.provider) (isStores : resumed.stores = aborted)
    (resumes : resumed.Current) :
    ∃ done again, (MohoWorkerServiceState.processBlock block).run worker = .ok () done ∧
      (MohoWorkerServiceState.processBlock block).run resumed = .ok () again ∧
      again.stores = done.stores ∧ again.curMoho = done.curMoho ∧ again.curBlock = done.curBlock := by
  obtain ⟨logs, moho, folded, aborts⟩ := aborts
  obtain ⟨parent, parentMoho, anchor, folds⟩ := MohoWorkerServiceState.foldBlock_ok_iff.mp folded
  have other : parent ≠ block := by
    rintro rfl
    exact absurd (AsmStateProvider.getParentBlock_height folds.isParent) (Nat.lt_succ_self _).ne
  have stored : aborted.mohoStates.get parent = worker.stores.mohoStates.get parent := by
    rcases persistBlock_aborts aborts with ⟨isAborted, -⟩ | isAborted
    · rw [isAborted]
    · rw [isAborted, run_persistBlock, OrderedTree.get_insert, if_neg other]
  have again : resumed.FoldsBlock block logs moho parent parentMoho anchor := by
    refine ⟨?_, ?_, ?_, ?_, folds.folded⟩
    · rw [isProvider]
      exact folds.isParent
    · rw [resumes.parentMoho, MohoStores.getMohoState, isStores, stored]
      exact (current.parentMoho parent).symm.trans folds.onParent
    · rw [isProvider]
      exact folds.isAnchor
    · rw [isProvider]
      exact folds.isLogs
  refine ⟨_, _, MohoWorkerServiceState.processBlock_ok_iff.mpr (.processed folds),
    MohoWorkerServiceState.processBlock_ok_iff.mpr (.processed again), ?_, rfl, rfl⟩
  show Journal.run _ _ resumed.stores = Journal.run _ _ worker.stores
  rw [isStores, run_persistBlock, run_persistBlock]
  rcases persistBlock_aborts aborts with ⟨isAborted, inEntries⟩ | isAborted
  · rw [isAborted, storeExportEntries_restarts ran.bounded inEntries]
  · rw [isAborted, run_persistBlock, insert_insert,
      storeExportEntries_restarts ran.bounded (Journal.Aborts.done _ _)]

end

/-! ### A concrete crash -/

@[reducible] def sampleUnitMmr : MerkleMountainRange where
  Mmr := Unit
  MerkleProof := Unit
  newRepeated _ _ := ()
  numEntries _ := 0
  addLeaf _ _ := some ()
  verify _ _ _ := true
  index _ := 0

@[reducible] def sampleExportLibs : @MohoLibs sampleUnitMmr :=
  letI := sampleUnitMmr
  { anchorStateRoot := fun _ => .zero
    ExportMmr := List Buf32
    emptyExportMmr := []
    addExportEntry := fun entries entry => some (entries ++ [entry])
    maxExportContainers := 256 }

@[reducible] def sampleExportDecidableEq : DecidableEq sampleExportLibs.ExportMmr :=
  inferInstanceAs (DecidableEq (List Buf32))

section

attribute [local instance] sampleUnitMmr sampleExportLibs sampleExportDecidableEq

def sampleAnchor : AnchorState where
  specId := 0
  magic := []
  chainView := ⟨⟨.regtest, ⟨0, .zero⟩, 0, 0, .empty, 0⟩, ()⟩
  sections := []

/-- Committed blocks by id, each with its parent and what it exports to the first container. -/
def sampleProvider (blocks : List (UInt8 × UInt8 × List Buf32)) : AsmStateProvider where
  getAnchorState _ := some sampleAnchor
  getAnchorLogs block :=
    (blocks.find? fun entry => .fill entry.1 = block.blkid).map fun entry => entry.2.2.map
    (.newExportEntry 0)
  getLatestAsmBlock := none
  getBlockHeader blkid :=
    (blocks.find? fun entry => .fill entry.1 = blkid).map fun entry =>
      ⟨2, .fill entry.2.1, .zero, 0, 0, 0⟩
  fits block logs isLogs log mem := by
    obtain ⟨entry, -, rfl⟩ := Option.map_eq_some_iff.mp isLogs
    obtain ⟨_, -, rfl⟩ := List.mem_map.mp mem
    exact Nat.zero_lt_succ _

/-- A worker at genesis. An abandoned branch has left an entry at the height of the next block. -/
def sampleMohoWorker : MohoWorkerServiceState where
  provider := sampleProvider [(1, 0, [.fill 5, .fill 9])]
  stores := ⟨OrderedTree.empty.insert ⟨0, .zero⟩ ⟨.zero, ⟨1, []⟩, []⟩,
    (EntryCall.append ⟨0, Nat.zero_lt_succ _⟩ 1 [.fill 9]).run .empty⟩
  curMoho := ⟨.zero, ⟨1, []⟩, []⟩
  curBlock := ⟨0, .zero⟩
  genesisBlock := ⟨0, .zero⟩

@[irreducible] def sampleFolded : List AsmLogEntry × MohoState :=
  (sampleMohoWorker.foldBlock ⟨1, .fill 1⟩).toOption.get (by decide +kernel)

/-- The prune, the row of the height and one leaf are written; the row of its hash is not. -/
@[irreducible] def sampleAborted : MohoStores :=
  Journal.after MohoStores.write sampleMohoWorker.stores
    ((persistBlock ⟨1, .fill 1⟩ sampleFolded.1 sampleFolded.2 sampleMohoWorker.stores).take 5)

theorem moho_crash_replay_sample : AbortsBlock sampleMohoWorker ⟨1, .fill 1⟩ sampleAborted ∧
    sampleAborted.exportEntries.get 0 0 = some (.fill 5) ∧
      sampleAborted.exportEntries.findIndex 0 (.fill 5) = none ∧
    ∃ done again, (MohoWorkerServiceState.processBlock ⟨1, .fill 1⟩).run sampleMohoWorker = .ok () done ∧
      (MohoWorkerServiceState.processBlock ⟨1, .fill 1⟩).run
      { sampleMohoWorker with stores := sampleAborted } =
        .ok () again ∧
      again.stores = done.stores ∧ again.curMoho = done.curMoho ∧ again.curBlock = done.curBlock := by
  have isFolded : sampleMohoWorker.foldBlock ⟨1, .fill 1⟩ = .ok sampleFolded :=
    Outcome.toOption_some (by rw [sampleFolded, Option.some_get])
  have isAborted : Journal.after MohoStores.write sampleMohoWorker.stores
      ((persistBlock ⟨1, .fill 1⟩ sampleFolded.1 sampleFolded.2 sampleMohoWorker.stores).take 5) =
        sampleAborted := by
    unfold sampleAborted
    rfl
  have aborts : AbortsBlock sampleMohoWorker ⟨1, .fill 1⟩ sampleAborted :=
    ⟨sampleFolded.1, sampleFolded.2, isFolded, _, List.take_prefix 5 _, isAborted⟩
  have stored : sampleAborted.mohoStates.get sampleMohoWorker.curBlock =
      some sampleMohoWorker.curMoho := by
    decide +kernel
  refine ⟨aborts, by decide +kernel, by decide +kernel, ?_⟩
  have ran : EntryRun _ sampleMohoWorker.stores.exportEntries _ :=
    EntryRun.start.call (.append 0 1 [.fill 9]) (by decide)
  exact moho_crash_replay ran rfl aborts rfl rfl stored

end

end Asm
