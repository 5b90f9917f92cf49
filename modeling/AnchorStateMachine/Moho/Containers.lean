import AnchorStateMachine.Moho.ExportEntries

/-! What appends and prunes do to a container, and what they leave of it if they are aborted. -/

namespace Asm
open SledExportEntriesDb

/-! ### Seeks -/

namespace SledExportEntriesDb

variable {db : SledExportEntriesDb} {id : ContainerId} {height start : Nat}

theorem heightKey_lt {m n : Nat} : heightKey id m < heightKey id n ↔ m < n := by
  simp [heightKey, Prod.Lex.toLex_lt_toLex]

/-- A key between two keys of a container belongs to it. -/
theorem container_of_between {key : ContainerId ×ₗ Nat} {m n : Nat} (above : heightKey id m < key)
    (below : key ≤ heightKey id n) : (ofLex key).1 = id := by
  have first := Prod.Lex.lt_iff.mp above
  have second := Prod.Lex.le_iff.mp below
  simp only [heightKey, ofLex_toLex] at first second
  rcases first with first | first
  · rcases second with second | second
    · exact absurd first (lt_asymm second)
    · exact second.1
  · exact first.1.symm

theorem nextStart_none (h : db.nextStart id height = none) {later : Nat} (above : height < later) :
    (db.container id).byHeight later = none := by
  unfold nextStart at h
  split at h
  · rename_i key start found
    split at h
    · cases h
    · rename_i foreign
      obtain ⟨after, -, least⟩ := OrderedTree.getGt_eq_some found
      refine least _ (heightKey_lt.mpr above) (not_le.mp fun below => foreign ?_)
      exact container_of_between after below
  · rename_i absent
    exact OrderedTree.getGt_eq_none_iff.mp absent _ (heightKey_lt.mpr above)

theorem nextStart_some (h : db.nextStart id height = some start) :
    ∃ next, height < next ∧ (db.container id).byHeight next = some start ∧
      ∀ between, height < between → between < next → (db.container id).byHeight between = none := by
  unfold nextStart at h
  split at h
  · rename_i key start found
    split at h
    · rename_i own
      cases h
      obtain ⟨after, isStart, least⟩ := OrderedTree.getGt_eq_some found
      obtain ⟨next, rfl⟩ : ∃ next, key = heightKey id next := ⟨(ofLex key).2, by rw [← own]; rfl⟩
      exact ⟨next, heightKey_lt.mp after, isStart,
        fun between above below => least _ (heightKey_lt.mpr above) (heightKey_lt.mpr below)⟩
    · cases h
  · cases h

end SledExportEntriesDb

/-- The first row of a container at a height or above. -/
structure ContainerView.FirstRow (view : ContainerView) (fromHeight first start : Nat) : Prop where
  above : fromHeight ≤ first
  isStart : view.byHeight first = some start
  least : ∀ height, fromHeight ≤ height → height < first → view.byHeight height = none

namespace SledExportEntriesDb

variable {db : SledExportEntriesDb} {id : ContainerId} {fromHeight start : Nat}

theorem firstDroppedIndex_none (h : db.firstDroppedIndex id fromHeight = none) {height : Nat}
    (above : fromHeight ≤ height) : (db.container id).byHeight height = none := by
  unfold firstDroppedIndex at h
  split at h
  · cases h
  · rename_i absent
    rcases above.eq_or_lt with rfl | above
    · exact absent
    · exact nextStart_none h above

theorem firstDroppedIndex_some (h : db.firstDroppedIndex id fromHeight = some start) :
    ∃ first, (db.container id).FirstRow fromHeight first start := by
  unfold firstDroppedIndex at h
  split at h
  · rename_i found
    cases h
    exact ⟨fromHeight, le_rfl, found, fun height above below => absurd below (not_lt.mpr above)⟩
  · rename_i absent
    obtain ⟨first, above, isStart, least⟩ := nextStart_some h
    refine ⟨first, above.le, isStart, fun height from_ below => ?_⟩
    rcases from_.eq_or_lt with rfl | from_
    · exact absent
    · exact least height from_ below

end SledExportEntriesDb

/-! ### Pruning -/

namespace ContainerView

variable {view mid pruned : ContainerView} {fromHeight first start : Nat}

/-- A container cut at a leaf. -/
def cut (view : ContainerView) (fromHeight start : Nat) : ContainerView where
  leaves := view.leaves.take start
  byHash hash := (view.byHash hash).filter (· < start)
  byHeight height := if height < fromHeight then view.byHeight height else none

/-- Pruning cuts at the first row at the height or above, and does nothing if there is none. -/
inductive Prunes (view : ContainerView) (fromHeight : Nat) : ContainerView → Prop
  | idle (absent : ∀ height, fromHeight ≤ height → view.byHeight height = none) :
      Prunes view fromHeight view
  | cut {first start : Nat} (row : view.FirstRow fromHeight first start) :
      Prunes view fromHeight (view.cut fromHeight start)

theorem FirstRow.unique {other otherStart : Nat} (row : view.FirstRow fromHeight first start)
    (row' : view.FirstRow fromHeight other otherStart) : first = other ∧ start = otherStart := by
  have same : first = other := by
    rcases lt_trichotomy first other with below | same | above
    · cases row.isStart.symm.trans (row'.least first row.above below)
    · exact same
    · cases row'.isStart.symm.trans (row.least other row'.above above)
  subst same
  exact ⟨rfl, Option.some.inj (row.isStart.symm.trans row'.isStart)⟩

theorem Prunes.unique {other : ContainerView} (prunes : view.Prunes fromHeight pruned)
    (prunes' : view.Prunes fromHeight other) : pruned = other := by
  cases prunes with
  | idle absent =>
    cases prunes' with
    | idle => rfl
    | cut row => cases (absent _ row.above).symm.trans row.isStart
  | cut row =>
    cases prunes' with
    | idle absent => cases (absent _ row.above).symm.trans row.isStart
    | cut row' =>
      obtain ⟨-, rfl⟩ := row.unique row'
      rfl

theorem Prunes.absent (prunes : view.Prunes fromHeight pruned) (height : Nat)
    (above : fromHeight ≤ height) :
    pruned.byHeight height = none := by
  cases prunes with
  | idle absent => exact absent height above
  | cut row => exact if_neg (not_lt.mpr above)

/-- A container that differs only above the cut, and still has its first row, is cut to the same. -/
theorem Prunes.of_agree (row : view.FirstRow fromHeight first start)
    (leaves : mid.leaves.take start = view.leaves.take start)
    (byHash : ∀ hash, (mid.byHash hash).filter (· < start) = (view.byHash hash).filter (· < start))
    (byHeight : ∀ height, height < first ∨ height = first → mid.byHeight height = view.byHeight height) :
    mid.Prunes fromHeight (view.cut fromHeight start) := by
  have same : mid.cut fromHeight start = view.cut fromHeight start := by
    refine ContainerView.ext leaves (funext byHash) (funext fun height => ?_)
    simp only [ContainerView.cut]
    split_ifs with below
    · exact byHeight height (.inl (below.trans_le row.above))
    · rfl
  rw [← same]
  exact .cut ⟨row.above, (byHeight first (.inr rfl)).trans row.isStart,
    fun height above below => (byHeight height (.inl below)).trans (row.least height above below)⟩

end ContainerView

/-! Removals of rows, all at once. -/

namespace ContainerView

variable {view : ContainerView} {id : ContainerId}

/-- Key by key, a table loses the rows of some keys. -/
theorem foldl_update_none {α β : Type} [DecidableEq α] (keys : List α) (table : α → Option β) :
    keys.foldl (fun table key => Function.update table key none) table =
      fun key => if key ∈ keys then none else table key := by
  induction keys generalizing table with
  | nil => simp
  | cons x keys ih =>
    rw [List.foldl_cons, ih]
    funext key
    simp only [Function.update_apply, List.mem_cons]
    split_ifs with rest here here' <;> simp_all

theorem foldl_removeHash (hashes : List Buf32) :
    (hashes.map (.removeHash id)).foldl write view =
      { view with byHash := fun hash => if hash ∈ hashes then none else view.byHash hash } := by
  rw [List.foldl_map, ← foldl_update_none]
  refine List.foldl_hom (fun byHash => { view with byHash }) fun _ _ => ?_
  rfl

theorem foldl_removeHeight (heights : List Nat) :
    (heights.map (.removeHeight id)).foldl write view =
      { view with
        byHeight := fun height => if height ∈ heights then none else view.byHeight height } := by
  rw [List.foldl_map, ← foldl_update_none]
  refine List.foldl_hom (fun byHeight => { view with byHeight }) fun _ _ => ?_
  rfl

end ContainerView

/-- The writes of a prune: the leaves first, then the hash rows past the cut, then the height rows,
and the row of the cut last of all. -/
structure PruneScript (view : ContainerView) (fromHeight : Nat) where
  first : Nat
  start : Nat
  hashes : List Buf32
  heights : List Nat
  row : view.FirstRow fromHeight first start
  mem_hashes : ∀ hash, hash ∈ hashes ↔ ∃ index, view.byHash hash = some index ∧ start ≤ index
  mem_heights : ∀ height, height ∈ heights ↔ first < height ∧ view.byHeight height ≠ none

namespace PruneScript

variable {view pruned : ContainerView} {fromHeight : Nat}

def writes (script : PruneScript view fromHeight) (id : ContainerId) : List EntryWrite :=
  .pruneAfter id script.start :: (script.hashes.map (.removeHash id) ++
    (script.heights.map (.removeHeight id) ++ [.removeHeight id script.first]))

variable (script : PruneScript view fromHeight) {id : ContainerId}

theorem owned : ∀ w ∈ script.writes id, w.container = id := by
  intro w mem
  simp only [writes, List.mem_cons, List.mem_append, List.mem_map, List.not_mem_nil, or_false] at mem
  rcases mem with rfl | ⟨_, _, rfl⟩ | ⟨_, _, rfl⟩ | rfl <;> rfl

/-- Without some of the hash rows that it removes the container is cut to the same. -/
theorem filter_byHash {gone : List Buf32} (within : ∀ hash ∈ gone, hash ∈ script.hashes) (hash : Buf32) :
    (if hash ∈ gone then none else view.byHash hash).filter (· < script.start) =
      (view.byHash hash).filter (· < script.start) := by
  split_ifs with isGone
  · obtain ⟨index, found, past⟩ := (script.mem_hashes hash).mp (within hash isGone)
    rw [found, Option.filter_some_neg (by simpa using past)]
    rfl
  · rfl

theorem byHash_cut (hash : Buf32) :
    (if hash ∈ script.hashes then none else view.byHash hash) =
    (view.byHash hash).filter (· < script.start) := by
  rw [← script.filter_byHash (fun _ mem => mem) hash]
  split_ifs with isGone
  · rfl
  · cases found : view.byHash hash with
    | none => rfl
    | some index =>
      have kept : index < script.start :=
        not_le.mp fun past => isGone ((script.mem_hashes hash).mpr ⟨index, found, past⟩)
      exact (Option.filter_some_pos (p := (· < script.start)) (decide_eq_true kept)).symm

theorem byHeight_cut (height : Nat) :
    (if height ∈ script.heights ++ [script.first] then none else view.byHeight height) =
      if height < fromHeight then view.byHeight height else none := by
  simp only [List.mem_append, List.mem_singleton, script.mem_heights]
  have above := script.row.above
  split_ifs with gone below below
  · omega
  · rfl
  · rfl
  · rcases lt_trichotomy height script.first with less | rfl | greater
    · exact script.row.least height (not_lt.mp below) less
    · exact absurd (.inr rfl) gone
    · by_contra found
      exact gone (.inl ⟨greater, found⟩)

theorem foldl_writes (id : ContainerId) :
    (script.writes id).foldl ContainerView.write view = view.cut fromHeight script.start := by
  have heights : script.heights.map (EntryWrite.removeHeight id) ++ [.removeHeight id script.first] =
      (script.heights ++ [script.first]).map (.removeHeight id) := by simp
  rw [writes, heights, List.foldl_cons, List.foldl_append, ContainerView.foldl_removeHash,
    ContainerView.foldl_removeHeight]
  exact ContainerView.ext rfl (funext script.byHash_cut) (funext script.byHeight_cut)

/-- Whatever part of the writes is done, the container is still pruned to the same. -/
theorem prunes_aborted {done : List EntryWrite} (isPrefix : done <+: script.writes id) :
    (done.foldl ContainerView.write view).Prunes fromHeight (view.cut fromHeight script.start) := by
  rcases List.prefix_cons_iff.mp isPrefix with rfl | ⟨done, rfl, rest⟩
  · exact .cut script.row
  rw [List.foldl_cons]
  rcases Journal.prefix_append_cases rest with some | ⟨more, rfl, isMore⟩
  · obtain ⟨gone, isGone, rfl⟩ := List.prefix_map_iff.mp some
    rw [ContainerView.foldl_removeHash]
    refine .of_agree script.row (List.take_take.trans (by rw [min_self])) ?_ fun _ _ => rfl
    exact script.filter_byHash fun hash mem => isGone.subset mem
  rw [List.foldl_append, ContainerView.foldl_removeHash]
  rcases List.prefix_concat_iff.mp isMore with rfl | some
  · have all := script.foldl_writes id
    rw [writes, List.foldl_cons, List.foldl_append, ContainerView.foldl_removeHash] at all
    rw [all]
    exact .idle fun height above => if_neg (not_lt.mpr above)
  · obtain ⟨gone, isGone, rfl⟩ := List.prefix_map_iff.mp some
    rw [ContainerView.foldl_removeHeight]
    refine .of_agree script.row (List.take_take.trans (by rw [min_self])) ?_ fun height within =>
      if_neg fun mem => ?_
    · exact script.filter_byHash fun _ mem => mem
    · have greater := ((script.mem_heights height).mp (isGone.subset mem)).1
      omega

end PruneScript

/-! ### The prune of a container -/

namespace SledExportEntriesDb

variable {db t : SledExportEntriesDb} {id : ContainerId} {fromHeight start : Nat}
  {pruned : ContainerView}

/-- The hashes whose rows are past a leaf. -/
def staleHashes (db : SledExportEntriesDb) (id : ContainerId) (firstDropped : Nat) : List Buf32 :=
  ((db.indexByHash.scan fun key => (ofLex key).1 = id).filter fun row => firstDropped ≤ row.2).map
    fun row => (ofLex row.1).2

theorem dropHashRowsFrom_eq :
    dropHashRowsFrom id start db = (db.staleHashes id start).map (.removeHash id) :=
  (List.map_map ..).symm

theorem mem_staleHashes {hash : Buf32} : hash ∈ db.staleHashes id start ↔
    ∃ index, (db.container id).byHash hash = some index ∧ start ≤ index := by
  rw [staleHashes, List.mem_map]
  constructor
  · rintro ⟨⟨key, index⟩, mem, rfl⟩
    obtain ⟨mem, past⟩ := List.mem_filter.mp mem
    obtain ⟨found, own⟩ := OrderedTree.mem_scan.mp mem
    cases of_decide_eq_true own
    exact ⟨index, found, of_decide_eq_true past⟩
  · rintro ⟨index, found, past⟩
    refine ⟨(hashKey id hash, index), List.mem_filter.mpr
      ⟨OrderedTree.mem_scan.mpr ⟨found, ?_⟩, ?_⟩, rfl⟩
    · exact decide_eq_true rfl
    · exact decide_eq_true past

/-- The heights whose rows are at a height or above. -/
def staleHeights (db : SledExportEntriesDb) (id : ContainerId) (fromHeight : Nat) : List Nat :=
  ((db.indexByHeight.scan fun key => (ofLex key).1 = id).filter fun row => fromHeight ≤
    (ofLex row.1).2).map
    fun row => (ofLex row.1).2

theorem dropHeightRowsFrom_eq :
    dropHeightRowsFrom id fromHeight db =
      (db.staleHeights id fromHeight).reverse.map (.removeHeight id) := by
  rw [staleHeights, ← List.map_reverse, List.map_map]
  rfl

theorem mem_staleHeights {height : Nat} : height ∈ db.staleHeights id fromHeight ↔
    fromHeight ≤ height ∧ (db.container id).byHeight height ≠ none := by
  rw [staleHeights, List.mem_map]
  constructor
  · rintro ⟨⟨key, start⟩, mem, rfl⟩
    obtain ⟨mem, above⟩ := List.mem_filter.mp mem
    obtain ⟨found, own⟩ := OrderedTree.mem_scan.mp mem
    cases of_decide_eq_true own
    refine ⟨of_decide_eq_true above, fun absent => ?_⟩
    cases absent.symm.trans found
  · rintro ⟨above, present⟩
    obtain ⟨start, found⟩ := Option.ne_none_iff_exists'.mp present
    refine ⟨(heightKey id height, start),
      List.mem_filter.mpr ⟨OrderedTree.mem_scan.mpr ⟨found, ?_⟩, ?_⟩, rfl⟩
    · exact decide_eq_true rfl
    · exact decide_eq_true above

/-- The rows of a container come in the order of their heights. -/
theorem scan_ascending : (db.indexByHeight.scan fun key => (ofLex key).1 = id).Pairwise
    fun a b => (ofLex a.1).2 < (ofLex b.1).2 := by
  have own : ∀ row ∈ db.indexByHeight.scan fun key => (ofLex key).1 = id, row.1 =
      heightKey id (ofLex row.1).2 := by
    intro row mem
    cases of_decide_eq_true (OrderedTree.mem_scan.mp mem).2
    rfl
  refine (OrderedTree.scan_sorted _).imp_of_mem ?_
  intro a b memA memB below
  rw [own a memA, own b memB] at below
  exact heightKey_lt.mp below

theorem staleHeights_sorted (db : SledExportEntriesDb) (id : ContainerId) (fromHeight : Nat) :
    (db.staleHeights id fromHeight).Pairwise (· < ·) := by
  rw [staleHeights, List.pairwise_map]
  exact scan_ascending.sublist List.filter_sublist

theorem staleHeights_cons {first : Nat} (row : (db.container id).FirstRow fromHeight first start) :
    ∃ later, db.staleHeights id fromHeight = first :: later ∧ ∀ height, height ∈ later ↔
      first < height ∧ (db.container id).byHeight height ≠ none := by
  have mem : first ∈ db.staleHeights id fromHeight :=
    mem_staleHeights.mpr ⟨row.above, fun absent => by cases absent.symm.trans row.isStart⟩
  have sorted := staleHeights_sorted db id fromHeight
  have members : ∀ height, height ∈ db.staleHeights id fromHeight ↔
      fromHeight ≤ height ∧ (db.container id).byHeight height ≠ none := fun _ => mem_staleHeights
  generalize db.staleHeights id fromHeight = stale at mem sorted members
  cases stale with
  | nil => cases mem
  | cons least later =>
    obtain ⟨below, -⟩ := List.pairwise_cons.mp sorted
    have isFirst : first = least := by
      rcases List.mem_cons.mp mem with same | mem
      · exact same
      · obtain ⟨above, present⟩ := (members least).mp (.head _)
        exact absurd (row.least least above (below first mem)) present
    subst isFirst
    refine ⟨later, rfl, fun height => ⟨fun mem =>
      ⟨below height mem, ((members height).mp (.tail _ mem)).2⟩, ?_⟩⟩
    rintro ⟨above, present⟩
    rcases List.mem_cons.mp ((members height).mpr ⟨row.above.trans above.le, present⟩) with same | mem
    · exact absurd same above.ne'
    · exact mem

theorem indexByHeight_after_removeHash (hashes : List Buf32) :
    (Journal.after write db (hashes.map (.removeHash id))).indexByHeight = db.indexByHeight := by
  induction hashes generalizing db with
  | nil => rfl
  | cons x hashes ih => exact ih

theorem prune_script (h : db.firstDroppedIndex id fromHeight = some start) :
    ∃ script : PruneScript (db.container id) fromHeight, prune id fromHeight db = script.writes id := by
  obtain ⟨first, row⟩ := firstDroppedIndex_some h
  obtain ⟨later, split, mem_later⟩ := staleHeights_cons row
  refine ⟨⟨first, start, db.staleHashes id start, later.reverse, row, fun hash => mem_staleHashes,
    fun height => ?_⟩, ?_⟩
  · rw [List.mem_reverse]
    exact mem_later height
  -- The rows that a later step scans are those of the start.
  · have heights : (Journal.run write (dropHashRowsFrom id start)
      (Journal.run write (dropLeavesFrom id start) db)).staleHeights
        id fromHeight = first :: later := by
      rw [← split, Journal.run, dropHashRowsFrom_eq, staleHeights, indexByHeight_after_removeHash]
      rfl
    simp only [prune, h, Journal.andThen, PruneScript.writes]
    rw [dropHeightRowsFrom_eq, heights, List.reverse_cons, List.map_append, dropHashRowsFrom_eq]
    rfl

/-- A prune does to its container what it should. -/
theorem prune_prunes :
    (db.container id).Prunes fromHeight ((Journal.run write (prune id fromHeight) db).container id) := by
  cases h : db.firstDroppedIndex id fromHeight with
  | none =>
    rw [Journal.run, prune, h]
    exact .idle fun height above => firstDroppedIndex_none h above
  | some start =>
    obtain ⟨script, isScript⟩ := prune_script h
    rw [Journal.run, isScript, container_after script.owned, script.foldl_writes id]
    exact .cut script.row

/-- A prune that is aborted leaves the container to be pruned to the same. -/
theorem prunes_of_aborts (aborts : Journal.Aborts write (prune id fromHeight) db t)
    (prunes : (db.container id).Prunes fromHeight pruned) :
    (t.container id).Prunes fromHeight pruned := by
  obtain ⟨done, isPrefix, rfl⟩ := aborts
  cases h : db.firstDroppedIndex id fromHeight with
  | none =>
    rw [prune, h, List.prefix_nil] at isPrefix
    rw [isPrefix]
    exact prunes
  | some start =>
    obtain ⟨script, isScript⟩ := prune_script h
    rw [isScript] at isPrefix
    rw [container_after fun w mem => script.owned w (isPrefix.subset mem),
      prunes.unique (.cut script.row)]
    exact script.prunes_aborted isPrefix

theorem prune_owned (id : ContainerId) (db : SledExportEntriesDb) :
    ∀ w ∈ prune id fromHeight db, w.container = id := by
  cases h : db.firstDroppedIndex id fromHeight with
  | none =>
    rw [prune, h]
    exact List.forall_mem_nil _
  | some start =>
    obtain ⟨script, isScript⟩ := prune_script h
    rw [isScript]
    exact script.owned

theorem pruneFrom_prunes (db : SledExportEntriesDb) (fromHeight : Nat) (id : ContainerId) :
    (db.container id).Prunes fromHeight ((Journal.run write (pruneFrom fromHeight)
      db).container id) := by
  refine Journal.view_forEach (g := fun id => id) (k := id)
    (R := fun view view' => view.Prunes fromHeight view')
    write_isolated (fun id db => prune_owned id db) (fun db => prune_prunes) ?_ (List.mem_finRange id)
  rw [List.map_id']
  exact List.nodup_finRange 256

/-- Pruning again after an abort ends in the same store. -/
theorem pruneFrom_restarts (aborts : Journal.Aborts write (pruneFrom fromHeight) db t) :
    Journal.run write (pruneFrom fromHeight) t = Journal.run write (pruneFrom fromHeight) db := by
  refine eq_of_container fun id => (pruneFrom_prunes t fromHeight id).unique ?_
  have nodup : ((List.finRange 256).map fun id => id).Nodup := by
    rw [List.map_id']
    exact List.nodup_finRange 256
  rcases aborts.view_forEach write_isolated (fun id db => prune_owned id db) nodup id with same |
    ⟨_, -, rfl, s, t', before, stopped, left⟩
  · rw [same]
    exact pruneFrom_prunes db fromHeight id
  · rw [left]
    exact prunes_of_aborts stopped (before ▸ pruneFrom_prunes db fromHeight _)

end SledExportEntriesDb

/-! ### Appending -/

namespace ContainerView

def appendEntry (view : ContainerView) (entry : Buf32) : ContainerView where
  leaves := view.leaves ++ [entry]
  byHash := Function.update view.byHash entry (some view.leaves.length)
  byHeight := view.byHeight

def openHeight (view : ContainerView) (height : Nat) : ContainerView :=
  { view with byHeight := Function.update view.byHeight height (some view.leaves.length) }

def append (view : ContainerView) (height : Nat) (entries : List Buf32) : ContainerView :=
  if entries = [] then view else entries.foldl appendEntry (view.openHeight height)

variable {view mid : ContainerView} {height : Nat} {entries : List Buf32}

theorem foldl_appendEntry_leaves : (entries.foldl appendEntry view).leaves = view.leaves ++ entries := by
  induction entries generalizing view with
  | nil => exact (List.append_nil _).symm
  | cons x entries ih =>
    rw [List.foldl_cons, ih, appendEntry, List.append_assoc]
    rfl

theorem foldl_appendEntry_byHeight : (entries.foldl appendEntry view).byHeight = view.byHeight := by
  induction entries generalizing view with
  | nil => rfl
  | cons x entries ih => exact ih

@[simp] theorem append_leaves : (view.append height entries).leaves = view.leaves ++ entries := by
  rw [append]
  split_ifs with nothing
  · rw [nothing, List.append_nil]
  · exact foldl_appendEntry_leaves

theorem append_byHeight (nonempty : entries ≠ []) : (view.append height entries).byHeight =
    Function.update view.byHeight height (some view.leaves.length) := by
  rw [append, if_neg nonempty, foldl_appendEntry_byHeight]
  rfl

/-- An append keeps what opening its height and appending each of its entries keep. -/
theorem append_keeps {motive : ContainerView → Prop} (start : motive view)
    (opened : motive (view.openHeight height))
    (step : ∀ mid, motive mid → ∀ entry ∈ entries, motive (mid.appendEntry entry)) :
    motive (view.append height entries) := by
  rw [append]
  split_ifs
  · exact start
  · exact List.foldlRecOn entries appendEntry opened step

/-- Hash rows of entries that are appended do not matter. -/
theorem foldl_appendEntry_congr {other : ContainerView} (leaves : view.leaves = other.leaves)
    (byHeight : view.byHeight = other.byHeight)
    (byHash : ∀ hash, hash ∉ entries → view.byHash hash = other.byHash hash) :
    entries.foldl appendEntry view = entries.foldl appendEntry other := by
  induction entries generalizing view other with
  | nil => exact ContainerView.ext leaves (funext fun hash => byHash hash List.not_mem_nil) byHeight
  | cons x entries ih =>
    refine ih (by rw [appendEntry, appendEntry, leaves]) byHeight fun hash absent => ?_
    simp only [appendEntry, Function.update_apply, leaves]
    split_ifs with same
    · rfl
    · exact byHash hash (List.not_mem_cons_of_ne_of_not_mem same absent)

/-- What an append can leave of a container: the row of its height, some more leaves, and some rows
of its entries that point past the leaves there were. -/
structure Appending (view : ContainerView) (height : Nat) (entries : List Buf32)
    (mid : ContainerView) : Prop where
  byHeight : mid.byHeight = Function.update view.byHeight height (some view.leaves.length)
  leaves : view.leaves <+: mid.leaves
  byHash : ∀ hash, mid.byHash hash = view.byHash hash ∨
    hash ∈ entries ∧ ∃ index, mid.byHash hash = some index ∧ view.leaves.length ≤ index

end ContainerView

namespace SledExportEntriesDb

variable {db t : SledExportEntriesDb} {id : ContainerId} {height : Nat} {entries : List Buf32}

theorem container_appendEntry (db : SledExportEntriesDb) (id : ContainerId) (entry : Buf32) :
    (Journal.run write (appendEntry id entry) db).container id = (db.container id).appendEntry entry :=
  container_after fun w mem => by
    simp only [appendEntry, List.mem_cons, List.not_mem_nil, or_false] at mem
    rcases mem with rfl | rfl <;> rfl

theorem container_append :
    (Journal.run write (append id height entries) db).container id =
    (db.container id).append height entries := by
  have loop : ∀ entries db, (Journal.run write (Journal.forEach write (appendEntry id) entries)
    db).container id =
      entries.foldl ContainerView.appendEntry (db.container id) := by
    intro entries
    induction entries with
    | nil => exact fun db => rfl
    | cons x entries ih =>
      intro db
      rw [Journal.run_forEach_cons, ih, container_appendEntry]
      rfl
  rw [append, ContainerView.append]
  cases entries with
  | nil => rfl
  | cons x entries =>
    rw [if_neg (by simp), if_neg (by simp), Journal.run_andThen, loop]
    congr 1
    exact container_after (List.forall_mem_singleton.mpr rfl)

/-- The writes of the entries themselves. -/
theorem mem_appendEntries {w : EntryWrite}
    (mem : w ∈ Journal.forEach write (appendEntry id) entries db) :
    ∃ entry ∈ entries, w = .appendLeaf id entry ∨ ∃ index, db.numEntries id ≤ index ∧
      w = .insertHash id entry index := by
  induction entries generalizing db with
  | nil => cases mem
  | cons x entries ih =>
    rcases List.mem_append.mp mem with first | later
    · simp only [appendEntry, List.mem_cons, List.not_mem_nil, or_false] at first
      rcases first with rfl | rfl
      · exact ⟨x, .head _, .inl rfl⟩
      · exact ⟨x, .head _, .inr ⟨_, le_rfl, rfl⟩⟩
    · obtain ⟨entry, mem, isWrite⟩ := ih later
      refine ⟨entry, .tail _ mem, isWrite.imp_right ?_⟩
      rintro ⟨index, past, rfl⟩
      refine ⟨index, le_trans ?_ past, rfl⟩
      have leaves := congrArg ContainerView.leaves (container_appendEntry db id x)
      exact (Nat.le_succ _).trans_eq ((congrArg List.length leaves).trans List.length_append).symm

theorem append_owned : ∀ w ∈ append id height entries db, w.container = id := by
  intro w mem
  unfold append at mem
  split at mem
  · cases mem
  · rcases List.mem_append.mp mem with first | later
    · rw [List.mem_singleton.mp first]
      rfl
    · obtain ⟨entry, -, rfl | ⟨index, -, rfl⟩⟩ := mem_appendEntries later <;> rfl

theorem appending_of_aborts (aborts : Journal.Aborts write (append id height entries) db t) :
    t.container id = db.container id ∨ (db.container id).Appending height entries (t.container id) := by
  unfold append at aborts
  split at aborts
  · obtain ⟨done, isPrefix, rfl⟩ := aborts
    rw [List.prefix_nil.mp isPrefix]
    exact .inl rfl
  · have opened : (Journal.run write (fun db => [.insertHeight id height (db.numEntries id)])
      db).container id =
        (db.container id).openHeight height := container_after (List.forall_mem_singleton.mpr rfl)
    rcases Journal.aborts_andThen_iff.mp aborts with ⟨done, isPrefix, rfl⟩ | later
    · rcases List.prefix_cons_iff.mp isPrefix with rfl | ⟨_, rfl, rest⟩
      · exact .inl rfl
      · rw [List.prefix_nil.mp rest]
        refine .inr ?_
        rw [show Journal.after write db [_] =
          Journal.run write (fun db => [.insertHeight id height (db.numEntries id)]) db from rfl,
          opened]
        exact ⟨rfl, List.prefix_rfl, fun _ => .inl rfl⟩
    · refine .inr (later.induction (motive := fun t => (db.container id).Appending height entries
        (t.container id)) ?_ ?_)
      · rw [opened]
        exact ⟨rfl, List.prefix_rfl, fun _ => .inl rfl⟩
      · intro w mem s appending
        obtain ⟨entry, isEntry, isWrite⟩ := mem_appendEntries mem
        have owned : w.container = id := by rcases isWrite with rfl | ⟨_, _, rfl⟩ <;> rfl
        rw [container_write, if_pos owned]
        rcases isWrite with rfl | ⟨index, past, rfl⟩
        · exact ⟨appending.byHeight, appending.leaves.trans (List.prefix_append _ _), appending.byHash⟩
        · refine ⟨appending.byHeight, appending.leaves, fun hash => ?_⟩
          simp only [ContainerView.write, Function.update_apply]
          split_ifs with same
          · subst same
            exact .inr ⟨isEntry, index, rfl, past⟩
          · exact appending.byHash hash

end SledExportEntriesDb

end Asm
