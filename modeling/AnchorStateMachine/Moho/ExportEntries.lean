import AnchorStateMachine.Common.Primitives
import AnchorStateMachine.Library.Journal
import AnchorStateMachine.Library.OrderedTree
import Mathlib.Data.List.Lex
import Mathlib.Data.Prod.Lex
import Mathlib.Order.Fin.Basic

/-! The store of exported entries: for every container an accumulator of leaves, with an index of
the leaves by hash and one of the heights by first leaf. The containers share the trees, and a key
starts with the id of its container. -/

namespace Asm

/-- Buffers are ordered by their bytes, from the first. -/
instance : LinearOrder Buf32 :=
  LinearOrder.lift' (fun buf => buf.bytes.map UInt8.toNat) fun _ _ same =>
    Buf32.ext (List.map_injective_iff.mpr (fun _ _ => UInt8.toNat_inj.mp) same)

abbrev ContainerId := Fin 256

/-- The leaves of a container stand for the nodes of its accumulator. A height key is the id and the
height, both big-endian in the tree, so that keys are ordered as pairs. -/
@[ext] structure SledExportEntriesDb where
  nodes : ContainerId → List Buf32
  indexByHash : OrderedTree (ContainerId ×ₗ Buf32) Nat
  indexByHeight : OrderedTree (ContainerId ×ₗ Nat) Nat

inductive ExportStoreError
  | heightMissing
  deriving DecidableEq

/-- The writes to the trees. An append or a truncation of an accumulator is one batch. -/
inductive EntryWrite
  | appendLeaf (id : ContainerId) (entry : Buf32)
  | pruneAfter (id : ContainerId) (leafPos : Nat)
  | insertHash (id : ContainerId) (hash : Buf32) (index : Nat)
  | removeHash (id : ContainerId) (hash : Buf32)
  | insertHeight (id : ContainerId) (height start : Nat)
  | removeHeight (id : ContainerId) (height : Nat)
  deriving DecidableEq

namespace EntryWrite

def container : EntryWrite → ContainerId
  | appendLeaf id _ | pruneAfter id _ | insertHash id _ _ | removeHash id _ | insertHeight id _ _ |
      removeHeight id _ => id

end EntryWrite

namespace SledExportEntriesDb

def hashKey (id : ContainerId) (hash : Buf32) : ContainerId ×ₗ Buf32 := toLex (id, hash)

def heightKey (id : ContainerId) (height : Nat) : ContainerId ×ₗ Nat := toLex (id, height)

def empty : SledExportEntriesDb := ⟨fun _ => [], .empty, .empty⟩

def write (db : SledExportEntriesDb) : EntryWrite → SledExportEntriesDb
  | .appendLeaf id entry => { db with nodes := Function.update db.nodes id (db.nodes id ++ [entry]) }
  | .pruneAfter id leafPos =>
    { db with nodes := Function.update db.nodes id ((db.nodes id).take leafPos) }
  | .insertHash id hash index => { db with indexByHash := db.indexByHash.insert (hashKey id hash) index }
  | .removeHash id hash => { db with indexByHash := db.indexByHash.remove (hashKey id hash) }
  | .insertHeight id height start =>
    { db with indexByHeight := db.indexByHeight.insert (heightKey id height) start }
  | .removeHeight id height => { db with indexByHeight := db.indexByHeight.remove (heightKey id height) }

/-! ### Reads -/

def numEntries (db : SledExportEntriesDb) (id : ContainerId) : Nat := (db.nodes id).length

def get (db : SledExportEntriesDb) (id : ContainerId) (mmrIndex : Nat) :
    Option Buf32 := (db.nodes id)[mmrIndex]?

def findIndex (db : SledExportEntriesDb) (id : ContainerId) (hash : Buf32) : Option Nat :=
  db.indexByHash.get (hashKey id hash)

/-- Keeps the height of the last row that does not start after the index. -/
def scanHeights (mmrIndex : Nat) : Option Nat → List ((ContainerId ×ₗ Nat) × Nat) → Option Nat
  | height, [] => height
  | height, (key, start) :: rows =>
    if mmrIndex < start then height else scanHeights mmrIndex (some (ofLex key).2) rows

def entryHeight (db : SledExportEntriesDb) (id : ContainerId) (mmrIndex : Nat) :
    Except ExportStoreError (Option Nat) :=
  match db.get id mmrIndex with
  | none => .ok none
  | some _ =>
    match scanHeights mmrIndex none (db.indexByHeight.scan fun key => (ofLex key).1 = id) with
    | none => .error .heightMissing
    | some height => .ok (some height)

/-- The first row of a container after a height. The next key could belong to the following
container. -/
def nextStart (db : SledExportEntriesDb) (id : ContainerId) (height : Nat) : Option Nat :=
  match db.indexByHeight.getGt (heightKey id height) with
  | some (nextKey, start) => if (ofLex nextKey).1 = id then some start else none
  | none => none

def leafRangeAtHeight (db : SledExportEntriesDb) (id : ContainerId)
    (height : Nat) : Option (Nat × Nat) :=
  match db.indexByHeight.get (heightKey id height) with
  | none => none
  | some start => some (start, (db.nextStart id height).getD (db.numEntries id))

def firstDroppedIndex (db : SledExportEntriesDb) (id : ContainerId) (fromHeight : Nat) : Option Nat :=
  match db.indexByHeight.get (heightKey id fromHeight) with
  | some start => some start
  | none => db.nextStart id fromHeight

/-! ### Writes -/

def appendEntry (id : ContainerId) (entry : Buf32) (db : SledExportEntriesDb) : List EntryWrite :=
  [.appendLeaf id entry, .insertHash id entry (db.numEntries id)]

def append (id : ContainerId) (height : Nat) (entries : List Buf32) :
    SledExportEntriesDb → List EntryWrite :=
  if entries.isEmpty then fun _ => []
  else
    Journal.andThen write (fun db => [.insertHeight id height (db.numEntries id)])
      (Journal.forEach write (appendEntry id) entries)

def dropLeavesFrom (id : ContainerId) (firstDropped : Nat) (_ : SledExportEntriesDb) : List EntryWrite :=
  [.pruneAfter id firstDropped]

def dropHashRowsFrom (id : ContainerId) (firstDropped : Nat)
    (db : SledExportEntriesDb) : List EntryWrite :=
  let stale := (db.indexByHash.scan fun key => (ofLex key).1 = id).filter fun row => firstDropped ≤ row.2
  stale.map fun row => .removeHash id (ofLex row.1).2

def dropHeightRowsFrom (id : ContainerId) (fromHeight : Nat)
    (db : SledExportEntriesDb) : List EntryWrite :=
  let stale := (db.indexByHeight.scan fun key => (ofLex key).1 = id).filter
    fun row => fromHeight ≤ (ofLex row.1).2
  stale.reverse.map fun row => .removeHeight id (ofLex row.1).2

def prune (id : ContainerId) (fromHeight : Nat) (db : SledExportEntriesDb) : List EntryWrite :=
  match db.firstDroppedIndex id fromHeight with
  | none => []
  | some firstDropped =>
    Journal.andThen write (dropLeavesFrom id firstDropped)
      (Journal.andThen write (dropHashRowsFrom id firstDropped) (dropHeightRowsFrom id fromHeight)) db

def pruneFrom (height : Nat) : SledExportEntriesDb → List EntryWrite :=
  Journal.forEach write (fun id => prune id height) (List.finRange 256)

/-! ### Containers -/

end SledExportEntriesDb

/-- What one container holds. -/
@[ext] structure ContainerView where
  leaves : List Buf32
  byHash : Buf32 → Option Nat
  byHeight : Nat → Option Nat

namespace SledExportEntriesDb

variable {db other : SledExportEntriesDb} {id : ContainerId} {height : Nat}

def container (db : SledExportEntriesDb) (id : ContainerId) : ContainerView where
  leaves := db.nodes id
  byHash hash := db.indexByHash.get (hashKey id hash)
  byHeight height := db.indexByHeight.get (heightKey id height)

theorem eq_of_container (same : ∀ id, db.container id = other.container id) : db = other := by
  refine SledExportEntriesDb.ext (funext fun id => congrArg ContainerView.leaves (same id)) ?_ ?_
  · exact OrderedTree.eq_of_get fun key => congrFun
      (congrArg ContainerView.byHash (same (ofLex key).1)) (ofLex key).2
  · exact OrderedTree.eq_of_get fun key => congrFun
      (congrArg ContainerView.byHeight (same (ofLex key).1)) (ofLex key).2

theorem hashKey_inj {i j : ContainerId} {x y : Buf32} : hashKey i x = hashKey j y ↔ i = j ∧ x = y :=
  toLex_inj.trans Prod.mk_inj

theorem heightKey_inj {i j : ContainerId} {m n : Nat} : heightKey i m = heightKey j n ↔ i = j ∧ m = n :=
  toLex_inj.trans Prod.mk_inj

end SledExportEntriesDb

/-- What a write does to its container. -/
def ContainerView.write (view : ContainerView) : EntryWrite → ContainerView
  | .appendLeaf _ entry => { view with leaves := view.leaves ++ [entry] }
  | .pruneAfter _ leafPos => { view with leaves := view.leaves.take leafPos }
  | .insertHash _ hash index => { view with byHash := Function.update view.byHash hash (some index) }
  | .removeHash _ hash => { view with byHash := Function.update view.byHash hash none }
  | .insertHeight _ height start =>
    { view with byHeight := Function.update view.byHeight height (some start) }
  | .removeHeight _ height => { view with byHeight := Function.update view.byHeight height none }

namespace SledExportEntriesDb

variable {db other : SledExportEntriesDb} {id : ContainerId} {height : Nat}

theorem container_write (w : EntryWrite) :
    (db.write w).container id = if w.container = id then (db.container id).write w else
      db.container id := by
  cases w with
  | appendLeaf i entry | pruneAfter i leafPos =>
    split_ifs with here
    · cases here
      exact ContainerView.ext (Function.update_self ..) rfl rfl
    · exact ContainerView.ext (Function.update_of_ne (Ne.symm here) ..) rfl rfl
  | insertHash i hash index | removeHash i hash =>
    split_ifs with here
    · cases here
      refine ContainerView.ext rfl (funext fun x => ?_) rfl
      simp only [container, write, OrderedTree.get_insert, OrderedTree.get_remove, hashKey_inj, true_and,
        EntryWrite.container, ContainerView.write, Function.update_apply]
    · refine ContainerView.ext rfl (funext fun x => ?_) rfl
      simp only [container, write, OrderedTree.get_insert, OrderedTree.get_remove, hashKey_inj]
      exact if_neg fun same => here same.1.symm
  | insertHeight i height start | removeHeight i height =>
    split_ifs with here
    · cases here
      refine ContainerView.ext rfl rfl (funext fun x => ?_)
      simp only [container, write, OrderedTree.get_insert, OrderedTree.get_remove,
        heightKey_inj, true_and, EntryWrite.container, ContainerView.write, Function.update_apply]
    · refine ContainerView.ext rfl rfl (funext fun x => ?_)
      simp only [container, write, OrderedTree.get_insert, OrderedTree.get_remove, heightKey_inj]
      exact if_neg fun same => here same.1.symm

/-- A write is seen in its own container only. -/
theorem write_isolated (db : SledExportEntriesDb) (w : EntryWrite) (id : ContainerId)
    (foreign : w.container ≠ id) :
    (db.write w).container id = db.container id := by
  rw [container_write, if_neg foreign]

/-- Writes to one container, seen from it. -/
theorem container_after {writes : List EntryWrite} (owned : ∀ w ∈ writes, w.container = id) :
    (Journal.after write db writes).container id = writes.foldl ContainerView.write
    (db.container id) := by
  induction writes generalizing db with
  | nil => rfl
  | cons w writes ih =>
    rw [Journal.after_cons, ih fun x mem => owned x (.tail _ mem), container_write,
      if_pos (owned w (.head _))]
    rfl

end SledExportEntriesDb

end Asm
