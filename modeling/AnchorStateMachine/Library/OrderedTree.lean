import AnchorStateMachine.Library.SortedVec

/-!
# Ordered trees

A map that keeps its rows sorted by key, as an embedded key-value store does. A row is read by its
key, the rows after a key by a seek, and the rows of a key range by a scan. What a tree holds is
known from `get` alone.
-/

universe u v

@[ext] structure OrderedTree (κ : Type u) (ν : Type v) [LinearOrder κ] where
  rows : List (κ × ν)
  sorted : SortedVec.StrictlySorted Prod.fst rows

namespace OrderedTree

variable {κ : Type u} {ν : Type v} [LinearOrder κ]

instance [DecidableEq ν] : DecidableEq (OrderedTree κ ν) :=
  fun s t => decidable_of_iff (s.rows = t.rows) OrderedTree.ext_iff.symm

def empty : OrderedTree κ ν := ⟨[], .nil⟩

def get (t : OrderedTree κ ν) (k : κ) : Option ν := (SortedVec.get Prod.fst k t.rows).map Prod.snd

def remove (t : OrderedTree κ ν) (k : κ) : OrderedTree κ ν :=
  ⟨(SortedVec.remove Prod.fst k t.rows).1, SortedVec.remove_sorted t.sorted⟩

/-- Writes a row, over the row of the same key if there is one. -/
def insert (t : OrderedTree κ ν) (k : κ) (v : ν) : OrderedTree κ ν where
  rows := SortedVec.insert Prod.fst (k, v) (t.remove k).rows
  sorted := SortedVec.insert_sorted (t.remove k).sorted fun _ mem =>
    ((SortedVec.mem_remove t.sorted).mp mem).2

/-- The first row after a key. -/
def getGt (t : OrderedTree κ ν) (k : κ) : Option (κ × ν) := t.rows.find? fun row => k < row.1

/-- The rows whose key passes a test, in the order of the keys. -/
def scan (t : OrderedTree κ ν) (test : κ → Bool) : List (κ × ν) := t.rows.filter fun row => test row.1

def last (t : OrderedTree κ ν) : Option (κ × ν) := t.rows.getLast?

variable {s t : OrderedTree κ ν} {k l : κ} {v : ν}

theorem get_eq_some_iff : t.get k = some v ↔ (k, v) ∈ t.rows := by
  rw [get, Option.map_eq_some_iff]
  constructor
  · rintro ⟨⟨k', v'⟩, found, rfl⟩
    obtain ⟨mem, rfl⟩ := SortedVec.get_some found
    exact mem
  · intro mem
    exact ⟨(k, v), SortedVec.get_of_mem t.sorted mem, rfl⟩

theorem eq_of_get (same : ∀ k, s.get k = t.get k) : s = t := by
  have mem : ∀ row, row ∈ s.rows ↔ row ∈ t.rows := by
    rintro ⟨k, v⟩
    rw [← get_eq_some_iff, ← get_eq_some_iff, same]
  have nodup : ∀ t : OrderedTree κ ν, t.rows.Nodup := by
    intro t
    refine t.sorted.imp ?_
    rintro a _ below rfl
    exact lt_irrefl _ below
  refine OrderedTree.ext (((List.perm_ext_iff_of_nodup (nodup s) (nodup t)).mpr mem).eq_of_pairwise
    ?_ s.sorted t.sorted)
  exact fun a b _ _ below above => absurd below (lt_asymm above)

@[simp] theorem get_empty : (empty : OrderedTree κ ν).get k = none := rfl

theorem get_remove [Decidable (l = k)] : (t.remove k).get l = if l = k then none else t.get l := by
  refine Option.ext fun v => ?_
  rw [get_eq_some_iff, remove, SortedVec.mem_remove t.sorted, ← get_eq_some_iff]
  split_ifs with same
  · exact iff_of_false (fun found => found.2 same) nofun
  · exact and_iff_left same

theorem get_insert [Decidable (l = k)] : (t.insert k v).get l = if l = k then some v else t.get l := by
  refine Option.ext fun w => ?_
  rw [get_eq_some_iff, insert, SortedVec.mem_insert, ← get_eq_some_iff, get_remove, Prod.mk.injEq]
  split_ifs with same
  · rw [and_iff_right same, Option.some.injEq, or_iff_left nofun]
    exact eq_comm
  · exact or_iff_right fun first => same first.1

theorem insert_of_get (stored : t.get k = some v) : t.insert k v = t := by
  refine eq_of_get fun l => ?_
  rw [get_insert]
  split_ifs with same
  · rw [same, stored]
  · rfl

theorem last_get (h : t.last = some (k, v)) : t.get k = some v :=
  get_eq_some_iff.mpr (List.mem_of_getLast? h)

/-- A tree with a row has a last one. -/
theorem exists_last (stored : t.get k = some v) : ∃ row, t.last = some row := by
  cases isLast : t.last with
  | none =>
    have mem := get_eq_some_iff.mp stored
    rw [List.getLast?_eq_none_iff.mp isLast] at mem
    cases mem
  | some row => exact ⟨row, rfl⟩

theorem mem_scan {test : κ → Bool} : (k, v) ∈ t.scan test ↔ t.get k = some v ∧ test k = true := by
  rw [scan, List.mem_filter, get_eq_some_iff]

theorem scan_sorted (test : κ → Bool) : SortedVec.StrictlySorted Prod.fst (t.scan test) :=
  t.sorted.sublist List.filter_sublist

theorem getGt_eq_none_iff : t.getGt k = none ↔ ∀ l, k < l → t.get l = none := by
  rw [getGt, List.find?_eq_none]
  constructor
  · intro absent l above
    cases found : t.get l with
    | none => rfl
    | some v => exact absurd (decide_eq_true above) (absent (l, v) (get_eq_some_iff.mp found))
  · rintro absent ⟨l, v⟩ mem above
    have found := get_eq_some_iff.mpr mem
    rw [absent l (of_decide_eq_true above)] at found
    cases found

/-- A seek finds the row of the least key after the given one. -/
theorem getGt_eq_some (h : t.getGt k = some (l, v)) :
    k < l ∧ t.get l = some v ∧ ∀ m, k < m → m < l → t.get m = none := by
  obtain ⟨above, before, after, split, passed⟩ := List.find?_eq_some_iff_append.mp h
  refine ⟨of_decide_eq_true above, get_eq_some_iff.mpr (split ▸ by simp), fun m first second => ?_⟩
  cases found : t.get m with
  | none => rfl
  | some w =>
    have mem := get_eq_some_iff.mp found
    have sorted := t.sorted
    rw [split] at mem sorted
    rcases List.mem_append.mp mem with early | late
    · exact absurd (decide_eq_true first) (by simpa using passed _ early)
    · obtain ⟨below, -⟩ := (SortedVec.strictlySorted_cons _).mp (List.pairwise_append.mp sorted).2.1
      rcases List.mem_cons.mp late with same | late
      · cases same
        exact absurd second (lt_irrefl _)
      · exact absurd second (lt_asymm (below _ late))

end OrderedTree
