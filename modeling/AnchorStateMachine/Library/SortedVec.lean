import Mathlib.Data.List.Basic
import Mathlib.Data.Nat.Basic
import Mathlib.Order.Lattice

/-!
# Sorted vectors

A vector kept sorted by a key and searched by bisection. `binarySearch` states what bisection
returns on a sorted slice: the position of a match, or the position where the key would go. On a
vector whose keys strictly increase the operations are described by membership alone.
-/

universe u v

namespace SortedVec

variable {α : Type u} {κ : Type v} [LinearOrder κ] (key : α → κ)

/-- The result of bisecting a sorted slice for a key. -/
def binarySearch (k : κ) : List α → Except Nat Nat
  | [] => .error 0
  | x :: xs =>
    if key x < k then
      match binarySearch k xs with
      | .ok i => .ok (i + 1)
      | .error i => .error (i + 1)
    else if key x = k then .ok 0
    else .error 0

def get (k : κ) (xs : List α) : Option α :=
  match binarySearch key k xs with
  | .ok i => xs[i]?
  | .error _ => none

def insert (x : α) (xs : List α) : List α :=
  match binarySearch key (key x) xs with
  | .ok i => xs.insertIdx i x
  | .error i => xs.insertIdx i x

def remove (k : κ) (xs : List α) : List α × Bool :=
  match binarySearch key k xs with
  | .ok i => (xs.eraseIdx i, true)
  | .error _ => (xs, false)

/-- A vector is taken over if no element has a key below that of its predecessor. -/
def tryFrom (xs : List α) : Option (List α) :=
  if xs.IsChain fun x y => key x ≤ key y then some xs else none

/-- Keys strictly increase along the vector, so no key occurs twice. -/
def StrictlySorted (xs : List α) : Prop := xs.Pairwise fun x y => key x < key y

@[simp] theorem strictlySorted_nil : StrictlySorted key ([] : List α) := .nil

theorem tryFrom_of_sorted {xs : List α} (sorted : StrictlySorted key xs) : tryFrom key xs = some xs :=
  if_pos (sorted.imp fun below => le_of_lt below).isChain

theorem strictlySorted_cons {x : α} {xs : List α} :
    StrictlySorted key (x :: xs) ↔ (∀ y ∈ xs, key x < key y) ∧ StrictlySorted key xs :=
  List.pairwise_cons

variable {key}

/-! ### Recursive equations -/

@[simp] theorem get_nil (k : κ) : get key k ([] : List α) = none := rfl

theorem get_cons (k : κ) (x : α) (xs : List α) :
    get key k (x :: xs) = if key x < k then get key k xs else if key x = k then some x else none := by
  simp only [get, binarySearch]
  split_ifs with below same
  · cases binarySearch key k xs with
    | ok i => simp
    | error i => rfl
  · rfl
  · rfl

@[simp] theorem insert_nil (x : α) : insert key x [] = [x] := rfl

theorem insert_cons (x y : α) (ys : List α) :
    insert key x (y :: ys) = if key y < key x then y :: insert key x ys else x :: y :: ys := by
  simp only [insert, binarySearch]
  split_ifs with below same
  · cases binarySearch key (key x) ys with
    | ok i => simp
    | error i => simp
  · simp
  · simp

@[simp] theorem remove_nil (k : κ) : remove key k ([] : List α) = ([], false) := rfl

theorem remove_cons (k : κ) (x : α) (xs : List α) :
    remove key k (x :: xs) =
      if key x < k then (x :: (remove key k xs).1, (remove key k xs).2)
      else if key x = k then (xs, true) else (x :: xs, false) := by
  simp only [remove, binarySearch]
  split_ifs with below same
  · cases binarySearch key k xs with
    | ok i => simp
    | error i => rfl
  · rfl
  · rfl

/-! ### Lookup -/

theorem get_some {k : κ} {xs : List α} {x : α} (h : get key k xs = some x) : x ∈ xs ∧ key x = k := by
  induction xs with
  | nil => cases h
  | cons y ys ih =>
    rw [get_cons] at h
    split_ifs at h with below same
    · exact ⟨.tail _ (ih h).1, (ih h).2⟩
    · cases h
      exact ⟨.head _, same⟩

theorem get_of_mem {xs : List α} {x : α} (sorted : StrictlySorted key xs) (mem : x ∈ xs) :
    get key (key x) xs = some x := by
  induction xs with
  | nil => cases mem
  | cons y ys ih =>
    obtain ⟨below, sorted⟩ := (strictlySorted_cons key).mp sorted
    rw [get_cons]
    rcases List.mem_cons.mp mem with rfl | mem
    · rw [if_neg (lt_irrefl _), if_pos rfl]
    · rw [if_pos (below x mem), ih sorted mem]

theorem get_eq_some_iff {xs : List α} {k : κ} {x : α} (sorted : StrictlySorted key xs) :
    get key k xs = some x ↔ x ∈ xs ∧ key x = k := by
  constructor
  · exact get_some
  · rintro ⟨mem, rfl⟩
    exact get_of_mem sorted mem

theorem get_eq_none_iff {xs : List α} {k : κ} (sorted : StrictlySorted key xs) :
    get key k xs = none ↔ ∀ x ∈ xs, key x ≠ k := by
  constructor
  · rintro absent x mem rfl
    rw [get_of_mem sorted mem] at absent
    cases absent
  · intro absent
    cases found : get key k xs with
    | none => rfl
    | some x => exact absurd (get_some found).2 (absent x (get_some found).1)

theorem eq_of_key_eq {xs : List α} {x y : α} (sorted : StrictlySorted key xs)
    (memX : x ∈ xs) (memY : y ∈ xs) (same : key x = key y) : x = y := by
  have first := get_of_mem sorted memX
  rw [same, get_of_mem sorted memY] at first
  exact (Option.some.inj first).symm

theorem countP_key_le_one {xs : List α} (sorted : StrictlySorted key xs) (k : κ) :
    xs.countP (key · = k) ≤ 1 := by
  induction xs with
  | nil => exact Nat.zero_le _
  | cons x xs ih =>
    obtain ⟨below, sorted⟩ := (strictlySorted_cons key).mp sorted
    rw [List.countP_cons]
    by_cases same : key x = k
    · have absent : xs.countP (key · = k) = 0 := by
        refine List.countP_eq_zero.mpr fun y mem => ?_
        have greater := below y mem
        rw [same] at greater
        simpa using greater.ne'
      simp [absent, same]
    · simpa [same] using ih sorted

theorem filter_key_of_mem {xs : List α} {x : α} (sorted : StrictlySorted key xs) (mem : x ∈ xs) :
    xs.filter (key · = key x) = [x] := by
  have found : x ∈ xs.filter (key · = key x) := List.mem_filter.mpr ⟨mem, by simp⟩
  have single := countP_key_le_one sorted (key x)
  rw [List.countP_eq_length_filter] at single
  obtain ⟨y, only⟩ := List.length_eq_one_iff.mp
    (Nat.le_antisymm single (List.length_pos_of_mem found))
  rw [only] at found ⊢
  rw [List.mem_singleton.mp found]

theorem eraseP_key {xs : List α} (sorted : StrictlySorted key xs) (k : κ) :
    xs.eraseP (key · = k) = xs.filter (key · ≠ k) := by
  induction xs with
  | nil => rfl
  | cons x xs ih =>
    obtain ⟨below, sorted⟩ := (strictlySorted_cons key).mp sorted
    by_cases same : key x = k
    · have others : ∀ y ∈ xs, decide (key y ≠ k) = true := by
        intro y mem
        have greater := below y mem
        rw [same] at greater
        simpa using greater.ne'
      simpa [same] using (List.filter_eq_self.mpr others).symm
    · simpa [same] using ih sorted

/-! ### Insertion -/

theorem insert_perm (x : α) (xs : List α) : (insert key x xs).Perm (x :: xs) := by
  induction xs with
  | nil => exact .refl _
  | cons y ys ih =>
    rw [insert_cons]
    split_ifs
    · exact (ih.cons y).trans (.swap x y ys)
    · exact .refl _

@[simp] theorem mem_insert {x y : α} {xs : List α} : y ∈ insert key x xs ↔ y = x ∨ y ∈ xs := by
  rw [(insert_perm x xs).mem_iff, List.mem_cons]

@[simp] theorem length_insert (x : α) (xs : List α) :
    (insert key x xs).length = xs.length + 1 := (insert_perm x xs).length_eq

theorem insert_sorted {x : α} {xs : List α} (sorted : StrictlySorted key xs)
    (fresh : ∀ y ∈ xs, key y ≠ key x) : StrictlySorted key (insert key x xs) := by
  induction xs with
  | nil => exact List.pairwise_singleton _ _
  | cons y ys ih =>
    obtain ⟨below, sortedTail⟩ := (strictlySorted_cons key).mp sorted
    rw [insert_cons]
    split_ifs with less
    · refine (strictlySorted_cons key).mpr ⟨?_, ih sortedTail fun z mem => fresh z (.tail _ mem)⟩
      intro z mem
      rcases mem_insert.mp mem with rfl | mem
      · exact less
      · exact below z mem
    · have first : key x < key y := lt_of_le_of_ne (not_lt.mp less) (fresh y (.head _)).symm
      refine (strictlySorted_cons key).mpr ⟨?_, sorted⟩
      intro z mem
      rcases List.mem_cons.mp mem with rfl | mem
      · exact first
      · exact first.trans (below z mem)

theorem insert_last {x : α} {xs : List α} (above : ∀ y ∈ xs, key y < key x) :
    insert key x xs = xs ++ [x] := by
  induction xs with
  | nil => rfl
  | cons y ys ih =>
    rw [insert_cons, if_pos (above y (.head _)), ih fun z mem => above z (.tail _ mem)]
    rfl

/-! ### Removal -/

theorem remove_sublist (k : κ) (xs : List α) : (remove key k xs).1.Sublist xs := by
  induction xs with
  | nil => exact .refl _
  | cons x xs ih =>
    rw [remove_cons]
    split_ifs
    · exact ih.cons_cons x
    · exact List.sublist_cons_self x xs
    · exact .refl _

theorem remove_sorted {k : κ} {xs : List α} (sorted : StrictlySorted key xs) :
    StrictlySorted key (remove key k xs).1 := sorted.sublist (remove_sublist k xs)

theorem mem_remove {k : κ} {xs : List α} {x : α} (sorted : StrictlySorted key xs) :
    x ∈ (remove key k xs).1 ↔ x ∈ xs ∧ key x ≠ k := by
  induction xs with
  | nil => simp
  | cons y ys ih =>
    obtain ⟨below, sorted⟩ := (strictlySorted_cons key).mp sorted
    rw [remove_cons]
    split_ifs with less same
    · rw [List.mem_cons, List.mem_cons, ih sorted]
      constructor
      · rintro (rfl | ⟨mem, other⟩)
        · exact ⟨.inl rfl, less.ne⟩
        · exact ⟨.inr mem, other⟩
      · rintro ⟨rfl | mem, other⟩
        · exact .inl rfl
        · exact .inr ⟨mem, other⟩
    · subst same
      rw [List.mem_cons]
      constructor
      · exact fun mem => ⟨.inr mem, (below x mem).ne'⟩
      · rintro ⟨rfl | mem, other⟩
        · exact absurd rfl other
        · exact mem
    · have greater : k < key y := lt_of_le_of_ne (not_lt.mp less) fun eq => same eq.symm
      rw [List.mem_cons]
      constructor
      · rintro (rfl | mem)
        · exact ⟨.inl rfl, greater.ne'⟩
        · exact ⟨.inr mem, (greater.trans (below x mem)).ne'⟩
      · exact fun h => h.1

theorem remove_found {k : κ} {xs : List α} {x : α} (found : get key k xs = some x) :
    (remove key k xs).2 = true ∧ xs.Perm (x :: (remove key k xs).1) := by
  induction xs with
  | nil => cases found
  | cons y ys ih =>
    rw [get_cons] at found
    rw [remove_cons]
    split_ifs at found ⊢ with less same
    · exact ⟨(ih found).1, ((ih found).2.cons y).trans (.swap x y _)⟩
    · cases found
      exact ⟨rfl, .refl _⟩

end SortedVec
