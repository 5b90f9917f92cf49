import Mathlib.Data.List.Nodup

/-!
# Lists with keys

A list whose entries are found by a key. `put` replaces the entry of a key, so that a list built by it
behaves as a finite map.
-/

universe u v

namespace Keyed

variable {α : Type u} {κ : Type v} (key : α → κ)

theorem nodup_concat {xs : List α} (nodup : (xs.map key).Nodup) {x : α} (fresh : key x ∉ xs.map key) :
    ((xs ++ [x]).map key).Nodup := by
  rw [List.map_append, List.nodup_append]
  refine ⟨nodup, List.nodup_singleton _, ?_⟩
  intro k mem other isOther same
  rw [same, List.mem_singleton.mp isOther] at mem
  exact fresh mem

/-- What is known by the keys of single entries is known by those of a list. -/
theorem map_eq_of_keys {β : Type*} {g : α → β} {xs ys : List α}
    (known : ∀ x ∈ xs, ∀ y ∈ ys, key x = key y → g x = g y) (same : xs.map key = ys.map key) :
    xs.map g = ys.map g := by
  induction xs generalizing ys with
  | nil => rw [List.map_eq_nil_iff.mp same.symm]
  | cons x xs ih =>
    cases ys with
    | nil => cases same
    | cons y ys =>
      obtain ⟨first, tail⟩ := List.cons.inj same
      have rest := ih (fun x mem y mem' => known x (.tail _ mem) y (.tail _ mem')) tail
      rw [List.map_cons, List.map_cons, known x (.head _) y (.head _) first, rest]

theorem eq_of_keys {xs ys : List α} (known : ∀ x ∈ xs, ∀ y ∈ ys, key x = key y → x = y)
    (same : xs.map key = ys.map key) : xs = ys := by
  rw [← List.map_id xs, ← List.map_id ys]
  exact map_eq_of_keys key known same

theorem prefix_of_keys {xs ys : List α} (known : ∀ x ∈ xs, ∀ y ∈ ys, key x = key y → x = y)
    (starts : xs.map key <+: ys.map key) : xs <+: ys := by
  have same := List.prefix_iff_eq_take.mp starts
  rw [List.length_map, ← List.map_take] at same
  rw [eq_of_keys key (fun x mem y mem' => known x mem y (List.mem_of_mem_take mem')) same]
  exact List.take_prefix _ _

/-- In lists related entry by entry, every entry of the second has its counterpart in the first. -/
theorem exists_of_forall₂ {β : Type*} {R : α → β → Prop} {xs : List α} {ys : List β}
    (related : List.Forall₂ R xs ys) {y : β} (mem : y ∈ ys) : ∃ x ∈ xs, R x y := by
  induction related with
  | nil => cases mem
  | cons first rest ih =>
    rcases List.mem_cons.mp mem with rfl | mem
    · exact ⟨_, .head _, first⟩
    · obtain ⟨x, mem, same⟩ := ih mem
      exact ⟨x, .tail _ mem, same⟩

variable [DecidableEq κ]

/-- Where keys do not repeat, the entry of a key is the one member that has it. -/
theorem find?_iff {xs : List α} (nodup : (xs.map key).Nodup) {k : κ} {x : α} :
    xs.find? (fun y => key y = k) = some x ↔ x ∈ xs ∧ key x = k := by
  constructor
  · intro found
    exact ⟨List.mem_of_find?_eq_some found, by simpa using List.find?_some found⟩
  · rintro ⟨mem, rfl⟩
    cases found : xs.find? (fun y => key y = key x) with
    | none => exact absurd (List.find?_eq_none.mp found x mem) (by simp)
    | some y =>
      have sameKey : key y = key x := by simpa using List.find?_some found
      rw [List.inj_on_of_nodup_map nodup (List.mem_of_find?_eq_some found) mem sameKey]

def get (xs : List α) (k : κ) : Option α := xs.find? fun x => key x = k

def put (xs : List α) (x : α) : List α := xs.filter (fun y => key y ≠ key x) ++ [x]

theorem get_iff {xs : List α} (nodup : (xs.map key).Nodup) {k : κ} {x : α} :
    get key xs k = some x ↔ x ∈ xs ∧ key x = k := find?_iff key nodup

theorem key_ne {xs : List α} {k : κ} {x : α} (absent : get key xs k = none)
    (mem : x ∈ xs) : key x ≠ k := by
  simpa using List.find?_eq_none.mp absent x mem

theorem get_put (xs : List α) (x : α) (k : κ) :
    get key (put key xs x) k = if k = key x then some x else get key xs k := by
  rw [get, put, List.find?_append, List.find?_filter]
  split
  · rename_i same
    subst same
    rw [List.find?_eq_none.mpr (by simp)]
    simp
  · rename_i other
    have skipped : List.find? (fun y => decide (key y = k)) [x] = none := by
      simp [Ne.symm other]
    rw [skipped, Option.or_none, get]
    congr 1
    funext y
    by_cases same : key y = k
    · simp [same, other]
    · simp [same]

theorem get_put_of_ne (xs : List α) {x : α} {k : κ} (other : k ≠ key x) :
    get key (put key xs x) k = get key xs k := by
  rw [get_put, if_neg other]

theorem mem_put {xs : List α} {x y : α} : y ∈ put key xs x ↔ y = x ∨ y ∈ xs ∧ key y ≠ key x := by
  rw [put, List.mem_append, List.mem_filter, List.mem_singleton, decide_eq_true_iff, or_comm]

theorem put_put (xs : List α) (x : α) : put key (put key xs x) x = put key xs x := by
  simp [put, List.filter_append, List.filter_filter]

theorem nodup_put {xs : List α} (nodup : (xs.map key).Nodup) (x : α) :
    ((put key xs x).map key).Nodup := by
  refine nodup_concat key (nodup.sublist (List.filter_sublist.map key)) fun mem => ?_
  obtain ⟨y, kept, same⟩ := List.mem_map.mp mem
  exact of_decide_eq_true (List.mem_filter.mp kept).2 same

end Keyed
