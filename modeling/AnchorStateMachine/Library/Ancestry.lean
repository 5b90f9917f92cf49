import Mathlib.Data.List.Infix

/-!
# Ancestors in a tree with heights

Every node names its parent, which stands one level below it. A `Line` is the list of nodes on the
way from a root to a node. Lines do not depend on the way they are found, and one node is an
ancestor of another exactly if its line is a prefix of the other's.
-/

universe u

namespace Ancestry

variable {κ : Type u} (parent : κ → Option κ) (height : κ → Nat)

def ancestor : Nat → κ → Option κ
  | 0, b => some b
  | k + 1, b => (parent b).bind (ancestor k)

def Graded : Prop := ∀ b p, parent b = some p → height b = height p + 1

/-- The nodes above a root, up to a node. -/
inductive Line (root : κ) : List κ → κ → Prop
  | root : Line root [] root
  | child {past : List κ} {p b : κ} (below : Line root past p) (isParent : parent b = some p) :
      Line root (past ++ [b]) b

variable {parent height} {root b c : κ} {xs ys : List κ}

theorem ancestor_height (graded : Graded parent height) {k : Nat}
    (reaches : ancestor parent k b = some c) :
    height b = height c + k := by
  induction k generalizing b with
  | zero =>
    cases reaches
    rfl
  | succ k ih =>
    rw [ancestor, Option.bind_eq_some_iff] at reaches
    obtain ⟨p, isParent, reaches⟩ := reaches
    rw [graded b p isParent, ih reaches]
    omega

namespace Line

theorem height_eq (graded : Graded parent height) (line : Line parent root xs b) :
    height b = height root + xs.length := by
  induction line with
  | root => rfl
  | child below isParent ih =>
    rw [graded _ _ isParent, ih, List.length_append, List.length_singleton]
    omega

theorem height_le (graded : Graded parent height) (line : Line parent root xs b) :
    ∀ c ∈ xs, height c ≤ height b := by
  induction line with
  | root => exact List.forall_mem_nil _
  | child below isParent ih =>
    intro c mem
    have step := graded _ _ isParent
    rcases List.mem_append.mp mem with earlier | last
    · have := ih c earlier
      omega
    · rw [List.mem_singleton.mp last]

theorem eq_root (line : Line parent root [] b) : b = root := by
  generalize isNil : ([] : List κ) = xs at line
  cases line with
  | root => rfl
  | child below isParent => exact absurd isNil (by simp)

/-- A line ends in its node, and its other nodes are the line of the parent. -/
theorem concat (line : Line parent root (xs ++ [c]) b) :
    c = b ∧ ∃ p, parent b = some p ∧ Line parent root xs p := by
  generalize isConcat : xs ++ [c] = zs at line
  cases line with
  | root => simp at isConcat
  | child below isParent =>
    obtain ⟨rfl, last⟩ := List.append_inj' isConcat rfl
    cases last
    exact ⟨rfl, _, isParent, below⟩

theorem unique (graded : Graded parent height) (line : Line parent root xs b)
    (other : Line parent root ys b) :
    xs = ys := by
  induction line generalizing ys with
  | root =>
    have length := other.height_eq graded
    exact (List.length_eq_zero_iff.mp (by omega)).symm
  | @child past p b below isParent ih =>
    rcases List.eq_nil_or_concat ys with rfl | ⟨ys, last, rfl⟩
    · cases other.eq_root
      have length := (below.child isParent).height_eq graded
      rw [List.length_append, List.length_singleton] at length
      omega
    · rw [List.concat_eq_append] at other ⊢
      obtain ⟨rfl, p', isParent', below'⟩ := other.concat
      cases isParent.symm.trans isParent'
      rw [ih below']

theorem node_eq (line : Line parent root xs b) (other : Line parent root xs c) : b = c := by
  rcases List.eq_nil_or_concat xs with rfl | ⟨xs, last, rfl⟩
  · rw [line.eq_root, other.eq_root]
  · rw [List.concat_eq_append] at line other
    rw [← line.concat.1, ← other.concat.1]

theorem lt_height (graded : Graded parent height) (line : Line parent root (xs ++ ys) b) :
    ∀ c ∈ ys, height root + xs.length < height c := by
  induction ys using List.reverseRecOn generalizing b with
  | nil => exact List.forall_mem_nil _
  | append_singleton ys y ih =>
    have length := line.height_eq graded
    rw [← List.append_assoc] at line
    obtain ⟨rfl, p, isParent, below⟩ := line.concat
    intro c mem
    rcases List.mem_append.mp mem with earlier | last
    · exact ih below c earlier
    · rw [List.mem_singleton.mp last, length]
      simp

/-- What stands before the last nodes of a line is the line of an ancestor. -/
theorem ancestor_append (line : Line parent root (xs ++ ys) b) :
    ∃ c, ancestor parent ys.length b = some c ∧ Line parent root xs c := by
  induction ys using List.reverseRecOn generalizing b with
  | nil =>
    rw [List.append_nil] at line
    exact ⟨b, rfl, line⟩
  | append_singleton ys y ih =>
    rw [← List.append_assoc] at line
    obtain ⟨rfl, p, isParent, below⟩ := line.concat
    obtain ⟨c, reaches, line⟩ := ih below
    refine ⟨c, ?_, line⟩
    rw [List.length_append, List.length_singleton, ancestor, isParent]
    exact reaches

/-- A node with a line is an ancestor exactly if its line comes first. -/
theorem prefix_iff (graded : Graded parent height) (line : Line parent root xs b)
    (other : Line parent root ys c) : xs <+: ys ↔ ∃ k, ancestor parent k c = some b := by
  constructor
  · rintro ⟨rest, rfl⟩
    obtain ⟨d, reaches, line'⟩ := other.ancestor_append
    rw [line.node_eq line']
    exact ⟨_, reaches⟩
  · rintro ⟨k, reaches⟩
    have length := other.height_eq graded
    have below := ancestor_height graded reaches
    rw [line.height_eq graded] at below
    have split := List.take_append_drop (ys.length - k) ys
    rw [← split] at other
    obtain ⟨d, reaches', line'⟩ := other.ancestor_append
    rw [List.length_drop, show ys.length - (ys.length - k) = k by omega, reaches] at reaches'
    cases reaches'
    rw [line.unique graded line']
    exact List.take_prefix _ _

end Line
end Ancestry
