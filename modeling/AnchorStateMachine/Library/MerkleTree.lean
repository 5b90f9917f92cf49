import AnchorStateMachine.Library.Keyed
import Mathlib.Algebra.Group.Nat.Defs
import Mathlib.Data.Nat.Log
import Mathlib.Data.Set.Function

/-!
# Merkle trees that repeat the last node of an odd level

A level is reduced to the next one by hashing neighbours together, and a last node without a partner
with itself, until one node is left. This file says when a root binds its leaves and when a path to
it binds the leaf it starts from. The hash has to be injective only on the pairs at hand, which are
collected in a set `S`, and leaves must not be mistaken for hashes of such pairs.
-/

universe u

namespace MerkleTree

variable {α : Type u}

/-! ### Levels -/

def pairs : List α → List (α × α)
  | [] => []
  | [a] => [(a, a)]
  | a :: b :: rest => (a, b) :: pairs rest

theorem length_pairs (level : List α) : (pairs level).length = (level.length + 1) / 2 := by
  induction level using pairs.induct with
  | case1 => simp [pairs]
  | case2 a => simp [pairs]
  | case3 a b rest ih =>
    simp only [pairs, List.length_cons, ih]
    omega

/-- A pair starts at an even position, and its second node is the next one if there is one. -/
theorem getElem?_pairs (level : List α) (i : Nat) :
    (pairs level)[i]? = level[2 * i]?.map fun a => (a, level[2 * i + 1]?.getD a) := by
  induction level using pairs.induct generalizing i with
  | case1 => simp [pairs]
  | case2 a => cases i <;> simp [pairs]
  | case3 a b rest ih =>
    cases i with
    | zero => simp [pairs]
    | succ i =>
      rw [pairs, List.getElem?_cons_succ, ih, show 2 * (i + 1) = 2 * i + 1 + 1 by omega]
      simp only [List.getElem?_cons_succ]

theorem pairs_fst_sublist (level : List α) : ((pairs level).map Prod.fst).Sublist level := by
  induction level using pairs.induct with
  | case1 => exact .slnil
  | case2 a => exact List.Sublist.refl _
  | case3 a b rest ih => exact .cons_cons a (.cons b ih)

/-- Distinct nodes can be read back from their pairs. -/
theorem pairs_inj {level other : List α} (nodup : level.Nodup) (otherNodup : other.Nodup)
    (same : pairs level = pairs other) : level = other := by
  induction level using pairs.induct generalizing other with
  | case1 =>
    match other with
    | [] => rfl
    | [_] | _ :: _ :: _ => cases same
  | case2 a =>
    match other with
    | [] => cases same
    | [b] =>
      cases same
      rfl
    | b :: c :: rest =>
      cases (List.cons.inj same).1
      exact absurd (.head _) (List.nodup_cons.mp otherNodup).1
  | case3 a b rest ih =>
    match other with
    | [] => cases same
    | [c] =>
      cases (List.cons.inj same).1
      exact absurd (.head _) (List.nodup_cons.mp nodup).1
    | c :: d :: others =>
      obtain ⟨first, tail⟩ := List.cons.inj same
      cases first
      rw [ih nodup.of_cons.of_cons otherNodup.of_cons.of_cons tail]

variable (hash : α → α → α)

def node (pair : α × α) : α := hash pair.1 pair.2

def parents (level : List α) : List α := (pairs level).map (node hash)

theorem length_parents (level : List α) : (parents hash level).length = (level.length + 1) / 2 := by
  rw [parents, List.length_map, length_pairs]

theorem half_lt_parents {level : List α} {pos : Nat} (inside : pos < level.length) :
    pos / 2 < (parents hash level).length := by
  rw [length_parents]
  omega

theorem getElem?_parents (level : List α) (i : Nat) :
    (parents hash level)[i]? = level[2 * i]?.map fun a => hash a (level[2 * i + 1]?.getD a) := by
  rw [parents, List.getElem?_map, getElem?_pairs, Option.map_map]
  rfl

/-! ### Level by level

The root as it is usually told: a level of odd length gets its last node once more, then neighbours are
hashed together. -/

def duplicateLast (level : List α) : List α :=
  if level.length % 2 = 0 then level else level ++ level.getLast?.toList

def joinPairs : List α → List α
  | a :: b :: rest => hash a b :: joinPairs rest
  | _ => []

theorem duplicateLast_cons_cons (a b : α) (rest : List α) :
    duplicateLast (a :: b :: rest) = a :: b :: duplicateLast rest := by
  unfold duplicateLast
  have parity : (a :: b :: rest).length % 2 = rest.length % 2 := by
    simp only [List.length_cons]
    omega
  rw [parity]
  split
  · rfl
  · cases rest with
    | nil => simp at *
    | cons c rest => simp [List.getLast?_cons_cons]

theorem pairs_duplicateLast (level : List α) : pairs (duplicateLast level) = pairs level := by
  induction level using pairs.induct with
  | case1 => rfl
  | case2 a => rfl
  | case3 a b rest ih => rw [duplicateLast_cons_cons, pairs, pairs, ih]

theorem joinPairs_duplicateLast (level : List α) :
    joinPairs hash (duplicateLast level) = parents hash level := by
  induction level using pairs.induct with
  | case1 => rfl
  | case2 a => rfl
  | case3 a b rest ih =>
    rw [duplicateLast_cons_cons, joinPairs, ih]
    rfl

def levelRoot (level : List α) : Option α :=
  match level with
  | [] => none
  | [a] => some a
  | a :: b :: rest => levelRoot (joinPairs hash (duplicateLast (a :: b :: rest)))
termination_by level.length
decreasing_by
  rw [joinPairs_duplicateLast, length_parents]
  simp only [List.length_cons]
  omega

/-! ### Trees -/

/-- The node `root` is left after `depth` levels. -/
inductive Rooted : List α → Nat → α → Prop
  | leaf (a : α) : Rooted [a] 0 a
  | up {level : List α} {depth : Nat} {root : α} (many : 1 < level.length)
      (above : Rooted (parents hash level) depth root) : Rooted level (depth + 1) root

def treePairs : Nat → List α → List (α × α)
  | 0, _ => []
  | depth + 1, level => pairs level ++ treePairs depth (parents hash level)

variable {hash} {S : Set (α × α)} {level other : List α} {depth : Nat} {root : α}

theorem Rooted.ne_nil (rooted : Rooted hash level depth root) : level ≠ [] := by
  cases rooted with
  | leaf => exact List.cons_ne_nil _ _
  | up many above =>
    rintro rfl
    cases many

theorem Rooted.levelRoot_eq (rooted : Rooted hash level depth root) :
    levelRoot hash level = some root := by
  induction rooted with
  | leaf a => rw [levelRoot]
  | @up level depth root many above ih =>
    match level, many with
    | a :: b :: rest, _ =>
      rw [levelRoot, joinPairs_duplicateLast]
      exact ih

theorem Rooted.depth_eq (rooted : Rooted hash level depth root) : depth = Nat.clog 2 level.length := by
  induction rooted with
  | leaf => rfl
  | up many above ih =>
    rw [ih, length_parents, Nat.clog_of_two_le (by decide) many]
    rfl

theorem Rooted.above {k : Nat} (rooted : Rooted hash level (k + depth) root) :
    Rooted hash ((parents hash)^[k] level) depth root := by
  induction k generalizing level with
  | zero => simpa using rooted
  | succ k ih =>
    rw [show k + 1 + depth = k + depth + 1 by omega] at rooted
    cases rooted with
    | up many above => exact ih above

variable (hash) in
theorem treePairs_above (k depth : Nat) (level : List α) :
    treePairs hash depth ((parents hash)^[k] level) ⊆ treePairs hash (k + depth) level := by
  induction k generalizing level with
  | zero => simp
  | succ k ih =>
    rw [show k + 1 + depth = k + depth + 1 by omega, treePairs]
    exact List.Subset.trans (ih (parents hash level)) (List.subset_append_right _ _)

theorem above_hashed (depth : Nat) {k : Nat} {a : α} (mem : a ∈ (parents hash)^[k + 1] level) :
    ∃ pair ∈ treePairs hash (k + 1 + depth) level, node hash pair = a := by
  rw [Function.iterate_succ_apply'] at mem
  obtain ⟨pair, isPair, isNode⟩ := List.mem_map.mp mem
  refine ⟨pair, ?_, isNode⟩
  have inTree := treePairs_above hash k (1 + depth) level
  rw [show k + (1 + depth) = k + 1 + depth by omega, show 1 + depth = depth + 1 by omega] at inTree
  exact inTree (List.mem_append_left _ isPair)

theorem nodup_parents (injective : Set.InjOn (node hash) S) (nodup : level.Nodup)
    (inLevel : ∀ pair ∈ pairs level, pair ∈ S) : (parents hash level).Nodup := by
  have pairsNodup : (pairs level).Nodup := .of_map Prod.fst (nodup.sublist (pairs_fst_sublist level))
  exact pairsNodup.map_on fun pair mem other otherMem same =>
    injective (inLevel pair mem) (inLevel other otherMem) same

theorem nodup_above {k : Nat} (injective : Set.InjOn (node hash) S) (nodup : level.Nodup)
    (inTree : ∀ pair ∈ treePairs hash (k + depth) level, pair ∈ S) :
    ((parents hash)^[k] level).Nodup := by
  induction k generalizing level with
  | zero => exact nodup
  | succ k ih =>
    rw [show k + 1 + depth = k + depth + 1 by omega, treePairs, List.forall_mem_append] at inTree
    exact ih (nodup_parents injective nodup inTree.1) inTree.2

/-- Trees of one depth with one root have the same leaves. -/
theorem Rooted.leaves_eq (injective : Set.InjOn (node hash) S) (rooted : Rooted hash level depth root)
    (otherRooted : Rooted hash other depth root) (nodup : level.Nodup) (otherNodup : other.Nodup)
    (inTree : ∀ pair ∈ treePairs hash depth level, pair ∈ S)
    (otherInTree : ∀ pair ∈ treePairs hash depth other, pair ∈ S) : level = other := by
  induction rooted generalizing other with
  | leaf a =>
    cases otherRooted
    rfl
  | @up level depth root many above ih =>
    cases otherRooted with
    | up otherMany otherAbove =>
      rw [treePairs, List.forall_mem_append] at inTree otherInTree
      have same := ih otherAbove (nodup_parents injective nodup inTree.1)
        (nodup_parents injective otherNodup otherInTree.1) inTree.2 otherInTree.2
      refine pairs_inj nodup otherNodup (Keyed.eq_of_keys _
        (fun pair mem pair' mem' sameNode => ?_) same)
      exact injective (inTree.1 pair mem) (otherInTree.1 pair' mem') sameNode

/-- Leaves that are no hashes are not the level of a higher tree with the same root. -/
theorem Rooted.not_higher {k : Nat} (injective : Set.InjOn (node hash) S)
    (rooted : Rooted hash level depth root) (higher : Rooted hash other (k + 1 + depth) root)
    (nodup : level.Nodup) (otherNodup : other.Nodup)
    (inTree : ∀ pair ∈ treePairs hash depth level, pair ∈ S)
    (otherInTree : ∀ pair ∈ treePairs hash (k + 1 + depth) other, pair ∈ S)
    (unhashed : ∀ a ∈ level, ∀ pair ∈ S, node hash pair ≠ a) : False := by
  have same := rooted.leaves_eq injective higher.above nodup
    (nodup_above injective otherNodup otherInTree) inTree
    fun pair mem => otherInTree pair (treePairs_above hash (k + 1) depth other mem)
  obtain ⟨a, mem⟩ := List.exists_mem_of_ne_nil _ rooted.ne_nil
  obtain ⟨pair, inPairs, isNode⟩ := above_hashed depth (same ▸ mem)
  exact unhashed a mem pair (otherInTree pair inPairs) isNode

/-- Trees with one root have the same leaves if no leaf is a hash. -/
theorem Rooted.leaves_unique {otherDepth : Nat} (injective : Set.InjOn (node hash) S)
    (rooted : Rooted hash level depth root) (otherRooted : Rooted hash other otherDepth root)
    (nodup : level.Nodup) (otherNodup : other.Nodup)
    (inTree : ∀ pair ∈ treePairs hash depth level, pair ∈ S)
    (otherInTree : ∀ pair ∈ treePairs hash otherDepth other, pair ∈ S)
    (unhashed : ∀ a ∈ level, ∀ pair ∈ S, node hash pair ≠ a)
    (otherUnhashed : ∀ a ∈ other, ∀ pair ∈ S, node hash pair ≠ a) : level = other := by
  rcases Nat.lt_trichotomy depth otherDepth with less | rfl | greater
  · obtain ⟨k, rfl⟩ : ∃ k, otherDepth = k + 1 + depth := ⟨otherDepth - depth - 1, by omega⟩
    exact (rooted.not_higher injective otherRooted nodup otherNodup inTree otherInTree unhashed).elim
  · exact rooted.leaves_eq injective otherRooted nodup otherNodup inTree otherInTree
  · obtain ⟨k, rfl⟩ : ∃ k, depth = k + 1 + otherDepth := ⟨depth - otherDepth - 1, by omega⟩
    exact (otherRooted.not_higher injective rooted otherNodup nodup otherInTree inTree
      otherUnhashed).elim

/-! ### Paths -/

variable (hash)

def ordered (a : α) (pos : Nat) (sibling : α) :
    α × α := if pos % 2 = 0 then (a, sibling) else (sibling, a)

/-- The root that a path leads to from a position. -/
def climb : α → Nat → List α → α
  | a, _, [] => a
  | a, pos, sibling :: rest => climb (node hash (ordered a pos sibling)) (pos / 2) rest

def pathPairs : α → Nat → List α → List (α × α)
  | _, _, [] => []
  | a, pos, sibling :: rest =>
    ordered a pos sibling :: pathPairs (node hash (ordered a pos sibling)) (pos / 2) rest

variable {hash}

/-- A path of the right length to the root starts at a leaf: at the one on its position, if there is
one. -/
theorem Rooted.climb_leaf (injective : Set.InjOn (node hash) S) (rooted : Rooted hash level depth root)
    (inTree : ∀ pair ∈ treePairs hash depth level, pair ∈ S) {a : α} {pos : Nat} {siblings : List α}
    (length : siblings.length = depth) (inPath : ∀ pair ∈ pathPairs hash a pos siblings, pair ∈ S)
    (leads : climb hash a pos siblings = root) :
    ∃ i, level[i]? = some a ∧ (pos < level.length → i = pos) := by
  induction rooted generalizing a pos siblings with
  | leaf b =>
    rw [List.length_eq_zero_iff] at length
    subst length leads
    refine ⟨0, rfl, fun inside => ?_⟩
    rw [List.length_singleton] at inside
    omega
  | @up level depth root many above ih =>
    cases siblings with
    | nil => cases length
    | cons sibling rest =>
      rw [pathPairs, List.forall_mem_cons] at inPath
      obtain ⟨j, isParent, position⟩ := ih (fun pair mem => inTree pair (List.mem_append_right _ mem))
        (Nat.succ.inj length) inPath.2 leads
      rw [parents, List.getElem?_map, Option.map_eq_some_iff] at isParent
      obtain ⟨pair, isPair, sameNode⟩ := isParent
      have same := injective (inTree pair (List.mem_append_left _ (List.mem_of_getElem? isPair)))
        inPath.1
        sameNode
      rw [getElem?_pairs, Option.map_eq_some_iff] at isPair
      obtain ⟨b, isLeft, rfl⟩ := isPair
      have above : pos < level.length → j = pos / 2 := fun inside =>
        position (half_lt_parents hash inside)
      unfold ordered at same
      split at same
      · rename_i even
        cases same
        exact ⟨2 * j, isLeft, fun inside => by have := above inside; omega⟩
      · rename_i odd
        cases right : level[2 * j + 1]? with
        | some c =>
          rw [right] at same
          cases same
          exact ⟨2 * j + 1, right, fun inside => by have := above inside; omega⟩
        | none =>
          rw [right] at same
          cases same
          refine ⟨2 * j, isLeft, fun inside => ?_⟩
          have past := List.getElem?_eq_none_iff.mp right
          have := above inside
          omega

theorem climb_append (a : α) (pos : Nat) (front back : List α) :
    climb hash a pos (front ++ back) = climb hash (climb hash a pos front)
      (pos / 2 ^ front.length) back := by
  induction front generalizing a pos with
  | nil => simp [climb]
  | cons sibling front ih =>
    rw [List.cons_append, climb, ih, climb, List.length_cons, Nat.div_div_eq_div_mul, Nat.pow_succ']

theorem pathPairs_append (a : α) (pos : Nat) (front back : List α) :
    pathPairs hash a pos (front ++ back) = pathPairs hash a pos front ++
      pathPairs hash (climb hash a pos front) (pos / 2 ^ front.length) back := by
  induction front generalizing a pos with
  | nil => simp [pathPairs, climb]
  | cons sibling front ih =>
    rw [List.cons_append, pathPairs, ih, pathPairs, climb, List.cons_append, List.length_cons,
      Nat.div_div_eq_div_mul, Nat.pow_succ']

variable (hash) in
theorem climb_hashed (a : α) (pos : Nat) {siblings : List α} (some : siblings ≠ []) :
    ∃ pair ∈ pathPairs hash a pos siblings, node hash pair = climb hash a pos siblings := by
  induction siblings generalizing a pos with
  | nil => exact absurd rfl some
  | cons sibling rest ih =>
    cases rest with
    | nil => exact ⟨_, .head _, rfl⟩
    | cons next rest =>
      obtain ⟨pair, mem, isNode⟩ := ih (node hash (ordered a pos sibling)) (pos / 2)
        (List.cons_ne_nil _ _)
      exact ⟨pair, .tail _ mem, isNode⟩

/-- If neither the leaves nor the start of the path are hashes, a path to the root has the right
length. -/
theorem Rooted.climb_length (injective : Set.InjOn (node hash) S) (rooted : Rooted hash level depth root)
    (inTree : ∀ pair ∈ treePairs hash depth level, pair ∈ S) {a : α} {pos : Nat} {siblings : List α}
    (inPath : ∀ pair ∈ pathPairs hash a pos siblings, pair ∈ S)
    (leads : climb hash a pos siblings = root)
    (unhashed : ∀ b ∈ level, ∀ pair ∈ S, node hash pair ≠ b) (start : ∀ pair ∈ S, node hash pair ≠ a) :
    siblings.length = depth := by
  rcases Nat.lt_trichotomy siblings.length depth with short | same | long
  · -- The path starts at a node above the leaves.
    obtain ⟨k, rfl⟩ : ∃ k, depth = k + 1 + siblings.length := ⟨depth - siblings.length - 1, by omega⟩
    obtain ⟨i, isNode, -⟩ := rooted.above.climb_leaf injective
      (fun pair mem => inTree pair (treePairs_above hash (k + 1) siblings.length level mem)) rfl
        inPath leads
    obtain ⟨pair, mem, hashed⟩ := above_hashed siblings.length (List.mem_of_getElem? isNode)
    exact absurd hashed (start pair (inTree pair mem))
  · exact same
  · -- The path passes through a leaf.
    obtain ⟨front, back, rfl, isBack⟩ : ∃ front back, siblings = front ++ back ∧ back.length = depth :=
      ⟨siblings.take (siblings.length - depth), siblings.drop (siblings.length - depth),
        (List.take_append_drop _ _).symm, by rw [List.length_drop]; omega⟩
    rw [climb_append] at leads
    rw [pathPairs_append] at inPath
    have frontSome : front ≠ [] := by
      rintro rfl
      rw [List.nil_append] at long
      omega
    obtain ⟨i, isLeaf, -⟩ := rooted.climb_leaf injective inTree isBack
      (fun pair mem => inPath pair (List.mem_append_right _ mem)) leads
    obtain ⟨pair, mem, hashed⟩ := climb_hashed hash a pos frontSome
    exact absurd hashed
      (unhashed _ (List.mem_of_getElem? isLeaf) pair (inPath pair (List.mem_append_left _ mem)))

/-! ### The path of a leaf -/

/-- The partner of a position. A last node without a partner is its own. -/
def sibling (level : List α) (pos : Nat) : Option α :=
  level[if pos % 2 = 0 then pos + 1 else pos - 1]?.or level[pos]?

variable (hash) in
def path : Nat → List α → Nat → List α
  | 0, _, _ => []
  | depth + 1, level, pos => (sibling level pos).toList ++ path depth (parents hash level) (pos / 2)

/-- A node and its partner are a pair of their level. -/
theorem sibling_pair {a : α} {pos : Nat} (here : level[pos]? = some a) :
    ∃ b, sibling level pos = some b ∧ (pairs level)[pos / 2]? = some (ordered a pos b) := by
  unfold sibling ordered
  rw [getElem?_pairs, here]
  by_cases even : pos % 2 = 0
  · rw [if_pos even, show 2 * (pos / 2) = pos by omega, here]
    cases level[pos + 1]? with
    | none => exact ⟨a, rfl, by rw [if_pos even]; rfl⟩
    | some b => exact ⟨b, rfl, by rw [if_pos even]; rfl⟩
  · have inside : pos - 1 < level.length := by
      have := (List.getElem?_eq_some_iff.mp here).1
      omega
    rw [if_neg even, show 2 * (pos / 2) = pos - 1 by omega, show pos - 1 + 1 = pos by omega, here,
      List.getElem?_eq_getElem inside]
    exact ⟨_, rfl, by rw [if_neg even]; rfl⟩

theorem sibling_parent {a : α} {pos : Nat} (here : level[pos]? = some a) :
    ∃ b, sibling level pos = some b ∧ (parents hash level)[pos / 2]? =
      some (node hash (ordered a pos b)) := by
  obtain ⟨b, isSibling, isPair⟩ := sibling_pair here
  refine ⟨b, isSibling, ?_⟩
  rw [parents, List.getElem?_map, isPair]
  rfl

theorem getElem?_duplicateLast {pos : Nat} (inside : pos < level.length) :
    (duplicateLast level)[pos]? = level[pos]? := by
  unfold duplicateLast
  split
  · rfl
  · exact List.getElem?_append_left inside

theorem duplicateLast_sibling {pos : Nat} (inside : pos < level.length) :
    (duplicateLast level)[if pos % 2 = 0 then pos + 1 else pos - 1]? = sibling level pos := by
  unfold sibling
  by_cases even : pos % 2 = 0
  · rw [if_pos even]
    rcases Nat.lt_or_ge (pos + 1) level.length with partner | last
    · rw [getElem?_duplicateLast partner, List.getElem?_eq_getElem partner, Option.some_or]
    · -- The position is the last one of a level of odd length.
      have isLast : level.length = pos + 1 := by omega
      rw [duplicateLast, if_neg (by omega), List.getElem?_append_right last,
        List.getElem?_eq_none last, Option.none_or, List.getLast?_eq_getElem?, isLast,
        Nat.add_sub_cancel, List.getElem?_eq_getElem inside, Nat.sub_self]
      rfl
  · have before : pos - 1 < level.length := by omega
    rw [if_neg even, getElem?_duplicateLast before, List.getElem?_eq_getElem before, Option.some_or]

theorem Rooted.length_path (rooted : Rooted hash level depth root) {pos : Nat}
    (inside : pos < level.length) : (path hash depth level pos).length = depth := by
  induction rooted generalizing pos with
  | leaf a => rfl
  | @up level depth root many above ih =>
    obtain ⟨b, isSibling, -⟩ := sibling_pair (List.getElem?_eq_getElem inside)
    rw [path, isSibling, Option.toList_some, List.singleton_append, List.length_cons,
      ih (half_lt_parents hash inside)]

theorem Rooted.climb_path (rooted : Rooted hash level depth root) {a : α} {pos : Nat}
    (here : level[pos]? = some a) :
    climb hash a pos (path hash depth level pos) = root := by
  induction rooted generalizing a pos with
  | leaf b =>
    have first : pos = 0 := by
      have := (List.getElem?_eq_some_iff.mp here).1
      rw [List.length_singleton] at this
      omega
    subst first
    cases here
    rfl
  | up many above ih =>
    obtain ⟨b, isSibling, isParent⟩ := sibling_parent here
    rw [path, isSibling, Option.toList_some, List.singleton_append, climb]
    exact ih isParent

theorem ordered_inj {a b c d : α} {pos : Nat} (same : ordered a pos b = ordered c pos d) :
    a = c ∧ b = d := by
  unfold ordered at same
  split at same
  · exact Prod.mk.inj same
  · exact (Prod.mk.inj same).symm

/-- A path of the right length from a position inside is the path of the leaf there. -/
theorem Rooted.climb_unique (injective : Set.InjOn (node hash) S)
    (rooted : Rooted hash level depth root)
    (inTree : ∀ pair ∈ treePairs hash depth level, pair ∈ S) {a : α} {pos : Nat} {siblings : List α}
    (inside : pos < level.length) (length : siblings.length = depth)
    (inPath : ∀ pair ∈ pathPairs hash a pos siblings, pair ∈ S)
    (leads : climb hash a pos siblings = root) :
    level[pos]? = some a ∧ siblings = path hash depth level pos := by
  induction rooted generalizing a pos siblings with
  | leaf b =>
    rw [List.length_singleton] at inside
    rw [List.length_eq_zero_iff] at length
    subst length leads
    rw [Nat.lt_one_iff.mp inside]
    exact ⟨rfl, rfl⟩
  | @up level depth root many above ih =>
    cases siblings with
    | nil => cases length
    | cons next rest =>
      rw [pathPairs, List.forall_mem_cons] at inPath
      rw [treePairs, List.forall_mem_append] at inTree
      obtain ⟨isParent, restEq⟩ := ih inTree.2 (half_lt_parents hash inside) (Nat.succ.inj length)
        inPath.2 leads
      obtain ⟨b, isSibling, isPair⟩ := sibling_pair (List.getElem?_eq_getElem inside)
      rw [parents, List.getElem?_map, isPair, Option.map_some] at isParent
      -- The hash is the one of a pair in the tree, so both nodes of the pair are known.
      have same := injective (inTree.1 _ (List.mem_of_getElem? isPair)) inPath.1
        (Option.some.inj isParent)
      obtain ⟨isLeaf, rfl⟩ := ordered_inj same
      refine ⟨by rw [List.getElem?_eq_getElem inside, isLeaf], ?_⟩
      rw [path, isSibling, restEq]
      rfl

end MerkleTree
