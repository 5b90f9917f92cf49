import AnchorStateMachine.Btc.Body
import AnchorStateMachine.Library.MerkleTree

/-! The Merkle computations of block verification describe one tree: the passes over levels that
copy or overwrite their input, the siblings that a proof collects, and the walk that checks it. -/

namespace Asm
open MerkleTree

section

variable [Sha256]

/-! ### Roots -/

theorem hashPairs_eq (level : List Buf32) : hashPairs level = parents hashPair level := by
  induction level using hashPairs.induct with
  | case1 => rfl
  | case2 hash => rfl
  | case3 left right rest ih =>
    rw [hashPairs, ih]
    rfl

theorem hashPair_inPlace {hashes : List Buf32} {k : Nat} (left : 2 * k < hashes.length) :
    (parents hashPair hashes)[k]? = some (hashPair (hashes.getD (2 * k) .zero)
      (hashes.getD (min (2 * k + 1) (hashes.length - 1)) .zero)) := by
  rw [getElem?_parents, List.getElem?_eq_getElem left, Option.map_some, List.getD_eq_getElem?_getD,
    List.getElem?_eq_getElem left, Option.getD_some, List.getD_eq_getElem?_getD]
  rcases Nat.lt_or_ge (2 * k + 1) hashes.length with right | last
  · rw [Nat.min_eq_left (by omega), List.getElem?_eq_getElem right]
    rfl
  · rw [show min (2 * k + 1) (hashes.length - 1) = 2 * k by omega, List.getElem?_eq_none last,
      List.getElem?_eq_getElem left]
    rfl

/-- What the pass has done is a part of the next level, and what is left is still its input. -/
theorem foldl_hashInPlace (hashes : List Buf32) {k : Nat} (bound : k ≤ (hashes.length + 1) / 2) :
    (List.range k).foldl hashInPlace hashes = (parents hashPair hashes).take k ++ hashes.drop k := by
  induction k with
  | zero => simp
  | succ k ih =>
    have done : ((parents hashPair hashes).take k).length = k := by
      rw [List.length_take, length_parents]
      omega
    have length : ((parents hashPair hashes).take k ++ hashes.drop k).length = hashes.length := by
      rw [List.length_append, done, List.length_drop]
      omega
    have unread : ∀ j, k ≤ j →
        ((parents hashPair hashes).take k ++ hashes.drop k).getD j .zero = hashes.getD j .zero := by
      intro j later
      rw [List.getD_eq_getElem?_getD, List.getD_eq_getElem?_getD,
        List.getElem?_append_right (by omega), done, List.getElem?_drop, Nat.add_sub_cancel' later]
    rw [List.range_succ, List.foldl_append, ih (by omega), List.foldl_cons, List.foldl_nil,
      hashInPlace, length,
      unread _ (by omega), unread _ (by omega), List.set_append_right _ _ (by omega), done, Nat.sub_self,
      List.drop_eq_getElem_cons (by omega), List.set_cons_zero, List.take_add_one,
      hashPair_inPlace (by omega), List.append_assoc]
    rfl

theorem merkleRootFuel_rooted {fuel : Nat} {hashes : List Buf32} (some : hashes ≠ [])
    (enough : hashes.length ≤ fuel) :
    ∃ depth, Rooted hashPair hashes depth (merkleRootFuel fuel hashes) := by
  induction fuel generalizing hashes with
  | zero => exact absurd (List.length_eq_zero_iff.mp (Nat.le_zero.mp enough)) some
  | succ fuel ih =>
    unfold merkleRootFuel
    split
    · rename_i single
      obtain ⟨hash, rfl⟩ := List.length_eq_one_iff.mp single
      exact ⟨0, .leaf hash⟩
    · rename_i several
      have many : 1 < hashes.length := by
        have := List.length_pos_iff.mpr some
        omega
      have level : ((List.range ((hashes.length + 1) / 2)).foldl hashInPlace hashes).take
          ((hashes.length + 1) / 2) = parents hashPair hashes := by
        rw [foldl_hashInPlace hashes (Nat.le_refl _), List.take_append_of_le_length]
        · rw [List.take_take, Nat.min_self, List.take_of_length_le (by rw [length_parents])]
        · rw [List.length_take, length_parents, Nat.min_self]
      have length := length_parents hashPair hashes
      have above : parents hashPair hashes ≠ [] := List.length_pos_iff.mp (by omega)
      obtain ⟨depth, rooted⟩ := ih above (by omega)
      dsimp only
      rw [level]
      exact ⟨depth + 1, .up many rooted⟩

theorem calculateRoot_rooted {leaves : List Buf32} (some : leaves ≠ []) :
    ∃ depth root, calculateRoot leaves = .some root ∧ Rooted hashPair leaves depth root := by
  match leaves with
  | [] => exact absurd rfl some
  | [hash] => exact ⟨0, hash, rfl, .leaf hash⟩
  | left :: right :: rest =>
    have above : hashPairs (left :: right :: rest) ≠ [] := List.cons_ne_nil _ _
    obtain ⟨depth, rooted⟩ := merkleRootFuel_rooted above (Nat.le_refl _)
    refine ⟨depth + 1, _, rfl, .up (by simp) ?_⟩
    rwa [← hashPairs_eq]

theorem rooted_of_calculateRoot {leaves : List Buf32} {root : Buf32}
    (isRoot : calculateRoot leaves = some root) :
    Rooted hashPair leaves (Nat.clog 2 leaves.length) root := by
  have notEmpty : leaves ≠ [] := by
    rintro rfl
    cases isRoot
  obtain ⟨depth, root', isRoot', rooted⟩ := calculateRoot_rooted notEmpty
  cases isRoot.symm.trans isRoot'
  rw [← rooted.depth_eq]
  exact rooted

/-- The root that is computed in place is the one of the levels, each with its last node once more if
its length is odd. -/
theorem calculateRoot_eq_levelRoot (leaves : List Buf32) :
    calculateRoot leaves = levelRoot hashPair leaves := by
  cases leaves with
  | nil =>
    rw [levelRoot]
    rfl
  | cons hash rest =>
    obtain ⟨depth, root, isRoot, rooted⟩ := calculateRoot_rooted (List.cons_ne_nil hash rest)
    rw [isRoot, rooted.levelRoot_eq]

theorem calculateRootNoDups_ok {leaves : List Buf32} {root : Buf32} :
    calculateRootNoDups leaves = .ok root ↔ calculateRoot leaves = some root ∧ leaves.Nodup := by
  unfold calculateRootNoDups
  split
  · rename_i empty
    simp [empty]
  · rename_i found isRoot
    rw [isRoot]
    split
    · rename_i nodup
      simp [nodup]
    · rename_i repeated
      simp [repeated]

end

theorem merkleTreeDepth_eq (txCount : Nat) : merkleTreeDepth txCount = Nat.clog 2 txCount := by
  unfold merkleTreeDepth
  split
  · rename_i small
    rw [Nat.clog_of_right_le_one small]
  · rename_i large
    rw [Nat.log2_eq_log_two]
    have below := Nat.pow_log_le_self 2 (show txCount - 1 ≠ 0 by omega)
    have above := Nat.lt_pow_succ_log_self (by decide : 1 < 2) (txCount - 1)
    refine Nat.le_antisymm ?_ ((Nat.clog_le_iff_le_pow (by decide)).mpr (by omega))
    refine Nat.lt_of_not_le fun small => ?_
    have := (Nat.clog_le_iff_le_pow (by decide)).mp small
    omega

/-! ### Inclusion proofs -/

namespace TxidInclusionProof

theorem foldl_hashSibling [Sha256] (hash : Buf32) (pos : Nat) (siblings : List Buf32) :
    (siblings.foldl hashSibling (hash, pos)).1 = climb hashPair hash pos siblings := by
  induction siblings generalizing hash pos with
  | nil => rfl
  | cons sibling rest ih =>
    rw [List.foldl_cons, hashSibling, ih, climb]
    unfold node ordered
    split <;> rfl

theorem padLevel_eq (level : List Buf32) : padLevel level = duplicateLast level := by
  unfold padLevel duplicateLast
  split
  · rfl
  · cases level with
    | nil => simp at *
    | cons hash rest => simp [List.getLast?_cons]

/-- The siblings that are collected are the partners on the way up: the index of each is inside the
padded level, and the length of the first level is fuel enough. -/
theorem siblingsFuel_eq_path [BitcoinLibs] {level : List Buf32} {depth fuel idx : Nat} {root : Buf32}
    (rooted : Rooted hashPair level depth root) (enough : level.length ≤ fuel)
    (inside : idx < level.length) :
    siblingsFuel fuel level idx = path hashPair depth level idx := by
  induction rooted generalizing fuel idx with
  | leaf a => cases fuel <;> rfl
  | @up level depth root many above ih =>
    cases fuel with
    | zero => omega
    | succ fuel =>
      obtain ⟨partner, isSibling, -⟩ := sibling_pair (List.getElem?_eq_getElem inside)
      have next : hashPairs (padLevel level) = parents hashPair level := by
        rw [hashPairs_eq, padLevel_eq, parents, pairs_duplicateLast, parents]
      have fits : (parents hashPair level).length ≤ fuel := by
        rw [length_parents]
        omega
      have found := duplicateLast_sibling inside
      rw [siblingsFuel, if_neg (by omega)]
      dsimp only
      rw [next, ih fits (half_lt_parents _ inside), padLevel_eq, List.getD_eq_getElem?_getD, found, path, isSibling]
      rfl

end TxidInclusionProof
end Asm
