import AnchorStateMachine.Btc.Merkle

/-! Inclusion proofs against the root that is computed in place. The proof that is generated for a
transaction passes the check, and a proof that passes is the one of the transaction at its position. -/

namespace Asm
open MerkleTree

def nodeBytes (pair : Buf32 × Buf32) : Bytes := pair.1.bytes ++ pair.2.bytes

theorem nodeBytes_injective : Function.Injective nodeBytes := by
  rintro ⟨left, right⟩ ⟨left', right'⟩ same
  obtain ⟨first, second⟩ := List.append_inj same (left.size.trans left'.size.symm)
  exact Prod.ext (Buf32.ext first) (Buf32.ext second)

section

variable [BitcoinLibs] {transactions : List Transaction} {transaction : Transaction} {root : Buf32}
  {proof : TxidInclusionProof} {idx txCount : Nat}

theorem verify_iff : proof.verify transaction root txCount = true ↔ proof.position < txCount ∧
    proof.siblings.length = Nat.clog 2 txCount ∧
    climb hashPair (computeTxid transaction) proof.position proof.siblings = root := by
  unfold TxidInclusionProof.verify TxidInclusionProof.computeRoot
  rw [TxidInclusionProof.foldl_hashSibling, merkleTreeDepth_eq]
  split
  · simp only [Bool.false_eq_true, false_iff]
    omega
  · rename_i inside
    split
    · rename_i length
      simp [length]
    · rename_i length
      rw [decide_eq_true_iff]
      exact ⟨fun leads => ⟨by omega, not_not.mp length, leads⟩, fun ok => ok.2.2⟩

theorem txids_rooted (isRoot : calculateRoot (transactions.map computeTxid) = some root) :
    Rooted hashPair (transactions.map computeTxid) (Nat.clog 2 transactions.length) root := by
  have rooted := rooted_of_calculateRoot isRoot
  rwa [List.length_map] at rooted

/-- What is generated is the path of the transaction in the tree of the root. -/
theorem generate_eq (isRoot : calculateRoot (transactions.map computeTxid) = some root)
    (inside : idx < transactions.length) :
    TxidInclusionProof.generate transactions idx = some ⟨idx,
      path hashPair (Nat.clog 2 transactions.length) (transactions.map computeTxid) idx⟩ := by
  have leaf : idx < (transactions.map computeTxid).length := by
    rw [List.length_map]
    exact inside
  unfold TxidInclusionProof.generate
  rw [if_neg (Nat.not_le.mpr inside)]
  dsimp only
  rw [TxidInclusionProof.siblingsFuel_eq_path (txids_rooted isRoot) (Nat.le_refl _) leaf]

theorem generate_verifies (isRoot : calculateRoot (transactions.map computeTxid) = some root)
    (here : transactions[idx]? = some transaction) :
    ∃ proof, TxidInclusionProof.generate transactions idx = some proof ∧ proof.position = idx ∧
      proof.siblings.length = merkleTreeDepth transactions.length ∧
      proof.verify transaction root transactions.length = true := by
  have inside := (List.getElem?_eq_some_iff.mp here).1
  have rooted := txids_rooted isRoot
  have leaf : (transactions.map computeTxid)[idx]? = some (computeTxid transaction) := by
    rw [List.getElem?_map, here, Option.map_some]
  have length := rooted.length_path (List.getElem?_eq_some_iff.mp leaf).1
  refine ⟨_, generate_eq isRoot inside, rfl, ?_, ?_⟩
  · rw [merkleTreeDepth_eq]
    exact length
  · exact verify_iff.mpr ⟨inside, length, rooted.climb_path leaf⟩

/-! ### What a check binds -/

/-- The inputs of 64 bytes that are hashed for the root of the transactions, and in the check of a proof
against it. -/
def checkedInputs (transactions : List Transaction) (proof : TxidInclusionProof)
    (transaction : Transaction) : List Bytes :=
  (treePairs hashPair (merkleTreeDepth transactions.length) (transactions.map computeTxid) ++
    pathPairs hashPair (computeTxid transaction) proof.position proof.siblings).map nodeBytes

theorem verify_unique (isRoot : calculateRoot (transactions.map computeTxid) = some root)
    (injective : ∀ a ∈ checkedInputs transactions proof transaction,
      ∀ b ∈ checkedInputs transactions proof transaction, sha256d a = sha256d b → a = b)
    (verified : proof.verify transaction root transactions.length = true) :
    (transactions.map computeTxid)[proof.position]? = some (computeTxid transaction) ∧
      TxidInclusionProof.generate transactions proof.position = some proof := by
  obtain ⟨inside, length, leads⟩ := verify_iff.mp verified
  unfold checkedInputs at injective
  rw [merkleTreeDepth_eq] at injective
  have injOn : Set.InjOn (node hashPair)
      {pair | pair ∈ treePairs hashPair (Nat.clog 2 transactions.length)
        (transactions.map computeTxid) ++
        pathPairs hashPair (computeTxid transaction) proof.position proof.siblings} := by
    intro pair mem other otherMem same
    apply nodeBytes_injective
    exact injective _ (List.mem_map_of_mem mem) _ (List.mem_map_of_mem otherMem) same
  obtain ⟨leaf, isPath⟩ := (txids_rooted isRoot).climb_unique injOn
    (fun _ mem => List.mem_append_left _ mem) (by rwa [List.length_map]) length
    (fun _ mem => List.mem_append_right _ mem) leads
  refine ⟨leaf, ?_⟩
  rw [generate_eq isRoot inside, ← isPath]

/-- The in-place root is the root of the levels. Each transaction has a generated proof against it, with
a sibling for every level. A proof that verifies is the generated one for its position, and it is for
the txid there. The last part needs no txid to differ from the inner nodes, because the number of
siblings is checked. -/
theorem inclusion_proofs_exact (transactions : List Transaction) (nonempty : transactions ≠ []) :
    calculateRoot (transactions.map computeTxid) =
      levelRoot hashPair (transactions.map computeTxid) ∧
    merkleTreeDepth transactions.length = Nat.clog 2 transactions.length ∧
    ∃ root, calculateRoot (transactions.map computeTxid) = some root ∧
      (∀ (i : Nat) (inside : i < transactions.length),
        ∃ proof, TxidInclusionProof.generate transactions i = some proof ∧ proof.position = i ∧
          proof.siblings.length = merkleTreeDepth transactions.length ∧
          proof.verify transactions[i] root transactions.length = true) ∧
      ∀ (proof : TxidInclusionProof) (transaction : Transaction),
        (∀ a ∈ checkedInputs transactions proof transaction,
          ∀ b ∈ checkedInputs transactions proof transaction, sha256d a = sha256d b → a = b) →
        proof.verify transaction root transactions.length = true →
        ∃ inside : proof.position < transactions.length,
          computeTxid transaction = computeTxid transactions[proof.position] ∧
          TxidInclusionProof.generate transactions proof.position = some proof := by
  have leaves : transactions.map computeTxid ≠ [] := fun none => nonempty (List.map_eq_nil_iff.mp none)
  obtain ⟨-, root, isRoot, -⟩ := calculateRoot_rooted leaves
  refine ⟨calculateRoot_eq_levelRoot _, merkleTreeDepth_eq _, root, isRoot, fun i inside => ?_,
    fun proof transaction injective verified => ?_⟩
  · exact generate_verifies isRoot (List.getElem?_eq_getElem inside)
  · obtain ⟨leaf, generated⟩ := verify_unique isRoot injective verified
    have inside := (verify_iff.mp verified).1
    rw [List.getElem?_map, List.getElem?_eq_getElem inside, Option.map_some] at leaf
    exact ⟨inside, (Option.some.inj leaf).symm, generated⟩

end

/-! ### Three transactions -/

/-- A toy hash that keeps what is as long as a hash. It marks the rest with its length and mixes the
two halves of a pair. -/
def sampleDigest (bytes : Bytes) : Buf32 :=
  if size : bytes.length = 32 then ⟨bytes, size⟩
  else
    let mixed := List.zipWith (fun left right => left + 2 * right) (bytes.take 32)
      (bytes.drop 32 ++ List.replicate 32 0)
    ⟨(UInt8.ofNat bytes.length :: mixed ++ List.replicate 32 0).take 32, by simp⟩

@[reducible] def sampleBitcoinLibs : BitcoinLibs where
  sha256 := sampleDigest
  deserialize _ := none
  encodeBase tx := [UInt8.ofNat tx.version.toNat]
  encodeTx tx := [UInt8.ofNat tx.version.toNat, UInt8.ofNat (tx.input.flatMap TxIn.witness).length]
  encodeHeader header := header.merkleRoot.bytes
  targetMetBy _ _ := true
  headerWork _ := 1
  fromNextWorkRequired _ bits _ := bits
  difficultyAdjustmentInterval _ := 2016

section

attribute [local instance] sampleBitcoinLibs

def samplePlain (version : Nat) : Transaction := ⟨version, 0, [], []⟩

def samplePlains : List Transaction := [samplePlain 1, samplePlain 2, samplePlain 3]

/-- The path of the last transaction: its own txid, and the node of the other two. -/
def sampleLastPath : TxidInclusionProof :=
  ⟨2, [computeTxid (samplePlain 3), hashPair (computeTxid (samplePlain 1)) (computeTxid (samplePlain 2))]⟩

theorem inclusion_proofs_exact_sample :
    samplePlains ≠ [] ∧ ∃ root, calculateRoot (samplePlains.map computeTxid) = some root ∧
      (∃ proof, TxidInclusionProof.generate samplePlains 2 = some proof ∧ proof.siblings.length = 2 ∧
        proof.verify (samplePlain 3) root 3 = true) ∧
      ¬ sampleLastPath.verify (samplePlain 1) root 3 = true := by
  have nonempty : samplePlains ≠ [] := List.cons_ne_nil _ _
  obtain ⟨-, -, root, isRoot, complete, sound⟩ := inclusion_proofs_exact samplePlains nonempty
  refine ⟨nonempty, root, isRoot, ?_, fun verified => ?_⟩
  · obtain ⟨proof, generated, -, length, verified⟩ := complete 2 (by decide)
    exact ⟨proof, generated, length, verified⟩
  · have different : computeTxid (samplePlain 1) ≠ computeTxid (samplePlain 3) := by decide +kernel
    obtain ⟨_, same, _⟩ := sound sampleLastPath (samplePlain 1) (by decide +kernel) verified
    exact different same

end

end Asm
