import AnchorStateMachine.Btc.Inclusion

/-! A header binds one body: the coinbase through its Merkle path, and the other transactions with all
witness data through the commitment that the coinbase carries. -/

namespace Asm
open MerkleTree Outcome

/-! ### What witnesses leave alone -/

namespace Transaction

theorem isCoinbase_stripWitness (tx : Transaction) : tx.stripWitness.isCoinbase = tx.isCoinbase := by
  obtain ⟨version, lockTime, input, output⟩ := tx
  match input with
  | [] | [_] | _ :: _ :: _ => rfl

theorem isCoinbase_congr {tx other : Transaction} (same : tx.stripWitness = other.stripWitness) :
    tx.isCoinbase = other.isCoinbase := by
  rw [← isCoinbase_stripWitness tx, same, isCoinbase_stripWitness]

theorem commitment_congr {tx other : Transaction} (same : tx.stripWitness = other.stripWitness) :
    witnessCommitmentFromCoinbase tx = witnessCommitmentFromCoinbase other := by
  have outputs : tx.stripWitness.output = other.stripWitness.output := by rw [same]
  have outputs : tx.output = other.output := outputs
  rw [witnessCommitmentFromCoinbase, witnessCommitmentFromCoinbase, outputs]

theorem stripWitness_eq_self {tx : Transaction} (bare : ∀ input ∈ tx.input, input.witness = []) :
    tx.stripWitness = tx := by
  obtain ⟨version, lockTime, input, output⟩ := tx
  have same : (input.map fun txin => { txin with witness := [] }) = input := by
    rw [List.map_congr_left fun txin mem => ?_, List.map_id]
    show (⟨txin.previousOutput, txin.scriptSig, txin.sequence, []⟩ : TxIn) = txin
    rw [← bare txin mem]
  rw [stripWitness, same]

theorem coinbase_ext {tx other : Transaction} (isCoinbase : tx.isCoinbase)
    (same : tx.stripWitness = other.stripWitness)
    (witness : (tx.input.head?.map TxIn.witness).getD [] =
      (other.input.head?.map TxIn.witness).getD []) :
    tx = other := by
  obtain ⟨version, lockTime, input, output⟩ := tx
  obtain ⟨otherVersion, otherLockTime, otherInput, otherOutput⟩ := other
  match input, otherInput with
  | [], _ => cases isCoinbase
  | _ :: _ :: _, _ => cases isCoinbase
  | [⟨_, _, _, _⟩], [] => cases same
  | [⟨_, _, _, _⟩], _ :: _ :: _ => cases same
  | [⟨_, _, _, _⟩], [⟨_, _, _, _⟩] =>
    cases same
    cases witness
    rfl

end Transaction

theorem coinbaseWitnessNonce_ok {coinbase : Transaction} {nonce : Bytes} :
    coinbaseWitnessNonce coinbase = .ok nonce ↔
      (coinbase.input.head?.map TxIn.witness).getD [] = [nonce] ∧ nonce.length = 32 := by
  unfold coinbaseWitnessNonce
  split
  · rename_i item isItem
    rw [isItem]
    split
    · rename_i size
      simp only [Except.ok.injEq, List.cons.injEq, and_true]
      exact ⟨fun same => ⟨same, same ▸ size⟩, fun same => same.1⟩
    · rename_i size
      simp only [List.cons.injEq, and_true, reduceCtorEq, false_iff]
      exact fun same => size (same.1 ▸ same.2)
  · rename_i other
    simp only [reduceCtorEq, false_iff]
    exact fun same => other nonce same.1

/-! ### What a check hashes -/

section

variable [BitcoinLibs]

def witnessLeaves (transactions : List Transaction) : List Buf32 :=
  transactions.mapIdx fun i tx => if i = 0 then .zero else computeWtxid tx

/-- The nodes that are hashed together: those of the two trees, and those on the path of the
coinbase. -/
def hashedPairs (block : Block) (proof : Option TxidInclusionProof) : List (Buf32 × Buf32) :=
  let depth := merkleTreeDepth block.txdata.length
  treePairs hashPair depth (block.txdata.map computeTxid) ++
    treePairs hashPair depth (witnessLeaves block.txdata) ++
    match proof, block.txdata with
    | some proof, coinbase :: _ =>
      pathPairs hashPair (computeTxid coinbase) proof.position proof.siblings
    | _, _ => []

/-- What the coinbase commits to: the root of the witness txids and the item of its witness. -/
def commitmentBytes (transactions : List Transaction) : Bytes :=
  let witnessRoot := (calculateRoot (witnessLeaves transactions)).getD .zero
  let nonce := (transactions.head?.bind fun coinbase => coinbase.input.head?.bind
    (·.witness.head?)).getD []
  witnessRoot.bytes ++ nonce

def hashedBytes (block : Block) (proof : Option TxidInclusionProof) : List Bytes :=
  block.txdata.map TxEncoding.encodeBase ++ block.txdata.map BitcoinLibs.encodeTx ++
    (hashedPairs block proof).map nodeBytes ++ [commitmentBytes block.txdata]

/-- Nothing that the checks of two blocks hash collides, transactions can be read back from their
encodings, and no txid is the hash of two nodes. -/
structure CollisionFree (block : Block) (proof : Option TxidInclusionProof) (other : Block)
    (otherProof : Option TxidInclusionProof) : Prop where
  hash : ∀ a ∈ hashedBytes block proof ++ hashedBytes other otherProof,
    ∀ b ∈ hashedBytes block proof ++ hashedBytes other otherProof, sha256d a = sha256d b → a = b
  base : ∀ tx ∈ block.txdata ++ other.txdata, ∀ tx' ∈ block.txdata ++ other.txdata,
    TxEncoding.encodeBase tx = TxEncoding.encodeBase tx' → tx.stripWitness = tx'.stripWitness
  full : ∀ tx ∈ block.txdata ++ other.txdata, ∀ tx' ∈ block.txdata ++ other.txdata,
    BitcoinLibs.encodeTx tx = BitcoinLibs.encodeTx tx' → tx = tx'
  unhashed : ∀ tx ∈ block.txdata ++ other.txdata,
    ∀ pair ∈ hashedPairs block proof ++ hashedPairs other otherProof, node hashPair pair ≠ computeTxid tx
  nonzero : ∀ tx ∈ block.txdata ++ other.txdata, computeWtxid tx ≠ .zero

/-! ### What a check accepts -/

/-- The body commits to its witness data: the coinbase carries the commitment, or there is none. -/
inductive Committed (merkleRoot : Buf32) (coinbase : Transaction)
    (body : List Transaction) : Buf32 → Prop
  | witness {nonce : Bytes} {witnessRoot : Buf32}
      (carries : witnessCommitmentFromCoinbase coinbase =
        some (sha256d (witnessRoot.bytes ++ nonce)).bytes)
      (single : (coinbase.input.head?.map TxIn.witness).getD [] = [nonce]) (size : nonce.length = 32)
      (isRoot : calculateRoot (witnessLeaves body) = some witnessRoot) :
      Committed merkleRoot coinbase body witnessRoot
  | legacy (carriesNone : witnessCommitmentFromCoinbase coinbase = none)
      (bare : ∀ tx ∈ body, ∀ input ∈ tx.input, input.witness = []) :
      Committed merkleRoot coinbase body merkleRoot

variable {header : Header} {coinbase : Transaction} {rest : List Transaction} {root : Buf32}
  {proof : Option TxidInclusionProof}

theorem checkBlockIntegrity_witness {commitment : Bytes}
    (carries : witnessCommitmentFromCoinbase coinbase = some commitment) :
    checkBlockIntegrity ⟨header, coinbase :: rest⟩ proof = .ok root ↔
      coinbase.isCoinbase ∧ ∃ path nonce, proof = some path ∧
        ((coinbase.input.head?.map TxIn.witness).getD [] = [nonce] ∧ nonce.length = 32) ∧
        (calculateRoot (witnessLeaves (coinbase :: rest)) = some root ∧
          (witnessLeaves (coinbase :: rest)).Nodup) ∧
        commitment = (sha256d (root.bytes ++ nonce)).bytes ∧
        path.verify coinbase header.merkleRoot (coinbase :: rest).length = true := by
  simp only [checkBlockIntegrity, carries]
  by_cases isCoinbase : coinbase.isCoinbase
  · rw [if_neg (not_not.mpr isCoinbase)]
    cases proof with
    | none => simp
    | some path =>
      constructor
      · intro h
        obtain ⟨nonce, item, h⟩ := bind_ok h
        obtain ⟨witnessRoot, isRoot, h⟩ := bind_ok h
        split at h
        · cases h
        · rename_i commits
          split at h
          · cases h
          · rename_i verified
            cases h
            exact ⟨isCoinbase, path, nonce, rfl, coinbaseWitnessNonce_ok.mp item,
              calculateRootNoDups_ok.mp isRoot, not_not.mp commits, not_not.mp verified⟩
      · rintro ⟨-, _, nonce, isPath, item, isRoot, commits, verified⟩
        cases isPath
        have made : computeWitnessRoot (coinbase :: rest) = .ok root := calculateRootNoDups_ok.mpr isRoot
        dsimp only
        rw [coinbaseWitnessNonce_ok.mpr item, ok_bind, made, ok_bind, if_neg (not_not.mpr commits),
          if_neg (not_not.mpr verified)]
        rfl
  · rw [if_pos isCoinbase]
    simp [isCoinbase]

theorem checkBlockIntegrity_legacy (carries : witnessCommitmentFromCoinbase coinbase = none) :
    checkBlockIntegrity ⟨header, coinbase :: rest⟩ proof = .ok root ↔
      coinbase.isCoinbase ∧ (∀ tx ∈ coinbase :: rest, ∀ input ∈ tx.input, input.witness = []) ∧
        (calculateRoot ((coinbase :: rest).map computeTxid) = some header.merkleRoot ∧
          ((coinbase :: rest).map computeTxid).Nodup) ∧
        root = header.merkleRoot := by
  have bareIff : (((coinbase :: rest).any fun tx => tx.input.any fun input =>
    ! input.witness.isEmpty) = true) ↔
      ¬ ∀ tx ∈ coinbase :: rest, ∀ input ∈ tx.input, input.witness = [] := by
    simp only [not_forall, List.any_eq_true, Bool.not_eq_true', List.isEmpty_eq_false_iff, exists_prop]
  simp only [checkBlockIntegrity, carries]
  by_cases isCoinbase : coinbase.isCoinbase
  · rw [if_neg (not_not.mpr isCoinbase)]
    constructor
    · intro h
      split at h
      · cases h
      · rename_i bare
        obtain ⟨merkleRoot, isRoot, h⟩ := bind_ok h
        split at h
        · cases h
        · rename_i same
          cases h
          cases not_not.mp same
          exact ⟨isCoinbase, not_not.mp (mt bareIff.mpr bare), calculateRootNoDups_ok.mp isRoot, rfl⟩
    · rintro ⟨-, bare, isRoot, rfl⟩
      have made : computeMerkleRoot ⟨header, coinbase :: rest⟩ = .ok header.merkleRoot :=
        calculateRootNoDups_ok.mpr isRoot
      rw [if_neg (mt bareIff.mp (not_not.mpr bare)), made]
      simp
  · rw [if_pos isCoinbase]
    simp [isCoinbase]

/-! ### What collision freeness gives -/

theorem witnessLeaves_cons (coinbase : Transaction) (rest : List Transaction) :
    witnessLeaves (coinbase :: rest) = .zero :: rest.map computeWtxid := by
  rw [witnessLeaves, List.mapIdx_cons, if_pos rfl]
  have later : (rest.mapIdx fun i tx => if i + 1 = 0 then .zero else computeWtxid tx) =
      rest.map computeWtxid :=
    List.ext_getElem? fun i => by simp
  rw [later]

theorem length_witnessLeaves (transactions : List Transaction) :
    (witnessLeaves transactions).length = transactions.length := List.length_mapIdx

theorem commitmentBytes_eq {nonce : Bytes}
    (single : (coinbase.input.head?.map TxIn.witness).getD [] = [nonce])
    (isRoot : calculateRoot (witnessLeaves (coinbase :: rest)) = some root) :
    commitmentBytes (coinbase :: rest) = root.bytes ++ nonce := by
  unfold commitmentBytes
  rw [isRoot, List.head?_cons, Option.bind_some]
  cases isFirst : coinbase.input.head? with
  | none =>
    rw [isFirst] at single
    cases single
  | some input =>
    rw [isFirst] at single
    have single : input.witness = [nonce] := single
    rw [Option.bind_some, single]
    rfl

theorem txids_hashed (proof : Option TxidInclusionProof) (header : Header) (body : List Transaction) :
    treePairs hashPair (Nat.clog 2 body.length) (body.map computeTxid) ⊆ hashedPairs
      ⟨header, body⟩ proof := by
  intro pair mem
  unfold hashedPairs
  rw [merkleTreeDepth_eq]
  exact List.mem_append_left _ (List.mem_append_left _ mem)

theorem witness_hashed (proof : Option TxidInclusionProof) (header : Header) (body : List Transaction) :
    treePairs hashPair (Nat.clog 2 body.length) (witnessLeaves body) ⊆ hashedPairs
      ⟨header, body⟩ proof := by
  intro pair mem
  unfold hashedPairs
  rw [merkleTreeDepth_eq]
  exact List.mem_append_left _ (List.mem_append_right _ mem)

theorem path_hashed (path : TxidInclusionProof) (header : Header) (coinbase : Transaction)
    (rest : List Transaction) :
    pathPairs hashPair (computeTxid coinbase) path.position path.siblings ⊆
      hashedPairs ⟨header, coinbase :: rest⟩ (some path) :=
  fun _ mem => List.mem_append_right _ mem

namespace CollisionFree

variable {block other : Block} {proof otherProof : Option TxidInclusionProof}

def hashed (block : Block) (proof : Option TxidInclusionProof) (other : Block)
    (otherProof : Option TxidInclusionProof) : Set (Buf32 × Buf32) :=
  {pair | pair ∈ hashedPairs block proof ++ hashedPairs other otherProof}

variable (free : CollisionFree block proof other otherProof)
include free

theorem injOn : Set.InjOn (node hashPair) (hashed block proof other otherProof) := by
  have bytes : ∀ pair ∈ hashed block proof other otherProof,
      nodeBytes pair ∈ hashedBytes block proof ++ hashedBytes other otherProof := by
    intro pair mem
    rcases List.mem_append.mp mem with mem | mem
    · simp [hashedBytes, List.mem_map_of_mem mem]
    · simp [hashedBytes, List.mem_map_of_mem mem]
  intro pair mem pair' mem' same
  exact nodeBytes_injective (free.hash _ (bytes pair mem) _ (bytes pair' mem') same)

variable {tx tx' : Transaction} (mem : tx ∈ block.txdata ++ other.txdata)
  (mem' : tx' ∈ block.txdata ++ other.txdata)
include mem mem'

theorem of_txid (same : computeTxid tx = computeTxid tx') : tx.stripWitness = tx'.stripWitness := by
  have bytes : ∀ tx ∈ block.txdata ++ other.txdata,
      TxEncoding.encodeBase tx ∈ hashedBytes block proof ++ hashedBytes other otherProof := by
    intro tx mem
    rcases List.mem_append.mp mem with mem | mem
    · simp [hashedBytes, List.mem_map_of_mem mem]
    · simp [hashedBytes, List.mem_map_of_mem mem]
  exact free.base tx mem tx' mem' (free.hash _ (bytes tx mem) _ (bytes tx' mem') same)

theorem of_wtxid (same : computeWtxid tx = computeWtxid tx') : tx = tx' := by
  have bytes : ∀ tx ∈ block.txdata ++ other.txdata,
      BitcoinLibs.encodeTx tx ∈ hashedBytes block proof ++ hashedBytes other otherProof := by
    intro tx mem
    rcases List.mem_append.mp mem with mem | mem
    · simp [hashedBytes, List.mem_map_of_mem mem]
    · simp [hashedBytes, List.mem_map_of_mem mem]
  exact free.full tx mem tx' mem' (free.hash _ (bytes tx mem) _ (bytes tx' mem') same)

end CollisionFree

/-! ### One body for a header -/

/-- A body that the header commits to: one coinbase, distinct txids under the root of the header, and
witness data that is committed to. -/
structure Formed (header : Header) (coinbase : Transaction) (rest : List Transaction)
    (root : Buf32) : Prop where
  isCoinbase : coinbase.isCoinbase
  only : ∀ tx ∈ rest, ¬ tx.isCoinbase
  distinct : ((coinbase :: rest).map computeTxid).Nodup
  merkleRoot : calculateRoot ((coinbase :: rest).map computeTxid) = some header.merkleRoot
  committed : Committed header.merkleRoot coinbase (coinbase :: rest) root

namespace Formed

variable (formed : Formed header coinbase rest root)
include formed

theorem rooted : Rooted hashPair ((coinbase :: rest).map computeTxid)
    (Nat.clog 2 (coinbase :: rest).length) header.merkleRoot :=
  txids_rooted formed.merkleRoot

variable {others : List Transaction} {proof otherProof : Option TxidInclusionProof}
  (free : CollisionFree ⟨header, coinbase :: rest⟩ proof ⟨header, others⟩ otherProof)
include free

theorem witnessLeaves_nodup : (witnessLeaves (coinbase :: rest)).Nodup := by
  have inBody : ∀ tx ∈ rest, tx ∈ (coinbase :: rest) ++ others := fun tx mem =>
    List.mem_append_left _ (.tail _ mem)
  have distinct := (List.nodup_cons.mp formed.distinct).2
  rw [witnessLeaves_cons, List.nodup_cons]
  constructor
  · intro mem
    obtain ⟨tx, mem, isZero⟩ := List.mem_map.mp mem
    exact free.nonzero tx (inBody tx mem) isZero
  · exact (List.Nodup.of_map _ distinct).map_on fun tx mem tx' mem' same =>
      free.of_wtxid (inBody tx mem) (inBody tx' mem') same

theorem accepted : checkBlockIntegrity ⟨header, coinbase :: rest⟩
    (TxidInclusionProof.generate (coinbase :: rest) 0) = .ok root := by
  cases formed.committed with
  | @witness nonce _ carries single size isRoot =>
    have first : (coinbase :: rest)[0]? = some coinbase := rfl
    obtain ⟨path, generated, -, -, verified⟩ := generate_verifies formed.merkleRoot first
    exact (checkBlockIntegrity_witness carries).mpr ⟨formed.isCoinbase, path, nonce, generated,
      ⟨single, size⟩, ⟨isRoot, formed.witnessLeaves_nodup free⟩, rfl, verified⟩
  | legacy carriesNone bare =>
    exact (checkBlockIntegrity_legacy carriesNone).mpr ⟨formed.isCoinbase, bare,
      ⟨formed.merkleRoot, formed.distinct⟩, rfl⟩

end Formed

namespace Formed

variable {first : Transaction} {others : List Transaction} {otherRoot : Buf32}

/-- A path from a coinbase to the root of the header starts at the coinbase of the body, and is as
long as the tree is high. -/
theorem path_coinbase (formed : Formed header coinbase rest root) {path : TxidInclusionProof}
    (free : CollisionFree ⟨header, coinbase :: rest⟩ proof ⟨header, first :: others⟩ (some path))
    (isCoinbase : first.isCoinbase)
    (leads : climb hashPair (computeTxid first) path.position path.siblings = header.merkleRoot) :
    path.siblings.length = Nat.clog 2 (coinbase :: rest).length ∧
      first.stripWitness = coinbase.stripWitness := by
  have inTree := fun pair mem => List.mem_append_left (hashedPairs ⟨header, first :: others⟩ (some path))
    (txids_hashed proof header (coinbase :: rest) (a := pair) mem)
  have inPath := fun pair mem => List.mem_append_right (hashedPairs ⟨header, coinbase :: rest⟩ proof)
    (path_hashed path header first others (a := pair) mem)
  have isFirst : first ∈ (coinbase :: rest) ++ first :: others := List.mem_append_right _ (.head _)
  have length : path.siblings.length = Nat.clog 2 (coinbase :: rest).length := by
    refine formed.rooted.climb_length free.injOn inTree inPath leads ?_ (free.unhashed first isFirst)
    intro hash isTxid
    obtain ⟨tx, mem, rfl⟩ := List.mem_map.mp isTxid
    exact free.unhashed tx (List.mem_append_left _ mem)
  obtain ⟨i, isLeaf, -⟩ := formed.rooted.climb_leaf free.injOn inTree length inPath leads
  obtain ⟨tx, mem, sameTxid⟩ := List.mem_map.mp (List.mem_of_getElem? isLeaf)
  have same := free.of_txid (List.mem_append_left _ mem) isFirst sameTxid
  refine ⟨length, ?_⟩
  rcases List.mem_cons.mp mem with rfl | later
  · exact same.symm
  · rw [← Transaction.isCoinbase_congr same] at isCoinbase
    exact absurd isCoinbase (formed.only tx later)

theorem unique_witness (formed : Formed header coinbase rest root) {path : TxidInclusionProof}
    {commitment nonce : Bytes}
    (free : CollisionFree ⟨header, coinbase :: rest⟩ proof ⟨header, first :: others⟩ (some path))
    (isCoinbase : first.isCoinbase) (carries : witnessCommitmentFromCoinbase first = some commitment)
    (single : (first.input.head?.map TxIn.witness).getD [] = [nonce])
    (isRoot : calculateRoot (witnessLeaves (first :: others)) = some otherRoot)
    (nodup : (witnessLeaves (first :: others)).Nodup)
    (commits : commitment = (sha256d (otherRoot.bytes ++ nonce)).bytes)
    (verified : path.verify first header.merkleRoot (first :: others).length = true) :
    first :: others = coinbase :: rest := by
  obtain ⟨-, length, leads⟩ := verify_iff.mp verified
  obtain ⟨isDepth, stripped⟩ := formed.path_coinbase free isCoinbase leads
  cases formed.committed with
  | legacy carriesNone bare =>
    rw [Transaction.commitment_congr stripped, carriesNone] at carries
    cases carries
  | @witness nonce' _ carries' single' size' isRoot' =>
    rw [Transaction.commitment_congr stripped, carries', commits] at carries
    have sameHash : sha256d (root.bytes ++ nonce') = sha256d (otherRoot.bytes ++ nonce) :=
      Buf32.ext (Option.some.inj carries)
    have sameBytes : root.bytes ++ nonce' = otherRoot.bytes ++ nonce := by
      rw [← commitmentBytes_eq single' isRoot', ← commitmentBytes_eq single isRoot] at sameHash ⊢
      exact free.hash _ (by simp [hashedBytes]) _ (by simp [hashedBytes]) sameHash
    obtain ⟨sameRoot, sameNonce⟩ := List.append_inj sameBytes (root.size.trans otherRoot.size.symm)
    cases Buf32.ext sameRoot
    subst sameNonce
    cases Transaction.coinbase_ext isCoinbase stripped (single.trans single'.symm)
    have rooted := rooted_of_calculateRoot isRoot
    have rooted' := rooted_of_calculateRoot isRoot'
    rw [length_witnessLeaves] at rooted rooted'
    rw [← length, isDepth] at rooted
    have sameLeaves := rooted.leaves_eq free.injOn rooted' nodup (formed.witnessLeaves_nodup free)
      (fun pair mem => List.mem_append_right _
        (witness_hashed (some path) header (coinbase :: others) (by rwa [← length, isDepth])))
      (fun pair mem => List.mem_append_left _ (witness_hashed proof header (coinbase :: rest) mem))
    rw [witnessLeaves_cons, witnessLeaves_cons] at sameLeaves
    rw [Keyed.eq_of_keys _ (fun tx mem tx' mem' same => free.of_wtxid
      (List.mem_append_right _ (.tail _ mem)) (List.mem_append_left _ (.tail _ mem')) same)
      (List.cons.inj sameLeaves).2]

theorem unique_legacy (formed : Formed header coinbase rest root)
    (free : CollisionFree ⟨header, coinbase :: rest⟩ proof ⟨header, first :: others⟩ otherProof)
    (carriesNone : witnessCommitmentFromCoinbase first = none)
    (bare : ∀ tx ∈ first :: others, ∀ input ∈ tx.input, input.witness = [])
    (isRoot : calculateRoot ((first :: others).map computeTxid) = some header.merkleRoot)
    (nodup : ((first :: others).map computeTxid).Nodup) : first :: others = coinbase :: rest := by
  have rooted := txids_rooted isRoot
  have unhashed : ∀ body : List Transaction, (∀ tx ∈ body, tx ∈ (coinbase :: rest) ++ first :: others) →
      ∀ hash ∈ body.map computeTxid, ∀ pair ∈ CollisionFree.hashed ⟨header, coinbase :: rest⟩ proof
        ⟨header, first :: others⟩ otherProof, node hashPair pair ≠ hash := by
    intro body inBody hash isTxid
    obtain ⟨tx, mem, rfl⟩ := List.mem_map.mp isTxid
    exact free.unhashed tx (inBody tx mem)
  have sameTxids := rooted.leaves_unique free.injOn formed.rooted nodup formed.distinct
    (fun pair mem => List.mem_append_right _ (txids_hashed otherProof header (first :: others) mem))
    (fun pair mem => List.mem_append_left _ (txids_hashed proof header (coinbase :: rest) mem))
    (unhashed _ fun tx mem => List.mem_append_right _ mem)
    (unhashed _ fun tx mem => List.mem_append_left _ mem)
  have stripped := Keyed.map_eq_of_keys _ (g := Transaction.stripWitness) (fun tx mem tx' mem' same =>
    free.of_txid (List.mem_append_right _ mem) (List.mem_append_left _ mem') same) sameTxids
  cases formed.committed with
  | @witness nonce _ carries single size isRoot =>
    rw [Transaction.commitment_congr (List.cons.inj stripped).1, carries] at carriesNone
    cases carriesNone
  | legacy carriesNone bare' =>
    have keeps : ∀ body : List Transaction, (∀ tx ∈ body, ∀ input ∈ tx.input, input.witness = []) →
        body.map Transaction.stripWitness = body := fun body bare => by
      rw [List.map_congr_left fun tx mem => Transaction.stripWitness_eq_self (bare tx mem), List.map_id']
    rwa [keeps _ bare, keeps _ bare'] at stripped

theorem unique (formed : Formed header coinbase rest root)
    (free : CollisionFree ⟨header, coinbase :: rest⟩ none ⟨header, others⟩ proof)
    (accepts : checkBlockIntegrity ⟨header, others⟩ proof = .ok otherRoot) :
    others = coinbase :: rest := by
  cases others with
  | nil => cases accepts
  | cons first others =>
    cases carries : witnessCommitmentFromCoinbase first with
    | some commitment =>
      obtain ⟨isCoinbase, path, nonce, rfl, ⟨single, -⟩, ⟨isRoot, nodup⟩, commits, verified⟩ :=
        (checkBlockIntegrity_witness carries).mp accepts
      exact formed.unique_witness free isCoinbase carries single isRoot nodup commits verified
    | none =>
      obtain ⟨-, bare, ⟨isRoot, nodup⟩, -⟩ := (checkBlockIntegrity_legacy carries).mp accepts
      exact formed.unique_legacy free carries bare isRoot nodup

end Formed

/-- A header binds one body: the body that it commits to is accepted with the generated proof, and no
other body is accepted with any proof. -/
theorem header_binds_body (formed : Formed header coinbase rest root) :
    (CollisionFree ⟨header, coinbase :: rest⟩ none ⟨header, coinbase :: rest⟩ none →
      checkBlockIntegrity ⟨header, coinbase :: rest⟩ (TxidInclusionProof.generate (coinbase :: rest) 0) =
        .ok root) ∧
    ∀ others proof otherRoot, CollisionFree ⟨header, coinbase :: rest⟩ none ⟨header, others⟩ proof →
      checkBlockIntegrity ⟨header, others⟩ proof = .ok otherRoot → others = coinbase :: rest :=
  ⟨fun free => formed.accepted free, fun _ _ _ free accepts => formed.unique free accepts⟩

end

/-! ### A block of two transactions -/

attribute [local instance] sampleBitcoinLibs

def sampleSpend (witness : List Bytes) : Transaction :=
  ⟨2, 0, [⟨⟨.zero, 0⟩, [], 0, witness⟩], []⟩

def sampleRest : List Transaction := [sampleSpend [[5]]]

def sampleWitnessRoot : Buf32 := hashPair .zero (sampleDigest [2, 1])

def sampleCoinbase : Transaction :=
  let nonce := List.replicate 32 7
  ⟨1, 0, [⟨.null, [], 0, [nonce]⟩],
    [⟨0, witnessCommitmentMagic ++ (sha256d (sampleWitnessRoot.bytes ++ nonce)).bytes⟩]⟩

def sampleHeader : Header := ⟨1, .zero, hashPair (sampleDigest [1]) (sampleDigest [2]), 0, 0, 0⟩

theorem sample_formed : Formed sampleHeader sampleCoinbase sampleRest sampleWitnessRoot where
  isCoinbase := by decide +kernel
  only := by decide +kernel
  distinct := by decide +kernel
  merkleRoot := by decide +kernel
  committed := by
    have single : (sampleCoinbase.input.head?.map TxIn.witness).getD [] = [List.replicate 32 7] := rfl
    exact .witness (by decide +kernel) single rfl (by decide +kernel)

def sampleMutated : List Transaction := [sampleCoinbase, sampleSpend []]

theorem header_binds_body_sample :
    Formed sampleHeader sampleCoinbase sampleRest sampleWitnessRoot ∧
    checkBlockIntegrity ⟨sampleHeader, sampleCoinbase :: sampleRest⟩
      (TxidInclusionProof.generate (sampleCoinbase :: sampleRest) 0) = .ok sampleWitnessRoot ∧
    ∀ otherRoot, checkBlockIntegrity ⟨sampleHeader, sampleMutated⟩
      (TxidInclusionProof.generate sampleMutated 0) ≠ .ok otherRoot := by
  refine ⟨sample_formed, (header_binds_body sample_formed).1 ?_, fun otherRoot accepts => ?_⟩
  · exact ⟨by decide +kernel, by decide +kernel, by decide +kernel, by decide +kernel, by decide +kernel⟩
  · have same := (header_binds_body sample_formed).2 sampleMutated _ otherRoot
      ⟨by decide +kernel, by decide +kernel, by decide +kernel, by decide +kernel,
        by decide +kernel⟩ accepts
    exact absurd same (by decide +kernel)

end Asm
