import AnchorStateMachine.Common.AuxInput
import Mathlib.Data.List.Nodup

/-! Block body verification: the checks that make a header a commitment to one list of transactions.
-/

namespace Asm

/-- What the verification of L1 blocks takes from the Bitcoin library: consensus encodings, proof of
work targets and network parameters. -/
class BitcoinLibs extends TxEncoding where
  encodeTx : Transaction → Bytes
  encodeHeader : Header → Bytes
  targetMetBy : Nat → Buf32 → Bool
  headerWork : Nat → Nat
  fromNextWorkRequired : Network → Nat → Nat → Nat
  difficultyAdjustmentInterval : Network → Nat

inductive L1BodyError
  | emptyBlock
  | notCoinbase
  | duplicateTransaction
  | missingInclusionProof
  | invalidCoinbaseWitness
  | witnessCommitmentMismatch
  | invalidInclusionProof
  | merkleRootMismatch
  | uncommittedWitnessData
  deriving DecidableEq

def OutPoint.null : OutPoint := ⟨.zero, u32Max⟩

def Transaction.isCoinbase (tx : Transaction) : Bool :=
  match tx.input with
  | [input] => input.previousOutput = .null
  | _ => false

def witnessCommitmentMagic : Bytes := [0x6a, 0x24, 0xaa, 0x21, 0xa9, 0xed]

/-- The 32 bytes after the magic of the last output that starts with it. -/
def witnessCommitmentFromCoinbase (coinbase : Transaction) : Option Bytes :=
  let commits := coinbase.output.filter fun output =>
    38 ≤ output.scriptPubkey.length ∧ output.scriptPubkey.take 6 = witnessCommitmentMagic
  commits.getLast?.map fun output => (output.scriptPubkey.drop 6).take 32

def coinbaseWitnessNonce (coinbase : Transaction) : Except L1BodyError Bytes :=
  match (coinbase.input.head?.map TxIn.witness).getD [] with
  | [nonce] => if nonce.length = 32 then .ok nonce else .error .invalidCoinbaseWitness
  | _ => .error .invalidCoinbaseWitness

structure TxidInclusionProof where
  position : Nat
  siblings : List Buf32
  deriving DecidableEq

def merkleTreeDepth (txCount : Nat) : Nat := if txCount ≤ 1 then 0 else Nat.log2 (txCount - 1) + 1

/-! ### Merkle roots -/

def hashPair [Sha256] (left right : Buf32) : Buf32 := sha256d (left.bytes ++ right.bytes)

/-- One position of the in-place pass: the hash of the pair at `2 * idx` is written to `idx`. At an
odd length the last hash is its own partner. -/
def hashInPlace [Sha256] (hashes : List Buf32) (idx : Nat) : List Buf32 :=
  let left := hashes.getD (2 * idx) .zero
  let right := hashes.getD (min (2 * idx + 1) (hashes.length - 1)) .zero
  hashes.set idx (hashPair left right)

/-- Each pass halves the number of hashes, so their number is fuel enough. -/
def merkleRootFuel [Sha256] : Nat → List Buf32 → Buf32
  | 0, hashes => hashes.headD .zero
  | fuel + 1, hashes =>
    if hashes.length = 1 then hashes.headD .zero
    else
      let halfLen := (hashes.length + 1) / 2
      merkleRootFuel fuel (((List.range halfLen).foldl hashInPlace hashes).take halfLen)

def merkleRootR [Sha256] (hashes : List Buf32) : Buf32 := merkleRootFuel hashes.length hashes

/-- The first pass, which copies: neighbours are hashed together, a last one without partner with
itself. -/
def hashPairs [Sha256] : List Buf32 → List Buf32
  | [] => []
  | [hash] => [hashPair hash hash]
  | left :: right :: rest => hashPair left right :: hashPairs rest

def calculateRoot [Sha256] : List Buf32 → Option Buf32
  | [] => none
  | [hash] => some hash
  | hashes => some (merkleRootR (hashPairs hashes))

def calculateRootNoDups [Sha256] (leaves : List Buf32) : Except L1BodyError Buf32 :=
  match calculateRoot leaves with
  | none => .error .emptyBlock
  | some root => if leaves.Nodup then .ok root else .error .duplicateTransaction

def TxidInclusionProof.hashSibling [Sha256] : Buf32 × Nat → Buf32 → Buf32 × Nat
  | (hash, pos), sibling =>
    (if pos % 2 = 0 then hashPair hash sibling else hashPair sibling hash, pos / 2)

section

variable [BitcoinLibs]

def computeWtxid (tx : Transaction) : Buf32 := sha256d (BitcoinLibs.encodeTx tx)

def computeMerkleRoot (block : Block) : Except L1BodyError Buf32 :=
  calculateRootNoDups (block.txdata.map computeTxid)

/-- The coinbase counts as the zero hash. -/
def computeWitnessRoot (transactions : List Transaction) : Except L1BodyError Buf32 :=
  calculateRootNoDups (transactions.mapIdx fun i tx => if i = 0 then .zero else computeWtxid tx)

/-! ### Inclusion proofs -/

namespace TxidInclusionProof

def padLevel (level : List Buf32) : List Buf32 :=
  if level.length % 2 = 0 then level else level ++ [level.getLastD .zero]

/-- The siblings on the way from position `idx` of a level to the root. Each level is half as long as
the one before, so the length of the first is fuel enough. -/
def siblingsFuel : Nat → List Buf32 → Nat → List Buf32
  | 0, _, _ => []
  | fuel + 1, level, idx =>
    if level.length ≤ 1 then []
    else
      let padded := padLevel level
      let siblingIndex := if idx % 2 = 0 then idx + 1 else idx - 1
      padded.getD siblingIndex .zero :: siblingsFuel fuel (hashPairs padded) (idx / 2)

def generate (transactions : List Transaction) (idx : Nat) : Option TxidInclusionProof :=
  if transactions.length ≤ idx then none
  else
    let level := transactions.map computeTxid
    some ⟨idx, siblingsFuel level.length level idx⟩

def computeRoot (proof : TxidInclusionProof) (transaction : Transaction) : Buf32 :=
  (proof.siblings.foldl hashSibling (computeTxid transaction, proof.position)).1

def verify (proof : TxidInclusionProof) (transaction : Transaction) (root : Buf32) (txCount : Nat) :
    Bool :=
  if txCount = 0 ∨ txCount ≤ proof.position then false
  else if proof.siblings.length ≠ merkleTreeDepth txCount then false
  else proof.computeRoot transaction = root

end TxidInclusionProof

/-! ### Block integrity -/

/-- Checks that the header commits to the body, and returns the root that covers the witness data:
that of the witness txids if the coinbase commits to it, that of the txids otherwise. -/
def checkBlockIntegrity (block : Block) (coinbaseInclusionProof : Option TxidInclusionProof) :
    Except L1BodyError Buf32 :=
  match block.txdata with
  | [] => .error .emptyBlock
  | coinbase :: _ =>
    if ¬ coinbase.isCoinbase then .error .notCoinbase
    else
      match witnessCommitmentFromCoinbase coinbase with
      | some commitment =>
        match coinbaseInclusionProof with
        | none => .error .missingInclusionProof
        | some proof => do
          let nonce ← coinbaseWitnessNonce coinbase
          let witnessRoot ← computeWitnessRoot block.txdata
          if commitment ≠ (sha256d (witnessRoot.bytes ++ nonce)).bytes then
            throw .witnessCommitmentMismatch
          if ¬ proof.verify coinbase block.header.merkleRoot block.txdata.length then
            throw .invalidInclusionProof
          pure witnessRoot
      | none => do
        if block.txdata.any fun tx => tx.input.any fun input => ! input.witness.isEmpty then
          throw .uncommittedWitnessData
        let merkleRoot ← computeMerkleRoot block
        if merkleRoot ≠ block.header.merkleRoot then throw .merkleRootMismatch
        pure block.header.merkleRoot

end
end Asm
