import AnchorStateMachine.Library.Outcome
import AnchorStateMachine.Common.Primitives
import Mathlib.Logic.Function.Basic

/-! Auxiliary data: what subprotocols request before a block is processed, what the prover supplies,
and what is left of it after verification. -/

namespace Asm

/-- The accumulator of manifest hashes, with its proofs of membership. -/
class MerkleMountainRange where
  Mmr : Type
  MerkleProof : Type
  newRepeated : Buf32 → Nat → Mmr
  numEntries : Mmr → Nat
  addLeaf : Mmr → Buf32 → Option Mmr
  verify : Mmr → MerkleProof → Buf32 → Bool
  index : MerkleProof → Nat

export MerkleMountainRange (Mmr MerkleProof)

class TxEncoding extends Sha256 where
  deserialize : Bytes → Option Transaction
  /-- Version, inputs without witnesses, outputs and lock time. -/
  encodeBase : Transaction → Bytes

def computeTxid [TxEncoding] (tx : Transaction) : Buf32 := sha256d (TxEncoding.encodeBase tx)

/-! ### Requests -/

structure ManifestHashRange where
  startHeight : Nat
  endHeight : Nat
  deriving DecidableEq

structure AuxRequests where
  manifestHashes : List ManifestHashRange
  bitcoinTxs : List Buf32
  deriving DecidableEq

structure AuxRequestCollector where
  requests : AuxRequests
  maxResolvableManifestHeight : Nat
  deriving DecidableEq

namespace AuxRequestCollector

def new (maxResolvableManifestHeight : Nat) : AuxRequestCollector :=
  ⟨⟨[], []⟩, maxResolvableManifestHeight⟩

/-- Requests the manifest hashes of a range of heights; one that cannot be resolved is dropped. -/
def requestManifestHashes (collector : AuxRequestCollector) (startHeight endHeight : Nat) :
    AuxRequestCollector :=
  if endHeight < startHeight ∨ collector.maxResolvableManifestHeight < endHeight then collector
  else { collector with requests := { collector.requests with
    manifestHashes := collector.requests.manifestHashes ++ [⟨startHeight, endHeight⟩] } }

def requestBitcoinTx (collector : AuxRequestCollector) (txid : Buf32) : AuxRequestCollector :=
  { collector with requests := { collector.requests with
    bitcoinTxs := collector.requests.bitcoinTxs ++ [txid] } }

end AuxRequestCollector

/-! ### Supplied data -/

inductive AuxError
  | invalidMmrProof (index : Nat) (hash : Buf32)
  | invalidBitcoinTx (index : Nat)
  | bitcoinTxNotFound (txid : Buf32)
  | bitcoinTxOutNotFound (txid : Buf32) (vout : Nat)
  | manifestHashNotFound (height : Nat)
  | invertedManifestRange (start last : Nat)
  deriving DecidableEq

structure VerifiableManifestHash [MerkleMountainRange] where
  hash : Buf32
  proof : MerkleProof

structure AuxData [MerkleMountainRange] where
  manifestHashes : List VerifiableManifestHash
  bitcoinTxs : List Bytes

@[ext] structure VerifiedAuxData where
  txs : Buf32 → Option Transaction
  manifestHashes : Nat → Option Buf32

namespace VerifiedAuxData

def indexBitcoinTx [TxEncoding] (txs : Buf32 → Option Transaction) (entry : Bytes × Nat) :
    Except AuxError (Buf32 → Option Transaction) :=
  match TxEncoding.deserialize entry.1 with
  | none => .error (.invalidBitcoinTx entry.2)
  | some tx => .ok (Function.update txs (computeTxid tx) (some tx))

def verifyAndIndexBitcoinTxs [TxEncoding] (rawTxs : List Bytes) :
    Except AuxError (Buf32 → Option Transaction) :=
  rawTxs.zipIdx.foldlM indexBitcoinTx fun _ => none

section

variable [MerkleMountainRange]

/-- One entry of the loop over manifest hashes: checks its proof and indexes it by its leaf index,
which is the height of the manifest. -/
def indexManifestHash (mmr : Mmr) (hashes : Nat → Option Buf32) (item : VerifiableManifestHash) :
    Except AuxError (Nat → Option Buf32) :=
  if MerkleMountainRange.verify mmr item.proof item.hash then
    .ok (Function.update hashes (MerkleMountainRange.index item.proof) (some item.hash))
  else .error (.invalidMmrProof (MerkleMountainRange.index item.proof) item.hash)

def verifyAndIndexManifestHashes (hashes : List VerifiableManifestHash) (mmr : Mmr) :
    Except AuxError (Nat → Option Buf32) :=
  hashes.foldlM (indexManifestHash mmr) fun _ => none

def tryNew [TxEncoding] (data : AuxData) (mmr : Mmr) : Except AuxError VerifiedAuxData := do
  let txs ← verifyAndIndexBitcoinTxs data.bitcoinTxs
  let manifestHashes ← verifyAndIndexManifestHashes data.manifestHashes mmr
  pure ⟨txs, manifestHashes⟩

end

def getBitcoinTx (aux : VerifiedAuxData) (txid : Buf32) : Except AuxError Transaction :=
  match aux.txs txid with
  | some tx => .ok tx
  | none => .error (.bitcoinTxNotFound txid)

def getBitcoinTxout (aux : VerifiedAuxData) (outpoint : OutPoint) : Except AuxError TxOut := do
  let tx ← aux.getBitcoinTx outpoint.txid
  match tx.output[outpoint.vout]? with
  | some output => .ok output
  | none => .error (.bitcoinTxOutNotFound outpoint.txid outpoint.vout)

def getManifestHash (aux : VerifiedAuxData) (height : Nat) : Except AuxError Buf32 :=
  match aux.manifestHashes height with
  | some hash => .ok hash
  | none => .error (.manifestHashNotFound height)

def getManifestHashes (aux : VerifiedAuxData) (start last : Nat) : Except AuxError (List Buf32) :=
  if last < start then .error (.invertedManifestRange start last)
  else (List.range' start (last + 1 - start)).mapM aux.getManifestHash

end VerifiedAuxData
end Asm
