import Mathlib.Algebra.GroupWithZero.Nat
import Mathlib.Data.List.Basic

/-! Byte buffers, Bitcoin data and L1 references, as the crates of the state machine pass them around.
Amounts, heights and indices are natural numbers; the operations that can overflow say so. -/

namespace Asm

abbrev Bytes := List UInt8

/-- A 32-byte buffer: a hash, a block or transaction id, or an x-only public key. -/
@[ext] structure Buf32 where
  bytes : Bytes
  size : bytes.length = 32
  deriving DecidableEq

namespace Buf32

def fill (byte : UInt8) : Buf32 := ⟨List.replicate 32 byte, List.length_replicate⟩

def zero : Buf32 := fill 0

instance : Inhabited Buf32 := ⟨zero⟩

def ofSlice (bytes : Bytes) : Option Buf32 :=
  if h : bytes.length = 32 then some ⟨bytes, h⟩ else none

end Buf32

class Sha256 where
  sha256 : Bytes → Buf32

export Sha256 (sha256)

def sha256d [Sha256] (bytes : Bytes) : Buf32 := sha256 (sha256 bytes).bytes

def u32Bound : Nat := 2 ^ 32

def u32Max : Nat := u32Bound - 1

/-- The number of satoshis a `BitcoinAmount` can hold at most. -/
def maxMoneySat : Nat := 2100000000000000

structure Mismatch (α : Type) where
  expected : α
  got : α
  deriving DecidableEq

/-! ### Bitcoin -/

inductive Network
  | bitcoin
  | testnet
  | testnet4
  | signet
  | regtest
  deriving DecidableEq

structure OutPoint where
  txid : Buf32
  vout : Nat
  deriving DecidableEq

structure TxIn where
  previousOutput : OutPoint
  scriptSig : Bytes
  sequence : Nat
  witness : List Bytes
  deriving DecidableEq

structure TxOut where
  value : Nat
  scriptPubkey : Bytes
  deriving DecidableEq

structure Transaction where
  version : Int
  lockTime : Nat
  input : List TxIn
  output : List TxOut
  deriving DecidableEq

/-- The transaction without its witness data, which is all that a txid commits to. -/
def Transaction.stripWitness (tx : Transaction) : Transaction :=
  { tx with input := tx.input.map fun txin => { txin with witness := [] } }

structure Header where
  version : Int
  prevBlockhash : Buf32
  merkleRoot : Buf32
  time : Nat
  bits : Nat
  nonce : Nat
  deriving DecidableEq

structure Block where
  header : Header
  txdata : List Transaction
  deriving DecidableEq

structure L1BlockCommitment where
  height : Nat
  blkid : Buf32
  deriving DecidableEq

/-! ### SPS-50 tags -/

/-- The tag of a protocol transaction: the subprotocol it is for, its type, and auxiliary bytes. -/
structure TagData where
  subprotoId : Nat
  txType : Nat
  auxData : Bytes
  deriving DecidableEq

structure TxInput where
  tx : Transaction
  tag : TagData
  deriving DecidableEq

def u32BigEndian (n : Nat) : Bytes :=
  [.ofNat (n / 256 ^ 3), .ofNat (n / 256 ^ 2), .ofNat (n / 256), .ofNat n]

def u32LittleEndian (n : Nat) : Bytes := (u32BigEndian n).reverse

def decodeU32Exact : Bytes → Option Nat
  | [a, b, c, d] => some (((a.toNat * 256 + b.toNat) * 256 + c.toNat) * 256 + d.toNat)
  | _ => none

end Asm
