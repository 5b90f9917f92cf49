import AnchorStateMachine.Common.Primitives
import AnchorStateMachine.Library.PackedBits

/-! Operator bitmaps, withdrawals and the other values the bridge exchanges with the rest of the
state machine. -/

namespace Asm

/-! ### Operators -/

/-- A withdrawal's preferred operator, as the raw `u32` on the wire. -/
structure OperatorSelection where
  raw : Nat
  deriving DecidableEq

namespace OperatorSelection

/-- `u32::MAX` stands for no preference. -/
def any : OperatorSelection := ⟨u32Max⟩

def asSpecific (selection : OperatorSelection) : Option Nat :=
  if selection.raw ≠ u32Max then some selection.raw else none

end OperatorSelection

inductive OperatorBitmapError
  | indexOutOfBounds (index maxValidIndex : Nat)
  | mismatchedBitmapLengths (notaryLen previousLen : Nat)
  | insufficientActiveBitmapLength (activeLen notaryLen : Nat)
  deriving DecidableEq

/-- A bit for each operator, kept with the bytes that back it. -/
structure OperatorBitmap where
  bits : PackedBits
  deriving DecidableEq

namespace OperatorBitmap

def newEmpty : OperatorBitmap := ⟨.empty⟩

def newWithSize (size : Nat) (initialState : Bool) : OperatorBitmap := ⟨.ofValue initialState size⟩

def len (bitmap : OperatorBitmap) : Nat := bitmap.bits.len

def isActive (bitmap : OperatorBitmap) (idx : Nat) : Bool := bitmap.bits.get idx

/-- Sets one bit. The bitmap may grow by one position at a time, so that no index is skipped. -/
def trySet (bitmap : OperatorBitmap) (idx : Nat) (active : Bool) :
    Except OperatorBitmapError OperatorBitmap :=
  if bitmap.len < idx then .error (.indexOutOfBounds idx (bitmap.len % u32Bound))
  else
    let bits := if idx = bitmap.len then bitmap.bits.resize (idx + 1) false else bitmap.bits
    .ok ⟨bits.set idx active⟩

def activeIndices (bitmap : OperatorBitmap) : List Nat :=
  ((List.range bitmap.len).filter bitmap.isActive).map (· % u32Bound)

def activeCount (bitmap : OperatorBitmap) : Nat := bitmap.bits.bits.count true

end OperatorBitmap

def filterEligibleOperators (notaryOperators previousAssignees currentActiveOperators : OperatorBitmap) :
    Except OperatorBitmapError OperatorBitmap :=
  if notaryOperators.len ≠ previousAssignees.len then
    .error (.mismatchedBitmapLengths notaryOperators.len previousAssignees.len)
  else if currentActiveOperators.len < notaryOperators.len then
    .error (.insufficientActiveBitmapLength currentActiveOperators.len notaryOperators.len)
  else
    let activeTruncated := currentActiveOperators.bits.truncate notaryOperators.len
    let activeTruncated := activeTruncated.and notaryOperators.bits
    .ok ⟨activeTruncated.and previousAssignees.bits.not⟩

/-! ### Withdrawals -/

structure Descriptor where
  bytes : Bytes
  deriving DecidableEq

structure WithdrawalOutput where
  destination : Descriptor
  amt : Nat
  deriving DecidableEq

structure WithdrawalIntent where
  destination : Descriptor
  amt : Nat
  selectedOperator : OperatorSelection
  deriving DecidableEq

namespace WithdrawalIntent

def toOutput (intent : WithdrawalIntent) : WithdrawalOutput := ⟨intent.destination, intent.amt⟩

/-- How many deposits of the denomination the amount makes up, if it is a multiple of it. -/
def denominationUnits (intent : WithdrawalIntent) (denomination : Nat) : Option Nat :=
  if denomination = 0 ∨ ¬ denomination ∣ intent.amt then none
  else some (intent.amt / denomination)

def decompose (intent : WithdrawalIntent) (denomination : Nat) : Option (List WithdrawalIntent) :=
  (intent.denominationUnits denomination).map fun n =>
    List.replicate n ⟨intent.destination, denomination, intent.selectedOperator⟩

end WithdrawalIntent

inductive WithdrawalAssignmentError
  | noUnassignedDeposits
  | depositWithdrawalAmountMismatch (mismatch : Mismatch Nat)
  | noEligibleOperators (depositIdx : Nat)
  | bitmapError (error : OperatorBitmapError)
  deriving DecidableEq

/-! ### Safe harbor -/

/-- A P2TR descriptor that sweeps are redirected to in an emergency. -/
structure SafeHarborAddress where
  descriptor : Descriptor
  deriving DecidableEq

structure SafeHarbor where
  address : SafeHarborAddress
  activated : Bool
  deriving DecidableEq

namespace SafeHarbor

def new (address : SafeHarborAddress) : SafeHarbor := ⟨address, false⟩

/-- Changes the address unless the safe harbor is active, when it is frozen. -/
def updateAddress (harbor : SafeHarbor) (address : SafeHarborAddress) : SafeHarbor :=
  if harbor.activated then harbor else { harbor with address }

end SafeHarbor

/-! ### Messages to the bridge -/

structure UpdateOperatorSetPayload where
  addMembers : List Buf32
  removeMembers : List Nat
  deriving DecidableEq

inductive BridgeIncomingMsg
  | dispatchWithdrawal (intent : WithdrawalIntent)
  | updateOperatorSet (payload : UpdateOperatorSetPayload)
  | updateSafeHarborAddress (address : SafeHarborAddress)
  | defcon
  deriving DecidableEq

end Asm
