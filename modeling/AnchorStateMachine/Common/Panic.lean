import AnchorStateMachine.Library.Outcome
import AnchorStateMachine.Bridge.Types

/-! The ways the state transition can halt. A failed assertion, `expect` or explicit `panic!` of the
source is an error of `Exec`; a `Result` of the source stays a value. A plain `+` that overflows its
machine type panics, as it does in a build with overflow checks. -/

namespace Asm

inductive Panic
  | arithmeticOverflow
  | emptyOperatorList
  | operatorIndexExhausted
  | operatorBitmap (error : OperatorBitmapError)
  | emptyMultisig
  | keyAggregation
  | emptyNnHistory
  | unknownNnConfiguration (notarySet : Nat)
  | depositNotPresent (depositIdx : Nat)
  | duplicateAssignment (depositIdx : Nat)
  | fulfilledAssignmentMissing (depositIdx : Nat)
  | assigneeNotRegistered (assignee : Nat)
  | reassignmentFailed (error : WithdrawalAssignmentError)
  | withdrawalAssignmentFailed (error : WithdrawalAssignmentError)
  -- Auxiliary data that the pre-process stage requested and the runtime did not provide.
  | depositRequestNotProvided (txid : Buf32)
  | stakeConnectorNotProvided (outpoint : OutPoint)
  | envelopeSpentOutputNotProvided (outpoint : OutPoint)
  | manifestHashesNotProvided (start last : Nat)
  | predicateBoundaryNotIncreasing (last next : Nat)
  | depositTotalTooLarge
  | checkpointGenesisHeightMismatch (checkpointHeight anchorHeight : Nat)
  | genesisSectionTooLarge (id : Nat)
  | specIdMismatch (specId : Nat)
  -- No section for the subprotocol, or one that does not decode as its state.
  | sectionNotLoadable (id : Nat)
  | duplicateSubprotocol (id : Nat)
  | unloadedSubprotocol (id : Nat)
  | messageToUnloadedSubprotocol (id : Nat)
  | historyHeightMismatch (inserted height : Nat)
  | exportEntryNotAdded (containerId : Nat)
  | exportCapacityExceeded
  deriving DecidableEq

/-- A computation of the source that may panic. -/
abbrev Exec := Except Panic

def addU32 (a b : Nat) : Exec Nat :=
  if a + b < u32Bound then pure (a + b) else throw .arithmeticOverflow

theorem addU32_ok {a b c : Nat} (h : addU32 a b = .ok c) : c = a + b ∧ a + b < u32Bound := by
  unfold addU32 at h
  split at h
  · cases Outcome.pure_ok h
    exact ⟨rfl, ‹_›⟩
  · cases h

theorem addU32_error {a b : Nat} {p : Panic} (h : addU32 a b = .error p) : p = .arithmeticOverflow := by
  unfold addU32 at h
  split at h
  · cases h
  · cases h
    rfl

end Asm
