import AnchorStateMachine.Common.Panic
import AnchorStateMachine.Library.SortedVec

/-! The bridge's operator table: registered operators, the aggregated key of the current N/N
multisig, and the history of N/N configurations. -/

namespace Asm

class TaprootKeys where
  /-- MuSig2 aggregation of a list of x-only keys, in the order of the list. -/
  aggregateSchnorrKeys : List Buf32 → Option Buf32
  /-- The P2TR script of an internal key and an optional script tree root. -/
  newP2tr : Buf32 → Option Buf32 → Bytes

export TaprootKeys (aggregateSchnorrKeys newP2tr)

structure OperatorEntry where
  idx : Nat
  musig2Pk : Buf32
  deriving DecidableEq

/-- A past or present N/N multisig: its key-path script and the operators that were in it. -/
structure HistoricalNnScript where
  script : Bytes
  operators : OperatorBitmap
  deriving DecidableEq

structure OperatorTable where
  nextIdx : Nat
  operators : List OperatorEntry
  aggKey : Buf32
  historicalNnScripts : List HistoricalNnScript
  deriving DecidableEq

variable [TaprootKeys]

def buildNnScript (aggKey : Buf32) : Bytes := newP2tr aggKey none

namespace OperatorTable

def getOperator (table : OperatorTable) (idx : Nat) : Option OperatorEntry :=
  SortedVec.get OperatorEntry.idx idx table.operators

def nnScript (table : OperatorTable) (idx : Nat) : Option HistoricalNnScript :=
  table.historicalNnScripts[idx]?

def currentNnScript (table : OperatorTable) : Exec HistoricalNnScript :=
  match table.historicalNnScripts.getLast? with
  | some entry => pure entry
  | none => throw .emptyNnHistory

def currentNnScriptIndex (table : OperatorTable) : Exec Nat :=
  if table.historicalNnScripts.isEmpty then throw .emptyNnHistory
  else pure ((table.historicalNnScripts.length - 1) % u32Bound)

def currentMultisig (table : OperatorTable) : Exec OperatorBitmap := do
  let current ← table.currentNnScript
  pure current.operators

/-! ### Membership changes -/

def addOperator : OperatorTable × OperatorBitmap → Buf32 → Exec (OperatorTable × OperatorBitmap)
  | (table, active), musig2Pk =>
    if table.operators.any (·.musig2Pk = musig2Pk) then
      pure (table, active)
    else if table.nextIdx = u32Max then
      throw .operatorIndexExhausted
    else
      let idx := table.nextIdx
      let operators := SortedVec.insert OperatorEntry.idx ⟨idx, musig2Pk⟩ table.operators
      match active.trySet idx true with
      | .error error => throw (.operatorBitmap error)
      | .ok active => pure ({ table with operators, nextIdx := idx + 1 }, active)

def addOperators (table : OperatorTable) (active : OperatorBitmap) (operators : List Buf32) :
    Exec (OperatorTable × OperatorBitmap) :=
  operators.foldlM addOperator (table, active)

/-- The loop body of `remove_operators`: an unknown index, or one past the bitmap, is skipped. -/
def removeOperator (table : OperatorTable) (active : OperatorBitmap) (idx : Nat) :
    Exec OperatorBitmap :=
  if (table.getOperator idx).isSome ∧ idx < active.len then
    match active.trySet idx false with
    | .error error => throw (.operatorBitmap error)
    | .ok active => pure active
  else
    pure active

def removeOperators (table : OperatorTable) (active : OperatorBitmap) (indices : List Nat) :
    Exec OperatorBitmap :=
  indices.foldlM table.removeOperator active

def calculateAggregatedKey (table : OperatorTable) (active : OperatorBitmap) : Exec Buf32 :=
  let activeKeys := active.activeIndices.filterMap fun op => (table.getOperator op).map (·.musig2Pk)
  if activeKeys.isEmpty then throw .emptyMultisig
  else
    match aggregateSchnorrKeys activeKeys with
    | some aggKey => pure aggKey
    | none => throw .keyAggregation

def recordNnScript (table : OperatorTable) (active : OperatorBitmap) : Exec OperatorTable := do
  let aggKey ← table.calculateAggregatedKey active
  pure { table with
    aggKey
    historicalNnScripts := table.historicalNnScripts ++ [⟨buildNnScript aggKey, active⟩] }

/-- Adds operators, then removes some, and records a new N/N configuration if the set changed. -/
def applyMembershipChanges (table : OperatorTable) (addMembers : List Buf32)
    (removeMembers : List Nat) : Exec OperatorTable := do
  let initialActive := (table.historicalNnScripts.getLast?.map (·.operators)).getD .newEmpty
  let (table, active) ← table.addOperators initialActive addMembers
  let active ← table.removeOperators active removeMembers
  if active.bits.bits ≠ initialActive.bits.bits then table.recordNnScript active
  else pure table

def bootstrap : OperatorTable :=
  { nextIdx := 0, operators := [], aggKey := .fill 1, historicalNnScripts := [] }

def fromOperatorList (operators : List Buf32) : Exec OperatorTable :=
  if operators.isEmpty then throw .emptyOperatorList
  else bootstrap.applyMembershipChanges operators []

end OperatorTable
end Asm
