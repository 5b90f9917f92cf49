import AnchorStateMachine.Admin.Wire
import AnchorStateMachine.Bridge.State

/-! The encoding of the bridge state that its section keeps. A bitmap is stored with the bytes that back
it, and the tables are checked for their order when they are read. -/

namespace Asm
open Ssz

/-! ### Encodings -/

/-- What the encoding of the bridge state takes from other crates besides the wire format: amounts,
output scripts and x-only keys. -/
class StateLibs extends WireLibs where
  amount : Codec Nat
  validAmount : Nat → Bool
  scriptBuf : Codec Bytes
  xOnlyPublicKey : Codec Buf32
  validXOnly : Buf32 → Bool

structure StateLibs.Lawful [StateLibs] : Prop extends WireLibs.Lawful where
  amount : StateLibs.amount.Lawful fun amount => StateLibs.validAmount amount
  scriptBuf : StateLibs.scriptBuf.Lawful fun _ => True
  xOnlyPublicKey : StateLibs.xOnlyPublicKey.Lawful fun key => StateLibs.validXOnly key

namespace Stored

/-- The bit length is cut to 32 bits. On reading, the bytes are taken over whole and the bits past the
length are cut off, but stay in the last byte. -/
def operatorBitmap : Codec OperatorBitmap :=
  (Fields.cons (.uint 4) (.cons .byteString .nil)).container.via
    (fun bitmap => (bitmap.bits.len % u32Bound, bitmap.bits.bytes, ()))
    fun (bitLen, bytes, ()) =>
      if (PackedBits.ofBytes bytes).len < bitLen then none
      else some ⟨(PackedBits.ofBytes bytes).truncate bitLen⟩

variable [StateLibs]

def operatorEntry : Codec OperatorEntry :=
  (Fields.cons (.uint 4) (.cons Wire.evenPublicKey .nil)).container.via
    (fun entry => (entry.idx, entry.musig2Pk, ())) fun (idx, musig2Pk, ()) => some ⟨idx, musig2Pk⟩

def historicalNnScript : Codec HistoricalNnScript :=
  (Fields.cons StateLibs.scriptBuf (.cons operatorBitmap .nil)).container.via
    (fun entry => (entry.script, entry.operators, ())) fun (script, operators, ()) =>
      some ⟨script, operators⟩

def nnScriptHistory : Codec (List HistoricalNnScript) := historicalNnScript.list.single

def operatorTable : Codec OperatorTable :=
  (Fields.cons (.uint 4) (.cons operatorEntry.list (.cons StateLibs.xOnlyPublicKey
    (.cons nnScriptHistory .nil)))).container.via
    (fun table => (table.nextIdx, table.operators, table.aggKey, table.historicalNnScripts, ()))
    fun (nextIdx, operators, aggKey, historicalNnScripts, ()) =>
      (SortedVec.tryFrom OperatorEntry.idx operators).map fun operators =>
        ⟨nextIdx, operators, aggKey, historicalNnScripts⟩

def depositEntry : Codec DepositEntry :=
  (Fields.cons (.uint 4) (.cons (.uint 4) (.cons StateLibs.amount .nil))).container.via
    (fun entry => (entry.depositIdx, entry.notarySet, entry.amt, ()))
    fun (depositIdx, notarySet, amt, ()) => some ⟨depositIdx, notarySet, amt⟩

def depositsTable : Codec DepositsTable :=
  depositEntry.list.single.via id (SortedVec.tryFrom DepositEntry.depositIdx)

def withdrawalOutput : Codec WithdrawalOutput :=
  (Fields.cons WireLibs.descriptor (.cons StateLibs.amount .nil)).container.via
    (fun output => (output.destination, output.amt, ())) fun (destination, amt, ()) =>
      some ⟨destination, amt⟩

def assignmentEntry : Codec AssignmentEntry :=
  (Fields.cons depositEntry (.cons withdrawalOutput (.cons StateLibs.amount (.cons (.uint 4)
    (.cons operatorBitmap (.cons (.uint 4) .nil)))))).container.via
    (fun entry => (entry.depositEntry, entry.withdrawalOutput, entry.operatorFee, entry.currentAssignee,
      entry.previousAssignees, entry.fulfillmentDeadline, ()))
    fun (depositEntry, withdrawalOutput, operatorFee, currentAssignee, previousAssignees,
        fulfillmentDeadline, ()) =>
      some ⟨depositEntry, withdrawalOutput, operatorFee, currentAssignee, previousAssignees,
        fulfillmentDeadline⟩

def assignmentTable : Codec AssignmentTable :=
  (Fields.cons assignmentEntry.list (.cons (.uint 2) .nil)).container.via
    (fun table => (table.assignments, table.assignmentDuration, ()))
    fun (assignments, assignmentDuration, ()) =>
      (SortedVec.tryFrom AssignmentEntry.depositIdx assignments).map (⟨·, assignmentDuration⟩)

def safeHarbor : Codec SafeHarbor :=
  (Fields.cons Wire.safeHarborAddress (.cons .bool .nil)).container.via
    (fun harbor => (harbor.address, harbor.activated, ())) fun (address, activated, ()) =>
      some ⟨address, activated⟩

def bridgeState : Codec BridgeStateV1 :=
  (Fields.cons operatorTable (.cons depositsTable (.cons assignmentTable (.cons StateLibs.amount
    (.cons StateLibs.amount (.cons (.uint 2) (.cons safeHarbor .nil))))))).container.via
    (fun state => (state.operators, state.deposits, state.assignments, state.denomination,
      state.operatorFee, state.recoveryDelay, state.safeHarbor, ()))
    fun (operators, deposits, assignments, denomination, operatorFee, recoveryDelay, safeHarbor, ()) =>
      some ⟨operators, deposits, assignments, denomination, operatorFee, recoveryDelay, safeHarbor⟩

end Stored

/-! ### Values of the stored types -/

section

variable [StateLibs]

def DepositEntry.Typed (entry : DepositEntry) : Prop :=
  entry.depositIdx < 256 ^ 4 ∧ entry.notarySet < 256 ^ 4 ∧ StateLibs.validAmount entry.amt

def WithdrawalOutput.Typed (output : WithdrawalOutput) : Prop :=
  WireLibs.validDescriptor output.destination ∧ StateLibs.validAmount output.amt

structure AssignmentEntry.Typed (entry : AssignmentEntry) : Prop where
  depositEntry : entry.depositEntry.Typed
  withdrawalOutput : entry.withdrawalOutput.Typed
  operatorFee : StateLibs.validAmount entry.operatorFee
  currentAssignee : entry.currentAssignee < 256 ^ 4
  fulfillmentDeadline : entry.fulfillmentDeadline < 256 ^ 4

/-- The values that the types of the source can hold, where the model's are wider. -/
structure BridgeStateV1.Typed (state : BridgeStateV1) : Prop where
  nextIdx : state.operators.nextIdx < 256 ^ 4
  operators : ∀ entry ∈ state.operators.operators, entry.idx < 256 ^ 4 ∧ WireLibs.validKey entry.musig2Pk
  aggKey : StateLibs.validXOnly state.operators.aggKey
  deposits : ∀ entry ∈ state.deposits, entry.Typed
  assignments : ∀ entry ∈ state.assignments.assignments, entry.Typed
  assignmentDuration : state.assignments.assignmentDuration < 256 ^ 2
  denomination : StateLibs.validAmount state.denomination
  operatorFee : StateLibs.validAmount state.operatorFee
  recoveryDelay : state.recoveryDelay < 256 ^ 2
  safeHarbor : WireLibs.validDescriptor state.safeHarbor.address.descriptor ∧
    WireLibs.isP2tr state.safeHarbor.address.descriptor

/-- Every bitmap of a state: those of the N/N configurations and those of the assignments. -/
structure BridgeStateV1.EachBitmap (holds : OperatorBitmap → Prop) (state : BridgeStateV1) : Prop where
  history : ∀ config ∈ state.operators.historicalNnScripts, holds config.operators
  assignments : ∀ entry ∈ state.assignments.assignments, holds entry.previousAssignees

/-- What reading a state checks, and what it takes for the bitmaps to be read back. -/
structure BridgeStateV1.Ordered (state : BridgeStateV1) : Prop where
  operators : SortedVec.StrictlySorted OperatorEntry.idx state.operators.operators
  deposits : SortedVec.StrictlySorted DepositEntry.depositIdx state.deposits
  assignments : SortedVec.StrictlySorted AssignmentEntry.depositIdx state.assignments.assignments
  bitmaps : state.EachBitmap fun bitmap => bitmap.len < u32Bound

end

/-! ### Reading back -/

namespace Stored

theorem operatorBitmap_lawful : operatorBitmap.Lawful fun bitmap => bitmap.len < u32Bound := by
  have fields := (Fields.nil_lawful.cons Codec.byteString_lawful).cons (Codec.uint_lawful 4)
  refine fields.container.via ?_ ?_
  · intro bitmap _
    refine ⟨Nat.mod_lt _ (by decide), trivial, trivial⟩
  · rintro bitmap (small : bitmap.bits.len < u32Bound)
    have covered : bitmap.bits.len ≤ (PackedBits.ofBytes bitmap.bits.bytes).len := by
      show bitmap.bits.len ≤ bitmap.bits.bytes.length * 8
      rw [bitmap.bits.size]
      omega
    simp only [Nat.mod_eq_of_lt small, if_neg (Nat.not_lt.mpr covered), PackedBits.ofBytes_truncate]

variable [StateLibs]

theorem operatorEntry_lawful : operatorEntry.Lawful fun entry =>
    entry.idx < 256 ^ 4 ∧ WireLibs.validKey entry.musig2Pk := by
  have fields := (Fields.nil_lawful.cons Wire.evenPublicKey_lawful).cons (Codec.uint_lawful 4)
  exact fields.container.via (fun _ typed => ⟨typed.1, typed.2, trivial⟩) fun _ _ => rfl

theorem historicalNnScript_lawful (libs : StateLibs.Lawful) : historicalNnScript.Lawful fun entry =>
    entry.operators.len < u32Bound := by
  have fields := (Fields.nil_lawful.cons operatorBitmap_lawful).cons libs.scriptBuf
  exact fields.container.via (fun _ small => ⟨trivial, small, trivial⟩) fun _ _ => rfl

theorem operatorTable_lawful (libs : StateLibs.Lawful) : operatorTable.Lawful fun table =>
    table.nextIdx < 256 ^ 4 ∧
    (∀ entry ∈ table.operators, entry.idx < 256 ^ 4 ∧ WireLibs.validKey entry.musig2Pk) ∧
    StateLibs.validXOnly table.aggKey ∧
    (∀ entry ∈ table.historicalNnScripts, entry.operators.len < u32Bound) ∧
    SortedVec.StrictlySorted OperatorEntry.idx table.operators := by
  have entries : operatorEntry.fixedLen ≠ some 0 := by
    show some 36 ≠ some 0
    decide
  have scripts : historicalNnScript.fixedLen ≠ some 0 := by
    intro fixed
    cases known : StateLibs.scriptBuf.fixedLen <;>
      simp [historicalNnScript, Codec.via, Fields.container, Fields.cons, operatorBitmap, known,
        Codec.byteString] at fixed
  have history := ((historicalNnScript_lawful libs).list scripts).single
  have fields := (((Fields.nil_lawful.cons history).cons libs.xOnlyPublicKey).cons
    (operatorEntry_lawful.list entries)).cons (Codec.uint_lawful 4)
  refine fields.container.via ?_ ?_
  · rintro table ⟨nextIdx, operators, aggKey, history, -⟩
    exact ⟨nextIdx, operators, aggKey, history, trivial⟩
  · rintro table ⟨-, -, -, -, sorted⟩
    dsimp only
    rw [SortedVec.tryFrom_of_sorted _ sorted]
    rfl

theorem depositEntry_lawful (libs : StateLibs.Lawful) : depositEntry.Lawful DepositEntry.Typed := by
  have fields := ((Fields.nil_lawful.cons libs.amount).cons (Codec.uint_lawful 4)).cons
    (Codec.uint_lawful 4)
  exact fields.container.via (fun _ typed => ⟨typed.1, typed.2.1, typed.2.2, trivial⟩) fun _ _ => rfl

theorem depositsTable_lawful (libs : StateLibs.Lawful) : depositsTable.Lawful fun table =>
    (∀ entry ∈ table, entry.Typed) ∧ SortedVec.StrictlySorted DepositEntry.depositIdx table := by
  have entries : depositEntry.fixedLen ≠ some 0 := by
    intro fixed
    cases known : StateLibs.amount.fixedLen <;>
      simp [depositEntry, Codec.via, Fields.container, Fields.cons, Fields.nil, Codec.uint, headLen,
        known] at fixed
  exact ((depositEntry_lawful libs).list entries).single.via (fun _ typed => typed.1)
    fun _ typed => SortedVec.tryFrom_of_sorted _ typed.2

theorem assignmentEntry_lawful (libs : StateLibs.Lawful) : assignmentEntry.Lawful fun entry =>
    entry.Typed ∧ entry.previousAssignees.len < u32Bound := by
  have output : withdrawalOutput.Lawful WithdrawalOutput.Typed :=
    ((Fields.nil_lawful.cons libs.amount).cons libs.descriptor).container.via
      (fun _ typed => ⟨typed.1, typed.2, trivial⟩) fun _ _ => rfl
  have fields := (((((Fields.nil_lawful.cons (Codec.uint_lawful 4)).cons operatorBitmap_lawful).cons
    (Codec.uint_lawful 4)).cons libs.amount).cons output).cons (depositEntry_lawful libs)
  refine fields.container.via ?_ fun _ _ => rfl
  rintro entry ⟨typed, small⟩
  exact ⟨typed.depositEntry, typed.withdrawalOutput, typed.operatorFee, typed.currentAssignee, small,
    typed.fulfillmentDeadline, trivial⟩

theorem assignmentTable_lawful (libs : StateLibs.Lawful) : assignmentTable.Lawful fun table =>
    (∀ entry ∈ table.assignments, entry.Typed ∧ entry.previousAssignees.len < u32Bound) ∧
    table.assignmentDuration < 256 ^ 2 ∧
    SortedVec.StrictlySorted AssignmentEntry.depositIdx table.assignments := by
  have entries : assignmentEntry.fixedLen ≠ some 0 := by
    intro fixed
    simp [assignmentEntry, Codec.via, Fields.container, Fields.cons, operatorBitmap,
      Codec.byteString] at fixed
  have fields := (Fields.nil_lawful.cons (Codec.uint_lawful 2)).cons
    ((assignmentEntry_lawful libs).list entries)
  refine fields.container.via (fun _ typed => ⟨typed.1, typed.2.1, trivial⟩) ?_
  rintro table ⟨-, -, sorted⟩
  dsimp only
  rw [SortedVec.tryFrom_of_sorted _ sorted]
  rfl

theorem bridgeState_lawful (libs : StateLibs.Lawful) :
    bridgeState.Lawful fun state => state.Typed ∧ state.Ordered := by
  have harbor : safeHarbor.Lawful fun harbor =>
      WireLibs.validDescriptor harbor.address.descriptor ∧ WireLibs.isP2tr harbor.address.descriptor :=
    ((Fields.nil_lawful.cons Codec.bool_lawful).cons
      (Wire.safeHarborAddress_lawful libs.toLawful)).container.via
      (fun _ typed => ⟨typed, trivial, trivial⟩) fun _ _ => rfl
  have fields := ((((((Fields.nil_lawful.cons harbor).cons (Codec.uint_lawful 2)).cons libs.amount).cons
    libs.amount).cons (assignmentTable_lawful libs)).cons (depositsTable_lawful libs)).cons
    (operatorTable_lawful libs)
  refine fields.container.via ?_ fun _ _ => rfl
  rintro state ⟨typed, ordered⟩
  exact ⟨⟨typed.nextIdx, typed.operators, typed.aggKey, ordered.bitmaps.history, ordered.operators⟩,
    ⟨typed.deposits, ordered.deposits⟩,
    ⟨fun entry mem => ⟨typed.assignments entry mem, ordered.bitmaps.assignments entry mem⟩,
      typed.assignmentDuration, ordered.assignments⟩,
    typed.denomination, typed.operatorFee, typed.recoveryDelay, typed.safeHarbor, trivial⟩

end Stored

/-- Amounts are eight bytes, and scripts and keys are stored as they are. -/
@[reducible] def sampleStateLibs : StateLibs where
  toWireLibs := sampleWireLibs
  amount := .uint 8
  validAmount amount := amount < 256 ^ 8
  scriptBuf := .byteString
  xOnlyPublicKey := (Codec.byteVector 32).via Buf32.bytes Buf32.ofSlice
  validXOnly key := key = .fill 1

end Asm
