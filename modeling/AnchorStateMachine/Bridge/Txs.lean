import AnchorStateMachine.Bridge.OperatorTable

/-! Parsing of bridge transactions, and the scripts they are checked against. -/

namespace Asm

class BridgeTxLibs extends TaprootKeys where
  /-- The magic bytes and the tag that the first output of a transaction carries. -/
  extractTxMagicAndTag : List TxOut → Option (Bytes × TagData)
  /-- The root of a script tree with a single leaf. -/
  tapLeafRoot : Bytes → Buf32
  isXOnlyPublicKey : Buf32 → Bool
  unspendablePublicKey : Buf32
  maxScriptSize : Nat

export BridgeTxLibs (extractTxMagicAndTag tapLeafRoot isXOnlyPublicKey unspendablePublicKey
  maxScriptSize)

inductive BridgeTxType
  | depositRequest
  | deposit
  | withdrawalFulfillment
  | commit
  | slash
  | unstake
  deriving DecidableEq

def BridgeTxType.ofByte : Nat → Option BridgeTxType
  | 0 => some .depositRequest
  | 1 => some .deposit
  | 2 => some .withdrawalFulfillment
  | 3 => some .commit
  | 4 => some .slash
  | 5 => some .unstake
  | _ => none

inductive WitnessError
  | invalidLength (expected actual : Nat)
  | invalidScriptStructure
  | notKeyPathSpend (elements : Nat)
  | invalidKeyPathSignatureLength (length : Nat)
  deriving DecidableEq

inductive TxStructureErrorKind
  | missingInput (index : Nat)
  | missingOutput (index : Nat)
  | wrongSpentOutput (expected got : Nat)
  | invalidOutput (index : Nat)
  | invalidTxFormat
  | invalidAuxiliaryData
  | invalidWitness (error : WitnessError)
  deriving DecidableEq

structure TxStructureError where
  txType : BridgeTxType
  kind : TxStructureErrorKind
  context : Option String
  deriving DecidableEq

/-! ### Scripts -/

namespace Script

def opSize : UInt8 := 0x82
def opEqual : UInt8 := 0x87
def opEqualVerify : UInt8 := 0x88
def opSha256 : UInt8 := 0xa8
def opCheckSigVerify : UInt8 := 0xad
def opCsv : UInt8 := 0xb2

def littleEndian : Nat → Nat → Bytes
  | 0, _ => []
  | fuel + 1, n => if n = 0 then [] else UInt8.ofNat n :: littleEndian fuel (n / 256)

def pushSlice (data : Bytes) : Bytes := UInt8.ofNat data.length :: data

/-- Pushes a non-negative number below `2 ^ 31`: an opcode up to 16, a sign-extended slice above. -/
def pushInt (n : Nat) : Bytes :=
  if n = 0 then [0]
  else if n ≤ 16 then [UInt8.ofNat (0x50 + n)]
  else
    let digits := littleEndian 4 n
    pushSlice (if 0x80 ≤ digits.getLastD 0 then digits ++ [0] else digits)

inductive Instruction
  | pushBytes (data : Bytes)
  | op (code : UInt8)
  deriving DecidableEq

def takePush (n : Nat) (rest : Bytes) : Except Unit (Instruction × Bytes) :=
  if rest.length < n then .error () else .ok (.pushBytes (rest.take n), rest.drop n)

def nextInstruction (opcode : UInt8) (rest : Bytes) : Except Unit (Instruction × Bytes) :=
  if opcode < 0x4c then takePush opcode.toNat rest
  else if opcode = 0x4c then
    match rest with
    | a :: rest => takePush a.toNat rest
    | _ => .error ()
  else if opcode = 0x4d then
    match rest with
    | a :: b :: rest => takePush (a.toNat + 256 * b.toNat) rest
    | _ => .error ()
  else if opcode = 0x4e then
    match rest with
    | a :: b :: c :: d :: rest =>
      takePush (a.toNat + 256 * (b.toNat + 256 * (c.toNat + 256 * d.toNat))) rest
    | _ => .error ()
  else .ok (.op opcode, rest)

/-- The instructions of a script; a push that runs past its end is an error and the last item. -/
def instructionsFuel : Nat → Bytes → List (Except Unit Instruction)
  | 0, _ => []
  | _, [] => []
  | fuel + 1, opcode :: rest =>
    match nextInstruction opcode rest with
    | .error () => [.error ()]
    | .ok (instruction, rest) => .ok instruction :: instructionsFuel fuel rest

def instructions (script : Bytes) : List (Except Unit Instruction) :=
  instructionsFuel script.length script

end Script

open Script

/-! ### Deposits and deposit requests -/

structure DepositInfo where
  depositIdx : Nat
  depositOutput : TxOut
  drtInpoint : OutPoint
  deriving DecidableEq

namespace DepositInfo

def amt (info : DepositInfo) : Nat := info.depositOutput.value

def lockedScript (info : DepositInfo) : Bytes := info.depositOutput.scriptPubkey

end DepositInfo

structure DepositRequestInfo where
  recoveryPk : Buf32
  destination : Bytes
  depositRequestOutput : TxOut
  deriving DecidableEq

def depositOutputIndex : Nat := 1

def maxDestinationLen : Nat := 42

def taprootAnnexPrefixByte : UInt8 := 0x50

/-- Only a key-path spend proves that the operators signed: one signature besides an optional annex.
-/
def ensureKeyPathSpend (witness : List Bytes) : Except WitnessError Unit :=
  let hasAnnex : Bool := 2 ≤ witness.length &&
    (witness.getLast?.bind List.head?) == some taprootAnnexPrefixByte
  let elements := witness.length - hasAnnex.toNat
  if elements ≠ 1 then .error (.notKeyPathSpend elements)
  else
    let signature := witness.headD []
    if signature.length = 64 ∨ signature.length = 65 then .ok ()
    else .error (.invalidKeyPathSignatureLength signature.length)

variable [BridgeTxLibs]

def boundedOutput (txType : BridgeTxType) (context : String) (tx : Transaction) (index : Nat) :
    Except TxStructureError TxOut :=
  match tx.output[index]? with
  | none => .error ⟨txType, .missingOutput index, some context⟩
  | some output =>
    if output.scriptPubkey.length ≤ maxScriptSize then .ok output
    else .error ⟨txType, .invalidOutput index, some context⟩

def parseDepositTx (tx : TxInput) : Except TxStructureError DepositInfo :=
  match decodeU32Exact tx.tag.auxData with
  | none => .error ⟨.deposit, .invalidAuxiliaryData, none⟩
  | some depositIdx => do
    let depositOutput ← boundedOutput .deposit "deposit output" tx.tx depositOutputIndex
    match tx.tx.input[0]? with
    | none => .error ⟨.deposit, .missingInput 0, some "drt input"⟩
    | some drtInput =>
      let drtInpoint := drtInput.previousOutput
      if drtInpoint.vout ≠ depositOutputIndex then
        .error ⟨.deposit, .wrongSpentOutput depositOutputIndex drtInpoint.vout, some "drt input"⟩
      else
        match ensureKeyPathSpend drtInput.witness with
        | .error error => .error ⟨.deposit, .invalidWitness error, some "drt input"⟩
        | .ok () => .ok ⟨depositIdx, depositOutput, drtInpoint⟩

def drtHeaderAux (auxData : Bytes) : Option (Buf32 × Bytes) := do
  let recoveryPk ← Buf32.ofSlice (auxData.take 32)
  let destination := auxData.drop 32
  if maxDestinationLen < destination.length then none else some (recoveryPk, destination)

def parseDrt (tx : Transaction) : Except TxStructureError DepositRequestInfo :=
  match extractTxMagicAndTag tx.output with
  | none => .error ⟨.depositRequest, .invalidTxFormat, none⟩
  | some (_, tag) =>
    match drtHeaderAux tag.auxData with
    | none => .error ⟨.depositRequest, .invalidAuxiliaryData, none⟩
    | some (recoveryPk, destination) => do
      let output ← boundedOutput .depositRequest "deposit request output" tx depositOutputIndex
      pure ⟨recoveryPk, destination, output⟩

/-- The script a deposit request locks its output with: the N/N key, or the depositor after a delay.
-/
def createDepositRequestLockingScript (recoveryPk internalKey : Buf32) (recoveryDelay : Nat) : Bytes :=
  let tapscript := pushSlice recoveryPk.bytes ++ [opCheckSigVerify] ++ pushInt recoveryDelay ++ [opCsv]
  newP2tr internalKey (some (tapLeafRoot tapscript))

/-! ### Withdrawal fulfillments -/

structure WithdrawalFulfillmentInfo where
  depositIdx : Nat
  withdrawalDestination : Bytes
  withdrawalAmount : Nat
  deriving DecidableEq

def parseWithdrawalFulfillmentTx (tx : TxInput) : Except TxStructureError WithdrawalFulfillmentInfo :=
  match decodeU32Exact tx.tag.auxData with
  | none => .error ⟨.withdrawalFulfillment, .invalidAuxiliaryData, none⟩
  | some depositIdx =>
    match tx.tx.output[1]? with
    | none =>
      .error ⟨.withdrawalFulfillment, .missingOutput 1, some "user withdrawal fulfillment output"⟩
    | some output => .ok ⟨depositIdx, output.scriptPubkey, output.value⟩

/-! ### Slashes and unstakes -/

structure SlashInfo where
  operatorIdx : Nat
  stakeInpoint : OutPoint
  deriving DecidableEq

def parseSlashTx (tx : TxInput) : Except TxStructureError SlashInfo :=
  match decodeU32Exact tx.tag.auxData with
  | none => .error ⟨.slash, .invalidAuxiliaryData, none⟩
  | some operatorIdx =>
    match tx.tx.input[1]? with
    | none => .error ⟨.slash, .missingInput 1, some "stake connector input"⟩
    | some input => .ok ⟨operatorIdx, input.previousOutput⟩

structure UnstakeInfo where
  operatorIdx : Nat
  stakeInpoint : OutPoint
  witnessPushedPubkey : Buf32
  stakeHash : Buf32
  deriving DecidableEq

def stakeConnectorScript (stakeHash pubkey : Buf32) : Bytes :=
  pushSlice pubkey.bytes ++ [opCheckSigVerify, opSize] ++ pushInt 0x20 ++ [opEqualVerify, opSha256] ++
    pushSlice stakeHash.bytes ++ [opEqual]

def expectedStakeConnectorScriptPubkey (stakeHash nnPubkey : Buf32) : Bytes :=
  newP2tr unspendablePublicKey (some (tapLeafRoot (stakeConnectorScript stakeHash nnPubkey)))

def pushedBuf32 (script : Bytes) (index : Nat) : Option Buf32 :=
  match (instructions script)[index]? with
  | some (.ok (.pushBytes data)) => Buf32.ofSlice data
  | _ => none

def extractScriptParams (script : Bytes) : Option (Buf32 × Buf32) := do
  let pubkey ← pushedBuf32 script 0
  let stakeHash ← pushedBuf32 script 6
  some (pubkey, stakeHash)

def validateAndExtractScriptParams (script : Bytes) : Option (Buf32 × Buf32) := do
  let (pubkey, stakeHash) ← extractScriptParams script
  if isXOnlyPublicKey pubkey && script = stakeConnectorScript stakeHash pubkey then
    some (pubkey, stakeHash)
  else none

def parseUnstakeTx (tx : TxInput) : Except TxStructureError UnstakeInfo :=
  match decodeU32Exact tx.tag.auxData with
  | none => .error ⟨.unstake, .invalidAuxiliaryData, none⟩
  | some operatorIdx =>
    match tx.tx.input[0]? with
    | none => .error ⟨.unstake, .missingInput 0, some "stake connector input"⟩
    | some stakeInput =>
      match stakeInput.witness with
      | [_, _, script, _] =>
        match validateAndExtractScriptParams script with
        | none => .error ⟨.unstake, .invalidWitness .invalidScriptStructure,
            some "stake connector witness script"⟩
        | some (pubkey, stakeHash) => .ok ⟨operatorIdx, stakeInput.previousOutput, pubkey, stakeHash⟩
      | witness => .error ⟨.unstake, .invalidWitness (.invalidLength 4 witness.length),
          some "stake connector witness"⟩

/-! ### Dispatch -/

inductive ParsedTx
  | deposit (info : DepositInfo)
  | withdrawalFulfillment (info : WithdrawalFulfillmentInfo)
  | slash (info : SlashInfo)
  | unstake (info : UnstakeInfo)
  deriving DecidableEq

/-- Parses a bridge transaction; one that is not processed here, or is malformed, is skipped. -/
def parseTx (tx : TxInput) : Option ParsedTx :=
  match BridgeTxType.ofByte tx.tag.txType with
  | some .deposit => (parseDepositTx tx).toOption.map .deposit
  | some .withdrawalFulfillment => (parseWithdrawalFulfillmentTx tx).toOption.map .withdrawalFulfillment
  | some .slash => (parseSlashTx tx).toOption.map .slash
  | some .unstake => (parseUnstakeTx tx).toOption.map .unstake
  | some .depositRequest => none
  | some .commit => none
  | none => none

end Asm
