import AnchorStateMachine.Common.Messages
import AnchorStateMachine.Common.Panic
import AnchorStateMachine.Library.Ssz

/-! Administration actions: the updates the authorities can order, who has to sign them, and the
message they sign. -/

namespace Asm

/-! ### Update types -/

inductive Role
  | strataAdministrator
  | strataSequencerManager
  | alpenAdministrator
  | strataSecurityCouncil
  deriving DecidableEq

namespace Role

def index : Role → Nat
  | strataAdministrator => 0
  | strataSequencerManager => 1
  | alpenAdministrator => 2
  | strataSecurityCouncil => 3

def name : Role → String
  | strataAdministrator => "Strata Administrator"
  | strataSequencerManager => "Strata Sequencer Manager"
  | alpenAdministrator => "Alpen Administrator"
  | strataSecurityCouncil => "Strata Security Council"

end Role

inductive UpdateTxType
  | strataAdminMultisigUpdate
  | olStfVkUpdate
  | asmStfVkUpdate
  | operatorUpdate
  | safeHarborAddressUpdate
  | strataSecurityCouncilMultisigUpdate
  | strataSeqManagerMultisigUpdate
  | sequencerUpdate
  | alpenAdminMultisigUpdate
  | eeStfVkUpdate
  | defcon1
  | defcon3
  deriving DecidableEq

namespace UpdateTxType

def ofByte : Nat → Option UpdateTxType
  | 10 => some strataAdminMultisigUpdate
  | 11 => some olStfVkUpdate
  | 12 => some asmStfVkUpdate
  | 13 => some operatorUpdate
  | 14 => some safeHarborAddressUpdate
  | 15 => some strataSecurityCouncilMultisigUpdate
  | 20 => some strataSeqManagerMultisigUpdate
  | 21 => some sequencerUpdate
  | 30 => some alpenAdminMultisigUpdate
  | 31 => some eeStfVkUpdate
  | 41 => some defcon1
  | 43 => some defcon3
  | _ => none

def authorizedRole : UpdateTxType → Role
  | strataAdminMultisigUpdate => .strataAdministrator
  | olStfVkUpdate => .strataAdministrator
  | asmStfVkUpdate => .strataAdministrator
  | operatorUpdate => .strataAdministrator
  | safeHarborAddressUpdate => .strataAdministrator
  | strataSecurityCouncilMultisigUpdate => .strataAdministrator
  | alpenAdminMultisigUpdate => .alpenAdministrator
  | eeStfVkUpdate => .alpenAdministrator
  | sequencerUpdate => .strataSequencerManager
  | strataSeqManagerMultisigUpdate => .strataSequencerManager
  | defcon1 => .strataSecurityCouncil
  | defcon3 => .strataSecurityCouncil

def name : UpdateTxType → String
  | strataAdminMultisigUpdate => "Strata Administrator Multisig Update"
  | strataSeqManagerMultisigUpdate => "Strata Sequencer Manager Multisig Update"
  | alpenAdminMultisigUpdate => "Alpen Administrator Multisig Update"
  | strataSecurityCouncilMultisigUpdate => "Strata Security Council Multisig Update"
  | operatorUpdate => "Bridge Operator Set Update"
  | sequencerUpdate => "Sequencer Update"
  | olStfVkUpdate => "OL STF VK Update"
  | asmStfVkUpdate => "ASM STF VK Update"
  | eeStfVkUpdate => "EE STF VK Update"
  | defcon1 => "Defcon 1"
  | defcon3 => "Defcon 3"
  | safeHarborAddressUpdate => "Safe Harbor Address Update"

end UpdateTxType

inductive AdminTxType
  | cancel
  | update (txType : UpdateTxType)
  deriving DecidableEq

namespace AdminTxType

def ofByte (value : Nat) : Option AdminTxType :=
  if value = 0 then some cancel else (UpdateTxType.ofByte value).map update

def name : AdminTxType → String
  | cancel => "Cancel"
  | update txType => txType.name

end AdminTxType

/-- How many L1 blocks an update of each kind waits before it is enacted. -/
structure ConfirmationDepths where
  strataAdminMultisigUpdate : Nat
  strataSeqManagerMultisigUpdate : Nat
  alpenAdminMultisigUpdate : Nat
  strataSecurityCouncilMultisigUpdate : Nat
  operatorUpdate : Nat
  sequencerUpdate : Nat
  olStfVkUpdate : Nat
  asmStfVkUpdate : Nat
  eeStfVkUpdate : Nat
  defcon3 : Nat
  safeHarborAddressUpdate : Nat
  deriving DecidableEq

namespace ConfirmationDepths

/-- The depth for an update type, `none` if it is zero and the update applies at once. -/
def get (depths : ConfirmationDepths) (txType : UpdateTxType) : Option Nat :=
  let depth := match txType with
    | .strataAdminMultisigUpdate => depths.strataAdminMultisigUpdate
    | .strataSeqManagerMultisigUpdate => depths.strataSeqManagerMultisigUpdate
    | .alpenAdminMultisigUpdate => depths.alpenAdminMultisigUpdate
    | .strataSecurityCouncilMultisigUpdate => depths.strataSecurityCouncilMultisigUpdate
    | .operatorUpdate => depths.operatorUpdate
    | .sequencerUpdate => depths.sequencerUpdate
    | .olStfVkUpdate => depths.olStfVkUpdate
    | .asmStfVkUpdate => depths.asmStfVkUpdate
    | .eeStfVkUpdate => depths.eeStfVkUpdate
    | .defcon1 => 0
    | .defcon3 => depths.defcon3
    | .safeHarborAddressUpdate => depths.safeHarborAddressUpdate
  if depth ≠ 0 then some depth else none

end ConfirmationDepths

/-! ### Actions -/

structure P2wpkhAddress where
  program : Bytes
  size : program.length = 20
  deriving DecidableEq

abbrev NonZeroU8 := { n : Nat // 0 < n ∧ n < 256 }

def maxSigners : Nat := 256

structure ThresholdConfigUpdate where
  addMembers : List P2wpkhAddress
  removeMembers : List P2wpkhAddress
  newThreshold : NonZeroU8
  addBounded : addMembers.length ≤ maxSigners
  removeBounded : removeMembers.length ≤ maxSigners
  deriving DecidableEq

inductive ThresholdSignatureError
  | insufficientSignatures (provided required : Nat)
  | invalidThreshold (threshold totalSigners : Nat)
  | invalidSignature (index : Nat)
  | invalidSignatureFormat
  | duplicateSignerIndex (index : Nat)
  | signerIndexOutOfBounds (index max : Nat)
  | memberAlreadyExists
  | duplicateAddMember
  | duplicateRemoveMember
  | memberNotFound
  | tooManySigners (count max : Nat)
  deriving DecidableEq

def ThresholdConfigUpdate.tryNew (addMembers removeMembers : List P2wpkhAddress)
    (newThreshold : NonZeroU8) : Except ThresholdSignatureError ThresholdConfigUpdate :=
  if addBounded : addMembers.length ≤ maxSigners then
    if removeBounded : removeMembers.length ≤ maxSigners then
      .ok ⟨addMembers, removeMembers, newThreshold, addBounded, removeBounded⟩
    else .error (.tooManySigners removeMembers.length maxSigners)
  else .error (.tooManySigners addMembers.length maxSigners)

inductive UpdateAction
  | strataAdminMultisig (config : ThresholdConfigUpdate)
  | strataSeqManagerMultisig (config : ThresholdConfigUpdate)
  | alpenAdminMultisig (config : ThresholdConfigUpdate)
  | strataSecurityCouncilMultisig (config : ThresholdConfigUpdate)
  | operatorSet (addMembers : List Buf32) (removeMembers : List Nat)
  | sequencer (pubKey : Buf32)
  | olStfVk (key : PredicateKey)
  | asmStfVk (key : PredicateKey)
  | eeStfVk (key : PredicateKey)
  | defcon1
  | defcon3
  | safeHarborAddress (address : SafeHarborAddress)
  deriving DecidableEq

namespace UpdateAction

def updateTxType : UpdateAction → UpdateTxType
  | strataAdminMultisig _ => .strataAdminMultisigUpdate
  | strataSeqManagerMultisig _ => .strataSeqManagerMultisigUpdate
  | alpenAdminMultisig _ => .alpenAdminMultisigUpdate
  | strataSecurityCouncilMultisig _ => .strataSecurityCouncilMultisigUpdate
  | operatorSet _ _ => .operatorUpdate
  | sequencer _ => .sequencerUpdate
  | olStfVk _ => .olStfVkUpdate
  | asmStfVk _ => .asmStfVkUpdate
  | eeStfVk _ => .eeStfVkUpdate
  | defcon1 => .defcon1
  | defcon3 => .defcon3
  | safeHarborAddress _ => .safeHarborAddressUpdate

def requiredRole (update : UpdateAction) : Role := update.updateTxType.authorizedRole

end UpdateAction

/-- What the signers order: an update, or the cancellation of a queued one, which they see. -/
inductive MultisigAction
  | cancel (targetId : Nat) (update : UpdateAction)
  | update (update : UpdateAction)
  deriving DecidableEq

namespace MultisigAction

def txType : MultisigAction → AdminTxType
  | cancel _ _ => .cancel
  | update action => .update action.updateTxType

def requiredRole : MultisigAction → Role
  | cancel _ action => action.requiredRole
  | update action => action.requiredRole

end MultisigAction

structure IndexedSignature where
  index : Nat
  signature : Bytes
  size : signature.length = 65
  deriving DecidableEq

namespace IndexedSignature

def recoveryId (sig : IndexedSignature) : Nat := (sig.signature.headD 0).toNat

def compact (sig : IndexedSignature) : Bytes := sig.signature.tail

end IndexedSignature

/-- An action on the wire: a cancellation names its target only. -/
inductive EnvelopeAction
  | cancel (targetId : Nat)
  | update (update : UpdateAction)
  deriving DecidableEq

structure EnvelopePayload where
  seqno : Nat
  action : EnvelopeAction
  signatures : List IndexedSignature
  deriving DecidableEq

structure SignedPayload where
  seqno : Nat
  action : MultisigAction
  signatures : List IndexedSignature
  deriving DecidableEq

def EnvelopePayload.resolve (payload : EnvelopePayload) (findQueued : Nat → Option UpdateAction) :
    Except Nat SignedPayload :=
  match payload.action with
  | .cancel targetId =>
    match findQueued targetId with
    | none => .error targetId
    | some update => .ok ⟨payload.seqno, .cancel targetId update, payload.signatures⟩
  | .update update => .ok ⟨payload.seqno, .update update, payload.signatures⟩

/-- What the wire format takes from other crates: which x-only keys are on the curve, output
descriptors, and whether a derived tuple struct of one field is encoded as that field or as a
container of it. -/
class WireLibs where
  validKey : Buf32 → Bool
  descriptor : Ssz.Codec Descriptor
  validDescriptor : Descriptor → Bool
  isP2tr : Descriptor → Bool
  transparent : Bool

/-- What administration takes from other crates: addresses and hashes of Bitcoin, public key
recovery, the envelope format and what the wire format rests on. -/
class AdminLibs extends Sha256, WireLibs where
  displayMember : Network → P2wpkhAddress → String
  displaySafeHarbor : Network → SafeHarborAddress → String
  predicateTypeName : Nat → Option String
  signedMsgHash : String → Buf32
  validCompact : Bytes → Nat → Bool
  recoverEcdsa : Buf32 → Bytes → Nat → Option Bytes
  wpubkeyHash : Bytes → P2wpkhAddress
  taprootLeafScript : List Bytes → Option Bytes
  parseEnvelopePayload : Bytes → Option Bytes
  systemReservedAccts : Nat

/-! ### Signing message -/

def Network.name : Network → String
  | bitcoin => "bitcoin"
  | testnet => "testnet"
  | testnet4 => "testnet4"
  | signet => "signet"
  | regtest => "regtest"

def hexEncode (bytes : Bytes) : String :=
  String.ofList (bytes.flatMap fun byte =>
    [Nat.digitChar (byte.toNat / 16), Nat.digitChar (byte.toNat % 16)])

def appendIndexedFields (countLabel itemLabel : String) (values : List String) : List String :=
  (countLabel ++ ": " ++ toString values.length) ::
    values.mapIdx fun idx value => toString (idx + 1) ++ ". " ++ itemLabel ++ ": " ++ value

section

variable [AdminLibs]

namespace Render

def multisig (network : Network) (config : ThresholdConfigUpdate) : List String :=
  ("New Threshold: " ++ toString config.newThreshold.val) ::
    appendIndexedFields "Members to Add" "Add Member"
      (config.addMembers.map (AdminLibs.displayMember network)) ++
    appendIndexedFields "Members to Remove" "Remove Member"
      (config.removeMembers.map (AdminLibs.displayMember network))

def predicate (key : PredicateKey) : List String :=
  let predicateType := match AdminLibs.predicateTypeName key.typeId with
    | some name => name
    | none => "unknown (" ++ toString key.typeId ++ ")"
  ["Predicate Type: " ++ predicateType,
    if key.condition.length ≤ 32 then "Predicate Hex: " ++ hexEncode key.condition
    else "Predicate Hash: " ++ hexEncode (sha256 key.condition).bytes]

end Render

def UpdateAction.renderDetails (network : Network) : UpdateAction → List String
  | strataAdminMultisig config => Render.multisig network config
  | strataSeqManagerMultisig config => Render.multisig network config
  | alpenAdminMultisig config => Render.multisig network config
  | strataSecurityCouncilMultisig config => Render.multisig network config
  | operatorSet addMembers removeMembers =>
    appendIndexedFields "Operators to Add" "Add Operator"
      (addMembers.map fun key => hexEncode key.bytes) ++
    appendIndexedFields "Operators to Remove" "Remove Operator Index" (removeMembers.map toString)
  | sequencer pubKey => ["New Sequencer Key: " ++ hexEncode pubKey.bytes]
  | olStfVk key => Render.predicate key
  | asmStfVk key => Render.predicate key
  | eeStfVk key => Render.predicate key
  | defcon1 => []
  | defcon3 => []
  | safeHarborAddress address =>
    ["New Safe Harbor Address: " ++ AdminLibs.displaySafeHarbor network address]

def MultisigAction.renderDetails (network : Network) : MultisigAction → List String
  | cancel _ action =>
    ("Target Update: " ++ action.updateTxType.name) :: action.renderDetails network
  | update action => action.renderDetails network

namespace SigningMessage

def forAction (action : MultisigAction) (seqno : Nat) (network : Network) : String :=
  let lines := ["Strata ASM Administration v1", "Network: " ++ network.name,
    "Action: " ++ action.txType.name, "Authorized By: " ++ action.requiredRole.name,
    "Sequence: " ++ toString seqno]
  let details := (action.renderDetails network).map fun line => "  " ++ line
  "\n".intercalate (if details.isEmpty then lines else lines ++ "Action Details:" :: details)

def computeSighash (message : String) : Buf32 := AdminLibs.signedMsgHash message

end SigningMessage

end
end Asm
