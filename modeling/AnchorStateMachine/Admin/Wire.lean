import AnchorStateMachine.Admin.Message

/-! The wire format of administration payloads. An envelope carries no discriminants: the type in the
transaction's tag says what the bytes are read as, and the message that was signed names that type. -/

namespace Asm
open Ssz

structure WireLibs.Lawful [WireLibs] : Prop where
  descriptor : WireLibs.descriptor.Lawful fun descriptor => WireLibs.validDescriptor descriptor

/-! ### Field types -/

namespace Wire

def p2wpkhAddress : Codec P2wpkhAddress :=
  (Codec.byteVector 20).via P2wpkhAddress.program fun program =>
    if size : program.length = 20 then some ⟨program, size⟩ else none

def nonZeroU8 : Codec NonZeroU8 :=
  (Codec.uint 1).via Subtype.val fun value =>
    if nonZero : 0 < value ∧ value < 256 then some ⟨value, nonZero⟩ else none

def memberList : Codec (List P2wpkhAddress) := p2wpkhAddress.variableList maxSigners

def thresholdConfigUpdate : Codec ThresholdConfigUpdate :=
  (Fields.cons memberList (.cons memberList (.cons nonZeroU8 .nil))).container.via
    (fun config => (config.addMembers, config.removeMembers, config.newThreshold, ()))
    fun (addMembers, removeMembers, newThreshold, ()) =>
      (ThresholdConfigUpdate.tryNew addMembers removeMembers newThreshold).toOption

def indexedSignature : Codec IndexedSignature :=
  (Fields.cons (.uint 1) (.cons (.byteVector 65) .nil)).container.via
    (fun sig => (sig.index, sig.signature, ()))
    fun (index, signature, ()) =>
      if size : signature.length = 65 then some ⟨index, signature, size⟩ else none

def signatureSet : Codec (List IndexedSignature) := (indexedSignature.variableList maxSigners).single

def maxConditionLen : Nat := 1024

def predicateKey : Codec PredicateKey :=
  (Fields.cons (.uint 1) (.cons (.byteList maxConditionLen) .nil)).container.via
    (fun key => (key.typeId, key.condition, ()))
    fun (typeId, condition, ()) => some ⟨typeId, condition⟩

section

variable [WireLibs]

def evenPublicKey : Codec Buf32 :=
  (Codec.byteVector 32).via Buf32.bytes fun bytes => (Buf32.ofSlice bytes).filter (WireLibs.validKey ·)

def tupleStruct {α : Type} (codec : Codec α) : Codec α :=
  if WireLibs.transparent then codec else codec.single

def safeHarborAddress : Codec SafeHarborAddress :=
  (tupleStruct WireLibs.descriptor).via SafeHarborAddress.descriptor fun descriptor =>
    if WireLibs.isP2tr descriptor then some ⟨descriptor⟩ else none

/-! ### Actions -/

def multisigUpdate : Codec ThresholdConfigUpdate := tupleStruct thresholdConfigUpdate

def operatorSetUpdate : Codec (List Buf32 × List Nat) :=
  (Fields.cons evenPublicKey.list (.cons (Codec.uint 4).list .nil)).container.via
    (fun update => (update.1, update.2, ())) fun (addMembers, removeMembers, ()) =>
      some (addMembers, removeMembers)

def sequencerUpdate : Codec Buf32 := evenPublicKey.single

def stfVkUpdate : Codec PredicateKey := tupleStruct predicateKey

def defconUpdate : Codec Unit := Fields.nil.container

def safeHarborAddressUpdate : Codec SafeHarborAddress := safeHarborAddress.single

def updateId : Codec Nat := .uint 4

end

/-! ### Payloads -/

/-- The payload for one concrete type of action. -/
structure SignedActionPayload (A : Type) where
  seqno : Nat
  action : A
  signatures : List IndexedSignature

def signedActionPayload {A : Type} (action : Codec A) : Codec (SignedActionPayload A) :=
  (Fields.cons (.uint 8) (.cons action (.cons signatureSet .nil))).container.via
    (fun payload => (payload.seqno, payload.action, payload.signatures, ()))
    fun (seqno, action, signatures, ()) => some ⟨seqno, action, signatures⟩

def encodeWire {A : Type} (codec : Codec A) (seqno : Nat) (action : A)
    (signatures : List IndexedSignature) : Bytes :=
  (signedActionPayload codec).encode ⟨seqno, action, signatures⟩

def decodeWire {A : Type} (codec : Codec A) (bytes : Bytes) : Option (SignedActionPayload A) :=
  (signedActionPayload codec).decode bytes

def decodeUpdate {A : Type} (codec : Codec A) (into : A → UpdateAction) (bytes : Bytes) :
    Option EnvelopePayload :=
  (decodeWire codec bytes).map fun wire => ⟨wire.seqno, .update (into wire.action), wire.signatures⟩

variable [WireLibs]

/-- Reads an envelope as the type of action that the transaction's type says it holds. -/
def decodeSignedPayload (adminTxType : AdminTxType) (bytes : Bytes) : Option EnvelopePayload :=
  match adminTxType with
  | .cancel =>
    (decodeWire updateId bytes).map fun wire => ⟨wire.seqno, .cancel wire.action, wire.signatures⟩
  | .update updateType =>
    match updateType with
    | .strataAdminMultisigUpdate => decodeUpdate multisigUpdate .strataAdminMultisig bytes
    | .strataSeqManagerMultisigUpdate => decodeUpdate multisigUpdate .strataSeqManagerMultisig bytes
    | .alpenAdminMultisigUpdate => decodeUpdate multisigUpdate .alpenAdminMultisig bytes
    | .strataSecurityCouncilMultisigUpdate =>
      decodeUpdate multisigUpdate .strataSecurityCouncilMultisig bytes
    | .operatorUpdate => decodeUpdate operatorSetUpdate
        (fun update => .operatorSet update.1 update.2) bytes
    | .sequencerUpdate => decodeUpdate sequencerUpdate .sequencer bytes
    | .olStfVkUpdate => decodeUpdate stfVkUpdate .olStfVk bytes
    | .asmStfVkUpdate => decodeUpdate stfVkUpdate .asmStfVk bytes
    | .eeStfVkUpdate => decodeUpdate stfVkUpdate .eeStfVk bytes
    | .defcon1 => decodeUpdate defconUpdate (fun _ => .defcon1) bytes
    | .defcon3 => decodeUpdate defconUpdate (fun _ => .defcon3) bytes
    | .safeHarborAddressUpdate => decodeUpdate safeHarborAddressUpdate .safeHarborAddress bytes

end Wire

namespace EnvelopePayload

variable [WireLibs]
open Wire

def intoEnvelopeBytes : EnvelopePayload → Bytes
  | ⟨seqno, action, signatures⟩ =>
    match action with
    | .cancel targetId => encodeWire updateId seqno targetId signatures
    | .update update =>
      match update with
      | .strataAdminMultisig u => encodeWire multisigUpdate seqno u signatures
      | .strataSeqManagerMultisig u => encodeWire multisigUpdate seqno u signatures
      | .alpenAdminMultisig u => encodeWire multisigUpdate seqno u signatures
      | .strataSecurityCouncilMultisig u => encodeWire multisigUpdate seqno u signatures
      | .operatorSet addMembers removeMembers =>
        encodeWire operatorSetUpdate seqno (addMembers, removeMembers) signatures
      | .sequencer u => encodeWire sequencerUpdate seqno u signatures
      | .olStfVk u => encodeWire stfVkUpdate seqno u signatures
      | .asmStfVk u => encodeWire stfVkUpdate seqno u signatures
      | .eeStfVk u => encodeWire stfVkUpdate seqno u signatures
      | .defcon1 => encodeWire defconUpdate seqno () signatures
      | .defcon3 => encodeWire defconUpdate seqno () signatures
      | .safeHarborAddress u => encodeWire safeHarborAddressUpdate seqno u signatures

end EnvelopePayload

def EnvelopeAction.txType : EnvelopeAction → AdminTxType
  | cancel _ => .cancel
  | update action => .update action.updateTxType

def MultisigAction.toEnvelope : MultisigAction → EnvelopeAction
  | cancel targetId _ => .cancel targetId
  | update action => .update action

namespace SignedPayload

def toEnvelope (payload : SignedPayload) : EnvelopePayload :=
  ⟨payload.seqno, payload.action.toEnvelope, payload.signatures⟩

def intoEnvelopeBytes [WireLibs] (payload : SignedPayload) :
    Bytes := payload.toEnvelope.intoEnvelopeBytes

end SignedPayload

/-! ### Values of the wire types -/

section

variable [WireLibs]

/-- The values that the types of the source can hold, where the model's are wider. -/
def UpdateAction.Typed : UpdateAction → Prop
  | strataAdminMultisig _ | strataSeqManagerMultisig _ | alpenAdminMultisig _
  | strataSecurityCouncilMultisig _ | defcon1 | defcon3 => True
  | operatorSet addMembers removeMembers =>
    (∀ key ∈ addMembers, WireLibs.validKey key) ∧ ∀ index ∈ removeMembers, index < 256 ^ 4
  | sequencer pubKey => WireLibs.validKey pubKey
  | olStfVk key | asmStfVk key | eeStfVk key =>
    key.typeId < 256 ^ 1 ∧ key.condition.length ≤ Wire.maxConditionLen
  | safeHarborAddress address =>
    WireLibs.validDescriptor address.descriptor ∧ WireLibs.isP2tr address.descriptor

def MultisigAction.Typed : MultisigAction → Prop
  | cancel targetId _ => targetId < 256 ^ 4
  | update action => action.Typed

structure SignedPayload.Typed (payload : SignedPayload) : Prop where
  seqno : payload.seqno < 256 ^ 8
  action : payload.action.Typed
  indices : ∀ sig ∈ payload.signatures, sig.index < 256 ^ 1
  bounded : payload.signatures.length ≤ maxSigners

end

/-! ### Sizes -/

namespace Wire

theorem predicateKey_size (key : PredicateKey) :
    (predicateKey.encode key).length = 5 + key.condition.length := by
  simp [predicateKey, offsetLen]
  omega

theorem signatureSet_size (signatures : List IndexedSignature) :
    (signatureSet.encode signatures).length = 4 + 66 * signatures.length := by
  have fixed : indexedSignature.fixedLen = some 66 := rfl
  have each : ∀ sig : IndexedSignature, (indexedSignature.encode sig).length = 66 := by
    intro sig
    simp [indexedSignature, sig.size]
  simp [signatureSet, Codec.single, Codec.variableList, fixed, each, offsetLen]
  omega

theorem operatorSetUpdate_size [WireLibs] (addMembers : List Buf32) (removeMembers : List Nat) :
    (operatorSetUpdate.encode (addMembers, removeMembers)).length =
      8 + 32 * addMembers.length + 4 * removeMembers.length := by
  simp [operatorSetUpdate, evenPublicKey, Buf32.size, offsetLen]
  omega

theorem encodeWire_size {A : Type} (codec : Codec A) (seqno : Nat) (action : A)
    (signatures : List IndexedSignature) : (encodeWire codec seqno action signatures).length =
      16 + fieldSize (codec.fixedLen, codec.encode action) + 66 * signatures.length := by
  have signed : signatureSet.fixedLen = none := rfl
  simp [encodeWire, signedActionPayload, signed, signatureSet_size, offsetLen]
  omega

/-! ### Reading back -/

theorem p2wpkhAddress_lawful : p2wpkhAddress.Lawful fun _ => True :=
  (Codec.byteVector_lawful 20).via (fun address _ => address.size) fun address _ => dif_pos address.size

theorem nonZeroU8_lawful : nonZeroU8.Lawful fun _ => True :=
  (Codec.uint_lawful 1).via (fun value _ => value.property.2) fun value _ => dif_pos value.property

theorem memberList_lawful : memberList.Lawful fun members =>
    (∀ member ∈ members, True) ∧ members.length ≤ maxSigners :=
  p2wpkhAddress_lawful.variableList (by decide) maxSigners

theorem thresholdConfigUpdate_lawful : thresholdConfigUpdate.Lawful fun _ => True := by
  have fields := ((Fields.nil_lawful.cons nonZeroU8_lawful).cons memberList_lawful).cons
    memberList_lawful
  refine fields.container.via ?_ ?_
  · intro config _
    exact ⟨⟨fun _ _ => trivial, config.addBounded⟩, ⟨fun _ _ => trivial, config.removeBounded⟩, trivial,
      trivial⟩
  · intro config _
    simp only [ThresholdConfigUpdate.tryNew, dif_pos config.addBounded, dif_pos config.removeBounded]
    rfl

theorem indexedSignature_lawful : indexedSignature.Lawful fun sig => sig.index < 256 ^ 1 := by
  have fields := (Fields.nil_lawful.cons (Codec.byteVector_lawful 65)).cons (Codec.uint_lawful 1)
  exact fields.container.via (fun sig bound => ⟨bound, sig.size, trivial⟩) fun sig _ => dif_pos sig.size

theorem signatureSet_lawful : signatureSet.Lawful fun signatures =>
    (∀ sig ∈ signatures, sig.index < 256 ^ 1) ∧ signatures.length ≤ maxSigners :=
  (indexedSignature_lawful.variableList (by decide) maxSigners).single

theorem predicateKey_lawful : predicateKey.Lawful fun key =>
    key.typeId < 256 ^ 1 ∧ key.condition.length ≤ maxConditionLen := by
  have fields := (Fields.nil_lawful.cons (Codec.byteList_lawful maxConditionLen)).cons
    (Codec.uint_lawful 1)
  exact fields.container.via (fun key typed => ⟨typed.1, typed.2, trivial⟩) fun key _ => rfl

theorem predicateKey_accepts : predicateKey.Accepts fun key =>
    key.condition.length ≤ maxConditionLen := by
  have fields := (Fields.nil_accepts.cons (Codec.byteList_accepts maxConditionLen)).cons
    (Codec.uint 1).accepts_any
  refine fields.container.via _ ?_
  rintro value key ⟨-, bounded, -⟩ read
  cases read
  exact bounded

/-- A payload is read back from its bytes by the codec of its action. -/
theorem decodeWire_encodeWire {A : Type} {codec : Codec A} {valid : A → Prop}
    (lawful : codec.Lawful valid) {seqno : Nat} {action : A} {signatures : List IndexedSignature}
    (small : seqno < 256 ^ 8) (isValid : valid action)
    (signed : (∀ sig ∈ signatures, sig.index < 256 ^ 1) ∧ signatures.length ≤ maxSigners)
    (fits : (encodeWire codec seqno action signatures).length < offsetBound) :
    decodeWire codec (encodeWire codec seqno action signatures) = some ⟨seqno, action, signatures⟩ := by
  have fields := ((Fields.nil_lawful.cons signatureSet_lawful).cons lawful).cons (Codec.uint_lawful 8)
  have payload : (signedActionPayload codec).Lawful fun payload => payload.seqno < 256 ^ 8 ∧
      valid payload.action ∧ ((∀ sig ∈ payload.signatures, sig.index < 256 ^ 1) ∧
        payload.signatures.length ≤ maxSigners) ∧ True :=
    fields.container.via (fun _ typed => typed) fun _ _ => rfl
  exact payload.decode_encode ⟨small, isValid, signed, trivial⟩ fits

theorem decodeUpdate_encodeWire {A : Type} {codec : Codec A} {valid : A → Prop}
    (lawful : codec.Lawful valid) (into : A → UpdateAction) (action : A) {seqno : Nat}
    {signatures : List IndexedSignature} (small : seqno < 256 ^ 8) (isValid : valid action)
    (signed : (∀ sig ∈ signatures, sig.index < 256 ^ 1) ∧ signatures.length ≤ maxSigners)
    (fits : (encodeWire codec seqno action signatures).length < offsetBound) :
    decodeUpdate codec into (encodeWire codec seqno action signatures) =
      some ⟨seqno, .update (into action), signatures⟩ := by
  rw [decodeUpdate, decodeWire_encodeWire lawful small isValid signed fits]
  rfl

theorem decodeUpdate_accepts {A : Type} {codec : Codec A} {valid : A → Prop} (accepts : codec.Accepts valid)
    {into : A → UpdateAction} {bytes : Bytes} {payload : EnvelopePayload}
    (read : decodeUpdate codec into bytes = some payload) :
    ∃ action, valid action ∧ payload.action = .update (into action) := by
  obtain ⟨wire, decoded, rfl⟩ := Option.map_eq_some_iff.mp read
  have fields := ((Fields.nil_accepts.cons signatureSet.accepts_any).cons accepts).cons
    (Codec.uint 8).accepts_any
  have wires : (signedActionPayload codec).Accepts fun wire => valid wire.action := by
    refine fields.container.via _ ?_
    rintro value wire ⟨-, isValid, -⟩ read
    cases read
    exact isValid
  exact ⟨wire.action, wires _ _ decoded, rfl⟩

section

variable [WireLibs]

theorem tupleStruct_lawful {α : Type} {codec : Codec α} {valid : α → Prop}
    (lawful : codec.Lawful valid) :
    (tupleStruct codec).Lawful valid := by
  unfold tupleStruct
  split
  · exact lawful
  · exact lawful.single

theorem stfVkUpdate_accepts : stfVkUpdate.Accepts fun key =>
    key.condition.length ≤ maxConditionLen := by
  unfold stfVkUpdate tupleStruct
  split
  · exact predicateKey_accepts
  · refine (Fields.nil_accepts.cons predicateKey_accepts).container.via _ ?_
    rintro value key ⟨bounded, -⟩ read
    cases read
    exact bounded

theorem evenPublicKey_lawful : evenPublicKey.Lawful fun key => WireLibs.validKey key := by
  refine (Codec.byteVector_lawful 32).via (fun key _ => key.size) ?_
  intro key isValid
  rw [Buf32.ofSlice, dif_pos key.size]
  exact Option.filter_some_pos isValid

theorem operatorSetUpdate_lawful : operatorSetUpdate.Lawful fun update =>
    (∀ key ∈ update.1, WireLibs.validKey key) ∧ ∀ index ∈ update.2, index < 256 ^ 4 := by
  have indices := (Codec.uint_lawful 4).list (by decide)
  have long : evenPublicKey.fixedLen ≠ some 0 := by
    show some 32 ≠ some 0
    decide
  have fields := (Fields.nil_lawful.cons indices).cons (evenPublicKey_lawful.list long)
  exact fields.container.via (fun update typed => ⟨typed.1, typed.2, trivial⟩) fun _ _ => rfl

theorem safeHarborAddress_lawful (libs : WireLibs.Lawful) : safeHarborAddress.Lawful fun address =>
    WireLibs.validDescriptor address.descriptor ∧ WireLibs.isP2tr address.descriptor :=
  (tupleStruct_lawful libs.descriptor).via (fun _ typed => typed.1) fun _ typed => if_pos typed.2

theorem decodeSignedPayload_own (libs : WireLibs.Lawful) {payload : SignedPayload}
    (typed : payload.Typed) (fits : payload.intoEnvelopeBytes.length < offsetBound) :
    decodeSignedPayload payload.action.txType payload.intoEnvelopeBytes = some payload.toEnvelope := by
  obtain ⟨small, isValid, indices, bounded⟩ := typed
  obtain ⟨seqno, action, signatures⟩ := payload
  have multisig := tupleStruct_lawful thresholdConfigUpdate_lawful
  have stfVk := tupleStruct_lawful predicateKey_lawful
  have defcon := Fields.nil_lawful.container
  cases action with
  | cancel targetId update =>
    have wire := decodeWire_encodeWire (Codec.uint_lawful 4) small isValid ⟨indices, bounded⟩ fits
    show (decodeWire updateId (encodeWire updateId _ _ _)).map _ = _
    rw [updateId, wire]
    rfl
  | update update =>
    cases update with
    | strataAdminMultisig config | strataSeqManagerMultisig config | alpenAdminMultisig config
    | strataSecurityCouncilMultisig config =>
      exact decodeUpdate_encodeWire multisig _ config small trivial ⟨indices, bounded⟩ fits
    | operatorSet addMembers removeMembers =>
      exact decodeUpdate_encodeWire operatorSetUpdate_lawful
        (fun update => .operatorSet update.1 update.2)
        (addMembers, removeMembers) small isValid ⟨indices, bounded⟩ fits
    | sequencer key =>
      exact decodeUpdate_encodeWire evenPublicKey_lawful.single _ key small isValid
        ⟨indices, bounded⟩ fits
    | olStfVk key | asmStfVk key | eeStfVk key =>
      exact decodeUpdate_encodeWire stfVk _ key small isValid ⟨indices, bounded⟩ fits
    | defcon1 =>
      exact decodeUpdate_encodeWire defcon (fun _ => .defcon1) () small trivial ⟨indices, bounded⟩ fits
    | defcon3 =>
      exact decodeUpdate_encodeWire defcon (fun _ => .defcon3) () small trivial ⟨indices, bounded⟩ fits
    | safeHarborAddress address =>
      exact decodeUpdate_encodeWire (safeHarborAddress_lawful libs).single _ address small isValid
        ⟨indices, bounded⟩ fits

/-! ### Reading under another type -/

theorem decodeSignedPayload_txType {adminTxType : AdminTxType} {bytes : Bytes}
    {payload : EnvelopePayload} (decoded : decodeSignedPayload adminTxType bytes = some payload) :
    payload.action.txType = adminTxType := by
  cases adminTxType with
  | cancel =>
    obtain ⟨wire, -, rfl⟩ := Option.map_eq_some_iff.mp decoded
    rfl
  | update updateType =>
    cases updateType <;>
    · obtain ⟨wire, -, rfl⟩ := Option.map_eq_some_iff.mp decoded
      rfl

end
end Wire

theorem EnvelopePayload.resolve_txType {payload : EnvelopePayload}
    {findQueued : Nat → Option UpdateAction} {resolved : SignedPayload}
    (h : payload.resolve findQueued = .ok resolved) :
    resolved.action.txType = payload.action.txType := by
  obtain ⟨seqno, action, signatures⟩ := payload
  cases action with
  | cancel targetId =>
    simp only [resolve] at h
    split at h
    · cases h
    · cases h
      rfl
  | update update =>
    cases h
    rfl

/-- An envelope read under the type of its action gives the payload back. Read under any other type,
it gives no payload, or one whose signing message is not the message that was signed. -/
theorem admin_wire_format [AdminLibs] (libs : WireLibs.Lawful) (payload : SignedPayload)
    (typed : payload.Typed) :
    (payload.intoEnvelopeBytes.length < offsetBound →
      Wire.decodeSignedPayload payload.action.txType payload.intoEnvelopeBytes =
        some payload.toEnvelope) ∧
    ∀ adminTxType ≠ payload.action.txType, ∀ decoded,
      Wire.decodeSignedPayload adminTxType payload.intoEnvelopeBytes = some decoded →
      ∀ findQueued resolved, decoded.resolve findQueued = .ok resolved → ∀ network signedFor,
        SigningMessage.forAction resolved.action resolved.seqno network ≠
          SigningMessage.forAction payload.action payload.seqno signedFor := by
  refine ⟨Wire.decodeSignedPayload_own libs typed, ?_⟩
  intro adminTxType different decoded read findQueued resolved found network signedFor same
  obtain ⟨-, sameType, -, -⟩ := SigningMessage.forAction_header same
  apply different
  rw [← Wire.decodeSignedPayload_txType read, ← EnvelopePayload.resolve_txType found, sameType]

section

attribute [local instance] sampleAdminLibs

theorem sampleWireLibs_lawful : WireLibs.Lawful where
  descriptor := Codec.byteString_lawful.via (fun _ _ => trivial) fun _ _ => rfl

def sampleEnvelope (payload : EnvelopePayload) : Bytes := payload.intoEnvelopeBytes

def sampleConfigUpdate : ThresholdConfigUpdate :=
  ⟨[⟨List.replicate 20 3, rfl⟩], [], sampleQuorum, by decide, by decide⟩

def sampleSignedPayload : SignedPayload :=
  ⟨3, .update (.strataAdminMultisig sampleConfigUpdate), [sampleSignature 5]⟩

/-- The multisig updates share one layout, so an update of one multisig can be read as that of
another. -/
theorem admin_wire_format_sample :
    sampleSignedPayload.Typed ∧
    Wire.decodeSignedPayload sampleSignedPayload.action.txType sampleSignedPayload.intoEnvelopeBytes =
      some sampleSignedPayload.toEnvelope ∧
    ∃ decoded resolved,
      Wire.decodeSignedPayload (.update .alpenAdminMultisigUpdate)
        sampleSignedPayload.intoEnvelopeBytes =
        some decoded ∧
      decoded.resolve (fun _ => none) = .ok resolved ∧ ∀ network signedFor,
        SigningMessage.forAction resolved.action resolved.seqno network ≠
          SigningMessage.forAction sampleSignedPayload.action sampleSignedPayload.seqno signedFor := by
  have typed : sampleSignedPayload.Typed := ⟨by decide, trivial, by decide, by decide⟩
  obtain ⟨own, others⟩ := admin_wire_format sampleWireLibs_lawful sampleSignedPayload typed
  have read : Wire.decodeSignedPayload (.update .alpenAdminMultisigUpdate)
      sampleSignedPayload.intoEnvelopeBytes =
        some ⟨3, .update (.alpenAdminMultisig sampleConfigUpdate), [sampleSignature 5]⟩ := by
          decide +kernel
  exact ⟨typed, own (by decide +kernel), _, _, read, rfl,
    others _ (by decide) _ read (fun _ => none) _ rfl⟩

end
end Asm
