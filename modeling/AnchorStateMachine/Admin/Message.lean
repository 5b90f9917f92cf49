import AnchorStateMachine.Admin.Types
import AnchorStateMachine.Library.Lines

/-! What a signing message says. Its lines can be read back, so that it stands for one action at one
sequence number on one network. -/

namespace Asm
open Lines

/-! ### Names -/

theorem Network.name_inj {network other : Network} (same : network.name = other.name) :
    network = other := by
  cases network <;> cases other <;> first | rfl | exact absurd same (by decide)

theorem Network.name_plain (network : Network) : Plain network.name := by
  cases network <;> decide

theorem Role.name_inj {role other : Role} (same : role.name = other.name) : role = other := by
  cases role <;> cases other <;> first | rfl | exact absurd same (by decide)

theorem Role.name_plain (role : Role) : Plain role.name := by
  cases role <;> decide

theorem UpdateTxType.name_inj {txType other : UpdateTxType} (same : txType.name = other.name) :
    txType = other := by
  cases txType <;> cases other <;> first | rfl | exact absurd same (by decide)

theorem UpdateTxType.name_plain (txType : UpdateTxType) : Plain txType.name := by
  cases txType <;> decide

theorem AdminTxType.name_inj {txType other : AdminTxType} (same : txType.name = other.name) :
    txType = other := by
  have notCancel : ∀ txType : UpdateTxType, txType.name ≠ "Cancel" := by
    intro txType
    cases txType <;> decide
  cases txType with
  | cancel =>
    cases other with
    | cancel => rfl
    | update other => exact absurd same.symm (notCancel other)
  | update txType =>
    cases other with
    | cancel => exact absurd same (notCancel txType)
    | update other => rw [UpdateTxType.name_inj same]

theorem AdminTxType.name_plain (txType : AdminTxType) : Plain txType.name := by
  cases txType with
  | cancel => decide
  | update txType => exact txType.name_plain

/-! ### Hexadecimal -/

theorem digitChar_inj : ∀ a < 16, ∀ b < 16, Nat.digitChar a = Nat.digitChar b → a = b := by decide

theorem digitChar_plain : ∀ a < 16, Nat.digitChar a ≠ '\n' := by decide

theorem hexEncode_inj {bytes others : Bytes} (same : hexEncode bytes = hexEncode others) :
    bytes = others := by
  have digits := String.ofList_inj.mp same
  clear same
  induction bytes generalizing others with
  | nil =>
    cases others with
    | nil => rfl
    | cons other others => cases digits
  | cons byte bytes ih =>
    cases others with
    | nil => cases digits
    | cons other others =>
      simp only [List.flatMap_cons, List.cons_append, List.nil_append, List.cons.injEq] at digits
      obtain ⟨high, low, rest⟩ := digits
      have high := digitChar_inj _ (by have := byte.toNat_lt; omega) _
          (by have := other.toNat_lt; omega) high
      have low := digitChar_inj _ (by omega) _ (by omega) low
      have same : byte = other := UInt8.toNat_inj.mp (by omega)
      rw [same, ih rest]

theorem hexEncode_plain (bytes : Bytes) : Plain (hexEncode bytes) := by
  intro mem
  rw [hexEncode, String.toList_ofList, List.mem_flatMap] at mem
  obtain ⟨byte, -, isDigit⟩ := mem
  have bound := byte.toNat_lt
  rcases List.mem_cons.mp isDigit with high | low
  · exact digitChar_plain _ (by omega) high.symm
  · exact digitChar_plain _ (by omega) (List.mem_singleton.mp low).symm

/-! ### Lists of fields -/

theorem appendIndexedFields_inj {countLabel itemLabel : String} {values others rest more : List String}
    (same : appendIndexedFields countLabel itemLabel values ++ rest =
      appendIndexedFields countLabel itemLabel others ++ more) : values = others ∧ rest = more := by
  simp only [appendIndexedFields, List.cons_append, List.cons.injEq] at same
  obtain ⟨count, fields⟩ := same
  have length : values.length = others.length := toString_nat_inj ((String.append_right_inj _).mp count)
  obtain ⟨lines, rest⟩ := List.append_inj fields (by simp [length])
  refine ⟨List.ext_getElem length fun i _ _ => ?_, rest⟩
  have line := List.getElem_of_eq lines (i := i) (by simpa)
  rw [List.getElem_mapIdx, List.getElem_mapIdx] at line
  exact (String.append_right_inj _).mp line

theorem appendIndexedFields_inj_last {countLabel itemLabel : String} {values others : List String}
    (same : appendIndexedFields countLabel itemLabel values =
      appendIndexedFields countLabel itemLabel others) : values = others :=
  (appendIndexedFields_inj (congrArg (· ++ []) same)).1

theorem appendIndexedFields_plain {countLabel itemLabel : String} {values : List String}
    (count : Plain countLabel) (item : Plain itemLabel) (plain : ∀ value ∈ values, Plain value) :
    ∀ line ∈ appendIndexedFields countLabel itemLabel values, Plain line := by
  intro line mem
  rcases List.mem_cons.mp mem with rfl | mem
  · exact plain_append (plain_append count (by decide)) (plain_nat _)
  · obtain ⟨i, bound, rfl⟩ := List.mem_mapIdx.mp mem
    refine plain_append (plain_append (plain_append (plain_append (plain_nat _) ?_) item) ?_)
      (plain _ (List.getElem_mem bound)) <;> decide

/-! ### Header -/

namespace SigningMessage

def header (action : MultisigAction) (seqno : Nat) (network : Network) : List String :=
  ["Strata ASM Administration v1", "Network: " ++ network.name, "Action: " ++ action.txType.name,
    "Authorized By: " ++ action.requiredRole.name, "Sequence: " ++ toString seqno]

theorem header_plain (action : MultisigAction) (seqno : Nat) (network : Network) :
    ∀ line ∈ header action seqno network, Plain line := by
  intro line mem
  simp only [header, List.mem_cons, List.not_mem_nil, or_false] at mem
  rcases mem with rfl | rfl | rfl | rfl | rfl
  · decide
  · exact plain_append (by decide) network.name_plain
  · exact plain_append (by decide) action.txType.name_plain
  · exact plain_append (by decide) action.requiredRole.name_plain
  · exact plain_append (by decide) (plain_nat seqno)

theorem header_inj {action other : MultisigAction} {seqno otherSeqno : Nat}
    {network otherNetwork : Network}
    (same : header action seqno network = header other otherSeqno otherNetwork) :
    network = otherNetwork ∧ action.txType = other.txType ∧ action.requiredRole = other.requiredRole ∧
      seqno = otherSeqno := by
  simp only [header, List.cons.injEq, true_and, and_true] at same
  obtain ⟨networks, types, roles, seqnos⟩ := same
  exact ⟨Network.name_inj ((String.append_right_inj _).mp networks),
    AdminTxType.name_inj ((String.append_right_inj _).mp types),
    Role.name_inj ((String.append_right_inj _).mp roles),
    toString_nat_inj ((String.append_right_inj _).mp seqnos)⟩

end SigningMessage

/-! ### Details -/

/-- Addresses and predicate types are displayed on one line, and differently from each other. -/
structure FaithfulDisplay [AdminLibs] : Prop where
  member_inj : ∀ network, Function.Injective (AdminLibs.displayMember network)
  member_plain : ∀ network member, Plain (AdminLibs.displayMember network member)
  safeHarbor_inj : ∀ network, Function.Injective (AdminLibs.displaySafeHarbor network)
  safeHarbor_plain : ∀ network address, Plain (AdminLibs.displaySafeHarbor network address)
  typeName_inj : ∀ typeId other name, AdminLibs.predicateTypeName typeId = some name →
    AdminLibs.predicateTypeName other = some name → typeId = other
  typeName_plain : ∀ typeId name, AdminLibs.predicateTypeName typeId = some name → Plain name
  typeName_known : ∀ typeId name (n : Nat), AdminLibs.predicateTypeName typeId = some name →
    name ≠ "unknown (" ++ toString n ++ ")"

def UpdateAction.predicateKey : UpdateAction → Option PredicateKey
  | olStfVk key | asmStfVk key | eeStfVk key => some key
  | _ => none

def MultisigAction.target : MultisigAction → UpdateAction
  | cancel _ action | update action => action

/-- The hash tells the conditions of the verifying keys of two updates apart. -/
def ConditionsDistinct [Sha256] (action other : UpdateAction) : Prop :=
  ∀ key ∈ action.predicateKey, ∀ otherKey ∈ other.predicateKey,
    sha256 key.condition = sha256 otherKey.condition → key.condition = otherKey.condition

/-- The same action, where two cancels may name different targets. -/
def MultisigAction.SameUpToTarget : MultisigAction → MultisigAction → Prop
  | cancel _ action, cancel _ other => action = other
  | update action, update other => action = other
  | _, _ => False

section

variable [AdminLibs]

namespace Render

theorem multisig_inj (display : FaithfulDisplay) {network : Network}
    {config other : ThresholdConfigUpdate}
    (same : multisig network config = multisig network other) : config = other := by
  simp only [multisig, List.cons_append, List.cons.injEq] at same
  obtain ⟨threshold, fields⟩ := same
  have threshold : config.newThreshold = other.newThreshold :=
    Subtype.ext (toString_nat_inj ((String.append_right_inj _).mp threshold))
  obtain ⟨added, rest⟩ := appendIndexedFields_inj fields
  have removed := appendIndexedFields_inj_last rest
  have added := List.map_injective_iff.mpr (display.member_inj network) added
  have removed := List.map_injective_iff.mpr (display.member_inj network) removed
  obtain ⟨_, _, _, _, _⟩ := config
  obtain ⟨_, _, _, _, _⟩ := other
  cases threshold
  cases added
  cases removed
  rfl

theorem multisig_plain (display : FaithfulDisplay) (network : Network) (config : ThresholdConfigUpdate) :
    ∀ line ∈ multisig network config, Plain line := by
  have members : ∀ members : List P2wpkhAddress,
      ∀ value ∈ members.map (AdminLibs.displayMember network), Plain value := by
    intro members value mem
    obtain ⟨member, -, rfl⟩ := List.mem_map.mp mem
    exact display.member_plain network member
  intro line mem
  rcases List.mem_append.mp mem with mem | mem
  · rcases List.mem_cons.mp mem with rfl | mem
    · exact plain_append (by decide) (plain_nat _)
    · exact appendIndexedFields_plain (by decide) (by decide) (members _) line mem
  · exact appendIndexedFields_plain (by decide) (by decide) (members _) line mem

def typeName (typeId : Nat) : String :=
  match AdminLibs.predicateTypeName typeId with
  | some name => name
  | none => "unknown (" ++ toString typeId ++ ")"

theorem typeName_inj (display : FaithfulDisplay) {typeId other : Nat}
    (same : typeName typeId = typeName other) : typeId = other := by
  unfold typeName at same
  split at same
  · rename_i name known
    split at same
    · rename_i otherName otherKnown
      subst same
      exact display.typeName_inj _ _ _ known otherKnown
    · exact absurd same (display.typeName_known _ _ _ known)
  · split at same
    · rename_i otherName otherKnown
      exact absurd same.symm (display.typeName_known _ _ _ otherKnown)
    · exact toString_nat_inj ((String.append_right_inj _).mp ((String.append_left_inj _).mp same))

theorem typeName_plain (display : FaithfulDisplay) (typeId : Nat) : Plain (typeName typeId) := by
  unfold typeName
  split
  · rename_i name known
    exact display.typeName_plain _ _ known
  · exact plain_append (plain_append (by decide) (plain_nat _)) (by decide)

theorem predicate_inj (display : FaithfulDisplay) {key other : PredicateKey}
    (distinct : sha256 key.condition = sha256 other.condition → key.condition = other.condition)
    (same : predicate key = predicate other) : key = other := by
  obtain ⟨typeId, condition⟩ := key
  obtain ⟨otherId, otherCondition⟩ := other
  obtain ⟨types, lines⟩ := List.cons.inj same
  obtain ⟨line, -⟩ := List.cons.inj lines
  have types : typeId = otherId := typeName_inj display ((String.append_right_inj _).mp types)
  -- A condition shown in full does not look like a hashed one.
  have forms : ∀ hex hash : String, "Predicate Hex: " ++ hex ≠ "Predicate Hash: " ++ hash := by
    intro hex hash mixed
    have start := congrArg (fun line => line.toList.take 12) mixed
    simp at start
  have conditions : condition = otherCondition := by
    dsimp only at line distinct
    split at line
    · split at line
      · exact hexEncode_inj ((String.append_right_inj _).mp line)
      · exact absurd line (forms _ _)
    · split at line
      · exact absurd line.symm (forms _ _)
      · exact distinct (Buf32.ext (hexEncode_inj ((String.append_right_inj _).mp line)))
  rw [types, conditions]

theorem predicate_plain (display : FaithfulDisplay) (key : PredicateKey) :
    ∀ line ∈ predicate key, Plain line := by
  intro line mem
  rcases List.mem_cons.mp mem with rfl | mem
  · exact plain_append (by decide) (typeName_plain display key.typeId)
  · rw [List.mem_singleton.mp mem]
    split <;> exact plain_append (by decide) (hexEncode_plain _)

end Render

theorem UpdateAction.renderDetails_inj (display : FaithfulDisplay) {network : Network}
    {action other : UpdateAction} (distinct : ConditionsDistinct action other)
    (sameType : action.updateTxType = other.updateTxType)
    (same : action.renderDetails network = other.renderDetails network) : action = other := by
  cases action <;> cases other <;> cases sameType
  case strataAdminMultisig.strataAdminMultisig | strataSeqManagerMultisig.strataSeqManagerMultisig
    | alpenAdminMultisig.alpenAdminMultisig
    | strataSecurityCouncilMultisig.strataSecurityCouncilMultisig =>
    rw [Render.multisig_inj display same]
  case olStfVk.olStfVk | asmStfVk.asmStfVk | eeStfVk.eeStfVk =>
    rw [Render.predicate_inj display (distinct _ rfl _ rfl) same]
  case operatorSet.operatorSet =>
    obtain ⟨added, rest⟩ := appendIndexedFields_inj same
    have removed := appendIndexedFields_inj_last rest
    have keyInj : Function.Injective fun key : Buf32 => hexEncode key.bytes :=
      fun key other same => Buf32.ext (hexEncode_inj same)
    rw [List.map_injective_iff.mpr keyInj added,
      List.map_injective_iff.mpr (fun _ _ => toString_nat_inj) removed]
  case sequencer.sequencer =>
    rw [Buf32.ext (hexEncode_inj ((String.append_right_inj _).mp (List.cons.inj same).1))]
  case safeHarborAddress.safeHarborAddress =>
    rw [display.safeHarbor_inj network ((String.append_right_inj _).mp (List.cons.inj same).1)]
  all_goals rfl

theorem UpdateAction.renderDetails_plain (display : FaithfulDisplay) (network : Network)
    (action : UpdateAction) : ∀ line ∈ action.renderDetails network, Plain line := by
  cases action with
  | strataAdminMultisig config | strataSeqManagerMultisig config | alpenAdminMultisig config
  | strataSecurityCouncilMultisig config => exact Render.multisig_plain display network config
  | olStfVk key | asmStfVk key | eeStfVk key => exact Render.predicate_plain display key
  | operatorSet addMembers removeMembers =>
    intro line mem
    rcases List.mem_append.mp mem with mem | mem
    · refine appendIndexedFields_plain (by decide) (by decide) (fun value mem => ?_) line mem
      obtain ⟨key, -, rfl⟩ := List.mem_map.mp mem
      exact hexEncode_plain key.bytes
    · refine appendIndexedFields_plain (by decide) (by decide) (fun value mem => ?_) line mem
      obtain ⟨index, -, rfl⟩ := List.mem_map.mp mem
      exact plain_nat index
  | sequencer pubKey =>
    intro line mem
    rw [List.mem_singleton.mp mem]
    exact plain_append (by decide) (hexEncode_plain _)
  | safeHarborAddress address =>
    intro line mem
    rw [List.mem_singleton.mp mem]
    exact plain_append (by decide) (display.safeHarbor_plain network address)
  | defcon1 | defcon3 => exact nofun

theorem MultisigAction.renderDetails_inj (display : FaithfulDisplay) {network : Network}
    {action other : MultisigAction} (distinct : ConditionsDistinct action.target other.target)
    (sameType : action.txType = other.txType)
    (same : action.renderDetails network = other.renderDetails network) :
    action.SameUpToTarget other := by
  cases action with
  | cancel targetId action =>
    cases other with
    | cancel otherId other =>
      obtain ⟨types, details⟩ := List.cons.inj same
      exact UpdateAction.renderDetails_inj display distinct
        (UpdateTxType.name_inj ((String.append_right_inj _).mp types)) details
    | update other => cases sameType
  | update action =>
    cases other with
    | cancel otherId other => cases sameType
    | update other =>
      exact UpdateAction.renderDetails_inj display distinct (AdminTxType.update.inj sameType) same

theorem MultisigAction.renderDetails_plain (display : FaithfulDisplay) (network : Network)
    (action : MultisigAction) : ∀ line ∈ action.renderDetails network, Plain line := by
  cases action with
  | cancel targetId action =>
    intro line mem
    rcases List.mem_cons.mp mem with rfl | mem
    · exact plain_append (by decide) action.updateTxType.name_plain
    · exact action.renderDetails_plain display network line mem
  | update action => exact action.renderDetails_plain display network

/-! ### Messages -/

namespace SigningMessage

def body (action : MultisigAction) (network : Network) : List String :=
  let details := (action.renderDetails network).map fun line => "  " ++ line
  if details.isEmpty then [] else "Action Details:" :: details

theorem forAction_eq (action : MultisigAction) (seqno : Nat) (network : Network) :
    forAction action seqno network = "\n".intercalate
      (header action seqno network ++ body action network) := by
  simp only [forAction, body]
  split <;> rfl

theorem forAction_header {action other : MultisigAction} {seqno otherSeqno : Nat}
    {network otherNetwork : Network}
    (same : forAction action seqno network = forAction other otherSeqno otherNetwork) :
    network = otherNetwork ∧ action.txType = other.txType ∧ action.requiredRole = other.requiredRole ∧
      seqno = otherSeqno := by
  rw [forAction_eq, forAction_eq] at same
  have first := read_take (header_plain action seqno network) (body action network) nofun
  have second := read_take (header_plain other otherSeqno otherNetwork) (body other otherNetwork) nofun
  rw [same] at first
  have lines := first.symm.trans second
  exact header_inj (List.map_injective_iff.mpr (fun _ _ => String.toList_inj.mp) lines)

theorem body_plain (display : FaithfulDisplay) (action : MultisigAction) (network : Network) :
    ∀ line ∈ body action network, Plain line := by
  intro line mem
  simp only [body] at mem
  split at mem
  · cases mem
  · rcases List.mem_cons.mp mem with rfl | mem
    · decide
    · obtain ⟨detail, isDetail, rfl⟩ := List.mem_map.mp mem
      exact plain_append (by decide) (action.renderDetails_plain display network detail isDetail)

theorem body_inj {action other : MultisigAction} {network : Network}
    (same : body action network = body other network) :
    action.renderDetails network = other.renderDetails network := by
  have inj : Function.Injective (List.map fun line => "  " ++ line) :=
    List.map_injective_iff.mpr fun _ _ => (String.append_right_inj _).mp
  simp only [body] at same
  split at same
  · rename_i empty
    split at same
    · rename_i otherEmpty
      exact inj ((List.isEmpty_iff.mp empty).trans (List.isEmpty_iff.mp otherEmpty).symm)
    · cases same
  · split at same
    · cases same
    · exact inj (List.cons.inj same).2

theorem forAction_inj (display : FaithfulDisplay) {action other : MultisigAction}
    {seqno otherSeqno : Nat} {network otherNetwork : Network}
    (distinct : ConditionsDistinct action.target other.target)
    (same : forAction action seqno network = forAction other otherSeqno otherNetwork) :
    network = otherNetwork ∧ seqno = otherSeqno ∧ action.SameUpToTarget other := by
  obtain ⟨rfl, sameType, -, rfl⟩ := forAction_header same
  refine ⟨rfl, rfl, ?_⟩
  rw [forAction_eq, forAction_eq] at same
  have plain : ∀ action : MultisigAction, ∀ line ∈ header action seqno network ++ body action network,
      Plain line := by
    intro action line mem
    rcases List.mem_append.mp mem with inHeader | inBody
    · exact header_plain action seqno network line inHeader
    · exact body_plain display action network line inBody
  have lines := intercalate_inj (plain action) (plain other) nofun nofun same
  obtain ⟨-, bodies⟩ := List.append_inj lines rfl
  exact MultisigAction.renderDetails_inj display distinct sameType (body_inj bodies)

theorem forAction_congr {action other : MultisigAction} (same : action.SameUpToTarget other)
    (seqno : Nat) (network : Network) :
    forAction action seqno network = forAction other seqno network := by
  cases action with
  | cancel targetId action =>
    cases other with
    | cancel otherId other =>
      cases same
      rfl
    | update other => cases same
  | update action =>
    cases other with
    | cancel otherId other => cases same
    | update other =>
      cases same
      rfl

/-- A message is for one action at one sequence number on one network, but for the id of the update
that a cancel targets. -/
theorem signing_message_injective (display : FaithfulDisplay) {action other : MultisigAction}
    {seqno otherSeqno : Nat} {network otherNetwork : Network}
    (distinct : ConditionsDistinct action.target other.target) :
    forAction action seqno network = forAction other otherSeqno otherNetwork ↔
      network = otherNetwork ∧ seqno = otherSeqno ∧ action.SameUpToTarget other := by
  refine ⟨forAction_inj display distinct, ?_⟩
  rintro ⟨rfl, rfl, same⟩
  exact forAction_congr same seqno network

end SigningMessage

end

/-! ### A concrete display -/

def sampleMember : P2wpkhAddress := ⟨List.replicate 20 0, rfl⟩

def sampleQuorum : NonZeroU8 := ⟨1, by decide⟩

def sampleSignature (byte : UInt8) : IndexedSignature := ⟨0, 0 :: byte :: List.replicate 63 0, rfl⟩

/-- Every key but the zero one is on the curve, and a taproot descriptor starts with its type. -/
@[reducible] def sampleWireLibs : WireLibs where
  validKey key := key ≠ .zero
  descriptor := Ssz.Codec.byteString.via Descriptor.bytes (some ⟨·⟩)
  validDescriptor descriptor := descriptor.bytes.length = 33
  isP2tr descriptor := descriptor.bytes.head? = some 4
  transparent := true

/-- Libraries for concrete runs. A message is hashed to its length, which its signature has to
repeat, and an envelope is its payload. -/
@[reducible] def sampleAdminLibs : AdminLibs where
  toWireLibs := sampleWireLibs
  sha256 bytes := .fill (bytes.getLastD 0)
  displayMember _ member := hexEncode member.program
  displaySafeHarbor _ address := hexEncode address.descriptor.bytes
  predicateTypeName _ := none
  signedMsgHash message := .fill (.ofNat message.length)
  validCompact _ _ := true
  recoverEcdsa hash compact _ := if hash.bytes.head? = compact.head? then some compact else none
  wpubkeyHash _ := sampleMember
  taprootLeafScript witness := witness.head?
  parseEnvelopePayload bytes := some bytes
  systemReservedAccts := 128

section

attribute [local instance] sampleAdminLibs

theorem sampleAdminLibs_faithful : FaithfulDisplay where
  member_inj _ := by
    rintro ⟨program, size⟩ ⟨other, otherSize⟩ same
    cases hexEncode_inj same
    rfl
  member_plain _ member := hexEncode_plain member.program
  safeHarbor_inj _ := by
    rintro ⟨⟨bytes⟩⟩ ⟨⟨others⟩⟩ same
    cases hexEncode_inj same
    rfl
  safeHarbor_plain _ address := hexEncode_plain address.descriptor.bytes
  typeName_inj := nofun
  typeName_plain := nofun
  typeName_known := nofun

theorem SigningMessage.signing_message_injective_sample :
    let action : MultisigAction := .cancel 3 (.olStfVk ⟨1, List.replicate 40 5⟩)
    let other : MultisigAction := .cancel 3 (.olStfVk ⟨1, List.replicate 40 6⟩)
    ConditionsDistinct action.target other.target ∧
      forAction action 1 .regtest ≠ forAction other 1 .regtest := by
  intro action other
  have distinct : ConditionsDistinct action.target other.target := by
    intro key isKey otherKey isOther same
    cases isKey
    cases isOther
    exact absurd same (by decide)
  refine ⟨distinct, fun same => ?_⟩
  obtain ⟨-, -, sameUpdate⟩ := (signing_message_injective sampleAdminLibs_faithful distinct).mp same
  have sameUpdate : action.target = other.target := sameUpdate
  exact absurd sameUpdate (by decide)

end
end Asm
