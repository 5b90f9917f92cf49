import AnchorStateMachine.Bridge.Subprotocol
import AnchorStateMachine.Btc.Header
import AnchorStateMachine.Checkpoint.Subprotocol
import AnchorStateMachine.Stf.Sections

/-! The anchor state: the view of the L1 chain, the history of manifests, and one section for each
subprotocol. -/

namespace Asm

/-! ### Sections -/

/-- The content of a section. What a section encodes is kept in decoded form. -/
inductive SectionData
  | admin (state : AdministrationSubprotoState)
  | checkpoint (state : CheckpointState)
  | bridge (state : BridgeStateV1)
  | malformed
  deriving DecidableEq

/-- What a state is written as. No subprotocol writes a malformed section. -/
def SectionData.asSszBytes [StateLibs] : SectionData → Bytes
  | admin state => Stored.administrationState.encode state
  | checkpoint state => Stored.checkpointState.encode state
  | bridge state => Stored.bridgeState.encode state
  | malformed => []

structure SectionState where
  id : Nat
  version : Nat
  data : SectionData
  deriving DecidableEq

def sectionStateVersion : Nat := 0

def maxSectionStateBytes : Nat := 2 ^ 20

def maxSections : Nat := 256

namespace SectionState

def tryToAdmin (entry : SectionState) : Option AdministrationSubprotoState :=
  match entry with
  | ⟨id, version, .admin state⟩ =>
    if id = adminSubprotocolId ∧ version = sectionStateVersion then some state else none
  | _ => none

def tryToCheckpoint (entry : SectionState) : Option CheckpointState :=
  match entry with
  | ⟨id, version, .checkpoint state⟩ =>
    if id = checkpointSubprotocolId ∧ version = sectionStateVersion then some state else none
  | _ => none

def tryToBridge (entry : SectionState) : Option BridgeStateV1 :=
  match entry with
  | ⟨id, version, .bridge state⟩ =>
    if id = bridgeSubprotocolId ∧ version = sectionStateVersion then some state else none
  | _ => none

end SectionState

/-! ### Manifests -/

structure AsmManifest where
  height : Nat
  blkid : Buf32
  wtxidsRoot : Buf32
  logs : List AsmLogEntry
  deriving DecidableEq

def maxLogsPerManifest : Nat := 2 ^ 10

/-! ### Errors -/

inductive AsmError
  | invalidL1Body (error : L1BodyError)
  | invalidL1Header (error : L1VerificationError)
  | invalidAuxData (error : AuxError)
  | sectionTooLarge (id : Nat)
  | tooManyLogs
  | merkleError
  | tooManySections
  deriving DecidableEq

/-! ### Anchor state -/

/-- All that the state machine takes from other crates. -/
class AsmLibs extends BridgeLibs, CheckpointLibs, AdminLibs, StateLibs, BitcoinLibs,
    MerkleMountainRange where
  tryParseTx : Bytes → Transaction → Option TagData
  manifestHash : AsmManifest → Buf32
  manifestMmrPrefillLeaf : Buf32

structure ChainViewState [MerkleMountainRange] where
  powState : HeaderVerificationState
  historyAccumulator : Mmr

structure AnchorState [MerkleMountainRange] where
  specId : Nat
  magic : Bytes
  chainView : ChainViewState
  sections : List SectionState

instance [MerkleMountainRange] [DecidableEq Mmr] : DecidableEq AnchorState := fun state other =>
  decidable_of_iff (state.specId = other.specId ∧ state.magic = other.magic ∧
    state.chainView.powState = other.chainView.powState ∧
    state.chainView.historyAccumulator = other.chainView.historyAccumulator ∧
      state.sections = other.sections) <| by
    rcases state with ⟨_, _, ⟨_, _⟩, _⟩
    rcases other with ⟨_, _, ⟨_, _⟩, _⟩
    simp [and_assoc]

structure AsmStfOutput [MerkleMountainRange] where
  state : AnchorState
  manifest : AsmManifest

namespace AnchorState

def findSection [MerkleMountainRange] (state : AnchorState) (id : Nat) : Option SectionState :=
  state.sections.find? (·.id = id)

end AnchorState

def SectionState.fromState [StateLibs] (id : Nat) (data : SectionData) : Except AsmError SectionState :=
  if data.asSszBytes.length ≤ maxSectionStateBytes then .ok ⟨id, sectionStateVersion, data⟩
  else .error (.sectionTooLarge id)

def AsmManifest.new (height : Nat) (blkid wtxidsRoot : Buf32) (logs : List AsmLogEntry) :
    Except AsmError AsmManifest :=
  if logs.length ≤ maxLogsPerManifest then .ok ⟨height, blkid, wtxidsRoot, logs⟩
  else .error .tooManyLogs

/-! ### History accumulator -/

namespace HistoryAccumulator

/-- Leaf indices are heights: everything up to the genesis height is prefilled. -/
def new [AsmLibs] (genesisHeight : Nat) : Mmr :=
  MerkleMountainRange.newRepeated AsmLibs.manifestMmrPrefillLeaf (genesisHeight + 1)

def lastInsertedHeight [MerkleMountainRange] (mmr : Mmr) : Exec Nat :=
  if MerkleMountainRange.numEntries mmr = 0 then throw .arithmeticOverflow
  else pure (MerkleMountainRange.numEntries mmr - 1)

def addManifest [AsmLibs] (mmr : Mmr) (manifest : AsmManifest) : Except AsmError Mmr :=
  match MerkleMountainRange.addLeaf mmr (AsmLibs.manifestHash manifest) with
  | none => .error .merkleError
  | some mmr => .ok mmr

end HistoryAccumulator

/-! ### Specifications -/

inductive SubprotocolKind
  | admin
  | checkpoint
  | bridge (claim : ClaimVersion)
  deriving DecidableEq

/-- A ruleset: how it takes over a state, and the subprotocols each stage calls, in order. -/
structure AsmSpec [MerkleMountainRange] where
  id : Nat
  prepare : AnchorState → Exec AnchorState
  subprotocols : List SubprotocolKind

/-- The first ruleset continues only its own states. -/
def strataAsmSpec [MerkleMountainRange] : AsmSpec where
  id := 0
  prepare state := if state.specId = 0 then pure state else throw (.specIdMismatch state.specId)
  subprotocols := [.admin, .checkpoint, .bridge .v0]

/-- The second ruleset also takes over the states of the first. -/
def strataAsmSpecV1 [MerkleMountainRange] : AsmSpec where
  id := 1
  prepare state :=
    if state.specId = 0 ∨ state.specId = 1 then pure { state with specId := 1 }
    else throw (.specIdMismatch state.specId)
  subprotocols := [.admin, .checkpoint, .bridge .v1]

/-! ### Genesis -/

structure AsmParams where
  magic : Bytes
  anchor : L1Anchor
  admin : AdministrationInitConfig
  checkpoint : CheckpointInitConfig
  bridge : BridgeInitConfig

section

variable [AsmLibs]

def genesisSection (id : Nat) (data : SectionData) : Exec SectionState :=
  match SectionState.fromState id data with
  | .ok entry => pure entry
  | .error _ => throw (.genesisSectionTooLarge id)

/-- The genesis state of the parameters, whatever the checkpoint genesis height. -/
def genesisState (params : AsmParams) : Exec AnchorState := do
  let admin ← genesisSection adminSubprotocolId (.admin (.new params.admin))
  let checkpoint ← genesisSection checkpointSubprotocolId (.checkpoint (.init params.checkpoint))
  let bridgeState ← BridgeStateV1.new params.bridge
  let bridge ← genesisSection bridgeSubprotocolId (.bridge bridgeState)
  pure {
    specId := 0
    magic := params.magic
    chainView := ⟨.init params.anchor, HistoryAccumulator.new params.anchor.block.height⟩
    sections := [admin, checkpoint, bridge] }

/-- The checkpoint tip and the history have to start from the same L1 block. -/
def constructGenesisState (params : AsmParams) : Exec AnchorState :=
  if params.checkpoint.genesisL1Height = params.anchor.block.height then genesisState params
  else throw (.checkpointGenesisHeightMismatch params.checkpoint.genesisL1Height
    params.anchor.block.height)

end
end Asm
