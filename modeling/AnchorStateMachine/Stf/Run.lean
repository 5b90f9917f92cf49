import AnchorStateMachine.Stf.Block

/-! Runs of the state machine from genesis, and what each of their blocks is made of. -/

namespace Asm
open Outcome

variable [AsmLibs]

/-- The two rulesets, by the operator claim they export. -/
def asmSpec : ClaimVersion → AsmSpec
  | .v0 => strataAsmSpec
  | .v1 => strataAsmSpecV1

theorem asmSpec_subprotocols (claim : ClaimVersion) :
    (asmSpec claim).subprotocols = [.admin, .checkpoint, .bridge claim] := by
  cases claim <;> rfl

/-- Taking over a state changes at most its spec id. -/
theorem asmSpec_prepare_ok {claim : ClaimVersion} {state prepared : AnchorState}
    (h : (asmSpec claim).prepare state = .ok prepared) :
    ∃ specId, prepared = { state with specId } := by
  cases claim with
  | v0 =>
    simp only [asmSpec, strataAsmSpec] at h
    split at h
    · cases pure_ok h
      exact ⟨_, rfl⟩
    · cases h
  | v1 =>
    simp only [asmSpec, strataAsmSpecV1] at h
    split at h
    · cases pure_ok h
      exact ⟨_, rfl⟩
    · cases h

theorem asmSpec_prepare_error {claim : ClaimVersion} {state : AnchorState} {panic : Panic}
    (h : (asmSpec claim).prepare state = .error panic) : panic = .specIdMismatch state.specId := by
  cases claim with
  | v0 =>
    simp only [asmSpec, strataAsmSpec] at h
    split at h
    · cases h
    · cases h
      rfl
  | v1 =>
    simp only [asmSpec, strataAsmSpecV1] at h
    split at h
    · cases h
    · cases h
      rfl

/-! ### Loading -/

def AnchorState.subprotocols (state : AnchorState) : Option Subprotocols := do
  let admin ← (state.findSection adminSubprotocolId).bind SectionState.tryToAdmin
  let checkpoint ← (state.findSection checkpointSubprotocolId).bind SectionState.tryToCheckpoint
  let bridge ← (state.findSection bridgeSubprotocolId).bind SectionState.tryToBridge
  pure ⟨admin, checkpoint, bridge⟩

theorem loadSubprotocols_cases (claim : ClaimVersion) (state : AnchorState) :
    (∃ states, state.subprotocols = some states ∧
      loadSubprotocols (asmSpec claim) state = .ok states.manager) ∨
    (state.subprotocols = none ∧
      ∃ id, loadSubprotocols (asmSpec claim) state = .error (.sectionNotLoadable id)) := by
  simp only [loadSubprotocols, asmSpec_subprotocols, List.foldlM_cons, List.foldlM_nil,
    SubprotoManager.load, AnchorState.subprotocols]
  cases (state.findSection adminSubprotocolId).bind SectionState.tryToAdmin with
  | none => exact .inr ⟨rfl, _, rfl⟩
  | some admin =>
    cases (state.findSection checkpointSubprotocolId).bind SectionState.tryToCheckpoint with
    | none => exact .inr ⟨rfl, _, rfl⟩
    | some checkpoint =>
      cases (state.findSection bridgeSubprotocolId).bind SectionState.tryToBridge with
      | none => exact .inr ⟨rfl, _, rfl⟩
      | some bridge => exact .inl ⟨_, rfl, rfl⟩

theorem loadSubprotocols_of (claim : ClaimVersion) (state : AnchorState) {states : Subprotocols}
    (loaded : state.subprotocols = some states) :
    loadSubprotocols (asmSpec claim) state = .ok states.manager := by
  rcases loadSubprotocols_cases claim state with ⟨found, same, load⟩ | ⟨absent, -⟩
  · cases loaded.symm.trans same
    exact load
  · cases loaded.symm.trans absent

/-! ### Packing -/

theorem fromState_ok {id : Nat} {data : SectionData} {entry : SectionState}
    (h : SectionState.fromState id data = .ok entry) : entry = ⟨id, sectionStateVersion, data⟩ := by
  unfold SectionState.fromState at h
  split at h
  · cases h
    rfl
  · cases h

theorem exportSections_ok {trace : BlockTrace} {sections : List SectionState}
    (h : trace.manager.exportSections = .ok sections) :
    sections = [⟨adminSubprotocolId, sectionStateVersion, .admin trace.post.admin⟩,
      ⟨checkpointSubprotocolId, sectionStateVersion, .checkpoint trace.post.checkpoint⟩,
      ⟨bridgeSubprotocolId, sectionStateVersion, .bridge trace.post.bridge⟩] := by
  simp only [SubprotoManager.exportSections, BlockTrace.manager, Option.toList_some, List.mapM_cons,
    List.mapM_nil, bind_assoc, pure_bind] at h
  obtain ⟨admin, packedAdmin, h⟩ := bind_ok h
  obtain ⟨checkpoint, packedCheckpoint, h⟩ := bind_ok h
  obtain ⟨bridge, packedBridge, h⟩ := bind_ok h
  cases pure_ok h
  rw [fromState_ok packedAdmin, fromState_ok packedCheckpoint, fromState_ok packedBridge]
  rfl

/-- The result of a block: its manifest, appended to the history, and the new states. -/
structure Exports (pre : AnchorState) (powState : HeaderVerificationState) (trace : BlockTrace)
    (post : AnchorState) (manifest : AsmManifest) : Prop where
  height : manifest.height = powState.lastVerifiedBlock.height
  blkid : manifest.blkid = powState.lastVerifiedBlock.blkid
  logs : manifest.logs = trace.logs
  magic : post.magic = pre.magic
  powState : post.chainView.powState = powState
  history : MerkleMountainRange.addLeaf pre.chainView.historyAccumulator
    (AsmLibs.manifestHash manifest) = some post.chainView.historyAccumulator
  inserted : HistoryAccumulator.lastInsertedHeight post.chainView.historyAccumulator =
    .ok manifest.height
  states : post.subprotocols = some trace.post

theorem exportOutput_packed {spec : AsmSpec} {pre : AnchorState} {powState : HeaderVerificationState}
    {wtxidsRoot : Buf32} {manager : SubprotoManager} {output : AsmStfOutput}
    (h : exportOutput spec pre powState wtxidsRoot manager = .ok (.ok output)) :
    ∃ sections history, manager.exportSections = .ok sections ∧
      output = ⟨⟨spec.id, pre.magic, ⟨powState, history⟩, sections⟩,
        ⟨powState.lastVerifiedBlock.height, powState.lastVerifiedBlock.blkid, wtxidsRoot,
          manager.logs⟩⟩ ∧
      MerkleMountainRange.addLeaf pre.chainView.historyAccumulator
        (AsmLibs.manifestHash output.manifest) =
        some history ∧
      HistoryAccumulator.lastInsertedHeight history = .ok powState.lastVerifiedBlock.height := by
  unfold exportOutput at h
  simp only at h
  split at h
  · cases pure_ok h
  · rename_i sections made history packed
    obtain ⟨_, exported, packed⟩ := bind_ok packed
    obtain ⟨_, named, packed⟩ := bind_ok packed
    obtain ⟨_, added, packed⟩ := bind_ok packed
    cases pure_ok packed
    obtain ⟨height, inserted, h⟩ := bind_ok h
    split at h
    · cases h
    · rename_i agrees
      rw [not_not.mp agrees] at inserted
      split at h
      · cases pure_ok h
      · cases pure_ok h
        unfold AsmManifest.new at named
        split at named
        · cases named
          unfold HistoryAccumulator.addManifest at added
          split at added
          · cases added
          · rename_i leaf
            cases added
            exact ⟨sections, history, exported, rfl, leaf, inserted⟩
        · cases named

theorem exportOutput_ok {spec : AsmSpec} {pre post : AnchorState} {powState : HeaderVerificationState}
    {wtxidsRoot : Buf32} {trace : BlockTrace} {manifest : AsmManifest}
    (h : exportOutput spec pre powState wtxidsRoot trace.manager = .ok (.ok ⟨post, manifest⟩)) :
    Exports pre powState trace post manifest := by
  obtain ⟨sections, history, exported, same, leaf, inserted⟩ := exportOutput_packed h
  cases same
  exact ⟨rfl, rfl, rfl, rfl, rfl, leaf, inserted, by rw [exportSections_ok exported]; rfl⟩

theorem exportOutput_error {spec : AsmSpec} {pre : AnchorState} {powState : HeaderVerificationState}
    {wtxidsRoot : Buf32} {manager : SubprotoManager} {panic : Panic}
    (h : exportOutput spec pre powState wtxidsRoot manager = .error panic) :
    ∃ hash history, MerkleMountainRange.addLeaf pre.chainView.historyAccumulator hash = some history ∧
      MerkleMountainRange.numEntries history ≠ powState.lastVerifiedBlock.height + 1 ∧
      (panic = .arithmeticOverflow ∨
        ∃ inserted, panic = .historyHeightMismatch inserted powState.lastVerifiedBlock.height) := by
  unfold exportOutput at h
  simp only at h
  split at h
  · cases h
  · rename_i sections made history packed
    obtain ⟨_, _, packed⟩ := bind_ok packed
    obtain ⟨manifest, _, packed⟩ := bind_ok packed
    obtain ⟨_, added, packed⟩ := bind_ok packed
    cases pure_ok packed
    unfold HistoryAccumulator.addManifest at added
    split at added
    · cases added
    · rename_i leaf
      cases added
      refine ⟨_, history, leaf, ?_⟩
      rcases bind_error h with stopped | ⟨inserted, read, h⟩
      · unfold HistoryAccumulator.lastInsertedHeight at stopped
        split at stopped
        · cases stopped
          rename_i empty
          exact ⟨by omega, .inl rfl⟩
        · cases stopped
      · unfold HistoryAccumulator.lastInsertedHeight at read
        split at read
        · cases read
        · cases pure_ok read
          split at h
          · cases h
            exact ⟨by omega, .inr ⟨_, rfl⟩⟩
          · split at h <;> cases h

/-! ### Transitions -/

/-- What a successful transition consists of. -/
structure Transitions (claim : ClaimVersion) (pre : AnchorState) (block : Block) (auxData : AuxData)
    (post : AnchorState) (manifest : AsmManifest) (aux : VerifiedAuxData) (states : Subprotocols)
    (trace : BlockTrace) : Prop where
  header : pre.chainView.powState.checkAndUpdate block.header = .ok (.ok post.chainView.powState)
  verified : VerifiedAuxData.tryNew auxData pre.chainView.historyAccumulator = .ok aux
  loaded : pre.subprotocols = some states
  ran : processBlock claim post.chainView.powState (groupTxsBySubprotocol pre.magic block) aux states =
    .ok trace
  exported : Exports pre post.chainView.powState trace post manifest

theorem checkBlock_ok {pre : AnchorState} {block : Block} {auxData : AuxData}
    {proof : Option TxidInclusionProof} {wtxidsRoot : Buf32} {powState : HeaderVerificationState}
    {aux : VerifiedAuxData}
    (h : checkBlock pre block auxData proof = .ok (.ok (wtxidsRoot, powState, aux))) :
    checkBlockIntegrity block proof = .ok wtxidsRoot ∧
      pre.chainView.powState.checkAndUpdate block.header = .ok (.ok powState) ∧
      VerifiedAuxData.tryNew auxData pre.chainView.historyAccumulator = .ok aux := by
  unfold checkBlock at h
  split at h
  · cases pure_ok h
  · rename_i intact
    obtain ⟨outcome, header, h⟩ := bind_ok h
    cases outcome with
    | error error => cases pure_ok h
    | ok updated =>
      dsimp only at h
      split at h
      · cases pure_ok h
      · rename_i verified
        cases pure_ok h
        exact ⟨intact, header, verified⟩

theorem computeAsmTransition_ok {claim : ClaimVersion} {pre post : AnchorState} {block : Block}
    {auxData : AuxData} {proof : Option TxidInclusionProof} {manifest : AsmManifest}
    (h : computeAsmTransition (asmSpec claim) pre block auxData proof = .ok (.ok ⟨post, manifest⟩)) :
    ∃ aux states trace, Transitions claim pre block auxData post manifest aux states trace := by
  obtain ⟨prepared, took, h⟩ := bind_ok h
  obtain ⟨specId, rfl⟩ := asmSpec_prepare_ok took
  obtain ⟨outcome, checked, h⟩ := bind_ok h
  split at h
  · cases pure_ok h
  · rename_i wtxidsRoot powState aux
    obtain ⟨-, header, verified⟩ := checkBlock_ok checked
    obtain ⟨manager, loaded, h⟩ := bind_ok h
    obtain ⟨finished, ran, h⟩ := bind_ok h
    rcases loadSubprotocols_cases claim { pre with specId } with ⟨states, found, load⟩ | ⟨_, _, load⟩
    · rw [load] at loaded
      cases loaded
      rw [runSubprotocols_eq (asmSpec_subprotocols claim)] at ran
      obtain ⟨trace, processed, rfl⟩ := map_ok ran
      have exported := exportOutput_ok h
      have same := exported.powState
      subst same
      exact ⟨aux, states, trace, header, verified, found, processed, { exported with }⟩
    · rw [load] at loaded
      cases loaded

theorem computeAsmTransition_error {claim : ClaimVersion} {pre : AnchorState} {block : Block}
    {auxData : AuxData} {proof : Option TxidInclusionProof} {states : Subprotocols} {panic : Panic}
    (loaded : pre.subprotocols = some states)
    (h : computeAsmTransition (asmSpec claim) pre block auxData proof = .error panic) :
    panic = .specIdMismatch pre.specId ∨ panic = .arithmeticOverflow ∨
    ∃ powState, pre.chainView.powState.checkAndUpdate block.header = .ok (.ok powState) ∧
      ((∃ aux, VerifiedAuxData.tryNew auxData pre.chainView.historyAccumulator = .ok aux ∧
        processBlock claim powState (groupTxsBySubprotocol pre.magic block) aux states =
          .error panic) ∨
      ∃ hash history, MerkleMountainRange.addLeaf pre.chainView.historyAccumulator hash = some history ∧
        MerkleMountainRange.numEntries history ≠ powState.lastVerifiedBlock.height + 1 ∧
        ∃ inserted, panic = .historyHeightMismatch inserted powState.lastVerifiedBlock.height) := by
  rcases bind_error h with stopped | ⟨prepared, took, h⟩
  · exact .inl (asmSpec_prepare_error stopped)
  obtain ⟨specId, rfl⟩ := asmSpec_prepare_ok took
  rcases bind_error h with stopped | ⟨outcome, checked, h⟩
  · unfold checkBlock at stopped
    split at stopped
    · cases stopped
    · rcases bind_error stopped with header | ⟨outcome, _, stopped⟩
      · exact .inr (.inl (HeaderVerificationState.checkAndUpdate_error header))
      · split at stopped
        · cases stopped
        · split at stopped <;> cases stopped
  split at h
  · cases h
  rename_i wtxidsRoot powState aux
  obtain ⟨-, header, verified⟩ := checkBlock_ok checked
  rw [loadSubprotocols_of claim { pre with specId } loaded, ok_bind,
    runSubprotocols_eq (asmSpec_subprotocols claim)] at h
  rcases bind_error h with stopped | ⟨manager, _, h⟩
  · exact .inr (.inr ⟨powState, header, .inl ⟨aux, verified, map_error stopped⟩⟩)
  · obtain ⟨hash, history, added, wrong, overflow | mismatch⟩ := exportOutput_error h
    · exact .inr (.inl overflow)
    · exact .inr (.inr ⟨powState, header, .inr ⟨hash, history, added, wrong, mismatch⟩⟩)

/-! ### Runs -/

/-- A block of a run: what the transition was called with, and what it then did. -/
structure BlockRecord where
  claim : ClaimVersion
  block : Block
  auxData : AuxData
  inclusionProof : Option TxidInclusionProof
  aux : VerifiedAuxData
  txs : Nat → List TxInput
  states : Subprotocols
  trace : BlockTrace
  manifest : AsmManifest

namespace BlockRecord

def l1ref (record : BlockRecord) : L1BlockCommitment := ⟨record.manifest.height, record.manifest.blkid⟩

def checkpointEvents (record : BlockRecord) : List Checkpoint.Event :=
  (record.txs checkpointSubprotocolId).map (.tx record.manifest.height record.aux) ++
    record.trace.checkpointInbox.map (.msg record.l1ref)

end BlockRecord

structure Processes (pre : AnchorState) (record : BlockRecord) (post : AnchorState) : Prop where
  succeeded : computeAsmTransition (asmSpec record.claim) pre record.block record.auxData
    record.inclusionProof = .ok (.ok ⟨post, record.manifest⟩)
  grouped : record.txs = groupTxsBySubprotocol pre.magic record.block
  transitions : Transitions record.claim pre record.block record.auxData post record.manifest
    record.aux record.states record.trace

theorem processes_of_succeeded {claim : ClaimVersion} {pre post : AnchorState} {block : Block}
    {auxData : AuxData} {inclusionProof : Option TxidInclusionProof} {manifest : AsmManifest}
    (h : computeAsmTransition (asmSpec claim) pre block auxData inclusionProof =
      .ok (.ok ⟨post, manifest⟩)) :
    ∃ aux states trace, Processes pre ⟨claim, block, auxData, inclusionProof, aux,
      groupTxsBySubprotocol pre.magic block, states, trace, manifest⟩ post := by
  obtain ⟨aux, states, trace, transitions⟩ := computeAsmTransition_ok h
  exact ⟨aux, states, trace, h, rfl, transitions⟩

/-- The blocks accepted since genesis, with the state they lead to. Either ruleset may start, and each
block may be processed by either of them. -/
inductive Run (params : AsmParams) : List BlockRecord → AnchorState → Prop
  | genesis {state : AnchorState} (specId : Nat) (started : genesisState params = .ok state) :
      Run params [] { state with specId }
  | block {past : List BlockRecord} {pre post : AnchorState} {record : BlockRecord}
      (before : Run params past pre) (processed : Processes pre record post) :
      Run params (past ++ [record]) post

end Asm
