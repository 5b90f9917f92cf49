import AnchorStateMachine.Admin.Run
import AnchorStateMachine.Bridge.PanicFreedom
import AnchorStateMachine.Btc.HeaderChain
import AnchorStateMachine.Checkpoint.Queue
import AnchorStateMachine.Stf.Run

/-! What holds at the end of every block of a run: the heights, the projection of the run to the
checkpoint subprotocol, and the invariants of the subprotocols. -/

namespace Asm
open Outcome

theorem predicateUpdates_inbox [AdminLibs] {adminRelayer bridgeRelayer : MsgRelayer}
    {updates : List UpdateAction} {state mid : BridgeStateV1} {count : Nat}
    (enacted : adminRelayer.Enacted updates)
    (reports : Bridge.Reports state mid bridgeRelayer.msgs count) :
    predicateUpdates (checkpointMsgs (adminRelayer.msgs ++ bridgeRelayer.msgs)) = olKeys updates := by
  have none : predicateUpdates (List.replicate count (.depositProcessed state.denomination)) = [] := by
    simp [predicateUpdates]
  rw [checkpointMsgs_append, reports.relayed, checkpointMsgs_depositMsgs, predicateUpdates,
    List.filterMap_append, ← predicateUpdates, ← predicateUpdates, none, List.append_nil, enacted.msgs]
  exact predicateUpdates_enacted updates

section

variable [AsmLibs]

def AnchorState.height (state : AnchorState) : Nat := state.chainView.powState.lastVerifiedBlock.height

/-! ### One block -/

namespace Processes

variable {pre post : AnchorState} {record : BlockRecord} (processed : Processes pre record post)

include processed

theorem l1ref : post.chainView.powState.lastVerifiedBlock = record.l1ref := by
  have exported := processed.transitions.exported
  rw [BlockRecord.l1ref, exported.height, exported.blkid]

theorem height : post.height = pre.height + 1 ∧ record.manifest.height = pre.height + 1 := by
  have extended := (HeaderVerificationState.checkAndUpdate_ok processed.transitions.header).1
  have next : post.height = pre.height + 1 := congrArg L1BlockCommitment.height extended
  exact ⟨next, processed.transitions.exported.height.trans next⟩

theorem ran :
    Ran record.claim post.chainView.powState record.txs record.aux record.states record.trace := by
  rw [processed.grouped]
  exact processBlock_ok processed.transitions.ran

theorem checkpointEvents : record.checkpointEvents.foldlM Checkpoint.step record.states.checkpoint =
    .ok record.trace.post.checkpoint := by
  have ran := processed.ran
  have txs := Checkpoint.processTxs_events record.states.checkpoint
    (record.txs checkpointSubprotocolId) post.chainView.powState.lastVerifiedBlock.height record.aux .new
  have msgs := ran.checkpointMsgs
  rw [ran.checkpointTxs, processed.l1ref] at txs
  rw [Checkpoint.processMsgs_events, processed.l1ref] at msgs
  rw [BlockRecord.checkpointEvents, List.foldlM_append]
  exact (congrArg (· >>= _) txs.symm).trans msgs

end Processes

/-- The panics that a block can cause in states that keep their invariants. -/
def IsBlockPanic (panic : Panic) : Prop :=
  IsTxPanic panic ∨ IsMsgPanic panic ∨ Checkpoint.IsStepPanic panic

theorem processBlock_panics {claim : ClaimVersion} {powState : HeaderVerificationState}
    {txs : Nat → List TxInput} {aux : VerifiedAuxData} {states : Subprotocols} {panic : Panic}
    (inv : states.bridge.Invariant) (h : processBlock claim powState txs aux states = .error panic) :
    IsBlockPanic panic := by
  cases processBlock_error h with
  | admin halted =>
    cases Admin.processTxs_error halted
    exact .inl trivial
  | checkpointTxs halted =>
    have events := Checkpoint.processTxs_events states.checkpoint (txs checkpointSubprotocolId)
      powState.lastVerifiedBlock.height aux .new
    rw [halted] at events
    exact .inr (.inr (Checkpoint.events_error events.symm))
  | bridgeTxs halted =>
    exact .inl (Classical.not_not.mp (Bridge.processTxs_avoids inv _ _ _ _ _ _ _ halted))
  | checkpointMsgs adminRan checkpointRan bridgeRan halted =>
    rw [Checkpoint.processMsgs_events] at halted
    exact .inr (.inr (Checkpoint.events_error halted))
  | bridgeMsgs adminRan checkpointRan bridgeRan halted =>
    have kept := Bridge.processTxs_invariant inv bridgeRan
    exact .inr (.inl (Classical.not_not.mp (Bridge.processMsgs_avoids kept _ _ _ halted)))

/-! ### Runs -/

/-- The state at the end of a run. -/
structure Reached (params : AsmParams) (records : List BlockRecord) (state : AnchorState)
    (states : Subprotocols) : Prop where
  loaded : state.subprotocols = some states
  height : state.height = params.anchor.block.height + records.length
  numbered : records.map (·.manifest.height) =
    List.range' (params.anchor.block.height + 1) records.length
  staggered : states.admin.Staggered state.height
  enacted : ∀ record ∈ records, ∃ updates, record.trace.adminRelayer.Enacted updates ∧
    (olKeys updates).length ≤ 1 ∧ predicateUpdates record.trace.checkpointInbox = olKeys updates
  events : (records.flatMap (·.checkpointEvents)).foldlM Checkpoint.step (.init params.checkpoint) =
    .ok states.checkpoint
  schedule : Scheduled Checkpoint.Event.Ticks params.anchor.block.height
    (records.flatMap (·.checkpointEvents)) state.height
  bridge : states.bridge.Invariant

theorem genesisSection_ok {id : Nat} {data : SectionData} {entry : SectionState}
    (h : genesisSection id data = .ok entry) : entry = ⟨id, sectionStateVersion, data⟩ := by
  unfold genesisSection at h
  split at h
  · rename_i packed
    cases pure_ok h
    exact fromState_ok packed
  · cases h

theorem genesisState_ok {params : AsmParams} {state : AnchorState}
    (h : genesisState params = .ok state) :
    ∃ bridge, BridgeStateV1.new params.bridge = .ok bridge ∧
      state.subprotocols = some ⟨.new params.admin, .init params.checkpoint, bridge⟩ ∧
      state.chainView = ⟨.init params.anchor, HistoryAccumulator.new params.anchor.block.height⟩ := by
  obtain ⟨_, admin, h⟩ := bind_ok h
  obtain ⟨_, checkpoint, h⟩ := bind_ok h
  obtain ⟨bridgeState, started, h⟩ := bind_ok h
  obtain ⟨_, bridge, h⟩ := bind_ok h
  cases pure_ok h
  refine ⟨bridgeState, started, ?_, rfl⟩
  rw [genesisSection_ok admin, genesisSection_ok checkpoint, genesisSection_ok bridge]
  rfl

theorem run_headers {params : AsmParams} {records : List BlockRecord} {state : AnchorState}
    (run : Run params records state) :
    HeaderChain.Accepted params.anchor (records.map (·.block.header)) state.chainView.powState := by
  induction run with
  | genesis specId started =>
    obtain ⟨_, -, -, chainView⟩ := genesisState_ok started
    rw [chainView]
    exact .init
  | block before processed ih =>
    rw [List.map_append]
    exact .accept ih (HeaderVerificationState.accepts_iff.mpr processed.transitions.header)

theorem reached_genesis {params : AsmParams} {state : AnchorState} (specId : Nat)
    (h : genesisState params = .ok state) :
    ∃ states, Reached params [] { state with specId } states := by
  obtain ⟨bridge, started, loaded, chainView⟩ := genesisState_ok h
  have height : state.height = params.anchor.block.height := by rw [AnchorState.height, chainView]; rfl
  exact ⟨_, loaded, height, rfl, AdministrationSubprotoState.new_staggered _ _, List.forall_mem_nil _,
    rfl, .nil (Nat.le_of_eq height.symm), BridgeStateV1.new_invariant started⟩

theorem Reached.block {params : AsmParams} {past : List BlockRecord} {pre post : AnchorState}
    {states : Subprotocols} {record : BlockRecord} (reached : Reached params past pre states)
    (processed : Processes pre record post) :
    Reached params (past ++ [record]) post record.trace.post := by
  have transitions := processed.transitions
  have ran := processed.ran
  obtain ⟨height, numbered⟩ := processed.height
  obtain rfl : states = record.states := Option.some.inj (reached.loaded.symm.trans transitions.loaded)
  have adminRan := ran.admin
  rw [show post.chainView.powState.lastVerifiedBlock.height = pre.height + 1 from height] at adminRan
  obtain ⟨staggered, -, updates, enacted, single⟩ :=
    Admin.processTxs_staggered reached.staggered adminRan
  obtain ⟨count, reports⟩ := Bridge.processTxs_reports ran.bridgeTxs
  have inbox : predicateUpdates record.trace.checkpointInbox = olKeys updates :=
    predicateUpdates_inbox enacted reports
  refine {
    loaded := transitions.exported.states
    height := by rw [height, reached.height, List.length_append]; rfl
    numbered := ?_
    staggered := height ▸ staggered
    enacted := ?_
    events := ?_
    schedule := ?_
    bridge := Bridge.msgs_invariant (Bridge.processTxs_invariant reached.bridge ran.bridgeTxs)
      ran.bridgeMsgs }
  · rw [List.map_append, reached.numbered, List.length_append, List.range'_append_1.symm]
    simp [numbered, reached.height, Nat.add_right_comm]
  · intro other mem
    rcases List.mem_append.mp mem with old | new
    · exact reached.enacted other old
    · rw [List.mem_singleton.mp new]
      exact ⟨updates, enacted, single, inbox⟩
  · rw [List.flatMap_append, List.foldlM_append, reached.events]
    simpa using processed.checkpointEvents
  · rw [List.flatMap_append, List.flatMap_singleton]
    refine reached.schedule.append ?_
    rw [BlockRecord.checkpointEvents, numbered, height]
    exact (Checkpoint.scheduled_txs _ _ _).append
      (Checkpoint.scheduled_msgs numbered (by rw [inbox]; exact single))

def IsFramePanic : Panic → Prop
  | .specIdMismatch _ => True
  | .arithmeticOverflow => True
  | .historyHeightMismatch _ _ => True
  | _ => False

/-- The next transition halts for no reason that its frame and its subprotocols do not have. -/
theorem Reached.transition_avoids {params : AsmParams} {records : List BlockRecord} {state : AnchorState}
    {states : Subprotocols} {bad : Panic → Prop} {claim : ClaimVersion} {block : Block}
    {auxData : AuxData} (reached : Reached params records state states)
    (frame : ∀ panic, IsFramePanic panic → ¬ bad panic)
    (subprotocols : ∀ powState aux, powState.lastVerifiedBlock.height = state.height + 1 →
      VerifiedAuxData.tryNew auxData state.chainView.historyAccumulator = .ok aux →
      Avoids bad (processBlock claim powState (groupTxsBySubprotocol state.magic block) aux states))
    (inclusionProof : Option TxidInclusionProof) :
    Avoids bad (computeAsmTransition (asmSpec claim) state block auxData inclusionProof) := by
  intro panic stopped
  rcases computeAsmTransition_error reached.loaded stopped with
    rfl | rfl | ⟨powState, header, ⟨aux, verified, halted⟩ | ⟨_, _, -, -, _, rfl⟩⟩
  · exact frame _ trivial
  · exact frame _ trivial
  · have extended := (HeaderVerificationState.checkAndUpdate_ok header).1
    exact subprotocols powState aux (congrArg L1BlockCommitment.height extended) verified panic halted
  · exact frame _ trivial

theorem run_reached {params : AsmParams} {records : List BlockRecord} {state : AnchorState}
    (run : Run params records state) : ∃ states, Reached params records state states := by
  induction run with
  | genesis specId started => exact reached_genesis specId started
  | block before processed ih =>
    obtain ⟨states, reached⟩ := ih
    exact ⟨_, reached.block processed⟩

end

/-! ### A concrete run -/

/-- Libraries for concrete runs. The history is a list, its proofs are positions, and what a
transaction carries is read off its lock time. -/
@[reducible] def sampleAsmLibs : AsmLibs where
  toBridgeLibs := Bridge.sampleLibs
  toStateLibs := sampleStateLibs
  parseSignedEnvelopeLeaf input := some ⟨(Buf32.fill 3).bytes, input.scriptSig⟩
  verifySpentOutput _ _ := true
  decodePayload bytes := some ⟨⟨1, 2, ⟨1, .fill 4⟩⟩, ⟨[], [⟨5, bytes⟩], ⟨0, .zero, .zero, .zero⟩⟩, []⟩
  encodeClaim _ := []
  encodeOlLogs _ := []
  complementHash _ := .zero
  verifyClaimWitness _ _ _ := true
  decodeWithdrawalLog log := some ⟨10, log.payload, 0⟩
  descriptorFromBytes bytes := some ⟨bytes⟩
  bridgeGatewayAcctSerial := 5
  displayMember _ _ := ""
  displaySafeHarbor _ _ := ""
  predicateTypeName _ := none
  signedMsgHash _ := .zero
  validCompact _ _ := true
  recoverEcdsa _ bytes _ := some bytes
  wpubkeyHash _ := sampleMember
  taprootLeafScript := List.head?
  parseEnvelopePayload bytes := some bytes
  systemReservedAccts := 128
  deserialize bytes := some ⟨2, (bytes.headD 0).toNat, [], [⟨0, []⟩, ⟨10, (Buf32.fill 1).bytes⟩]⟩
  encodeBase tx := [.ofNat tx.lockTime]
  encodeTx tx := [.ofNat tx.lockTime]
  encodeHeader header := [.ofNat header.time]
  targetMetBy _ _ := true
  headerWork _ := 1
  fromNextWorkRequired _ bits _ := bits
  difficultyAdjustmentInterval _ := 2016
  Mmr := List Buf32
  MerkleProof := Nat
  newRepeated leaf count := List.replicate count leaf
  numEntries leaves := leaves.length
  addLeaf leaves leaf := some (leaves ++ [leaf])
  verify leaves proof hash := leaves[proof]? = some hash
  index proof := proof
  tryParseTx _ tx :=
    some ⟨tx.lockTime % 3, if tx.lockTime % 3 = 0 then 11 else 1, [0, 0, 0, .ofNat tx.lockTime]⟩
  manifestHash manifest := .fill (.ofNat manifest.height)
  manifestMmrPrefillLeaf := .zero

/-- Updates apply at once, and the checkpoint chain starts at the anchor. -/
def sampleParams : AsmParams where
  magic := []
  anchor := ⟨⟨1, .zero⟩, 0, 0, .regtest⟩
  admin := { sampleAdminConfig with confirmationDepths := ⟨0, 0, 0, 0, 0, 0, 0, 0, 0, 0, 0⟩ }
  checkpoint := ⟨.fill 3, ⟨0, []⟩, 1, .zero⟩
  bridge := Bridge.sampleConfig

def sampleCommittingCoinbase : Transaction :=
  ⟨2, 0, [⟨.null, [], 0, [List.replicate 32 0]⟩], [⟨0, witnessCommitmentMagic ++ List.replicate 32 0⟩]⟩

def sampleOlStfVk : EnvelopePayload := ⟨1, .update (.olStfVk ⟨1, [6]⟩), [sampleSignature 0]⟩

/-- An OL verifying key and a deposit. -/
def sampleFirstBlock : Block where
  header := ⟨2, .zero, .fill 5, 1, 0, 0⟩
  txdata := [sampleCommittingCoinbase,
    ⟨2, 3, [⟨⟨.fill 9, 0⟩, [], 0, [sampleEnvelope sampleOlStfVk]⟩], []⟩,
    ⟨2, 5, [⟨⟨.fill 7, 1⟩, [], 0, [List.replicate 64 1]⟩], [⟨0, []⟩, ⟨10, (Buf32.fill 1).bytes⟩]⟩]

/-- A checkpoint that covers the first block and withdraws the deposit. -/
def sampleSecondBlock : Block where
  header := ⟨2, .fill 1, .fill 4, 2, 0, 0⟩
  txdata := [⟨2, 0, [⟨.null, [], 0, []⟩], []⟩, ⟨2, 4, [⟨⟨.fill 8, 1⟩, [4], 0, []⟩], []⟩]

/-- Every transaction carries an update of the type that its output names. -/
@[reducible] def sampleUpdateLibs : AsmLibs :=
  { sampleAsmLibs with
    tryParseTx := fun _ tx =>
      some ⟨adminSubprotocolId, ((tx.output.flatMap TxOut.scriptPubkey).headD 0).toNat, []⟩ }

def sampleUpdateTx (lockTime : Nat) (txType : UInt8) (payload : EnvelopePayload) : Transaction :=
  ⟨2, lockTime, [⟨⟨.fill 9, lockTime⟩, [], 0, [sampleEnvelope payload]⟩], [⟨0, [txType]⟩]⟩

/-- A block after the anchor of the sample parameters. -/
def sampleUpdateBlock (txs : List Transaction) : Block where
  header := ⟨2, .zero, .fill 5, 1, 0, 0⟩
  txdata := sampleCommittingCoinbase :: txs

def sampleRekeyTx (seqno : Nat) (key : UInt8) : Transaction :=
  sampleUpdateTx (seqno + 2) 12 ⟨seqno, .update (.asmStfVk ⟨1, [key]⟩), [sampleSignature 0]⟩

section

attribute [local instance] sampleAsmLibs

def sampleFirstAux : AuxData := ⟨[], [[7]]⟩

def sampleSecondAux : AuxData := ⟨[⟨.fill 2, (2 : Nat)⟩], [[8]]⟩

set_option maxRecDepth 8000 in
theorem sample_transitions : ∃ genesis first second manifest next,
    genesisState sampleParams = .ok genesis ∧
    computeAsmTransition (asmSpec .v1) genesis sampleFirstBlock sampleFirstAux
      (some ⟨0, [.fill 3, .fill 5]⟩) = .ok (.ok ⟨first, manifest⟩) ∧
    computeAsmTransition (asmSpec .v1) first sampleSecondBlock sampleSecondAux none =
      .ok (.ok ⟨second, next⟩) :=
  ⟨_, _, _, _, _, rfl, rfl, rfl⟩

theorem sample_run : ∃ first second state, Run sampleParams [first, second] state ∧
    first.block = sampleFirstBlock ∧ second.block = sampleSecondBlock := by
  obtain ⟨genesis, _, _, _, _, started, firstRan, secondRan⟩ := sample_transitions
  obtain ⟨_, _, _, firstProcessed⟩ := processes_of_succeeded firstRan
  obtain ⟨_, _, _, secondProcessed⟩ := processes_of_succeeded secondRan
  have start : Run sampleParams [] genesis := .genesis genesis.specId started
  exact ⟨_, _, _, .block (.block start firstProcessed) secondProcessed, rfl, rfl⟩

end
end Asm
