import AnchorStateMachine.Bridge.Transitions
import AnchorStateMachine.Checkpoint.Transitions
import AnchorStateMachine.Stf.Transition

/-! What a block does to the three subprotocols, in the order in which the rulesets call them. -/

namespace Asm
open Outcome

namespace Checkpoint

variable [CheckpointLibs]

/-- Every message the checkpoint subprotocol relays is a withdrawal for the bridge. -/
theorem processTx_relays {height : Nat} {aux : VerifiedAuxData} {tx : TxInput}
    {before after : CheckpointState × MsgRelayer}
    (none : checkpointMsgs before.2.msgs = []) (h : processTx height aux before tx = .ok after) :
    checkpointMsgs after.2.msgs = [] := by
  obtain ⟨state, relayer⟩ := before
  rw [processTx] at h
  split at h
  · obtain ⟨outcome, _, h⟩ := bind_ok h
    cases outcome with
    | none =>
      cases pure_ok h
      exact none
    | some accepted =>
      cases pure_ok h
      simp only [relayWithdrawals_msgs, MsgRelayer.emitLog_msgs, checkpointMsgs_append, none,
        List.nil_append]
      simp [checkpointMsgs]
  · cases pure_ok h
    exact none

theorem processTxs_relays {state after : CheckpointState} {txs : List TxInput} {height : Nat}
    {aux : VerifiedAuxData} {relayer : MsgRelayer}
    (h : processTxs state txs height aux .new = .ok (after, relayer)) :
    checkpointMsgs relayer.msgs = [] :=
  foldlM_preserves (fun current => checkpointMsgs current.2.msgs = [])
    (fun _ _ _ _ none h => processTx_relays none h) rfl h

end Checkpoint

def depositMsgs (count amount : Nat) : List InterprotoMsg :=
  List.replicate count (.checkpoint (.depositProcessed amount))

theorem checkpointMsgs_depositMsgs (count amount : Nat) :
    checkpointMsgs (depositMsgs count amount) = List.replicate count (.depositProcessed amount) := by
  simp [checkpointMsgs, depositMsgs]

theorem bridgeMsgs_depositMsgs (count amount : Nat) : bridgeMsgs (depositMsgs count amount) = [] := by
  simp [bridgeMsgs, depositMsgs]

namespace Bridge

variable [BridgeLibs]

/-- Every message the bridge relays is a deposit that joined its table. -/
structure Reports (state : BridgeStateV1) (after : BridgeStateV1) (msgs : List InterprotoMsg)
    (count : Nat) : Prop where
  relayed : msgs = depositMsgs count state.denomination
  counted : after.deposits.length = state.deposits.length + count
  denomination : after.denomination = state.denomination

theorem processTx_reports {claim : ClaimVersion} {aux : VerifiedAuxData} {tx : TxInput}
    {state : BridgeStateV1} {before after : BridgeStateV1 × MsgRelayer} {count : Nat}
    (reports : Reports state before.1 before.2.msgs count)
    (h : processTx claim aux before tx = .ok after) :
    ∃ count, Reports state after.1 after.2.msgs count := by
  obtain ⟨before, relayer⟩ := before
  obtain ⟨after, relayed⟩ := after
  obtain ⟨sent, counted, denomination⟩ := reports
  rcases processTx_cases h with ⟨rfl, rfl⟩ | ⟨info, _, -, admits, -, rfl⟩ |
    ⟨_, _, _, -, fulfills, -, rfl⟩ | ⟨_, removed, rfl⟩
  · exact ⟨count, sent, counted, denomination⟩
  · obtain ⟨notarySet, -, rfl⟩ := admits.after
    refine ⟨count + 1, ?_, ?_, denomination⟩
    · have amount : info.amt = state.denomination := admits.amount.trans denomination
      dsimp only at sent
      rw [MsgRelayer.emitLog_msgs, MsgRelayer.relayMsg_msgs, sent, amount, depositMsgs, depositMsgs,
        List.replicate_succ']
    · simp only [SortedVec.length_insert]
      dsimp only at counted
      omega
  · rw [fulfills.after]
    exact ⟨count, sent, counted, denomination⟩
  · obtain ⟨operators, -, rfl⟩ := BridgeStateV1.applyOperatorSetUpdate_ok removed
    exact ⟨count, sent, counted, denomination⟩

theorem processTxs_reports {claim : ClaimVersion} {state after : BridgeStateV1} {txs : List TxInput}
    {l1Block : L1BlockCommitment} {accumulatedPow : Nat} {aux : VerifiedAuxData} {relayer : MsgRelayer}
    (h : processTxs claim state txs l1Block accumulatedPow aux .new = .ok (after, relayer)) :
    ∃ count, Reports state after relayer.msgs count := by
  obtain ⟨processed, ran, h⟩ := bind_ok h
  obtain ⟨reassigned, passed, h⟩ := bind_ok h
  cases pure_ok h
  have start : Reports state state MsgRelayer.new.msgs 0 := ⟨rfl, rfl, rfl⟩
  obtain ⟨count, reports⟩ := foldlM_preserves
    (fun current => ∃ count, Reports state current.1 current.2.msgs count)
    (fun _ _ _ _ ⟨_, reports⟩ taken => processTx_reports reports taken) ⟨0, start⟩ ran
  obtain ⟨assignments, rfl⟩ := reassignExpired_frame passed
  exact ⟨count, reports.relayed, reports.counted, reports.denomination⟩

end Bridge

/-! ### The manager -/

namespace SubprotoManager

theorem relayMsgs_eq (manager : SubprotoManager) (msgs : List InterprotoMsg)
    (toCheckpoint : manager.checkpoint = none → checkpointMsgs msgs = [])
    (toBridge : manager.bridge = none → bridgeMsgs msgs = []) :
    msgs.foldlM relayMsg manager = .ok { manager with
      checkpoint := manager.checkpoint.map fun entry => (entry.1, entry.2 ++ checkpointMsgs msgs)
      bridge := manager.bridge.map fun entry => (entry.1, entry.2 ++ bridgeMsgs msgs) } := by
  induction msgs generalizing manager with
  | nil =>
    obtain ⟨admin, checkpoint, bridge, logs⟩ := manager
    cases checkpoint <;> cases bridge <;> simp [checkpointMsgs, bridgeMsgs]
  | cons msg msgs ih =>
    obtain ⟨admin, checkpoint, bridge, logs⟩ := manager
    cases msg with
    | checkpoint msg =>
      cases checkpoint with
      | none => cases toCheckpoint rfl
      | some entry =>
        have delivered := ih ⟨admin, some (entry.1, entry.2 ++ [msg]), bridge, logs⟩ (by simp) toBridge
        exact delivered.trans (by simp [checkpointMsgs, bridgeMsgs])
    | bridge msg =>
      cases bridge with
      | none => cases toBridge rfl
      | some entry =>
        have delivered := ih ⟨admin, checkpoint, some (entry.1, entry.2 ++ [msg]), logs⟩ toCheckpoint
          (by simp)
        exact delivered.trans (by simp [checkpointMsgs, bridgeMsgs])

theorem relay_eq (manager : SubprotoManager) (relayer : MsgRelayer)
    (toCheckpoint : manager.checkpoint = none → checkpointMsgs relayer.msgs = [])
    (toBridge : manager.bridge = none → bridgeMsgs relayer.msgs = []) :
    manager.relay relayer = .ok { manager with
      checkpoint := manager.checkpoint.map fun entry => (entry.1, entry.2 ++ checkpointMsgs relayer.msgs)
      bridge := manager.bridge.map fun entry => (entry.1, entry.2 ++ bridgeMsgs relayer.msgs)
      logs := manager.logs ++ relayer.logs } := by
  simp only [relay, relayMsgs_eq manager relayer.msgs toCheckpoint toBridge, ok_bind, pure_eq_ok]

end SubprotoManager

/-! ### Processing a block -/

structure Subprotocols where
  admin : AdministrationSubprotoState
  checkpoint : CheckpointState
  bridge : BridgeStateV1

/-- The states and messages of a block: what each subprotocol sent while it processed its
transactions, the states in between, and the states once the messages are delivered. -/
structure BlockTrace where
  adminRelayer : MsgRelayer
  checkpointRelayer : MsgRelayer
  bridgeRelayer : MsgRelayer
  checkpointMid : CheckpointState
  bridgeMid : BridgeStateV1
  post : Subprotocols

namespace BlockTrace

def checkpointInbox (trace : BlockTrace) : List CheckpointIncomingMsg :=
  checkpointMsgs (trace.adminRelayer.msgs ++ trace.bridgeRelayer.msgs)

def bridgeInbox (trace : BlockTrace) : List BridgeIncomingMsg :=
  bridgeMsgs (trace.adminRelayer.msgs ++ trace.checkpointRelayer.msgs)

def logs (trace : BlockTrace) : List AsmLogEntry :=
  trace.adminRelayer.logs ++ trace.checkpointRelayer.logs ++ trace.bridgeRelayer.logs

def manager (trace : BlockTrace) : SubprotoManager where
  admin := some trace.post.admin
  checkpoint := some (trace.post.checkpoint, trace.checkpointInbox)
  bridge := some (trace.post.bridge, trace.bridgeInbox)
  logs := trace.logs

end BlockTrace

def Subprotocols.manager (states : Subprotocols) : SubprotoManager where
  admin := some states.admin
  checkpoint := some (states.checkpoint, [])
  bridge := some (states.bridge, [])
  logs := []

section

variable [AsmLibs]

/-- The subprotocols process their transactions one after another, then the messages are delivered. -/
def processBlock (claim : ClaimVersion) (powState : HeaderVerificationState)
    (txs : Nat → List TxInput) (aux : VerifiedAuxData) (states : Subprotocols) : Exec BlockTrace := do
  let l1ref := powState.lastVerifiedBlock
  let (admin, adminRelayer) ← Admin.processTxs states.admin (txs adminSubprotocolId) l1ref.height
    powState.network .new
  let (checkpointMid, checkpointRelayer) ← Checkpoint.processTxs states.checkpoint
    (txs checkpointSubprotocolId) l1ref.height aux .new
  let (bridgeMid, bridgeRelayer) ← Bridge.processTxs claim states.bridge (txs bridgeSubprotocolId)
    l1ref powState.totalAccumulatedPow aux .new
  let checkpoint ← Checkpoint.processMsgs checkpointMid
    (checkpointMsgs (adminRelayer.msgs ++ bridgeRelayer.msgs)) l1ref
  let bridge ← Bridge.processMsgs bridgeMid
    (bridgeMsgs (adminRelayer.msgs ++ checkpointRelayer.msgs)) l1ref
  pure ⟨adminRelayer, checkpointRelayer, bridgeRelayer, checkpointMid, bridgeMid,
    ⟨admin, checkpoint, bridge⟩⟩

structure Ran (claim : ClaimVersion) (powState : HeaderVerificationState) (txs : Nat → List TxInput)
    (aux : VerifiedAuxData) (states : Subprotocols) (trace : BlockTrace) : Prop where
  admin : Admin.processTxs states.admin (txs adminSubprotocolId) powState.lastVerifiedBlock.height
    powState.network .new = .ok (trace.post.admin, trace.adminRelayer)
  checkpointTxs : Checkpoint.processTxs states.checkpoint (txs checkpointSubprotocolId)
    powState.lastVerifiedBlock.height aux .new = .ok (trace.checkpointMid, trace.checkpointRelayer)
  bridgeTxs : Bridge.processTxs claim states.bridge (txs bridgeSubprotocolId)
    powState.lastVerifiedBlock powState.totalAccumulatedPow aux .new =
      .ok (trace.bridgeMid, trace.bridgeRelayer)
  checkpointMsgs : Checkpoint.processMsgs trace.checkpointMid trace.checkpointInbox
    powState.lastVerifiedBlock = .ok trace.post.checkpoint
  bridgeMsgs : Bridge.processMsgs trace.bridgeMid trace.bridgeInbox powState.lastVerifiedBlock =
    .ok trace.post.bridge

/-- The stage that stopped a block, with what ran before it. -/
inductive Halted (claim : ClaimVersion) (powState : HeaderVerificationState) (txs : Nat → List TxInput)
    (aux : VerifiedAuxData) (states : Subprotocols) (panic : Panic) : Prop
  | admin (h : Admin.processTxs states.admin (txs adminSubprotocolId) powState.lastVerifiedBlock.height
      powState.network .new = .error panic)
  | checkpointTxs (h : Checkpoint.processTxs states.checkpoint (txs checkpointSubprotocolId)
      powState.lastVerifiedBlock.height aux .new = .error panic)
  | bridgeTxs (h : Bridge.processTxs claim states.bridge (txs bridgeSubprotocolId)
      powState.lastVerifiedBlock powState.totalAccumulatedPow aux .new = .error panic)
  | checkpointMsgs {admin : AdministrationSubprotoState} {checkpoint : CheckpointState}
      {bridge : BridgeStateV1} {adminRelayer checkpointRelayer bridgeRelayer : MsgRelayer}
      (adminRan : Admin.processTxs states.admin (txs adminSubprotocolId)
        powState.lastVerifiedBlock.height powState.network .new = .ok (admin, adminRelayer))
      (checkpointRan : Checkpoint.processTxs states.checkpoint (txs checkpointSubprotocolId)
        powState.lastVerifiedBlock.height aux .new = .ok (checkpoint, checkpointRelayer))
      (bridgeRan : Bridge.processTxs claim states.bridge (txs bridgeSubprotocolId)
        powState.lastVerifiedBlock powState.totalAccumulatedPow aux .new = .ok (bridge, bridgeRelayer))
      (h : Checkpoint.processMsgs checkpoint
        (checkpointMsgs (adminRelayer.msgs ++ bridgeRelayer.msgs)) powState.lastVerifiedBlock =
          .error panic)
  | bridgeMsgs {admin : AdministrationSubprotoState} {checkpoint : CheckpointState}
      {bridge : BridgeStateV1} {adminRelayer checkpointRelayer bridgeRelayer : MsgRelayer}
      (adminRan : Admin.processTxs states.admin (txs adminSubprotocolId)
        powState.lastVerifiedBlock.height powState.network .new = .ok (admin, adminRelayer))
      (checkpointRan : Checkpoint.processTxs states.checkpoint (txs checkpointSubprotocolId)
        powState.lastVerifiedBlock.height aux .new = .ok (checkpoint, checkpointRelayer))
      (bridgeRan : Bridge.processTxs claim states.bridge (txs bridgeSubprotocolId)
        powState.lastVerifiedBlock powState.totalAccumulatedPow aux .new = .ok (bridge, bridgeRelayer))
      (h : Bridge.processMsgs bridge (bridgeMsgs (adminRelayer.msgs ++ checkpointRelayer.msgs))
        powState.lastVerifiedBlock = .error panic)

section

variable {claim : ClaimVersion} {powState : HeaderVerificationState} {txs : Nat → List TxInput}
  {aux : VerifiedAuxData} {states : Subprotocols}

theorem processBlock_ok {trace : BlockTrace}
    (h : processBlock claim powState txs aux states = .ok trace) :
    Ran claim powState txs aux states trace := by
  obtain ⟨_, admin, h⟩ := bind_ok h
  obtain ⟨_, checkpointTxs, h⟩ := bind_ok h
  obtain ⟨_, bridgeTxs, h⟩ := bind_ok h
  obtain ⟨_, checkpointMsgs, h⟩ := bind_ok h
  obtain ⟨_, bridgeMsgs, h⟩ := bind_ok h
  cases pure_ok h
  exact ⟨admin, checkpointTxs, bridgeTxs, checkpointMsgs, bridgeMsgs⟩

theorem processBlock_error {panic : Panic}
    (h : processBlock claim powState txs aux states = .error panic) :
    Halted claim powState txs aux states panic := by
  rcases bind_error h with stopped | ⟨_, admin, h⟩
  · exact .admin stopped
  rcases bind_error h with stopped | ⟨_, checkpoint, h⟩
  · exact .checkpointTxs stopped
  rcases bind_error h with stopped | ⟨_, bridge, h⟩
  · exact .bridgeTxs stopped
  rcases bind_error h with stopped | ⟨_, _, h⟩
  · exact .checkpointMsgs admin checkpoint bridge stopped
  rcases bind_error h with stopped | ⟨_, _, h⟩
  · exact .bridgeMsgs admin checkpoint bridge stopped
  · cases h

end

theorem runSubprotocols_eq {spec : AsmSpec} {claim : ClaimVersion}
    (order : spec.subprotocols = [.admin, .checkpoint, .bridge claim]) (states : Subprotocols)
    (powState : HeaderVerificationState) (txs : Nat → List TxInput) (aux : VerifiedAuxData) :
    runSubprotocols spec states.manager powState txs aux =
      BlockTrace.manager <$> processBlock claim powState txs aux states := by
  simp only [runSubprotocols, order, List.foldlM_cons, List.foldlM_nil, SubprotoManager.processTxs,
    Subprotocols.manager, processBlock]
  cases Admin.processTxs states.admin (txs adminSubprotocolId) powState.lastVerifiedBlock.height
    powState.network .new with
  | error panic => rfl
  | ok result =>
    obtain ⟨admin, adminRelayer⟩ := result
    have delivered := SubprotoManager.relay_eq
      ⟨none, some (states.checkpoint, []), some (states.bridge, []), []⟩ adminRelayer nofun nofun
    simp only [ok_bind, delivered, pure_eq_ok, Option.map_some]
    cases checkpointRan : Checkpoint.processTxs states.checkpoint (txs checkpointSubprotocolId)
      powState.lastVerifiedBlock.height aux .new with
    | error panic => rfl
    | ok result =>
      obtain ⟨checkpointMid, checkpointRelayer⟩ := result
      have toBridge := Checkpoint.processTxs_relays checkpointRan
      have delivered := SubprotoManager.relay_eq ⟨some admin, none,
        some (states.bridge, [] ++ bridgeMsgs adminRelayer.msgs), [] ++ adminRelayer.logs⟩
        checkpointRelayer (fun _ => toBridge) nofun
      simp only [ok_bind, delivered, Option.map_some]
      cases bridgeRan : Bridge.processTxs claim states.bridge (txs bridgeSubprotocolId)
        powState.lastVerifiedBlock powState.totalAccumulatedPow aux .new with
      | error panic => rfl
      | ok result =>
        obtain ⟨bridgeMid, bridgeRelayer⟩ := result
        obtain ⟨count, reports⟩ := Bridge.processTxs_reports bridgeRan
        have toCheckpoint : bridgeMsgs bridgeRelayer.msgs = [] := by
          rw [reports.relayed, bridgeMsgs_depositMsgs]
        have delivered := SubprotoManager.relay_eq ⟨some admin,
          some (checkpointMid, [] ++ checkpointMsgs adminRelayer.msgs), none,
          [] ++ adminRelayer.logs ++ checkpointRelayer.logs⟩ bridgeRelayer nofun
          (fun _ => toCheckpoint)
        simp only [ok_bind, Option.map_none, delivered, Option.map_some]
        simp only [SubprotoManager.processMsgs, List.nil_append, pure_eq_ok, ok_bind,
          ← checkpointMsgs_append, ← bridgeMsgs_append]
        cases Checkpoint.processMsgs checkpointMid
          (checkpointMsgs (adminRelayer.msgs ++ bridgeRelayer.msgs)) powState.lastVerifiedBlock with
        | error panic => rfl
        | ok checkpoint =>
          simp only [ok_bind]
          cases Bridge.processMsgs bridgeMid
            (bridgeMsgs (adminRelayer.msgs ++ checkpointRelayer.msgs)) powState.lastVerifiedBlock with
          | error panic => rfl
          | ok bridge => rfl

end
end Asm
