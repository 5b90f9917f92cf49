import AnchorStateMachine.Bridge.Transitions

/-! Runs of the bridge: sequences of `process_txs` and `process_msgs` calls, and the single steps they
are made of. -/

namespace Asm.Bridge
open Outcome

section

variable [BridgeLibs]

inductive Call
  | onTxs (claim : ClaimVersion) (txs : List TxInput) (l1Block : L1BlockCommitment)
      (accumulatedPow : Nat) (aux : VerifiedAuxData)
  | onMsgs (msgs : List BridgeIncomingMsg) (l1ref : L1BlockCommitment)

/-- A single step of a call. -/
inductive Event
  | tx (claim : ClaimVersion) (aux : VerifiedAuxData) (tx : TxInput)
  | reassign (l1Block : L1BlockCommitment)
  | publishPow (accumulatedPow : Nat)
  | msg (l1ref : L1BlockCommitment) (msg : BridgeIncomingMsg)

def Call.apply : BridgeStateV1 × MsgRelayer → Call → Exec (BridgeStateV1 × MsgRelayer)
  | (state, relayer), .onTxs claim txs l1Block accumulatedPow aux =>
    processTxs claim state txs l1Block accumulatedPow aux relayer
  | (state, relayer), .onMsgs msgs l1ref => do
    let state ← processMsgs state msgs l1ref
    pure (state, relayer)

def Call.events : Call → List Event
  | .onTxs claim txs l1Block accumulatedPow aux =>
    txs.map (.tx claim aux) ++ [.reassign l1Block, .publishPow accumulatedPow]
  | .onMsgs msgs l1ref => msgs.map (.msg l1ref)

def step : BridgeStateV1 × MsgRelayer → Event → Exec (BridgeStateV1 × MsgRelayer)
  | (state, relayer), .tx claim aux tx => processTx claim aux (state, relayer) tx
  | (state, relayer), .reassign l1Block => do
    let state ← reassignExpired state l1Block
    pure (state, relayer)
  | (state, relayer), .publishPow accumulatedPow =>
    pure (state, relayer.emitLog (.exportExtraDataUpdate bridgeSubprotocolId accumulatedPow))
  | (state, relayer), .msg l1ref msg => do
    let state ← processMsg l1ref state msg
    pure (state, relayer)

theorem processMsgs_events (msgs : List BridgeIncomingMsg) (l1ref : L1BlockCommitment)
    (state : BridgeStateV1) (relayer : MsgRelayer) :
    (msgs.map (Event.msg l1ref)).foldlM step (state, relayer) =
      (do let state ← processMsgs state msgs l1ref
          pure (state, relayer)) := by
  unfold processMsgs
  induction msgs generalizing state with
  | nil => rfl
  | cons msg msgs ih =>
    simp only [List.map_cons, List.foldlM_cons, step]
    cases processMsg l1ref state msg with
    | error panic => rfl
    | ok next => exact ih next

theorem apply_events (call : Call) (state : BridgeStateV1 × MsgRelayer) :
    Call.apply state call = call.events.foldlM step state := by
  obtain ⟨state, relayer⟩ := state
  cases call with
  | onTxs claim txs l1Block accumulatedPow aux =>
    simp only [Call.apply, Call.events, processTxs, List.foldlM_append, List.foldlM_map,
      List.foldlM_cons, List.foldlM_nil, step, bind_assoc, pure_bind, bind_pure]
  | onMsgs msgs l1ref => exact (processMsgs_events msgs l1ref state relayer).symm

def run (config : BridgeInitConfig) (calls : List Call) : Exec (BridgeStateV1 × MsgRelayer) := do
  let state ← BridgeStateV1.new config
  calls.foldlM Call.apply (state, .new)

theorem foldlM_apply_events (calls : List Call) (state : BridgeStateV1 × MsgRelayer) :
    calls.foldlM Call.apply state = (calls.flatMap Call.events).foldlM step state := by
  induction calls generalizing state with
  | nil => rfl
  | cons call calls ih =>
    rw [List.foldlM_cons, List.flatMap_cons, List.foldlM_append, apply_events]
    cases call.events.foldlM step state with
    | error panic => rfl
    | ok next => exact ih next

end

/-! ### A concrete run -/

/-- Libraries for concrete runs, with a hash that keeps the last byte of its input. -/
@[reducible] def sampleLibs : BridgeLibs where
  toTaprootKeys := OperatorTable.sampleKeys
  extractTxMagicAndTag _ := some ([], ⟨bridgeSubprotocolId, 0, List.replicate 32 7⟩)
  tapLeafRoot _ := .fill 9
  isXOnlyPublicKey _ := true
  unspendablePublicKey := .fill 8
  maxScriptSize := 10000
  nextU32 _ _ := 0
  sha256 bytes := .fill (bytes.getLastD 0)
  toScript descriptor := descriptor.bytes

def sampleConfig : BridgeInitConfig where
  operators := [.fill 1, .fill 2]
  denomination := 10
  assignmentDuration := 2
  operatorFee := 1
  recoveryDelay := 100
  safeHarborAddress := ⟨⟨[]⟩⟩

def sampleAux : VerifiedAuxData where
  txs _ := some ⟨2, 0, [], [⟨0, []⟩, ⟨10, (Buf32.fill 1).bytes⟩]⟩
  manifestHashes _ := none

def sampleDeposit (depositIdx : UInt8) : TxInput where
  tx := ⟨2, 0, [⟨⟨.fill 5, 1⟩, [], 0, [List.replicate 64 1]⟩], [⟨0, []⟩, ⟨10, (Buf32.fill 1).bytes⟩]⟩
  tag := ⟨bridgeSubprotocolId, 1, [0, 0, 0, depositIdx]⟩

def sampleFulfillment (depositIdx : UInt8) : TxInput where
  tx := ⟨2, 0, [], [⟨0, []⟩, ⟨9, [4]⟩]⟩
  tag := ⟨bridgeSubprotocolId, 2, [0, 0, 0, depositIdx]⟩

def sampleBlock (height : Nat) : L1BlockCommitment := ⟨height, .zero⟩

/-- Two deposits at height 100, and a withdrawal assigned to the first of them. -/
def sampleCalls : List Call :=
  [.onTxs .v1 [sampleDeposit 7, sampleDeposit 8] (sampleBlock 100) 0 sampleAux,
    .onMsgs [.dispatchWithdrawal ⟨⟨[4]⟩, 10, .any⟩] (sampleBlock 100)]

end Asm.Bridge
