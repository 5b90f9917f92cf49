import AnchorStateMachine.Admin.Handover
import AnchorStateMachine.Moho.State
import AnchorStateMachine.Stf.Reach
import AnchorStateMachine.Worker.State

/-! Which program may process the next block. Administration enacts ASM verifying keys, a block
announces them in its logs, and the worker and the Moho fold read the next program back from the
logs. -/

namespace Asm
open Outcome

/-! ### Keys that administration enacts -/

def UpdateAction.asmKey : UpdateAction → Option PredicateKey
  | .asmStfVk key => some key
  | _ => none

theorem asmStfUpdates_enacted [AdminLibs] (updates : List UpdateAction) :
    asmStfUpdates (updates.flatMap UpdateAction.logs) = updates.filterMap UpdateAction.asmKey := by
  induction updates with
  | nil => rfl
  | cons update updates ih =>
    rw [List.flatMap_cons, asmStfUpdates_append, ih]
    cases update <;> rfl

/-! ### Keys that the logs announce -/

namespace Checkpoint

variable [CheckpointLibs]

theorem processTxs_asmStfUpdates {state after : CheckpointState} {txs : List TxInput} {height : Nat}
    {aux : VerifiedAuxData} {relayer : MsgRelayer}
    (h : processTxs state txs height aux .new = .ok (after, relayer)) :
    asmStfUpdates relayer.logs = [] := by
  refine foldlM_preserves (fun current => asmStfUpdates current.2.logs = []) ?_ rfl h
  rintro tx - ⟨state, relayer⟩ after silent step
  rw [processTx] at step
  split at step
  · obtain ⟨outcome, _, step⟩ := bind_ok step
    cases outcome with
    | none =>
      cases pure_ok step
      exact silent
    | some accepted =>
      cases pure_ok step
      simp only [relayWithdrawals_logs, MsgRelayer.emitLog_logs, asmStfUpdates_append]
      rw [silent]
      rfl
  · cases pure_ok step
    exact silent

end Checkpoint

namespace Bridge

variable [BridgeLibs]

theorem processTxs_asmStfUpdates {claim : ClaimVersion} {state after : BridgeStateV1}
    {txs : List TxInput} {l1Block : L1BlockCommitment} {accumulatedPow : Nat}
    {aux : VerifiedAuxData} {relayer : MsgRelayer}
    (h : processTxs claim state txs l1Block accumulatedPow aux .new = .ok (after, relayer)) :
    asmStfUpdates relayer.logs = [] := by
  obtain ⟨processed, ran, h⟩ := bind_ok h
  obtain ⟨_, _, h⟩ := bind_ok h
  cases pure_ok h
  have silent : asmStfUpdates processed.2.logs = [] := by
    refine foldlM_preserves (fun current => asmStfUpdates current.2.logs = []) ?_ rfl ran
    rintro tx - ⟨state, relayer⟩ ⟨after, relayed⟩ silent step
    rcases processTx_cases step with ⟨-, rfl⟩ | ⟨_, _, -, -, -, rfl⟩ | ⟨_, _, _, -, -, -, rfl⟩ |
      ⟨_, -, rfl⟩
    · exact silent
    · rw [MsgRelayer.emitLog_logs, asmStfUpdates_append, MsgRelayer.relayMsg_logs, silent]
      rfl
    · rw [MsgRelayer.emitLog_logs, asmStfUpdates_append, silent]
      rfl
    · exact silent
  rw [MsgRelayer.emitLog_logs, asmStfUpdates_append, silent]
  rfl

end Bridge

section

variable [AsmLibs]

def BlockRecord.adminEvents (record : BlockRecord) (network : Network) : List AdminEvent :=
  Admin.blockEvents network ⟨record.manifest.height - 1, record.states.admin⟩
    (record.txs adminSubprotocolId)

def BlockRecord.asmKeys (record : BlockRecord) (network : Network) : List PredicateKey :=
  (enactedUpdates (record.adminEvents network)).filterMap UpdateAction.asmKey

theorem Processes.asmStfUpdates {pre post : AnchorState} {record : BlockRecord}
    (processed : Processes pre record post) :
    asmStfUpdates record.manifest.logs = record.asmKeys pre.chainView.powState.network := by
  have ran := processed.ran
  obtain ⟨height, numbered⟩ := processed.height
  have network := (HeaderVerificationState.checkAndUpdate_ok processed.transitions.header).2.1
  have adminRan := ran.admin
  rw [show post.chainView.powState.lastVerifiedBlock.height = pre.height + 1 from height,
    network] at adminRan
  have enacted := Admin.processTxs_enacted ⟨pre.height, record.states.admin⟩ adminRan
  rw [processed.transitions.exported.logs, BlockTrace.logs, asmStfUpdates_append, asmStfUpdates_append,
    Checkpoint.processTxs_asmStfUpdates ran.checkpointTxs, Bridge.processTxs_asmStfUpdates ran.bridgeTxs,
    List.append_nil, List.append_nil, enacted.logs, asmStfUpdates_enacted, BlockRecord.asmKeys,
    BlockRecord.adminEvents, numbered, Nat.add_sub_cancel]

theorem run_network {params : AsmParams} {records : List BlockRecord} {state : AnchorState}
    (run : Run params records state) : state.chainView.powState.network = params.anchor.network :=
  (run_headers run).refines.network

/-! ### The next program -/

/-- The worker in memory along a run. -/
inductive Carries (params : AsmParams) (predicate : PredicateKey) :
    List BlockRecord → AsmWorkerServiceState → Prop
  | genesis {state : AnchorState} {worker : AsmWorkerServiceState} (specId : Nat)
      (started : genesisState params = .ok state) (anchored : worker.anchor = { state with specId })
      (carried : worker.nextPredicate = predicate) : Carries params predicate [] worker
  | block {past : List BlockRecord} {worker : AsmWorkerServiceState} {record : BlockRecord}
      {post : AnchorState} (before : Carries params predicate past worker)
      (processed : Processes worker.anchor record post) :
      Carries params predicate (past ++ [record])
        (worker.acceptOutput ⟨post, record.manifest⟩ record.l1ref)

/-- The Moho state along a run. -/
inductive Folds [MohoLibs] (params : AsmParams) (predicate : PredicateKey) :
    List BlockRecord → AnchorState → MohoState → Prop
  | genesis {state : AnchorState} (specId : Nat) (started : genesisState params = .ok state) :
      Folds params predicate [] { state with specId }
        (constructGenesisMohoState predicate { state with specId })
  | block {past : List BlockRecord} {pre post : AnchorState} {record : BlockRecord}
      {moho next : MohoState}
      (before : Folds params predicate past pre moho) (processed : Processes pre record post)
      (folded : constructNextMohoState moho post record.manifest.logs = .ok next) :
      Folds params predicate (past ++ [record]) post next

/-- The key enacted last in a run, or the genesis predicate. -/
def latestKey (network : Network) (predicate : PredicateKey)
    (records : List BlockRecord) : PredicateKey :=
  (records.flatMap (·.asmKeys network)).getLast?.getD predicate

/-- What both folds compute: each block takes over the first key it enacts. -/
def firstKeys (network : Network) (predicate : PredicateKey)
    (records : List BlockRecord) : PredicateKey :=
  records.foldl (fun key record => (record.asmKeys network).head?.getD key) predicate

theorem latestKey_concat (network : Network) (predicate : PredicateKey) (past : List BlockRecord)
    (record : BlockRecord) : latestKey network predicate (past ++ [record]) =
      (record.asmKeys network).getLast?.getD (latestKey network predicate past) := by
  rw [latestKey, List.flatMap_append, List.flatMap_singleton, List.getLast?_append]
  cases (record.asmKeys network).getLast? <;> rfl

theorem firstKeys_concat (network : Network) (predicate : PredicateKey) (past : List BlockRecord)
    (record : BlockRecord) : firstKeys network predicate (past ++ [record]) =
      (record.asmKeys network).head?.getD (firstKeys network predicate past) := by
  rw [firstKeys, List.foldl_append]
  rfl

/-- Taking the first key of each block gives the last key of all after every block exactly if no block
has a last key other than its first. -/
theorem firstKeys_eq_latestKey_iff (network : Network) (predicate : PredicateKey)
    (records : List BlockRecord) :
    (∀ past, past <+: records → firstKeys network predicate past = latestKey network predicate past) ↔
      ∀ record ∈ records, (record.asmKeys network).head? = (record.asmKeys network).getLast? := by
  constructor
  · intro agree record mem
    obtain ⟨past, rest, rfl⟩ := List.append_of_mem mem
    have same := agree (past ++ [record]) ⟨rest, by simp⟩
    rw [firstKeys_concat, latestKey_concat] at same
    cases keys : record.asmKeys network with
    | nil => rfl
    | cons key keys' =>
      rw [keys, List.head?_cons, List.getLast?_cons] at same
      rw [List.head?_cons, List.getLast?_cons]
      exact congrArg some same
  · intro agree past isPrefix
    induction past using List.reverseRecOn with
    | nil => rfl
    | append_singleton past record ih =>
      have earlier := ih ((List.prefix_append past [record]).trans isPrefix)
      rw [firstKeys_concat, latestKey_concat, earlier,
        agree record (isPrefix.subset (List.mem_append_right past (.head _)))]

variable {params : AsmParams} {predicate : PredicateKey} {records : List BlockRecord}

theorem Carries.run {worker : AsmWorkerServiceState}
    (carries : Carries params predicate records worker) :
    Run params records worker.anchor := by
  induction carries with
  | genesis specId started anchored carried =>
    rw [anchored]
    exact .genesis specId started
  | block before processed ih => exact .block ih processed

theorem Carries.nextPredicate {worker : AsmWorkerServiceState}
    (carries : Carries params predicate records worker) :
    worker.nextPredicate = firstKeys params.anchor.network predicate records := by
  induction carries with
  | genesis specId started anchored carried => exact carried
  | block before processed ih =>
    rw [firstKeys_concat, ← ih, ← run_network before.run, ← processed.asmStfUpdates,
      ← extractNextPredicateFromLogs_eq]
    rfl

section

variable [MohoLibs]

theorem Folds.run {state : AnchorState} {moho : MohoState}
    (folds : Folds params predicate records state moho) :
    Run params records state := by
  induction folds with
  | genesis specId started => exact .genesis specId started
  | block before processed folded ih => exact .block ih processed

theorem Folds.nextPredicate {state : AnchorState} {moho : MohoState}
    (folds : Folds params predicate records state moho) :
    moho.nextPredicate = firstKeys params.anchor.network predicate records := by
  induction folds with
  | genesis specId started => rfl
  | block before processed folded ih =>
    rw [firstKeys_concat, ← ih, ← run_network before.run, ← processed.asmStfUpdates,
      ← extractNextPredicateFromLogs_eq, constructNextMohoState_ok folded]

end

theorem Run.carries {state : AnchorState} (run : Run params records state) (predicate : PredicateKey) :
    ∃ worker, Carries params predicate records worker ∧ worker.anchor = state := by
  induction run with
  | @genesis state specId started =>
    let offline : L1DataProvider := ⟨fun _ => .error .btcRpc, fun _ => .error .btcRpc,
      fun _ => .error .btcRpc, fun _ => .error .btcRpc, fun _ => .error .btcRpc, .error .btcRpc⟩
    let worker : AsmWorkerServiceState :=
      ⟨⟨offline, [], [], .empty, []⟩, .empty, state.lastProcessedBlock,
      predicate, predicate, { state with specId }, state.lastProcessedBlock, state.height, []⟩
    exact ⟨worker, .genesis specId started rfl rfl, rfl⟩
  | block before processed ih =>
    obtain ⟨follower, carries, rfl⟩ := ih
    exact ⟨_, .block carries processed, rfl⟩

theorem Run.earlier {state : AnchorState} (run : Run params records state) {past : List BlockRecord}
    (isPrefix : past <+: records) : ∃ before, Run params past before := by
  induction run with
  | genesis specId started =>
    rw [List.prefix_nil.mp isPrefix]
    exact ⟨_, .genesis specId started⟩
  | block before processed ih =>
    rcases List.prefix_concat_iff.mp isPrefix with rfl | earlier
    · exact ⟨_, .block before processed⟩
    · exact ih earlier

/-- After every block of a run the next program is the one enacted last, for the worker as for the
Moho fold, exactly if the first and the last key enacted in a block are the same in each of its
blocks. -/
theorem program_authority_iff [MohoLibs] {state : AnchorState} (run : Run params records state)
    (predicate : PredicateKey) :
    (∀ past, past <+: records →
      (∀ worker, Carries params predicate past worker →
        worker.nextPredicate = latestKey params.anchor.network predicate past) ∧
      ∀ state moho, Folds params predicate past state moho →
        moho.nextPredicate = latestKey params.anchor.network predicate past) ↔
    ∀ record ∈ records,
      (record.asmKeys params.anchor.network).head? =
      (record.asmKeys params.anchor.network).getLast? := by
  rw [← firstKeys_eq_latestKey_iff params.anchor.network predicate]
  constructor
  · intro follow past isPrefix
    obtain ⟨before, earlier⟩ := run.earlier isPrefix
    obtain ⟨follower, carries, -⟩ := earlier.carries predicate
    rw [← carries.nextPredicate]
    exact (follow past isPrefix).1 follower carries
  · intro agree past isPrefix
    rw [← agree past isPrefix]
    exact ⟨fun _ carries => carries.nextPredicate, fun _ _ folds => folds.nextPredicate⟩

end

/-! ### Concrete blocks -/

@[reducible] def sampleMohoLibs : @MohoLibs sampleUpdateLibs.toMerkleMountainRange :=
  letI := sampleUpdateLibs
  { anchorStateRoot := fun _ => .zero
    ExportMmr := List Buf32
    emptyExportMmr := []
    addExportEntry := fun entries entry => some (entries ++ [entry])
    maxExportContainers := 8 }

section

attribute [local instance] sampleUpdateLibs sampleMohoLibs

set_option maxRecDepth 8000 in
theorem sampleRekey_transitions : ∃ genesis first firstManifest second secondManifest,
    genesisState sampleParams = .ok genesis ∧
    computeAsmTransition (asmSpec .v1) genesis (sampleUpdateBlock [sampleRekeyTx 1 5]) ⟨[], []⟩
      (some ⟨0, [.fill 5]⟩) = .ok (.ok ⟨first, firstManifest⟩) ∧
    asmStfUpdates firstManifest.logs = [⟨1, [5]⟩] ∧
    computeAsmTransition (asmSpec .v1) genesis (sampleUpdateBlock [sampleRekeyTx 1 5, sampleRekeyTx 2 6]) ⟨[], []⟩
      (some ⟨0, [.fill 3, .fill 5]⟩) = .ok (.ok ⟨second, secondManifest⟩) ∧
    secondManifest.logs =
      [.asmStfUpdate ⟨1, [5]⟩, .asmStfUpdate ⟨1, [6]⟩, .exportExtraDataUpdate bridgeSubprotocolId 1] :=
  ⟨_, _, _, _, _, rfl, rfl, rfl, rfl, rfl⟩

theorem program_authority_iff_sample : ∃ record state,
    Run sampleParams [record] state ∧ record.asmKeys .regtest = [⟨1, [5]⟩] ∧
    ∀ worker, Carries sampleParams ⟨1, [0]⟩ [record] worker → worker.nextPredicate = ⟨1, [5]⟩ := by
  obtain ⟨genesis, _, _, _, _, started, ran, announced, -⟩ := sampleRekey_transitions
  obtain ⟨_, _, _, processed⟩ := processes_of_succeeded ran
  have start : Run sampleParams [] genesis := .genesis genesis.specId started
  have run := Run.block start processed
  have network : genesis.chainView.powState.network = .regtest := run_network start
  have keys := processed.asmStfUpdates
  rw [network, announced] at keys
  refine ⟨_, _, run, keys.symm, fun worker carries => ?_⟩
  have follow := (program_authority_iff run ⟨1, [0]⟩).mpr fun record mem => by
    rw [List.mem_singleton.mp mem, show sampleParams.anchor.network = .regtest from rfl, ← keys]
    rfl
  have latest := (follow _ (List.prefix_refl _)).1 worker carries
  rw [latest, latestKey, List.flatMap_append, List.flatMap_singleton,
    show sampleParams.anchor.network = .regtest from rfl, ← keys]
  rfl

/-- A block that enacts two keys hands the chain over to the first of them. -/
theorem program_authority_first_wins : ∃ record state worker moho,
    Run sampleParams [record] state ∧ record.asmKeys .regtest = [⟨1, [5]⟩, ⟨1, [6]⟩] ∧
    latestKey .regtest ⟨1, [0]⟩ [record] = ⟨1, [6]⟩ ∧
    Carries sampleParams ⟨1, [0]⟩ [record] worker ∧ worker.nextPredicate = ⟨1, [5]⟩ ∧
    Folds sampleParams ⟨1, [0]⟩ [record] state moho ∧ moho.nextPredicate = ⟨1, [5]⟩ := by
  obtain ⟨genesis, _, _, second, manifest, started, -, -, ran, logs⟩ := sampleRekey_transitions
  obtain ⟨_, _, _, processed⟩ := processes_of_succeeded ran
  have start : Run sampleParams [] genesis := .genesis genesis.specId started
  have network : genesis.chainView.powState.network = .regtest := run_network start
  have keys := processed.asmStfUpdates
  rw [network, logs] at keys
  have run := Run.block start processed
  obtain ⟨worker, carries, -⟩ := run.carries ⟨1, [0]⟩
  obtain ⟨moho, folded⟩ : ∃ moho, constructNextMohoState (constructGenesisMohoState ⟨1, [0]⟩ genesis)
      second manifest.logs = .ok moho := by
    rw [logs]
    exact ⟨_, rfl⟩
  have folds := Folds.block (.genesis genesis.specId started) processed folded
  have first := carries.nextPredicate
  rw [List.nil_append] at first
  refine ⟨_, _, worker, moho, run, keys.symm, ?_, carries, ?_, folds, ?_⟩
  · rw [latestKey, List.flatMap_singleton, ← keys]
    rfl
  · rw [first, firstKeys, List.foldl_cons, show sampleParams.anchor.network = .regtest from rfl, ← keys]
    rfl
  · rw [folds.nextPredicate, List.nil_append, firstKeys, List.foldl_cons,
      show sampleParams.anchor.network = .regtest from rfl, ← keys]
    rfl

end
end Asm
