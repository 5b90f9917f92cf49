import AnchorStateMachine.Moho.Worker
import AnchorStateMachine.Worker.Authority
import AnchorStateMachine.Worker.Replay

/-! What the workers of the runner read of each other. The Moho worker reads the anchors and manifests
that the ASM worker stores, and the headers of the node. -/

namespace Asm
open Outcome

/-! ### Containers that logs name -/

def FitContainers (logs : List AsmLogEntry) : Prop := ∀ log ∈ logs, log.FitsContainers

theorem FitContainers.nil : FitContainers [] := List.forall_mem_nil _

theorem FitContainers.append {logs more : List AsmLogEntry} (fit : FitContainers logs)
    (fits : FitContainers more) : FitContainers (logs ++ more) :=
  List.forall_mem_append.mpr ⟨fit, fits⟩

theorem FitContainers.emit {logs : List AsmLogEntry} {log : AsmLogEntry} (fit : FitContainers logs)
    (fits : log.FitsContainers) : FitContainers (logs ++ [log]) :=
  fit.append (List.forall_mem_singleton.mpr fits)

namespace Checkpoint

variable [CheckpointLibs]

theorem processTxs_fit {state after : CheckpointState} {txs : List TxInput} {height : Nat}
    {aux : VerifiedAuxData} {relayer : MsgRelayer}
    (h : processTxs state txs height aux .new = .ok (after, relayer)) : FitContainers relayer.logs := by
  refine foldlM_preserves (fun current => FitContainers current.2.logs) ?_ .nil h
  rintro tx - ⟨state, relayer⟩ after fit step
  rw [processTx] at step
  split at step
  · obtain ⟨outcome, _, step⟩ := bind_ok step
    cases outcome with
    | none =>
      cases pure_ok step
      exact fit
    | some accepted =>
      cases pure_ok step
      rw [relayWithdrawals_logs, MsgRelayer.emitLog_logs]
      exact fit.emit trivial
  · cases pure_ok step
    exact fit

end Checkpoint

namespace Bridge

variable [BridgeLibs]

/-- The bridge names its own container. -/
theorem processTxs_fit {claim : ClaimVersion} {state after : BridgeStateV1} {txs : List TxInput}
    {l1Block : L1BlockCommitment} {accumulatedPow : Nat} {aux : VerifiedAuxData} {relayer : MsgRelayer}
    (h : processTxs claim state txs l1Block accumulatedPow aux .new = .ok (after, relayer)) :
    FitContainers relayer.logs := by
  have isByte : bridgeSubprotocolId < 256 := by decide
  obtain ⟨processed, ran, h⟩ := bind_ok h
  obtain ⟨_, _, h⟩ := bind_ok h
  cases pure_ok h
  refine FitContainers.emit ?_ isByte
  refine foldlM_preserves (fun current => FitContainers current.2.logs) ?_ .nil ran
  rintro tx - ⟨state, relayer⟩ ⟨after, relayed⟩ fit step
  rcases processTx_cases step with ⟨-, rfl⟩ | ⟨_, _, -, -, -, rfl⟩ | ⟨_, _, _, -, -, -, rfl⟩ |
    ⟨_, -, rfl⟩
  · exact fit
  · exact fit.emit trivial
  · exact fit.emit isByte
  · exact fit

end Bridge

namespace Admin

variable [AdminLibs]

theorem processTxs_fit {state after : AdministrationSubprotoState} {txs : List TxInput} {height : Nat}
    {network : Network} {relayer : MsgRelayer}
    (h : processTxs state txs (height + 1) network .new = .ok (after, relayer)) :
    FitContainers relayer.logs := by
  rw [(processTxs_enacted ⟨height, state⟩ h).logs]
  intro log mem
  obtain ⟨update, -, mem⟩ := List.mem_flatMap.mp mem
  cases update with
  | olStfVk key | asmStfVk key | eeStfVk key =>
    rw [List.mem_singleton.mp mem]
    exact trivial
  | _ => cases mem

end Admin

namespace SubprotoManager

theorem relay_logs {manager after : SubprotoManager} {relayer : MsgRelayer}
    (h : manager.relay relayer = .ok after) : after.logs = manager.logs ++ relayer.logs := by
  obtain ⟨relayed, ran, h⟩ := bind_ok h
  cases pure_ok h
  have same := foldlM_preserves (fun current => current.logs = manager.logs) ?_ rfl ran
  · exact congrArg (· ++ relayer.logs) same
  · intro msg _ before next same step
    cases msg with
    | checkpoint msg | bridge msg =>
      rw [relayMsg] at step
      split at step
      · cases step
      · cases pure_ok step
        exact same

variable [AsmLibs] {powState : HeaderVerificationState} {txs : Nat → List TxInput}
  {aux : VerifiedAuxData} {manager after : SubprotoManager} {kind : SubprotocolKind}

theorem processTxs_fit {height : Nat} (isHeight : powState.lastVerifiedBlock.height = height + 1)
    (h : processTxs powState txs aux manager kind = .ok after) (fit : FitContainers manager.logs) :
    FitContainers after.logs := by
  have taken : ∀ {before relayed : SubprotoManager} {relayer : MsgRelayer},
      before.relay relayer = .ok relayed → before.logs = manager.logs → FitContainers relayer.logs →
      FitContainers relayed.logs := by
    intro before relayed relayer took same fits
    rw [relay_logs took, same]
    exact fit.append fits
  cases kind with
  | admin | checkpoint | bridge claim =>
    rw [processTxs] at h
    split at h
    · cases h
    · obtain ⟨_, ran, h⟩ := bind_ok h
      obtain ⟨_, took, h⟩ := bind_ok h
      cases pure_ok h
      have fits := taken took rfl (by
        first
        | exact Checkpoint.processTxs_fit ran
        | exact Bridge.processTxs_fit ran
        | exact Admin.processTxs_fit (isHeight ▸ ran))
      exact fits

theorem processMsgs_logs {l1ref : L1BlockCommitment} (h : processMsgs l1ref manager kind = .ok after) :
    after.logs = manager.logs := by
  cases kind with
  | admin =>
    rw [processMsgs] at h
    split at h
    · cases h
    · cases pure_ok h
      rfl
  | checkpoint | bridge claim =>
    rw [processMsgs] at h
    split at h
    · cases h
    · obtain ⟨_, _, h⟩ := bind_ok h
      cases pure_ok h
      rfl

end SubprotoManager

section

variable [AsmLibs]

theorem runSubprotocols_fit {spec : AsmSpec} {manager after : SubprotoManager}
    {powState : HeaderVerificationState} {txs : Nat → List TxInput} {aux : VerifiedAuxData}
    {height : Nat} (isHeight : powState.lastVerifiedBlock.height = height + 1)
    (fit : FitContainers manager.logs)
    (h : runSubprotocols spec manager powState txs aux = .ok after) : FitContainers after.logs := by
  obtain ⟨processed, ran, h⟩ := bind_ok h
  refine foldlM_preserves (fun manager => FitContainers manager.logs) (fun kind _ before next fit step => ?_)
    (foldlM_preserves (fun manager => FitContainers manager.logs) (fun kind _ before next fit step => ?_)
      fit ran) h
  · rw [SubprotoManager.processMsgs_logs step]
    exact fit
  · exact SubprotoManager.processTxs_fit isHeight step fit

theorem loadSubprotocols_logs {spec : AsmSpec} {state : AnchorState} {manager : SubprotoManager}
    (h : loadSubprotocols spec state = .ok manager) : manager.logs = [] := by
  refine foldlM_preserves (fun manager => manager.logs = []) (fun kind _ before next none step => ?_) rfl h
  cases kind with
  | admin | checkpoint | bridge claim =>
    rw [SubprotoManager.load] at step
    split at step
    · cases step
    · split at step
      · cases step
      · cases pure_ok step
        exact none

/-- Every container that the logs of a block name is one byte. -/
theorem computeAsmTransition_fit {spec : AsmSpec} {pre : AnchorState} {block : Block} {auxData : AuxData}
    {inclusionProof : Option TxidInclusionProof} {output : AsmStfOutput}
    (h : computeAsmTransition spec pre block auxData inclusionProof = .ok (.ok output)) :
    FitContainers output.manifest.logs := by
  obtain ⟨prepared, took, h⟩ := bind_ok h
  obtain ⟨outcome, checked, h⟩ := bind_ok h
  split at h
  · cases pure_ok h
  · rename_i wtxidsRoot powState aux
    obtain ⟨-, header, -⟩ := checkBlock_ok checked
    obtain ⟨-, updates⟩ := HeaderVerificationState.checkAndUpdate_eq_ok header
    obtain ⟨manager, loaded, h⟩ := bind_ok h
    obtain ⟨finished, ran, h⟩ := bind_ok h
    obtain ⟨sections, history, -, packed, -, -⟩ := exportOutput_packed h
    rw [packed]
    refine runSubprotocols_fit (congrArg L1BlockCommitment.height updates.lastVerifiedBlock) ?_ ran
    rw [loadSubprotocols_logs loaded]
    exact .nil

end

/-! ### The Moho worker's view of the ASM stores -/

section

variable [MerkleMountainRange]

/-- No stored manifest names a container that is not one byte. -/
def WorkerContext.FitContainers (context : WorkerContext) : Prop :=
  ∀ manifest ∈ context.manifests, Asm.FitContainers manifest.logs

/-- The states and manifests of the ASM worker by block, and the latest state that it stored. -/
def WorkerContext.mohoContext (context : WorkerContext) (fit : context.FitContainers) :
    AsmStateProvider where
  getAnchorState block := Keyed.get AnchorState.lastProcessedBlock context.anchors block
  getAnchorLogs block := (Keyed.get AsmManifest.block context.manifests block).map AsmManifest.logs
  getLatestAsmBlock := context.getLatestAnchorState.map AnchorState.lastProcessedBlock
  getBlockHeader blkid := (context.l1.getL1BlockHeader blkid).toOption
  fits block logs found := by
    obtain ⟨manifest, stored, rfl⟩ := Option.map_eq_some_iff.mp found
    exact fit manifest (List.mem_of_find?_eq_some stored)

/-- The parent by the header of a block. A block at height 0 has none. -/
def L1DataProvider.headerParentOf (l1 : L1DataProvider) (block : L1BlockCommitment) :
    Option L1BlockCommitment :=
  match block.height, l1.getL1BlockHeader block.blkid with
  | height + 1, .ok header => some ⟨height, header.prevBlockhash⟩
  | _, _ => none

omit [MerkleMountainRange] in
theorem L1DataProvider.headerParentOf_graded (l1 : L1DataProvider) :
    Ancestry.Graded l1.headerParentOf L1BlockCommitment.height := by
  intro block parent isParent
  unfold headerParentOf at isParent
  split at isParent
  · rename_i isHeight _
    cases isParent
    exact isHeight
  · cases isParent

omit [MerkleMountainRange] in
theorem L1DataProvider.headerParentOf_iff {l1 : L1DataProvider} {block parent : L1BlockCommitment} :
    l1.headerParentOf block = some parent ↔
      l1.headerParent block = .ok parent ∧ block.height = parent.height + 1 := by
  unfold headerParentOf headerParent
  obtain ⟨height, blkid⟩ := block
  cases l1.getL1BlockHeader blkid with
  | error error => exact iff_of_false (by cases height <;> nofun) fun h => nomatch h.1
  | ok header =>
    cases height with
    | zero => exact iff_of_false nofun fun h => absurd h.2 (Nat.succ_ne_zero _).symm
    | succ height =>
      constructor
      · rintro ⟨⟩
        exact ⟨rfl, rfl⟩
      · rintro ⟨⟨⟩, -⟩
        rfl

theorem WorkerContext.mohoContext_parent {context : WorkerContext} (fit : context.FitContainers)
    {block parent : L1BlockCommitment} :
    (context.mohoContext fit).getParentBlock block = .ok parent ↔
      context.l1.headerParentOf block = some parent := by
  unfold AsmStateProvider.getParentBlock L1DataProvider.headerParentOf
  show (lookup _ (context.l1.getL1BlockHeader block.blkid).toOption >>= _) = _ ↔ _
  obtain ⟨height, blkid⟩ := block
  cases context.l1.getL1BlockHeader blkid with
  | error error => exact iff_of_false nofun (by cases height <;> nofun)
  | ok header =>
    cases height with
    | zero => exact iff_of_false nofun nofun
    | succ height =>
      constructor
      · rintro ⟨⟩
        rfl
      · rintro ⟨⟩
        rfl

variable {context : WorkerContext} {manifest : AsmManifest}

theorem WorkerContext.FitContainers.put (fit : context.FitContainers)
    (fits : Asm.FitContainers manifest.logs) :
    ∀ other ∈ Keyed.put AsmManifest.block context.manifests manifest, Asm.FitContainers other.logs := by
  intro other mem
  rcases (Keyed.mem_put AsmManifest.block).mp mem with rfl | ⟨old, -⟩
  · exact fits
  · exact fit other old

end

/-- An ASM worker whose manifests can be read by the Moho worker. -/
structure AsmWorker [MerkleMountainRange] where
  worker : AsmWorkerServiceState
  fit : worker.context.FitContainers

def AsmWorker.mohoContext [MerkleMountainRange] (asm : AsmWorker) : AsmStateProvider :=
  asm.worker.context.mohoContext asm.fit

section

variable [AsmLibs] [StoredMmr] {worker post : AsmWorkerServiceState} {blockId : L1BlockCommitment}

/-- Blocks keep manifests readable, so that a worker always is one that the Moho worker can read. -/
theorem applyBlock_fit (applied : (applyBlock blockId).run worker = .ok () post)
    (fit : worker.context.FitContainers) : post.context.FitContainers := by
  obtain ⟨block, target, auxData, output, mmr, applies⟩ := applyBlock_ok applied
  rw [applies.result]
  exact fit.put (computeAsmTransition_fit applies.ran)

theorem LeavesStores.fit {pass : List L1BlockCommitment} {left : WorkerContext}
    (leaves : LeavesStores worker pass left) (fit : worker.context.FitContainers) :
    left.FitContainers := by
  cases leaves with
  | between => exact fit
  | within executes isPrefix written =>
    obtain ⟨block, -, ran⟩ := bind_ok executes
    obtain ⟨target, -, ran⟩ := transition_ok ran
    have put := fit.put (computeAsmTransition_fit ran)
    rcases partly_of_prefix isPrefix written with part | all
    · unfold WorkerContext.FitContainers
      rcases part.keeps.2.2.2 with same | same
      · rw [same]
        exact fit
      · rw [same]
        exact put
    · rw [blockWrites_run] at all
      split at all
      · cases all
      · cases all
        exact put

end
end Asm
