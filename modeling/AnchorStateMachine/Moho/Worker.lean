import AnchorStateMachine.Moho.ExportEntries
import AnchorStateMachine.Moho.State
import AnchorStateMachine.Worker.Sync

/-! The Moho worker: it folds every committed block onto the Moho state of its parent, and stores
the result with the entries that the block exports. -/

namespace Asm
open Outcome

/-- Commitments are ordered as their keys are: by height, then by block id. -/
instance : LinearOrder L1BlockCommitment :=
  LinearOrder.lift' (fun block => toLex (block.height, block.blkid)) fun a b same => by
    obtain ⟨height, blkid⟩ := Prod.mk_inj.mp (toLex_inj.mp same)
    cases a
    cases b
    cases height
    cases blkid
    rfl

inductive MohoWorkerError
  | genesisMismatch
  | missingAsmState (block : L1BlockCommitment)
  | missingMohoState (block : L1BlockCommitment)
  | missingParentBlock (block : L1BlockCommitment)
  deriving DecidableEq

/-- How a call ends early. A walk along parents may not end. -/
inductive MohoStop
  | error (error : MohoWorkerError)
  | panic (panic : Panic)
  | storeEmpty
  | diverged
  deriving DecidableEq

/-- What is not found is an error. -/
def lookup {α : Type} (error : MohoWorkerError) : Option α → Except MohoStop α
  | none => .error (.error error)
  | some a => .ok a

theorem lookup_ok_iff {α : Type} {error : MohoWorkerError} {found : Option α} {a : α} :
    lookup error found = .ok a ↔ found = some a := by
  cases found with
  | none => exact iff_of_false nofun nofun
  | some b => rw [lookup, Except.ok.injEq, Option.some.injEq]

/-- The container that a log entry names is one byte. -/
def AsmLogEntry.FitsContainers : AsmLogEntry → Prop
  | newExportEntry containerId _ | exportExtraDataUpdate containerId _ => containerId < 256
  | _ => True

/-- What the ASM worker has committed, and the headers of the node. Lookups are functions of their
key. -/
structure AsmStateProvider [MerkleMountainRange] where
  getAnchorState : L1BlockCommitment → Option AnchorState
  getAnchorLogs : L1BlockCommitment → Option (List AsmLogEntry)
  getLatestAsmBlock : Option L1BlockCommitment
  getBlockHeader : Buf32 → Option Header
  fits : ∀ block logs, getAnchorLogs block = some logs → ∀ log ∈ logs, log.FitsContainers

namespace AsmStateProvider

variable [MerkleMountainRange]

def anchorState (provider : AsmStateProvider) (block : L1BlockCommitment) :
    Except MohoStop AnchorState :=
  lookup (.missingAsmState block) (provider.getAnchorState block)

def anchorLogs (provider : AsmStateProvider) (block : L1BlockCommitment) :
    Except MohoStop (List AsmLogEntry) :=
  lookup (.missingAsmState block) (provider.getAnchorLogs block)

def getParentBlock (provider : AsmStateProvider) (block : L1BlockCommitment) :
    Except MohoStop L1BlockCommitment := do
  let header ← lookup (.missingParentBlock block) (provider.getBlockHeader block.blkid)
  match block.height with
  | 0 => .error (.panic .arithmeticOverflow)
  | height + 1 => .ok ⟨height, header.prevBlockhash⟩

theorem getParentBlock_height {provider : AsmStateProvider} {block parent : L1BlockCommitment}
    (h : provider.getParentBlock block = .ok parent) : block.height = parent.height + 1 := by
  obtain ⟨header, -, h⟩ := bind_ok h
  split at h
  · cases h
  · rename_i isHeight
    cases h
    exact isHeight

end AsmStateProvider

/-- The leaves that a block adds, by container and in the order of the logs. -/
def exportEntriesFromLogs (logs : List AsmLogEntry) : OrderedTree ContainerId (List Buf32) :=
  logs.foldl (fun grouped log =>
    match log with
    | .newExportEntry containerId entryData =>
      grouped.insert (Fin.ofNat 256 containerId)
        ((grouped.get (Fin.ofNat 256 containerId)).getD [] ++ [entryData])
    | _ => grouped) .empty

section

variable [MerkleMountainRange] [MohoLibs]

instance [DecidableEq MohoLibs.ExportMmr] : DecidableEq ExportContainer := fun container other =>
  decidable_of_iff (container.containerId = other.containerId ∧ container.extraData = other.extraData ∧
    container.entries = other.entries) <| by
    cases container
    cases other
    simp

instance [DecidableEq MohoLibs.ExportMmr] : DecidableEq MohoState := fun state other =>
  decidable_of_iff (state.inner = other.inner ∧ state.nextPredicate = other.nextPredicate ∧
    state.exportState = other.exportState) <| by
    cases state
    cases other
    simp

structure MohoStores where
  mohoStates : OrderedTree L1BlockCommitment MohoState
  exportEntries : SledExportEntriesDb

inductive MohoWrite
  | entry (write : EntryWrite)
  | mohoState (block : L1BlockCommitment) (state : MohoState)

namespace MohoStores

def empty : MohoStores := ⟨.empty, .empty⟩

def write (stores : MohoStores) : MohoWrite → MohoStores
  | .entry write => { stores with exportEntries := stores.exportEntries.write write }
  | .mohoState block state => { stores with mohoStates := stores.mohoStates.insert block state }

def getMohoState (stores : MohoStores) (block : L1BlockCommitment) : Except MohoStop MohoState :=
  lookup (.missingMohoState block) (stores.mohoStates.get block)

end MohoStores

/-- What is stored of a block before its state: its height is pruned, then its entries are appended.
-/
def storeExportEntries (block : L1BlockCommitment) (logs : List AsmLogEntry) :
    SledExportEntriesDb → List EntryWrite :=
  Journal.andThen SledExportEntriesDb.write (SledExportEntriesDb.pruneFrom block.height)
    (Journal.forEach SledExportEntriesDb.write
      (fun row : ContainerId × List Buf32 => SledExportEntriesDb.append row.1 block.height row.2)
      (exportEntriesFromLogs logs).rows)

/-- The writes of a block. Its state is the last, so that the block counts as processed only after
it. -/
def persistBlock (block : L1BlockCommitment) (logs : List AsmLogEntry) (moho : MohoState)
    (stores : MohoStores) :
    List MohoWrite :=
  (storeExportEntries block logs stores.exportEntries).map .entry ++ [.mohoState block moho]

structure MohoWorkerServiceState where
  provider : AsmStateProvider
  stores : MohoStores
  curMoho : MohoState
  curBlock : L1BlockCommitment
  genesisBlock : L1BlockCommitment

namespace MohoWorkerServiceState

/-- The state of a parent: the one in memory, or a stored one if the block builds on another. -/
def parentMoho (worker : MohoWorkerServiceState) (parent : L1BlockCommitment) :
    Except MohoStop MohoState :=
  if worker.curBlock = parent then .ok worker.curMoho else worker.stores.getMohoState parent

def foldBlock (worker : MohoWorkerServiceState) (block : L1BlockCommitment) :
    Except MohoStop (List AsmLogEntry × MohoState) := do
  let parent ← worker.provider.getParentBlock block
  let parentMoho ← worker.parentMoho parent
  let anchorState ← worker.provider.anchorState block
  let logs ← worker.provider.anchorLogs block
  let moho ← (constructNextMohoState parentMoho anchorState logs).mapError .panic
  pure (logs, moho)

def updateMohoState (worker : MohoWorkerServiceState) (moho : MohoState) (block : L1BlockCommitment) :
    MohoWorkerServiceState := { worker with curMoho := moho, curBlock := block }

end MohoWorkerServiceState

abbrev MohoM := EStateM MohoStop MohoWorkerServiceState

def MohoWorkerServiceState.processBlock (block : L1BlockCommitment) : MohoM Unit := do
  let worker ← get
  let (logs, moho) ← Effect.lift (worker.foldBlock block)
  modify fun worker =>
    { worker with stores := Journal.run MohoStores.write (persistBlock block logs moho) worker.stores }
  modify fun worker => worker.updateMohoState moho block

/-- A run of `processBlock` that is aborted before it returns leaves these stores. -/
def AbortsBlock (worker : MohoWorkerServiceState) (block : L1BlockCommitment)
    (stores : MohoStores) : Prop :=
  ∃ logs moho, worker.foldBlock block = .ok (logs, moho) ∧
    Journal.Aborts MohoStores.write (persistBlock block logs moho) worker.stores stores

/-! ### Start -/

/-- Checks the stored state of genesis, or writes it. -/
def ensureGenesisMohoState [DecidableEq MohoState] (provider : AsmStateProvider)
    (genesisBlock : L1BlockCommitment) (asmPredicate : PredicateKey) :
    EStateM MohoStop MohoStores Unit := do
  let stores ← get
  match stores.mohoStates.get genesisBlock with
  | some stored =>
    let anchor ← Effect.lift (provider.anchorState genesisBlock)
    if stored ≠ constructGenesisMohoState asmPredicate anchor then throw (.error .genesisMismatch)
  | none =>
    let anchor ← Effect.lift (provider.anchorState genesisBlock)
    set (stores.write (.mohoState genesisBlock (constructGenesisMohoState asmPredicate anchor)))

def MohoWorkerServiceState.new [DecidableEq MohoState] (provider : AsmStateProvider)
    (genesisBlock : L1BlockCommitment) (asmPredicate : PredicateKey) :
    EStateM MohoStop MohoStores MohoWorkerServiceState := do
  ensureGenesisMohoState provider genesisBlock asmPredicate
  let stores ← get
  match stores.mohoStates.last with
  | none => throw .storeEmpty
  | some (curBlock, curMoho) => pure ⟨provider, stores, curMoho, curBlock, genesisBlock⟩

/-- The state to build on at a block: the one in memory, or a stored one. -/
def MohoWorkerServiceState.baseAt (worker : MohoWorkerServiceState) (block : L1BlockCommitment) :
    Except MohoStop (Option MohoState) :=
  if block = worker.curBlock then .ok (some worker.curMoho) else .ok (worker.stores.mohoStates.get block)

def MohoWorkerServiceState.planTip (worker : MohoWorkerServiceState) (asmTip : L1BlockCommitment) :
    Except MohoStop (SyncPlan MohoState) :=
  match planSync asmTip worker.genesisBlock.height worker.baseAt worker.provider.getParentBlock with
  | none => .error .diverged
  | some (.error (.reachedFloor _ _)) => .error (.error (.missingMohoState worker.curBlock))
  | some (.error (.provider stop)) => .error stop
  | some (.ok plan) => .ok plan

/-- Catches up with the tip of the ASM worker: the blocks above the base, oldest first. -/
def MohoWorkerServiceState.syncToTip : MohoM Unit := do
  let worker ← get
  match worker.provider.getLatestAsmBlock with
  | none => pure ()
  | some asmTip =>
    let plan ← Effect.lift (worker.planTip asmTip)
    plan.pending.reverse.forM processBlock

/-! ### What a call does -/

section

variable {worker after : MohoWorkerServiceState} {block : L1BlockCommitment}

/-- The state in memory is the stored one of its block. -/
def MohoWorkerServiceState.Current (worker : MohoWorkerServiceState) : Prop :=
  worker.stores.mohoStates.get worker.curBlock = some worker.curMoho

theorem MohoWorkerServiceState.Current.parentMoho (current : worker.Current)
    (parent : L1BlockCommitment) :
    worker.parentMoho parent = worker.stores.getMohoState parent := by
  unfold MohoWorkerServiceState.parentMoho
  split_ifs with same
  · subst same
    exact (lookup_ok_iff.mpr current).symm
  · rfl

/-- A block that is folded onto the state of its parent. -/
structure MohoWorkerServiceState.FoldsBlock (worker : MohoWorkerServiceState) (block : L1BlockCommitment)
    (logs : List AsmLogEntry) (moho : MohoState) (parent : L1BlockCommitment) (parentMoho : MohoState)
    (anchor : AnchorState) : Prop where
  isParent : worker.provider.getParentBlock block = .ok parent
  onParent : worker.parentMoho parent = .ok parentMoho
  isAnchor : worker.provider.getAnchorState block = some anchor
  isLogs : worker.provider.getAnchorLogs block = some logs
  folded : constructNextMohoState parentMoho anchor logs = .ok moho

theorem MohoWorkerServiceState.foldBlock_ok_iff {logs : List AsmLogEntry} {moho : MohoState} :
    worker.foldBlock block = .ok (logs, moho) ↔
      ∃ parent parentMoho anchor, worker.FoldsBlock block logs moho parent parentMoho anchor := by
  constructor
  · intro h
    obtain ⟨parent, isParent, h⟩ := bind_ok h
    obtain ⟨parentMoho, onParent, h⟩ := bind_ok h
    obtain ⟨anchor, isAnchor, h⟩ := bind_ok h
    obtain ⟨_, isLogs, h⟩ := bind_ok h
    obtain ⟨_, folded, h⟩ := bind_ok h
    cases pure_ok h
    exact ⟨parent, parentMoho, anchor, isParent, onParent, lookup_ok_iff.mp isAnchor,
      lookup_ok_iff.mp isLogs,
      mapError_ok_iff.mp folded⟩
  · rintro ⟨parent, parentMoho, anchor, folds⟩
    rw [foldBlock, folds.isParent, ok_bind, folds.onParent, ok_bind, AsmStateProvider.anchorState,
      lookup_ok_iff.mpr folds.isAnchor, ok_bind, AsmStateProvider.anchorLogs,
      lookup_ok_iff.mpr folds.isLogs, ok_bind,
      mapError_ok_iff.mpr folds.folded]
    rfl

/-- What a call that returns did. -/
inductive ProcessesBlock (worker : MohoWorkerServiceState) (block : L1BlockCommitment) :
    MohoWorkerServiceState → Prop
  | processed {logs : List AsmLogEntry} {moho parentMoho : MohoState} {parent : L1BlockCommitment}
      {anchor : AnchorState} (folds : worker.FoldsBlock block logs moho parent parentMoho anchor) :
      ProcessesBlock worker block
        { worker with
          stores := Journal.run MohoStores.write (persistBlock block logs moho) worker.stores
          curMoho := moho
          curBlock := block }

theorem MohoWorkerServiceState.processBlock_ok_iff :
    (processBlock block).run worker = .ok () after ↔ ProcessesBlock worker block after := by
  constructor
  · intro h
    obtain ⟨⟨logs, moho⟩, folded, h⟩ := Effect.lift_bind_ok (Effect.get_bind_ok h)
    obtain ⟨parent, parentMoho, anchor, folds⟩ := MohoWorkerServiceState.foldBlock_ok_iff.mp folded
    cases h
    exact .processed folds
  · rintro ⟨folds⟩
    have folded := MohoWorkerServiceState.foldBlock_ok_iff.mpr ⟨_, _, _, folds⟩
    exact Effect.lift_bind_of_ok folded _

end

end

end Asm
