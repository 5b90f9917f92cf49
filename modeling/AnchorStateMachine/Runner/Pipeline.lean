import AnchorStateMachine.Library.Relay
import AnchorStateMachine.Moho.CrashReplay
import AnchorStateMachine.Runner.Context
import AnchorStateMachine.Worker.Execution

/-! The runner: the ASM worker commits blocks and announces them, the Moho worker folds the announced
blocks and announces them in turn, and the prover takes what the Moho worker announces. The workers
run side by side on stores that they share. Announcements are not repeated after a restart; the Moho
worker then catches up with the latest block of the ASM worker before it takes any. -/

namespace Asm
open Outcome

/-! ### Workers and steps -/

section

variable [AsmLibs] [MohoLibs]

structure MohoMemory where
  stores : MohoStores
  curMoho : MohoState
  curBlock : L1BlockCommitment

def MohoWorkerServiceState.memory (worker : MohoWorkerServiceState) : MohoMemory :=
  ⟨worker.stores, worker.curMoho, worker.curBlock⟩

/-- The blocks that the Moho worker folds before it takes any from the ASM worker. -/
def MohoWorkerServiceState.planCatchUp (worker : MohoWorkerServiceState) :
    Except MohoStop (List L1BlockCommitment) :=
  match worker.provider.getLatestAsmBlock with
  | none => .ok []
  | some asmTip => do
    let plan ← worker.planTip asmTip
    pure plan.pending.reverse

theorem MohoWorkerServiceState.syncToTip_run (worker : MohoWorkerServiceState) :
    syncToTip.run worker = (Effect.lift worker.planCatchUp >>= fun blocks =>
      blocks.forM processBlock).run worker := by
  have read : (get : MohoM MohoWorkerServiceState).run worker = .ok worker worker := rfl
  rw [syncToTip, Effect.bind_of_ok read, planCatchUp]
  cases worker.provider.getLatestAsmBlock with
  | none => rfl
  | some asmTip =>
    dsimp only
    cases worker.planTip asmTip with
    | error stop => rfl
    | ok plan => rfl

structure Runner where
  asm : AsmWorker
  /-- What the current call of the ASM worker has still to apply. -/
  pass : List L1BlockCommitment
  /-- What the ASM worker has announced and the Moho worker has not taken. -/
  commits : List L1BlockCommitment
  moho : MohoMemory
  catchUp : List L1BlockCommitment
  /-- What the Moho worker has announced and the prover has not taken. -/
  derived : List L1BlockCommitment
  received : List L1BlockCommitment

/-- The Moho worker reads the stores of the ASM worker as they are. -/
def Runner.mohoWorker (d : Deployment) (r : Runner) : MohoWorkerServiceState :=
  ⟨r.asm.mohoContext, r.moho.stores, r.moho.curMoho, r.moho.curBlock, d.genesis.lastProcessedBlock⟩

/-- What the Moho worker leaves if it ends now: the stores as they are, or with some first writes of
the block that it folds. -/
inductive Runner.LeavesMoho (d : Deployment) (r : Runner) : MohoStores → Prop
  | between : LeavesMoho d r r.moho.stores
  | within {block : L1BlockCommitment} {stores : MohoStores}
      (next : (r.catchUp ++ r.commits).head? = some block)
      (aborts : AbortsBlock (r.mohoWorker d) block stores) : LeavesMoho d r stores

section

variable [DecidableEq AnchorState] [DecidableEq MohoState]

/-- Both workers start over what is stored. -/
inductive Deployment.Launches (d : Deployment) (context : WorkerContext) (stores : MohoStores) :
    Runner → Prop
  | launch {asm : AsmWorker} {moho : MohoWorkerServiceState} {left : MohoStores}
      {catchUp : List L1BlockCommitment} (started : d.Starts context asm.worker)
      (resumed : (MohoWorkerServiceState.new asm.mohoContext d.genesis.lastProcessedBlock
        d.predicate).run stores = .ok moho left)
      (planned : moho.planCatchUp = .ok catchUp) :
      Launches d context stores ⟨asm, [], [], moho.memory, catchUp, [], []⟩

/-- What a first launch leaves that may have been cut short, any number of times. It writes the history
of genesis, the anchor of genesis and the Moho state of genesis, in this order. -/
inductive Deployment.Installs (d : Deployment) : WorkerContext → MohoStores → Prop
  | empty : Installs d d.emptyStores .empty
  | seeded {context later : WorkerContext} {stores : MohoStores} (before : Installs d context stores)
      (seeds : (AsmWorkerServiceState.seedMmr d.genesis).run context = .ok () later) : Installs d later stores
  | started {context : WorkerContext} {stores : MohoStores} {asm : AsmWorkerServiceState}
      (before : Installs d context stores) (started : d.Starts context asm) : Installs d asm.context stores
  | resumed {context : WorkerContext} {stores left : MohoStores} {asm : AsmWorker}
      {moho : MohoWorkerServiceState} (before : Installs d context stores)
      (started : d.Starts context asm.worker)
      (resumed : (MohoWorkerServiceState.new asm.mohoContext d.genesis.lastProcessedBlock
        d.predicate).run stores = .ok moho left) : Installs d asm.worker.context moho.stores

variable [StoredMmr]

/-- The workers take turns in any order. A worker that has ended takes none; what it was about to
write counts when the runner is started again. -/
inductive Runner.Step (d : Deployment) : Runner → Runner → Prop
  | submit {r : Runner} {targetBlkid : Buf32} {height : Nat} {plan : SyncPlan AnchorState}
      {mid : AsmWorkerServiceState} {fit : mid.context.FitContainers}
      (launched : r.catchUp = []) (idle : r.pass = [])
      (isHeight : r.asm.worker.context.l1.getL1BlockHeight targetBlkid = .ok height)
      (planned : planBlockProcessing r.asm.worker.context ⟨height, targetBlkid⟩
        r.asm.worker.genesisHeight = .ok plan) (some : plan.pending ≠ [])
      (restored : (AsmWorkerServiceState.restoreAnchor plan.baseState plan.baseBlock).run r.asm.worker =
        .ok () mid) :
      Step d r { r with asm := ⟨mid, fit⟩, pass := plan.pending.reverse }
  | apply {r : Runner} {block : L1BlockCommitment} {rest : List L1BlockCommitment}
      {post : AsmWorkerServiceState} {fit : post.context.FitContainers} (pending : r.pass = block :: rest)
      (applied : (applyBlock block).run r.asm.worker = .ok () post) :
      Step d r { r with asm := ⟨post, fit⟩, pass := rest, commits := r.commits ++ [block] }
  | catchUp {r : Runner} {block : L1BlockCommitment} {rest : List L1BlockCommitment}
      {after : MohoWorkerServiceState} (pending : r.catchUp = block :: rest)
      (processed : (MohoWorkerServiceState.processBlock block).run (r.mohoWorker d) = .ok () after) :
      Step d r { r with moho := after.memory, catchUp := rest }
  | fold {r : Runner} {block : L1BlockCommitment} {rest : List L1BlockCommitment}
      {after : MohoWorkerServiceState} (launched : r.catchUp = []) (queued : r.commits = block :: rest)
      (processed : (MohoWorkerServiceState.processBlock block).run (r.mohoWorker d) = .ok () after) :
      Step d r { r with moho := after.memory, commits := rest, derived := r.derived ++ [block] }
  | receive {r : Runner} {block : L1BlockCommitment} {rest : List L1BlockCommitment}
      (queued : r.derived = block :: rest) :
      Step d r { r with derived := rest, received := r.received ++ [block] }

/-- A runner after any steps, and after a number of restarts. -/
inductive Deployment.Runs (d : Deployment) : Nat → Runner → Prop
  | launch {r : Runner} {context : WorkerContext} {stores : MohoStores} (installs : d.Installs context stores)
      (launched : d.Launches context stores r) : Runs d 0 r
  | step {restarts : Nat} {r s : Runner} (before : Runs d restarts r) (step : r.Step d s) :
      Runs d restarts s
  | restart {restarts : Nat} {r s : Runner} {context : WorkerContext} {stores : MohoStores}
      (before : Runs d restarts r) (leftAsm : LeavesStores r.asm.worker r.pass context)
      (leftMoho : r.LeavesMoho d stores) (launched : d.Launches context stores s) :
      Runs d (restarts + 1) s

end

end

/-! ### What is committed, and what is derived -/

section

variable [AsmLibs] {d : Deployment} {context later : WorkerContext} {block parent : L1BlockCommitment}

def WorkerContext.committed (context : WorkerContext) : Set L1BlockCommitment :=
  {block | ∃ anchor, Keyed.get AnchorState.lastProcessedBlock context.anchors block = some anchor}

/-- A block above genesis has a stored parent, which header and body of the block agree on. -/
theorem Persists.parentStored (persists : Persists d context) (known : block ∈ context.committed)
    (other : block ≠ d.genesis.lastProcessedBlock) :
    ∃ parent manifest, d.l1.headerParentOf block = some parent ∧ context.l1.parentOf block = some parent ∧
      parent ∈ context.committed ∧ context.getManifest block = .ok manifest := by
  obtain ⟨anchor, stored⟩ := known
  obtain ⟨mem, rfl⟩ := (Keyed.get_iff _ persists.anchorKeys).mp stored
  rcases persists.replayable anchor mem with rfl | ⟨parent, past, block, target, auxData, manifest, replays⟩
  · exact absurd rfl other
  · have steps := Deployment.steps replays.resolved replays.ran
    refine ⟨parent.lastProcessedBlock, manifest, ?_, ?_, ⟨parent, ?_⟩, ?_⟩
    · rw [L1DataProvider.headerParentOf_iff, steps.tip]
      exact ⟨steps.tip ▸ replays.isParent, rfl⟩
    · rw [persists.l1]
      exact steps.isParent replays.found
    · exact persists.anchorAt (replays.recorded.mem persists.toStored)
    · rw [WorkerContext.getManifest, replays.kept]

theorem WorkerContext.Extends.committed (grown : context.Extends later) :
    context.committed ⊆ later.committed :=
  fun block ⟨anchor, stored⟩ => ⟨anchor, grown.anchors block anchor stored⟩

theorem Commits.unknown {worker post : AsmWorkerServiceState} (commits : Commits worker block post) :
    block ∉ worker.context.committed := by
  rintro ⟨anchor, stored⟩
  cases commits.fresh.symm.trans stored

/-- A block that is applied is a commit of the relay. -/
theorem Commits.relays {worker post : AsmWorkerServiceState} (commits : Commits worker block post)
    (sameL1 : worker.context.l1 = d.l1) (derived : Set L1BlockCommitment)
    (queue : List L1BlockCommitment) :
    Relay.Step d.l1.headerParentOf ⟨worker.context.committed, derived, queue⟩
      ⟨post.context.committed, derived, queue ++ [block]⟩ := by
  have isCommitted : post.context.committed = insert block worker.context.committed := by
    ext other
    simp only [WorkerContext.committed, Set.mem_ofPred_eq, Set.mem_insert_iff, commits.anchors]
    split_ifs with same
    · simp [same]
    · simp [same]
  rw [isCommitted]
  refine .commit (p := worker.blkid) ?_ ⟨_, commits.onParent⟩ commits.unknown
  rw [← sameL1]
  exact L1DataProvider.headerParentOf_iff.mpr ⟨commits.isParent, commits.above⟩

variable [MohoLibs] {stores : MohoStores} {moho : MohoState}

def MohoStores.derived (stores : MohoStores) : Set L1BlockCommitment :=
  {block | ∃ moho, stores.mohoStates.get block = some moho}

theorem derived_insert {stores later : MohoStores}
    (isLater : later.mohoStates = stores.mohoStates.insert block moho) :
    later.derived = insert block stores.derived := by
  ext other
  simp only [MohoStores.derived, Set.mem_ofPred_eq, Set.mem_insert_iff, isLater, OrderedTree.get_insert]
  split_ifs with same
  · simp [same]
  · simp [same]

theorem MohoAt.extend (grown : context.Extends later) (derived : MohoAt d context block moho) :
    MohoAt d later block moho := by
  induction derived with
  | genesis => exact .genesis
  | @block parent block prev moho anchor manifest before isParent stored got next ih =>
    have here := getAnchorState_iff.mp stored
    refine .block ih (grown.l1 ▸ isParent) (getAnchorState_iff.mpr (grown.anchors _ _ here)) ?_ next
    rw [WorkerContext.getManifest] at got ⊢
    rw [grown.manifests _ _ here]
    exact got

/-- The stored Moho states are the folds along the ancestry of their blocks. -/
structure Folded (d : Deployment) (context : WorkerContext) (stores : MohoStores) : Prop where
  genesis : stores.mohoStates.get d.genesis.lastProcessedBlock =
    some (constructGenesisMohoState d.predicate d.genesis)
  folds : ∀ block moho, stores.mohoStates.get block = some moho → MohoAt d context block moho

theorem Folded.extend (folded : Folded d context stores) (grown : context.Extends later) :
    Folded d later stores :=
  ⟨folded.genesis, fun block moho stored => (folded.folds block moho stored).extend grown⟩

theorem Folded.insert {later : MohoStores} (folded : Folded d context stores)
    (other : block ≠ d.genesis.lastProcessedBlock)
    (isLater : later.mohoStates = stores.mohoStates.insert block moho)
    (derived : MohoAt d context block moho) : Folded d context later := by
  constructor
  · rw [isLater, OrderedTree.get_insert, if_neg other.symm]
    exact folded.genesis
  · intro block' moho' stored
    rw [isLater, OrderedTree.get_insert] at stored
    split_ifs at stored with same
    · cases stored
      rw [same]
      exact derived
    · exact folded.folds block' moho' stored

end

/-! ### Soundness -/

section

variable [AsmLibs] [MohoLibs] {d : Deployment} {r s : Runner} {block parent tip base : L1BlockCommitment}
  {after : MohoWorkerServiceState}

def Runner.context (r : Runner) : WorkerContext := r.asm.worker.context

/-- The two workers as the stages of a relay. -/
def Runner.relay (r : Runner) : Relay.State L1BlockCommitment :=
  ⟨r.context.committed, r.moho.stores.derived, r.commits⟩

theorem Runner.getParentBlock_iff : (r.mohoWorker d).provider.getParentBlock block = .ok parent ↔
    r.context.l1.headerParentOf block = some parent :=
  WorkerContext.mohoContext_parent r.asm.fit

/-- The Moho worker is on its way to a block of the ASM worker. -/
structure Runner.Catching (d : Deployment) (r : Runner) (tip base : L1BlockCommitment)
    (baseState : MohoState) : Prop where
  pass : r.pass = []
  commits : r.commits = []
  walk : Walk d.genesis.lastProcessedBlock.height (r.mohoWorker d).baseAt
    (r.mohoWorker d).provider.getParentBlock base baseState tip r.catchUp.reverse
  known : tip ∈ r.context.committed

structure Runner.Sound (d : Deployment) (r : Runner) : Prop where
  working : Working d r.asm.worker r.pass
  folded : Folded d r.context r.moho.stores
  current : (r.mohoWorker d).Current
  relay : Relay.Sound d.l1.headerParentOf d.genesis.lastProcessedBlock r.relay
  announced : r.asm.worker.emitted = r.received ++ r.derived ++ r.commits
  known : ∀ block ∈ r.asm.worker.emitted, block ∈ r.context.committed ∧ block ≠ d.genesis.lastProcessedBlock
  order : r.asm.worker.emitted.Pairwise fun earlier later =>
    earlier ≠ later ∧ d.l1.headerParentOf earlier ≠ some later
  delivered : ∀ block ∈ r.received ++ r.derived, block ∈ r.moho.stores.derived
  catching : r.catchUp = [] ∨ ∃ tip base baseState, r.Catching d tip base baseState

/-- A block is folded onto the stored state of its parent. -/
structure Runner.FoldsTo (d : Deployment) (r : Runner) (block parent : L1BlockCommitment)
    (moho : MohoState) (after : MohoWorkerServiceState) : Prop where
  isParent : d.l1.headerParentOf block = some parent
  onParent : parent ∈ r.moho.stores.derived
  derived : MohoAt d r.context block moho
  stored : after.stores.mohoStates = r.moho.stores.mohoStates.insert block moho
  current : after.Current

theorem Persists.foldsTo (persists : Persists d r.context) (folded : Folded d r.context r.moho.stores)
    (current : (r.mohoWorker d).Current) (known : block ∈ r.context.committed)
    (other : block ≠ d.genesis.lastProcessedBlock)
    (processes : ProcessesBlock (r.mohoWorker d) block after) :
    ∃ parent moho, r.FoldsTo d block parent moho after := by
  obtain ⟨folds⟩ := processes
  rename_i logs moho prev parent anchor
  obtain ⟨parent', manifest, isParent', onL1, -, got⟩ := persists.parentStored known other
  have isParent := Runner.getParentBlock_iff.mp folds.isParent
  rw [persists.l1] at isParent
  cases isParent.symm.trans isParent'
  have stored : r.moho.stores.mohoStates.get parent = some prev :=
    lookup_ok_iff.mp ((current.parentMoho parent).symm.trans folds.onParent)
  obtain ⟨manifest', got', isLogs⟩ := Option.map_eq_some_iff.mp folds.isLogs
  have sameManifest : manifest' = manifest := by
    rw [WorkerContext.getManifest, Runner.context, got'] at got
    exact Except.ok.inj got
  subst sameManifest
  have next := folds.folded
  rw [← isLogs] at next
  have derived : MohoAt d r.context block moho :=
    .block (folded.folds parent prev stored) onL1 (getAnchorState_iff.mpr folds.isAnchor) got next
  refine ⟨parent, moho, isParent, ⟨prev, stored⟩, derived, ?_, ?_⟩
  · rw [run_persistBlock]
    rfl
  · rw [MohoWorkerServiceState.Current, run_persistBlock, OrderedTree.get_insert, if_pos rfl]

theorem Runner.FoldsTo.folded {moho : MohoState} (folds : r.FoldsTo d block parent moho after)
    (folded : Folded d r.context r.moho.stores) (other : block ≠ d.genesis.lastProcessedBlock) :
    Folded d r.context after.stores :=
  folded.insert other folds.stored folds.derived

theorem Runner.FoldsTo.relays_fold {moho : MohoState} {rest : List L1BlockCommitment}
    (folds : r.FoldsTo d block parent moho after) (queued : r.commits = block :: rest) :
    Relay.Step d.l1.headerParentOf r.relay ⟨r.context.committed, after.stores.derived, rest⟩ := by
  rw [derived_insert folds.stored]
  exact .derive queued folds.isParent folds.onParent

theorem Runner.FoldsTo.relays_catchUp {moho : MohoState} (folds : r.FoldsTo d block parent moho after)
    (known : block ∈ r.context.committed) :
    Relay.Step d.l1.headerParentOf r.relay.forget ⟨r.context.committed, after.stores.derived, []⟩ := by
  rw [derived_insert folds.stored]
  exact .catchUp rfl known folds.isParent folds.onParent

theorem Runner.Sound.persists (sound : r.Sound d) : Persists d r.context := sound.working.persists

/-- With the state in memory stored, a walk back looks for stored states. -/
theorem MohoWorkerServiceState.Current.baseAt {worker : MohoWorkerServiceState} (current : worker.Current)
    (block : L1BlockCommitment) : worker.baseAt block = .ok (worker.stores.mohoStates.get block) := by
  unfold MohoWorkerServiceState.baseAt
  split_ifs with same
  · rw [same, show worker.stores.mohoStates.get worker.curBlock = some worker.curMoho from current]
  · rfl

/-- Once its oldest block is folded, the way of the Moho worker is one block shorter. -/
theorem Runner.Catching.advance {baseState moho : MohoState} {rest : List L1BlockCommitment}
    (catching : r.Catching d tip base baseState) (current : (r.mohoWorker d).Current)
    (pending : r.catchUp = block :: rest) (folds : r.FoldsTo d block parent moho after) :
    Runner.Catching d { r with moho := after.memory, catchUp := rest } tip block moho := by
  refine ⟨catching.pass, catching.commits, ?_, catching.known⟩
  have walk := catching.walk
  rw [pending, List.reverse_cons] at walk
  refine walk.advance (fun block parent isParent above => ?_) ?_ fun higher above => ?_
  · rw [AsmStateProvider.getParentBlock_height isParent]
    exact Nat.lt_succ_self _
  · refine (folds.current.baseAt block).trans ?_
    rw [folds.stored, OrderedTree.get_insert, if_pos rfl]
  · refine (folds.current.baseAt higher).trans ((current.baseAt higher).trans ?_).symm
    rw [folds.stored, OrderedTree.get_insert, if_neg]
    · rfl
    · rintro rfl
      exact Nat.lt_irrefl _ above

/-- All that is passed on the way back from a committed block is committed, and above genesis. -/
theorem Persists.walk_committed (persists : Persists d r.context)
    {baseAt : L1BlockCommitment → Except MohoStop (Option MohoState)} {baseState : MohoState}
    {passed : List L1BlockCommitment}
    (walk : Walk d.genesis.lastProcessedBlock.height baseAt (r.mohoWorker d).provider.getParentBlock base
      baseState tip passed) (known : tip ∈ r.context.committed) :
    ∀ block ∈ passed, block ∈ r.context.committed ∧ block ≠ d.genesis.lastProcessedBlock := by
  induction walk with
  | base isBase => exact List.forall_mem_nil _
  | @step cursor parent rest notBase above isParent walk ih =>
    have other : cursor ≠ d.genesis.lastProcessedBlock := fun same => Nat.ne_of_gt above (congrArg _ same)
    obtain ⟨parent', _, isParent', -, stored, -⟩ := persists.parentStored known other
    replace isParent := Runner.getParentBlock_iff.mp isParent
    rw [persists.l1] at isParent
    cases isParent.symm.trans isParent'
    exact List.forall_mem_cons.mpr ⟨⟨known, other⟩, ih stored⟩

namespace Runner.Sound

theorem catching_of_pending (sound : r.Sound d) {rest : List L1BlockCommitment}
    (pending : r.catchUp = block :: rest) : ∃ tip base baseState, r.Catching d tip base baseState :=
  sound.catching.resolve_left fun none => by cases pending.symm.trans none

theorem catchUp_known (sound : r.Sound d) {rest : List L1BlockCommitment}
    (pending : r.catchUp = block :: rest) :
    block ∈ r.context.committed ∧ block ≠ d.genesis.lastProcessedBlock := by
  obtain ⟨tip, base, baseState, catching⟩ := sound.catching_of_pending pending
  refine sound.persists.walk_committed catching.walk catching.known block ?_
  rw [pending]
  exact List.mem_reverse.mpr (.head _)

theorem commits_known (sound : r.Sound d) (queued : block ∈ r.commits) :
    block ∈ r.context.committed ∧ block ≠ d.genesis.lastProcessedBlock := by
  refine sound.known block ?_
  rw [sound.announced]
  exact List.mem_append_right _ queued

/-- The next block that is folded, if there is one. -/
theorem next_known (sound : r.Sound d) (next : (r.catchUp ++ r.commits).head? = some block) :
    block ∈ r.context.committed ∧ block ≠ d.genesis.lastProcessedBlock := by
  cases pending : r.catchUp with
  | nil =>
    rw [pending, List.nil_append] at next
    exact sound.commits_known (List.mem_of_head? next)
  | cons first rest =>
    rw [pending] at next
    cases next
    exact sound.catchUp_known pending

theorem processed (sound : r.Sound d) (known : block ∈ r.context.committed)
    (other : block ≠ d.genesis.lastProcessedBlock)
    (processed : (MohoWorkerServiceState.processBlock block).run (r.mohoWorker d) = .ok () after) :
    ∃ parent moho, r.FoldsTo d block parent moho after :=
  sound.persists.foldsTo sound.folded sound.current known other
    (MohoWorkerServiceState.processBlock_ok_iff.mp processed)

theorem submit (sound : r.Sound d) {target : L1BlockCommitment} {plan : SyncPlan AnchorState}
    {mid : AsmWorkerServiceState} {fit : mid.context.FitContainers} (launched : r.catchUp = [])
    (idle : r.pass = [])
    (planned : planBlockProcessing r.asm.worker.context target r.asm.worker.genesisHeight = .ok plan)
    (restored : (AsmWorkerServiceState.restoreAnchor plan.baseState plan.baseBlock).run r.asm.worker =
      .ok () mid) :
    Sound d { r with asm := ⟨mid, fit⟩, pass := plan.pending.reverse } := by
  have working := sound.working
  rw [idle] at working
  obtain ⟨working, sameContext, sameEmitted⟩ :=
    working.restore (planBlockProcessing_ok planned) restored
  have isContext : Runner.context { r with asm := ⟨mid, fit⟩, pass := plan.pending.reverse } =
    r.context := sameContext
  refine ⟨working, isContext ▸ sound.folded, sound.current, ?_, sameEmitted.trans sound.announced, ?_, ?_,
    sound.delivered, .inl launched⟩
  · rw [Runner.relay, isContext]
    exact sound.relay
  · rw [sameEmitted, isContext]
    exact sound.known
  · rw [sameEmitted]
    exact sound.order

variable [StoredMmr] {rest : List L1BlockCommitment}

theorem apply (sound : r.Sound d) {post : AsmWorkerServiceState} {fit : post.context.FitContainers}
    (pending : r.pass = block :: rest)
    (applied : (applyBlock block).run r.asm.worker = .ok () post) :
    Sound d { r with asm := ⟨post, fit⟩, pass := rest, commits := r.commits ++ [block] } := by
  have working := sound.working
  rw [pending] at working
  obtain ⟨working, committed⟩ := working.apply applied
  have idle : r.catchUp = [] := by
    rcases sound.catching with none | ⟨tip, base, baseState, catching⟩
    · exact none
    · cases pending.symm.trans catching.pass
  refine ⟨working, sound.folded.extend committed.grown, sound.current,
    sound.relay.step (committed.relays sound.persists.l1 _ _), ?_, ?_, ?_, sound.delivered, .inl idle⟩
  · show post.emitted = _
    rw [committed.emitted, sound.announced, List.append_assoc]
  · intro other mem
    rw [committed.emitted] at mem
    rcases List.mem_append.mp mem with old | isNew
    · exact ⟨committed.grown.committed (sound.known other old).1, (sound.known other old).2⟩
    · rw [List.mem_singleton.mp isNew]
      refine ⟨⟨_, (committed.anchors block).trans (if_pos rfl)⟩, ?_⟩
      rintro rfl
      exact committed.unknown (sound.relay.within sound.relay.seeded)
  · rw [committed.emitted]
    refine List.pairwise_append.mpr ⟨sound.order, List.pairwise_singleton _ _, fun other old last mem => ?_⟩
    rw [List.mem_singleton.mp mem]
    obtain ⟨known, above⟩ := sound.known other old
    obtain ⟨parent, isParent, onParent⟩ := sound.relay.grounded other known above
    refine ⟨?_, ?_⟩
    · rintro rfl
      exact committed.unknown known
    · rintro same
      cases isParent.symm.trans same
      exact committed.unknown onParent

omit [StoredMmr] in
theorem fold (sound : r.Sound d) (queued : r.commits = block :: rest) (launched : r.catchUp = [])
    (processed : (MohoWorkerServiceState.processBlock block).run (r.mohoWorker d) = .ok () after) :
    Sound d { r with moho := after.memory, commits := rest, derived := r.derived ++ [block] } := by
  have first : block ∈ r.commits := by
    rw [queued]
    exact .head _
  obtain ⟨known, other⟩ := sound.commits_known first
  obtain ⟨parent, moho, folds⟩ := sound.processed known other processed
  refine ⟨sound.working, folds.folded sound.folded other, folds.current,
    sound.relay.step (folds.relays_fold queued), ?_, sound.known, sound.order, ?_, .inl launched⟩
  · show r.asm.worker.emitted = _
    rw [sound.announced, queued]
    simp
  · intro block' mem
    show block' ∈ after.stores.derived
    rw [derived_insert folds.stored]
    rw [← List.append_assoc] at mem
    rcases List.mem_append.mp mem with old | isNew
    · exact .inr (sound.delivered block' old)
    · exact .inl (List.mem_singleton.mp isNew)

omit [StoredMmr] in
/-- While the Moho worker catches up, nothing is announced. -/
theorem relays_catchUp (sound : r.Sound d) {moho : MohoState} (pending : r.catchUp = block :: rest)
    (folds : r.FoldsTo d block parent moho after) :
    Relay.Step d.l1.headerParentOf r.relay ⟨r.context.committed, after.stores.derived, r.commits⟩ := by
  obtain ⟨tip, base, baseState, catching⟩ := sound.catching_of_pending pending
  have idle : r.relay.forget = r.relay := congrArg _ catching.commits.symm
  have relays := folds.relays_catchUp (sound.catchUp_known pending).1
  rw [idle] at relays
  rw [catching.commits]
  exact relays

omit [StoredMmr] in
theorem catchUp (sound : r.Sound d) (pending : r.catchUp = block :: rest)
    (processed : (MohoWorkerServiceState.processBlock block).run (r.mohoWorker d) = .ok () after) :
    Sound d { r with moho := after.memory, catchUp := rest } := by
  obtain ⟨known, other⟩ := sound.catchUp_known pending
  obtain ⟨parent, moho, folds⟩ := sound.processed known other processed
  refine ⟨sound.working, folds.folded sound.folded other, folds.current,
    sound.relay.step (sound.relays_catchUp pending folds), sound.announced, sound.known, sound.order, ?_, ?_⟩
  · intro block' mem
    show block' ∈ after.stores.derived
    rw [derived_insert folds.stored]
    exact .inr (sound.delivered block' mem)
  · obtain ⟨tip, base, baseState, catching⟩ := sound.catching_of_pending pending
    exact .inr ⟨tip, block, moho, catching.advance sound.current pending folds⟩

omit [StoredMmr] in
theorem receive (sound : r.Sound d) (queued : r.derived = block :: rest) :
    Sound d { r with derived := rest, received := r.received ++ [block] } := by
  have same : r.received ++ [block] ++ rest = r.received ++ r.derived := by
    rw [queued, List.append_assoc, List.singleton_append]
  refine ⟨sound.working, sound.folded, sound.current, sound.relay, ?_, sound.known, sound.order, ?_, ?_⟩
  · show r.asm.worker.emitted = _
    rw [sound.announced, same]
  · rw [same]
    exact sound.delivered
  · rcases sound.catching with none | ⟨tip, base, baseState, catching⟩
    · exact .inl none
    · exact .inr ⟨tip, base, baseState, catching.pass, catching.commits, catching.walk, catching.known⟩

end Runner.Sound

end

end Asm
