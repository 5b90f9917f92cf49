import AnchorStateMachine.Runner.Pipeline

/-! Stopping and starting the runner. Wherever either worker is stopped, what it leaves is stored as a
whole or can be written again, and the workers start over it. -/

namespace Asm
open Outcome

/-! ### Calls of the ASM worker -/

section

variable [AsmLibs] [MohoLibs] [StoredMmr] {d : Deployment} {r s : Runner} {post : AsmWorkerServiceState}

theorem Runner.apply_steps (r : Runner) (blocks : List L1BlockCommitment) (isPass : r.pass = blocks)
    (applied : (blocks.forM applyBlock).run r.asm.worker = .ok () post) :
    ∃ fit, Relation.ReflTransGen (Runner.Step d) r
      { r with asm := ⟨post, fit⟩, pass := [], commits := r.commits ++ blocks } := by
  induction blocks generalizing r with
  | nil =>
    cases applied
    refine ⟨r.asm.fit, ?_⟩
    rw [List.append_nil, ← isPass]
  | cons block rest ih =>
    rw [Effect.forM_cons_run] at applied
    obtain ⟨_, mid, first, applied⟩ := Effect.bind_ok applied
    obtain ⟨fit, steps⟩ := ih { r with
      asm := ⟨mid, applyBlock_fit first r.asm.fit⟩, pass := rest, commits := r.commits ++ [block] } rfl applied
    rw [List.append_assoc, List.singleton_append] at steps
    exact ⟨fit, .head (.apply isPass first) steps⟩

/-- A call of the ASM worker is a submit, and then the blocks of its plan. -/
theorem Runner.sync_steps {targetBlkid : Buf32} {processed : List L1BlockCommitment}
    (launched : r.catchUp = []) (idle : r.pass = [])
    (synced : (syncToBlock targetBlkid).run r.asm.worker = .ok processed post) :
    ∃ fit, Relation.ReflTransGen (Runner.Step d) r
      { r with asm := ⟨post, fit⟩, commits := r.commits ++ processed } := by
  have unchanged : Relation.ReflTransGen (Runner.Step d) r
      { r with asm := ⟨r.asm.worker, r.asm.fit⟩, commits := r.commits ++ [] } := by
    rw [List.append_nil]
  obtain ⟨height, isHeight, synced⟩ := Effect.lift_bind_ok (Effect.get_bind_ok synced)
  split at synced
  · cases synced
    exact ⟨r.asm.fit, unchanged⟩
  · obtain ⟨plan, planned, synced⟩ := Effect.lift_bind_ok synced
    split at synced
    · cases synced
      exact ⟨r.asm.fit, unchanged⟩
    · rename_i notEmpty
      obtain ⟨_, mid, restored, synced⟩ := Effect.bind_ok synced
      obtain ⟨_, _, applied, synced⟩ := Effect.bind_ok synced
      obtain ⟨rfl, rfl⟩ := Effect.pure_ok synced
      have fit : mid.context.FitContainers := by
        obtain ⟨_, -, -, rfl⟩ := restoreAnchor_ok restored
        exact r.asm.fit
      have some : plan.pending ≠ [] := by simpa using notEmpty
      have submits : r.Step d { r with asm := ⟨mid, fit⟩, pass := plan.pending.reverse } :=
        .submit launched idle (liftError_ok isHeight) planned some restored
      obtain ⟨fit', steps⟩ := Runner.apply_steps (d := d)
        { r with asm := ⟨mid, fit⟩, pass := plan.pending.reverse } plan.pending.reverse rfl applied
      refine ⟨fit', .head submits ?_⟩
      rw [idle]
      exact steps

end

/-! ### Starting the Moho worker -/

section

variable [AsmLibs] [MohoLibs] {provider : AsmStateProvider} {genesisBlock : L1BlockCommitment}
  {predicate : PredicateKey} {stores left : MohoStores} {anchor : AnchorState}
  {moho : MohoWorkerServiceState}

/-- A worker over stores in which genesis has its state. -/
structure MohoWorkerServiceState.Resumes (provider : AsmStateProvider) (genesisBlock : L1BlockCommitment)
    (genesisMoho : MohoState) (stores : MohoStores) (moho : MohoWorkerServiceState) : Prop where
  isProvider : moho.provider = provider
  isGenesis : moho.genesisBlock = genesisBlock
  seeded : moho.stores.mohoStates = stores.mohoStates.insert genesisBlock genesisMoho
  current : moho.Current

theorem MohoWorkerServiceState.Resumes.isWorker {d : Deployment} {asm : AsmWorker}
    {genesisMoho : MohoState} {catchUp : List L1BlockCommitment}
    (resumes : Resumes asm.mohoContext d.genesis.lastProcessedBlock genesisMoho stores moho) :
    Runner.mohoWorker d ⟨asm, [], [], moho.memory, catchUp, [], []⟩ = moho := by
  rw [Runner.mohoWorker, ← resumes.isProvider, ← resumes.isGenesis]
  rfl

variable [DecidableEq MohoState]

theorem ensureGenesisMohoState_ok
    (ensured : (ensureGenesisMohoState provider genesisBlock predicate).run stores = .ok () left)
    (anchored : provider.getAnchorState genesisBlock = some anchor) :
    left.mohoStates = stores.mohoStates.insert genesisBlock (constructGenesisMohoState predicate anchor) := by
  have isAnchor : provider.anchorState genesisBlock = .ok anchor := lookup_ok_iff.mpr anchored
  have ran := Effect.get_bind_ok ensured
  cases stored : stores.mohoStates.get genesisBlock with
  | none =>
    rw [stored] at ran
    dsimp only at ran
    rw [Effect.lift_bind_of_ok isAnchor] at ran
    cases ran
    rfl
  | some held =>
    rw [stored] at ran
    dsimp only at ran
    rw [Effect.lift_bind_of_ok isAnchor] at ran
    split_ifs at ran with other
    · cases ran
    · cases ran
      rw [OrderedTree.insert_of_get]
      rw [stored, not_not.mp other]

theorem MohoWorkerServiceState.new_ok
    (resumed : (MohoWorkerServiceState.new provider genesisBlock predicate).run stores = .ok moho left)
    (anchored : provider.getAnchorState genesisBlock = some anchor) :
    Resumes provider genesisBlock (constructGenesisMohoState predicate anchor) stores moho := by
  obtain ⟨_, mid, ensured, resumed⟩ := Effect.bind_ok resumed
  replace resumed := Effect.get_bind_ok resumed
  cases latest : mid.mohoStates.last with
  | none =>
    rw [latest] at resumed
    cases resumed
  | some row =>
    rw [latest] at resumed
    cases resumed
    exact ⟨rfl, rfl, ensureGenesisMohoState_ok ensured anchored, OrderedTree.last_get latest⟩

/-- Only a state of genesis that is not the configured one is refused. -/
theorem MohoWorkerServiceState.new_exists (anchored : provider.getAnchorState genesisBlock = some anchor)
    (agrees : ∀ held, stores.mohoStates.get genesisBlock = some held →
      held = constructGenesisMohoState predicate anchor) :
    ∃ moho left, (MohoWorkerServiceState.new provider genesisBlock predicate).run stores =
      .ok moho left := by
  have isAnchor : provider.anchorState genesisBlock = .ok anchor := lookup_ok_iff.mpr anchored
  have read : (get : EStateM MohoStop MohoStores MohoStores).run stores = .ok stores stores := rfl
  have ensured : ∃ mid, (ensureGenesisMohoState provider genesisBlock predicate).run stores =
      .ok () mid := by
    rw [ensureGenesisMohoState, Effect.bind_of_ok read]
    cases stored : stores.mohoStates.get genesisBlock with
    | none =>
      dsimp only
      rw [Effect.lift_bind_of_ok isAnchor]
      exact ⟨_, rfl⟩
    | some held =>
      dsimp only
      rw [Effect.lift_bind_of_ok isAnchor, if_neg (not_not.mpr (agrees held stored))]
      exact ⟨_, rfl⟩
  obtain ⟨mid, ensured⟩ := ensured
  have seeded : mid.mohoStates.get genesisBlock = some (constructGenesisMohoState predicate anchor) := by
    rw [ensureGenesisMohoState_ok ensured anchored, OrderedTree.get_insert, if_pos rfl]
  obtain ⟨row, isLast⟩ := OrderedTree.exists_last seeded
  have again : (get : EStateM MohoStop MohoStores MohoStores).run mid = .ok mid mid := rfl
  rw [MohoWorkerServiceState.new, Effect.bind_of_ok ensured, Effect.bind_of_ok again, isLast]
  exact ⟨_, _, rfl⟩

omit [DecidableEq MohoState] in
theorem MohoWorkerServiceState.planTip_ok {tip : L1BlockCommitment} {plan : SyncPlan MohoState}
    (planned : moho.planTip tip = .ok plan) :
    Walk moho.genesisBlock.height moho.baseAt moho.provider.getParentBlock plan.baseBlock plan.baseState
      tip plan.pending := by
  unfold planTip at planned
  split at planned
  · cases planned
  · cases planned
  · cases planned
  · rename_i isPlan
    cases planned
    exact planSync_ok isPlan

end

/-! ### Runs -/

section

variable [AsmLibs] [MohoLibs] {d : Deployment} {r s : Runner} {context : WorkerContext} {stores : MohoStores}

/-- The Moho worker starts on its way to the latest block of the ASM worker. -/
theorem Persists.catching {asm : AsmWorker} {moho : MohoWorkerServiceState} {genesisMoho : MohoState}
    {catchUp : List L1BlockCommitment} (persists : Persists d asm.worker.context)
    (resumes : moho.Resumes asm.mohoContext d.genesis.lastProcessedBlock genesisMoho stores)
    (planned : moho.planCatchUp = .ok catchUp) :
    ∃ tip base baseState, Runner.Catching d ⟨asm, [], [], moho.memory, catchUp, [], []⟩ tip base baseState ∧
      asm.worker.context.getLatestAnchorState.map AnchorState.lastProcessedBlock = some tip := by
  obtain ⟨latest, mem, isLatest⟩ := getLatestAnchorState_mem persists.root
  have isTip : asm.worker.context.getLatestAnchorState.map AnchorState.lastProcessedBlock =
      some latest.lastProcessedBlock := congrArg _ isLatest
  have isTip' : moho.provider.getLatestAsmBlock = some latest.lastProcessedBlock := by
    rw [resumes.isProvider]
    exact isTip
  rw [MohoWorkerServiceState.planCatchUp, isTip'] at planned
  dsimp only at planned
  obtain ⟨plan, isPlan, isCatchUp⟩ := bind_ok planned
  cases pure_ok isCatchUp
  refine ⟨latest.lastProcessedBlock, plan.baseBlock, plan.baseState, ⟨rfl, rfl, ?_, latest, ?_⟩, isTip⟩
  · rw [resumes.isWorker, List.reverse_reverse, ← resumes.isGenesis]
    exact MohoWorkerServiceState.planTip_ok isPlan
  · exact persists.anchorAt mem

/-- Over stores of both workers that agree, the Moho worker starts at the stored states. -/
theorem Runner.Sound.launch [DecidableEq MohoState] {asm : AsmWorker} {moho : MohoWorkerServiceState}
    {left : MohoStores} {catchUp : List L1BlockCommitment} (working : Working d asm.worker [])
    (silent : asm.worker.emitted = [])
    (folds : ∀ block moho, stores.mohoStates.get block = some moho →
      MohoAt d asm.worker.context block moho)
    (relay : Relay.Sound d.l1.headerParentOf d.genesis.lastProcessedBlock
      ⟨asm.worker.context.committed, insert d.genesis.lastProcessedBlock stores.derived, []⟩)
    (resumed : (MohoWorkerServiceState.new asm.mohoContext d.genesis.lastProcessedBlock
      d.predicate).run stores = .ok moho left)
    (planned : moho.planCatchUp = .ok catchUp) :
    Runner.Sound d ⟨asm, [], [], moho.memory, catchUp, [], []⟩ := by
  have persists := working.persists
  have resumes := MohoWorkerServiceState.new_ok resumed (persists.anchorAt persists.root)
  have folded : Folded d asm.worker.context moho.stores := by
    refine ⟨?_, fun block held stored => ?_⟩
    · rw [resumes.seeded, OrderedTree.get_insert, if_pos rfl]
    · rw [resumes.seeded, OrderedTree.get_insert] at stored
      split_ifs at stored with same
      · cases stored
        rw [same]
        exact .genesis
      · exact folds block held stored
  obtain ⟨tip, base, baseState, catching, -⟩ := persists.catching resumes planned
  refine ⟨working, folded, ?_, ?_, silent, ?_, ?_, List.forall_mem_nil _,
    .inr ⟨tip, base, baseState, catching⟩⟩
  · rw [resumes.isWorker]
    exact resumes.current
  · show Relay.Sound _ _ ⟨asm.worker.context.committed, moho.stores.derived, []⟩
    rw [derived_insert resumes.seeded]
    exact relay
  · rw [silent]
    exact List.forall_mem_nil _
  · rw [silent]
    exact .nil

section

variable [DecidableEq AnchorState] [DecidableEq MohoState] {worker : AsmWorkerServiceState}

/-- Until its anchor is stored a worker starts as over empty stores, and then as one that did. -/
theorem Deployment.Installs.stage (installs : d.Installs context stores) :
    d.Blank context ∨ ∃ first, d.Starts d.emptyStores first ∧ first.context = context := by
  have starts : ∀ {context worker}, (d.Blank context ∨ ∃ first, d.Starts d.emptyStores first ∧
      first.context = context) → d.Starts context worker →
      ∃ first, d.Starts d.emptyStores first ∧ first.context = worker.context := by
    rintro _ worker (blank | ⟨first, fresh, rfl⟩) started
    · exact ⟨worker, started.of_blank blank (.inl rfl), rfl⟩
    · obtain ⟨-, same, -, -⟩ := (Persists.fresh fresh).1.persists.restart started
      exact ⟨first, fresh, same.symm⟩
  induction installs with
  | empty => exact .inl (.inl rfl)
  | seeded before seeds ih =>
    rcases ih with blank | ⟨first, fresh, rfl⟩
    · cases blank.seedMmr.symm.trans seeds
      exact .inl (.inr rfl)
    · cases (seedMmr_of_seeded (Persists.fresh fresh).1.persists.seed).symm.trans seeds
      exact .inr ⟨first, fresh, rfl⟩
  | started before started ih => exact .inr (starts ih started)
  | resumed before started resumed ih => exact .inr (starts ih started)

theorem Deployment.Installs.starts (installs : d.Installs context stores)
    (started : d.Starts context worker) :
    Working d worker [] ∧ worker.context.committed = {d.genesis.lastProcessedBlock} ∧
      worker.emitted = [] ∧ worker.context.manifests = [] := by
  have committed : worker.context.anchors = [d.genesis] →
      worker.context.committed = {d.genesis.lastProcessedBlock} := by
    intro anchors
    ext block
    rw [WorkerContext.committed, anchors]
    simp [Keyed.get, eq_comm]
  rcases installs.stage with blank | ⟨first, fresh, rfl⟩
  · obtain ⟨working, anchors, -, silent, unused⟩ := Persists.fresh (started.of_blank blank (.inl rfl))
    exact ⟨working, committed anchors, silent, unused⟩
  · obtain ⟨working, anchors, -, -, unused⟩ := Persists.fresh fresh
    obtain ⟨again, same, silent, -⟩ := working.persists.restart started
    rw [← same] at anchors unused
    exact ⟨again, committed anchors, silent, unused⟩

theorem Deployment.Installs.held (installs : d.Installs context stores) :
    ∀ block moho, stores.mohoStates.get block = some moho → block = d.genesis.lastProcessedBlock ∧
      moho = constructGenesisMohoState d.predicate d.genesis := by
  induction installs with
  | empty => exact fun block moho stored => by cases stored
  | seeded before seeds ih => exact ih
  | started before started ih => exact ih
  | resumed before started resumed ih =>
    intro block moho stored
    have persists := (before.starts started).1.persists
    rw [(MohoWorkerServiceState.new_ok resumed (persists.anchorAt persists.root)).seeded,
      OrderedTree.get_insert] at stored
    split_ifs at stored with same
    · cases stored
      exact ⟨same, rfl⟩
    · exact ih block moho stored

theorem Deployment.Installs.derived (installs : d.Installs context stores) :
    insert d.genesis.lastProcessedBlock stores.derived = {d.genesis.lastProcessedBlock} := by
  refine Set.Subset.antisymm (Set.insert_subset rfl ?_) (Set.singleton_subset_iff.mpr (.inl rfl))
  rintro block ⟨moho, stored⟩
  exact (installs.held block moho stored).1

theorem Deployment.Installs.sound (installs : d.Installs context stores)
    (launched : d.Launches context stores s) : s.Sound d := by
  obtain ⟨started, resumed, planned⟩ := launched
  obtain ⟨working, committed, silent, -⟩ := installs.starts started
  refine .launch working silent (fun block moho stored => ?_) ?_ resumed planned
  · obtain ⟨rfl, rfl⟩ := installs.held block moho stored
    exact .genesis
  · rw [committed, installs.derived]
    exact .start

end

/-- A block that the Moho worker folds when it ends is stored, or is as if it had not been begun. -/
theorem Runner.Sound.leavesMoho (sound : r.Sound d) (leaves : r.LeavesMoho d stores) :
    Folded d r.context stores ∧ Relay.Sound d.l1.headerParentOf d.genesis.lastProcessedBlock
      ⟨r.context.committed, stores.derived, []⟩ := by
  cases leaves with
  | between => exact ⟨sound.folded, sound.relay.forget⟩
  | @within block stores next aborts =>
    obtain ⟨known, other⟩ := sound.next_known next
    obtain ⟨logs, moho, folded, aborts⟩ := aborts
    obtain ⟨parent, prev, anchor, folds⟩ := MohoWorkerServiceState.foldBlock_ok_iff.mp folded
    rcases persistBlock_aborts aborts with ⟨isLeft, -⟩ | isLeft
    · rw [isLeft]
      exact ⟨⟨sound.folded.genesis, sound.folded.folds⟩, sound.relay.forget⟩
    · obtain ⟨parent, moho', foldsTo⟩ :=
        sound.persists.foldsTo sound.folded sound.current known other (.processed folds)
      have derived := foldsTo.folded sound.folded other
      rw [isLeft]
      exact ⟨derived, sound.relay.forget.step (foldsTo.relays_catchUp known)⟩

variable [StoredMmr]

theorem Runner.Sound.leavesAsm (sound : r.Sound d) (leaves : LeavesStores r.asm.worker r.pass context)
    (relay : Relay.Sound d.l1.headerParentOf d.genesis.lastProcessedBlock
      ⟨r.context.committed, stores.derived, []⟩) :
    Persists d context ∧ r.context.Extends context ∧
      Relay.Sound d.l1.headerParentOf d.genesis.lastProcessedBlock
        ⟨context.committed, stores.derived, []⟩ := by
  rcases sound.working.leaves leaves with ⟨working, same, grown⟩ | ⟨block, rest, post, pending, applied, rfl⟩
  · refine ⟨working.persists, grown, ?_⟩
    rw [WorkerContext.committed, same]
    exact relay
  · have working := sound.working
    rw [pending] at working
    obtain ⟨working, commits⟩ := working.apply applied
    exact ⟨working.persists, commits.grown, (relay.step (commits.relays sound.persists.l1 _ _)).forget⟩

theorem Runner.Sound.step (sound : r.Sound d) (step : r.Step d s) : s.Sound d := by
  cases step with
  | submit launched idle isHeight planned some restored => exact sound.submit launched idle planned restored
  | apply pending applied => exact sound.apply pending applied
  | catchUp pending processed => exact sound.catchUp pending processed
  | fold launched queued processed => exact sound.fold queued launched processed
  | receive queued => exact sound.receive queued

theorem Runner.Sound.steps (sound : r.Sound d) (steps : Relation.ReflTransGen (Runner.Step d) r s) :
    s.Sound d := by
  induction steps with
  | refl => exact sound
  | tail _ step ih => exact ih.step step

variable [DecidableEq AnchorState] [DecidableEq MohoState] {restarts : Nat}

theorem Runner.Sound.restart (sound : r.Sound d) (leftAsm : LeavesStores r.asm.worker r.pass context)
    (leftMoho : r.LeavesMoho d stores) (launched : d.Launches context stores s) : s.Sound d := by
  obtain ⟨folded, relay⟩ := sound.leavesMoho leftMoho
  obtain ⟨persists, grown, relay⟩ := sound.leavesAsm leftAsm relay
  obtain ⟨started, resumed, planned⟩ := launched
  obtain ⟨working, sameContext, silent, -⟩ := persists.restart started
  refine .launch working silent ?_ ?_ resumed planned
  · rw [sameContext]
    exact (folded.extend grown).folds
  · have seeded : d.genesis.lastProcessedBlock ∈ stores.derived := ⟨_, folded.genesis⟩
    rw [sameContext, Set.insert_eq_of_mem seeded]
    exact relay

theorem Deployment.Runs.steps (runs : d.Runs restarts r)
    (steps : Relation.ReflTransGen (Runner.Step d) r s) : d.Runs restarts s := by
  induction steps with
  | refl => exact runs
  | tail _ step ih => exact ih.step step

theorem Deployment.Runs.sync {post : AsmWorkerServiceState} {targetBlkid : Buf32}
    {processed : List L1BlockCommitment} (runs : d.Runs restarts r) (launched : r.catchUp = [])
    (idle : r.pass = []) (synced : (syncToBlock targetBlkid).run r.asm.worker = .ok processed post) :
    ∃ fit, d.Runs restarts { r with asm := ⟨post, fit⟩, commits := r.commits ++ processed } := by
  obtain ⟨fit, steps⟩ := Runner.sync_steps launched idle synced
  exact ⟨fit, runs.steps steps⟩

theorem Deployment.Runs.sound (runs : d.Runs restarts r) : r.Sound d := by
  induction runs with
  | launch installs launched => exact installs.sound launched
  | step before step ih => exact ih.step step
  | restart before leftAsm leftMoho launched ih => exact ih.restart leftAsm leftMoho launched

theorem Deployment.Runs.started (runs : d.Runs restarts r) :
    ∃ asm, d.Starts d.emptyStores asm := by
  induction runs with
  | launch installs launched =>
    obtain ⟨started, -, -⟩ := launched
    rcases installs.stage with blank | ⟨first, fresh, -⟩
    · exact ⟨_, started.of_blank blank (.inl rfl)⟩
    · exact ⟨first, fresh⟩
  | step before step ih => exact ih
  | restart before leftAsm leftMoho launched ih => exact ih

end

/-! ### Catching up -/

section

variable [AsmLibs] [MohoLibs] {d : Deployment} {r s : Runner} {block tip base : L1BlockCommitment}
  {baseState : MohoState}

theorem MohoWorkerServiceState.processBlock_run (worker : MohoWorkerServiceState) :
    (processBlock block).run worker =
      (Effect.lift (worker.foldBlock block) >>= fun folded => do
        modify fun worker => { worker with
          stores := Journal.run MohoStores.write (persistBlock block folded.1 folded.2) worker.stores }
        modify fun worker => worker.updateMohoState folded.2 block).run worker := rfl

theorem MohoWorkerServiceState.processBlock_error {worker : MohoWorkerServiceState} {stop : MohoStop}
    (failed : worker.foldBlock block = .error stop) :
    (processBlock block).run worker = .error stop worker := by
  rw [processBlock_run, failed]
  rfl

/-- A worker may end right after its last write. -/
theorem AbortsBlock.of_processed {worker after : MohoWorkerServiceState}
    (processed : (MohoWorkerServiceState.processBlock block).run worker = .ok () after) :
    AbortsBlock worker block after.stores := by
  obtain ⟨folds⟩ := MohoWorkerServiceState.processBlock_ok_iff.mp processed
  exact ⟨_, _, MohoWorkerServiceState.foldBlock_ok_iff.mpr ⟨_, _, _, folds⟩, _, List.prefix_rfl, rfl⟩

namespace Runner.Sound

/-- What a committed block is folded from: only the state of its parent can be missing. -/
theorem foldBlock_eq (sound : r.Sound d) (known : block ∈ r.context.committed)
    (other : block ≠ d.genesis.lastProcessedBlock) :
    ∃ parent anchor, ∃ manifest : AsmManifest, d.l1.headerParentOf block = some parent ∧
      (r.mohoWorker d).foldBlock block = (do
        let prev ← r.moho.stores.getMohoState parent
        let moho ← (constructNextMohoState prev anchor manifest.logs).mapError .panic
        pure (manifest.logs, moho)) := by
  obtain ⟨parent, manifest, isParent, -, -, got⟩ := sound.persists.parentStored known other
  obtain ⟨anchor, stored⟩ := known
  refine ⟨parent, anchor, manifest, isParent, ?_⟩
  have isParent' : (r.mohoWorker d).provider.getParentBlock block = .ok parent := by
    rw [Runner.getParentBlock_iff, sound.persists.l1]
    exact isParent
  have isAnchor : (r.mohoWorker d).provider.anchorState block = .ok anchor := lookup_ok_iff.mpr stored
  have isLogs : (r.mohoWorker d).provider.anchorLogs block = .ok manifest.logs := by
    refine lookup_ok_iff.mpr (Option.map_eq_some_iff.mpr ⟨manifest, ?_, rfl⟩)
    rw [WorkerContext.getManifest] at got
    split at got
    · cases got
    · rename_i found
      cases got
      exact found
  rw [MohoWorkerServiceState.foldBlock, isParent', ok_bind, sound.current.parentMoho parent, isAnchor,
    isLogs]
  rfl

/-- Over the state of its parent, a block is folded unless what it exports does not fit. -/
theorem folds_or_panics (sound : r.Sound d) (known : block ∈ r.context.committed)
    (other : block ≠ d.genesis.lastProcessedBlock) {parent : L1BlockCommitment}
    (isParent : d.l1.headerParentOf block = some parent) (onParent : parent ∈ r.moho.stores.derived) :
    (∃ after, (MohoWorkerServiceState.processBlock block).run (r.mohoWorker d) = .ok () after) ∨
      ∃ panic : Panic, panic.ExportOverflow ∧ (MohoWorkerServiceState.processBlock block).run
        (r.mohoWorker d) = .error (.panic panic) (r.mohoWorker d) := by
  obtain ⟨parent', anchor, manifest, isParent', folded⟩ := sound.foldBlock_eq known other
  cases isParent.symm.trans isParent'
  obtain ⟨prev, stored⟩ := onParent
  rw [show r.moho.stores.getMohoState parent = .ok prev from lookup_ok_iff.mpr stored, ok_bind] at folded
  cases next : constructNextMohoState prev anchor manifest.logs with
  | error panic =>
    rw [next] at folded
    exact .inr ⟨panic, constructNextMohoState_error next, MohoWorkerServiceState.processBlock_error folded⟩
  | ok moho =>
    rw [next] at folded
    exact .inl ⟨_, (MohoWorkerServiceState.processBlock_run _).trans (Effect.lift_bind_of_ok folded _)⟩

/-- The first block that is left stands on a derived one. -/
theorem catchUp_parent (sound : r.Sound d) (catching : r.Catching d tip base baseState)
    {rest : List L1BlockCommitment} (pending : r.catchUp = block :: rest) :
    d.l1.headerParentOf block = some base ∧ base ∈ r.moho.stores.derived ∧
      block ∉ r.moho.stores.derived := by
  have walk := catching.walk
  rw [pending, List.reverse_cons] at walk
  obtain ⟨notBase, -, isParent⟩ := walk.last
  have isBase := walk.isBase
  rw [sound.current.baseAt] at isBase notBase
  rw [Runner.getParentBlock_iff, sound.persists.l1] at isParent
  refine ⟨isParent, ⟨baseState, Except.ok.inj isBase⟩, ?_⟩
  rintro ⟨moho, stored⟩
  cases stored.symm.trans (Except.ok.inj notBase)

variable [StoredMmr]

/-- The Moho worker works off what it has planned. -/
theorem catchUp_run (sound : r.Sound d) (catching : r.Catching d tip base baseState) :
    (∃ s, Relation.ReflTransGen (Runner.Step d) r s ∧ s.catchUp = [] ∧ tip ∈ s.moho.stores.derived ∧
      (r.catchUp.forM MohoWorkerServiceState.processBlock).run (r.mohoWorker d) =
        .ok () (s.mohoWorker d)) ∨
    ∃ panic : Panic, panic.ExportOverflow ∧ ∃ after,
      (r.catchUp.forM MohoWorkerServiceState.processBlock).run (r.mohoWorker d) =
        .error (.panic panic) after := by
  generalize isBlocks : r.catchUp = blocks
  induction blocks generalizing r base baseState with
  | nil =>
    refine .inl ⟨r, .refl, isBlocks, ?_, rfl⟩
    have walk := catching.walk
    rw [isBlocks] at walk
    have atBase := walk.atBase
    rw [sound.current.baseAt] at atBase
    exact ⟨baseState, Except.ok.inj atBase⟩
  | cons block rest ih =>
    obtain ⟨known, other⟩ := sound.catchUp_known isBlocks
    obtain ⟨isParent, onParent, -⟩ := sound.catchUp_parent catching isBlocks
    rw [Effect.forM_cons_run]
    rcases sound.folds_or_panics known other isParent onParent with
      ⟨after, processed⟩ | ⟨panic, overflows, failed⟩
    · obtain ⟨_, moho, folds⟩ := sound.processed known other processed
      rw [Effect.bind_of_ok processed]
      have isAfter : after = Runner.mohoWorker d { r with moho := after.memory, catchUp := rest } := by
        obtain ⟨_⟩ := MohoWorkerServiceState.processBlock_ok_iff.mp processed
        rfl
      rcases ih (sound.catchUp isBlocks processed) (catching.advance sound.current isBlocks folds) rfl with
        ⟨s, steps, done, derived, ran⟩ | ⟨panic, overflows, stopped, ran⟩
      · refine .inl ⟨s, .head (.catchUp isBlocks processed) steps, done, derived, ?_⟩
        rw [isAfter]
        exact ran
      · refine .inr ⟨panic, overflows, stopped, ?_⟩
        rw [isAfter]
        exact ran
    · refine .inr ⟨panic, overflows, r.mohoWorker d, ?_⟩
      rw [EStateM.run_bind, failed]

end Runner.Sound

/-- From any block on a way from genesis, the walk back ends at a derived one. -/
theorem exists_walk {worker : MohoWorkerServiceState} {parentOf : L1BlockCommitment → Option L1BlockCommitment}
    (graded : Ancestry.Graded parentOf L1BlockCommitment.height) (current : worker.Current)
    (seeded : worker.genesisBlock ∈ worker.stores.derived)
    (parents : ∀ block parent, parentOf block = some parent → worker.provider.getParentBlock block = .ok parent)
    {line : List L1BlockCommitment} (isLine : Ancestry.Line parentOf worker.genesisBlock line block) :
    ∃ base baseState passed, Walk worker.genesisBlock.height worker.baseAt worker.provider.getParentBlock
      base baseState block passed := by
  induction isLine with
  | root =>
    obtain ⟨moho, stored⟩ := seeded
    exact ⟨_, moho, [], .base ((current.baseAt _).trans (congrArg _ stored))⟩
  | @child past parent block below isParent ih =>
    cases stored : worker.stores.mohoStates.get block with
    | some moho => exact ⟨block, moho, [], .base ((current.baseAt _).trans (congrArg _ stored))⟩
    | none =>
      obtain ⟨base, baseState, passed, walk⟩ := ih
      refine ⟨base, baseState, block :: passed, .step ((current.baseAt _).trans (congrArg _ stored)) ?_
        (parents block parent isParent) walk⟩
      rw [graded _ _ isParent, below.height_eq graded]
      omega

theorem MohoWorkerServiceState.planTip_of_walk {worker : MohoWorkerServiceState}
    {passed : List L1BlockCommitment}
    (walk : Walk worker.genesisBlock.height worker.baseAt worker.provider.getParentBlock base baseState tip
      passed) :
    worker.planTip tip = .ok ⟨baseState, base, passed⟩ := by
  have lower : ∀ block parent, worker.provider.getParentBlock block = .ok parent →
      worker.genesisBlock.height < block.height → parent.height < block.height := by
    intro block parent isParent above
    rw [AsmStateProvider.getParentBlock_height isParent]
    exact Nat.lt_succ_self _
  rw [planTip, planSync, walk.planSyncFuel_eq lower (Nat.lt_succ_self _)]
  rfl

variable [StoredMmr] [DecidableEq AnchorState] [DecidableEq MohoState] {restarts : Nat}
  {context : WorkerContext} {stores : MohoStores}

omit [StoredMmr] in
/-- Once the ASM worker has started, the Moho worker starts as well. -/
theorem Deployment.Starts.launches (asm : AsmWorker) {derived : Set L1BlockCommitment}
    (started : d.Starts context asm.worker) (persists : Persists d asm.worker.context)
    (agrees : ∀ held, stores.mohoStates.get d.genesis.lastProcessedBlock = some held →
      held = constructGenesisMohoState d.predicate d.genesis)
    (relay : Relay.Sound d.l1.headerParentOf d.genesis.lastProcessedBlock
      ⟨asm.worker.context.committed, derived, []⟩) :
    ∃ s, d.Launches context stores s ∧ s.context = asm.worker.context := by
  have anchored : asm.mohoContext.getAnchorState d.genesis.lastProcessedBlock = some d.genesis :=
    persists.anchorAt persists.root
  obtain ⟨moho, left, resumed⟩ := MohoWorkerServiceState.new_exists anchored agrees
  have resumes := MohoWorkerServiceState.new_ok resumed anchored
  have seeded : moho.genesisBlock ∈ moho.stores.derived := by
    refine ⟨constructGenesisMohoState d.predicate d.genesis, ?_⟩
    rw [resumes.seeded, resumes.isGenesis, OrderedTree.get_insert, if_pos rfl]
  have parents : ∀ block parent, d.l1.headerParentOf block = some parent →
      moho.provider.getParentBlock block = .ok parent := by
    intro block parent isParent
    rw [resumes.isProvider, AsmWorker.mohoContext, WorkerContext.mohoContext_parent, persists.l1]
    exact isParent
  have graded := d.l1.headerParentOf_graded
  obtain ⟨latest, mem, isLatest⟩ := getLatestAnchorState_mem persists.root
  obtain ⟨line, isLine⟩ := relay.exists_line graded ⟨latest, persists.anchorAt mem⟩
  rw [← resumes.isGenesis] at isLine
  obtain ⟨base, baseState, passed, walk⟩ := exists_walk graded resumes.current seeded parents isLine
  have isTip : moho.provider.getLatestAsmBlock = some latest.lastProcessedBlock := by
    rw [resumes.isProvider]
    exact congrArg (Option.map AnchorState.lastProcessedBlock) isLatest
  have planned : moho.planCatchUp = .ok passed.reverse := by
    rw [MohoWorkerServiceState.planCatchUp, isTip]
    dsimp only
    rw [MohoWorkerServiceState.planTip_of_walk walk]
    rfl
  exact ⟨_, .launch started resumed planned, rfl⟩

/-- Over whatever the workers leave, the runner can be launched. -/
theorem Deployment.Runs.launches (runs : d.Runs restarts r)
    (leftAsm : LeavesStores r.asm.worker r.pass context) (leftMoho : r.LeavesMoho d stores) :
    ∃ s, d.Launches context stores s ∧ s.context = context := by
  have sound := runs.sound
  obtain ⟨folded, relay⟩ := sound.leavesMoho leftMoho
  obtain ⟨persists, -, relay⟩ := sound.leavesAsm leftAsm relay
  obtain ⟨_, first⟩ := runs.started
  obtain ⟨again, started, rfl, -⟩ := first.again rfl persists.toStored persists.seed
  have agrees : ∀ held, stores.mohoStates.get d.genesis.lastProcessedBlock = some held →
      held = constructGenesisMohoState d.predicate d.genesis :=
    fun held stored => Option.some.inj (stored.symm.trans folded.genesis)
  exact started.launches ⟨again, leftAsm.fit r.asm.fit⟩ persists agrees relay

omit [StoredMmr] in
/-- A first launch that was cut short can be repeated. -/
theorem Deployment.Installs.launches {asm : AsmWorkerServiceState} (installs : d.Installs context stores)
    (first : d.Starts d.emptyStores asm) : ∃ s, d.Launches context stores s := by
  have starts : ∃ worker, d.Starts context worker := by
    rcases installs.stage with blank | ⟨worker, fresh, rfl⟩
    · exact ⟨asm, first.of_blank (.inl rfl) blank⟩
    · have persists := (Persists.fresh fresh).1.persists
      obtain ⟨again, started, -, -⟩ := fresh.again rfl persists.toStored persists.seed
      exact ⟨again, started⟩
  obtain ⟨worker, started⟩ := starts
  obtain ⟨working, committed, -, unused⟩ := installs.starts started
  have fit : worker.context.FitContainers := by
    rw [WorkerContext.FitContainers, unused]
    exact List.forall_mem_nil _
  have relay : Relay.Sound d.l1.headerParentOf d.genesis.lastProcessedBlock
      ⟨worker.context.committed, {d.genesis.lastProcessedBlock}, []⟩ := by
    rw [committed]
    exact .start
  obtain ⟨s, launched, -⟩ := started.launches ⟨worker, fit⟩ working.persists
    (fun held stored => (installs.held _ held stored).2) relay
  exact ⟨s, launched⟩

omit [StoredMmr] in
/-- What the Moho worker has planned at its start is what its first call carries out. -/
theorem Deployment.Launches.syncToTip_run (launched : d.Launches context stores s) (sound : s.Sound d) :
    MohoWorkerServiceState.syncToTip.run (s.mohoWorker d) =
        (s.catchUp.forM MohoWorkerServiceState.processBlock).run (s.mohoWorker d) ∧
      ∃ tip base baseState, s.Catching d tip base baseState ∧
        s.context.getLatestAnchorState.map AnchorState.lastProcessedBlock = some tip := by
  obtain ⟨started, resumed, planned⟩ := launched
  rename_i asm moho left catchUp
  have persists := sound.persists
  have resumes := MohoWorkerServiceState.new_ok resumed (persists.anchorAt persists.root)
  refine ⟨?_, persists.catching resumes planned⟩
  rw [resumes.isWorker, MohoWorkerServiceState.syncToTip_run, Effect.lift_bind_of_ok planned]

/-- After a crash anywhere, that in the first launch included, the runner can be launched again. The
Moho worker then folds what it misses on the way to the latest block, unless what a block exports does
not fit. -/
theorem runner_recovers (runs : d.Runs restarts r)
    (leftAsm : LeavesStores r.asm.worker r.pass context) (leftMoho : r.LeavesMoho d stores) :
    (∀ context stores, d.Installs context stores → ∃ s, d.Launches context stores s) ∧
    ∃ s, d.Launches context stores s ∧ s.context = context ∧
      ((∃ t tip line, Relation.ReflTransGen (Runner.Step d) s t ∧ t.catchUp = [] ∧
        MohoWorkerServiceState.syncToTip.run (s.mohoWorker d) = .ok () (t.mohoWorker d) ∧
        context.getLatestAnchorState.map AnchorState.lastProcessedBlock = some tip ∧
        Ancestry.Line d.l1.headerParentOf d.genesis.lastProcessedBlock line tip ∧
        ∀ block ∈ line, ∃ moho, t.moho.stores.mohoStates.get block = some moho) ∨
      ∃ panic : Panic, panic.ExportOverflow ∧ ∃ after,
        MohoWorkerServiceState.syncToTip.run (s.mohoWorker d) = .error (.panic panic) after) := by
  obtain ⟨asm, first⟩ := runs.started
  refine ⟨fun context stores installs => installs.launches first, ?_⟩
  obtain ⟨s, launched, sameContext⟩ := runs.launches leftAsm leftMoho
  have sound := (runs.restart leftAsm leftMoho launched).sound
  refine ⟨s, launched, sameContext, ?_⟩
  obtain ⟨isRun, tip, base, baseState, catching, isTip⟩ := launched.syncToTip_run sound
  rw [isRun]
  rcases sound.catchUp_run catching with ⟨t, steps, done, derived, ran⟩ | panics
  · obtain ⟨line, isLine⟩ := sound.relay.exists_line d.l1.headerParentOf_graded catching.known
    refine .inl ⟨t, tip, line, steps, done, ran, sameContext ▸ isTip, isLine, ?_⟩
    exact (sound.steps steps).relay.derived_of_line d.l1.headerParentOf_graded isLine derived
  · exact .inr panics

end

/-! ### A concrete run -/

@[reducible] def sampleChainExportDecidableEq : DecidableEq sampleChainMohoLibs.ExportMmr :=
  inferInstanceAs (DecidableEq (List Buf32))

section

attribute [local instance] sampleChainLibs sampleStoredMmr sampleMmrDecidableEq sampleChainMohoLibs
  sampleChainExportDecidableEq

def sampleLaunched : AsmWorker where
  worker := sampleWorker
  fit := by
    have none : sampleWorker.context.manifests = [] := (Persists.fresh sampleWorker_started).2.2.2.2
    rw [WorkerContext.FitContainers, none]
    exact List.forall_mem_nil _

/-- A Moho worker that starts over some stores. -/
def sampleMohoNew (asm : AsmWorker) (stores : MohoStores) : Option MohoWorkerServiceState :=
  Effect.returned ((MohoWorkerServiceState.new asm.mohoContext
    (sampleDeployment sampleForks).genesis.lastProcessedBlock (sampleDeployment sampleForks).predicate).run
      stores)

@[irreducible] def sampleMohoSeeded : MohoWorkerServiceState :=
  (sampleMohoNew sampleLaunched .empty).get (by decide +kernel)

/-- The first launch is cut short after its first write, and repeated. -/
theorem sampleSeeded_runs : (sampleDeployment sampleForks).Runs 0
    ⟨sampleLaunched, [], [], sampleMohoSeeded.memory, [], [], []⟩ := by
  have isMoho : sampleMohoNew sampleLaunched .empty = some sampleMohoSeeded := by
    rw [sampleMohoSeeded, Option.some_get]
  obtain ⟨left, resumed⟩ := Effect.returned_some isMoho
  have planned : sampleMohoSeeded.planCatchUp.toOption = some [] := by decide +kernel
  have started := sampleWorker_started.of_blank (.inl rfl) (.inr rfl)
  exact .launch (.seeded .empty (Deployment.Blank.seedMmr (.inl rfl)))
    (.launch started resumed (toOption_some planned))

/-- A call of the ASM worker with the blocks that it returns. -/
theorem sampleSync_run {worker post : AsmWorkerServiceState} {time : UInt8}
    (processed : List L1BlockCommitment) (isPost : sampleSync worker time = some post)
    (isProcessed : Effect.returned ((syncToBlock (.fill time)).run worker) = some processed) :
    (syncToBlock (.fill time)).run worker = .ok processed post := by
  obtain ⟨other, synced⟩ := Effect.left_some isPost
  rw [synced] at isProcessed ⊢
  cases isProcessed
  rfl

theorem sampleOther_runs : ∃ fit, (sampleDeployment sampleForks).Runs 0
    ⟨⟨sampleOther, fit⟩, [], [⟨2, .fill 11⟩], sampleMohoSeeded.memory, [], [], []⟩ := by
  have isOther : sampleSync sampleWorker 11 = some sampleOther := by rw [sampleOther, Option.some_get]
  exact sampleSeeded_runs.sync rfl rfl (sampleSync_run [⟨2, .fill 11⟩] isOther (by decide +kernel))

/-- The ASM worker has gone to block 11, and is to apply block 1 next to it. -/
def sampleTurning : AsmWorker where
  worker := sampleRestored
  fit := by
    obtain ⟨fit, -⟩ := sampleOther_runs
    obtain ⟨_, -, -, isRestored⟩ := restoreAnchor_ok sampleRestored_run
    rw [isRestored]
    exact fit

@[irreducible] def sampleInterrupted : Runner :=
  ⟨sampleTurning, [sampleReplaced], [⟨2, .fill 11⟩], sampleMohoSeeded.memory, [], [], []⟩

theorem sampleInterrupted_runs : (sampleDeployment sampleForks).Runs 0 sampleInterrupted := by
  obtain ⟨fit, runs⟩ := sampleOther_runs
  have isHeight : sampleOther.context.l1.getL1BlockHeight sampleReplaced.blkid =
      .ok sampleReplaced.height := by decide +kernel
  have some : samplePlan.pending ≠ [] := by
    rw [samplePlan_pending]
    exact List.cons_ne_nil _ _
  have submitted := runs.step (s := ⟨sampleTurning, samplePlan.pending.reverse, [⟨2, .fill 11⟩],
    sampleMohoSeeded.memory, [], [], []⟩)
    (.submit rfl rfl isHeight samplePlan_planned some sampleRestored_run)
  rw [samplePlan_pending] at submitted
  rw [sampleInterrupted]
  exact submitted

/-- The Moho worker has folded block 11. -/
@[irreducible] def sampleMohoOther : MohoWorkerServiceState :=
  (Effect.left ((MohoWorkerServiceState.processBlock ⟨2, .fill 11⟩).run
    (sampleInterrupted.mohoWorker (sampleDeployment sampleForks)))).get (by decide +kernel)

theorem sampleMohoOther_run : (MohoWorkerServiceState.processBlock ⟨2, .fill 11⟩).run
    (sampleInterrupted.mohoWorker (sampleDeployment sampleForks)) = .ok () sampleMohoOther := by
  rw [sampleMohoOther]
  exact Effect.ok_left_get _

theorem sampleTorn_left : LeavesStores sampleTurning.worker [sampleReplaced] sampleTorn :=
  .within sampleExecuted_executes (List.take_prefix _ _) (toOption_some sampleTorn_stored)

/-- The ASM worker is stopped after two of the four writes of block 1, and the Moho worker when it has
stored the state of block 11 and not yet gone there. -/
theorem runner_recovers_sample : (sampleDeployment sampleForks).Runs 0 sampleInterrupted ∧
    LeavesStores sampleInterrupted.asm.worker sampleInterrupted.pass sampleTorn ∧
    sampleInterrupted.LeavesMoho (sampleDeployment sampleForks) sampleMohoOther.stores ∧
    ∃ s, (sampleDeployment sampleForks).Launches sampleTorn sampleMohoOther.stores s ∧
      s.context = sampleTorn := by
  have leftAsm : LeavesStores sampleInterrupted.asm.worker sampleInterrupted.pass sampleTorn := by
    unfold sampleInterrupted
    exact sampleTorn_left
  have leftMoho : sampleInterrupted.LeavesMoho (sampleDeployment sampleForks) sampleMohoOther.stores := by
    have next : (sampleInterrupted.catchUp ++ sampleInterrupted.commits).head? = some ⟨2, .fill 11⟩ := by
      unfold sampleInterrupted
      rfl
    exact .within next (.of_processed sampleMohoOther_run)
  obtain ⟨-, s, launched, same, -⟩ := runner_recovers sampleInterrupted_runs leftAsm leftMoho
  exact ⟨sampleInterrupted_runs, leftAsm, leftMoho, s, launched, same⟩

/-- The prover has been told of block 11, and block 1 is yet to be applied. -/
@[irreducible] def sampleTold : Runner :=
  ⟨sampleTurning, [sampleReplaced], [], sampleMohoOther.memory, [], [], [⟨2, .fill 11⟩]⟩

theorem sampleTold_runs : (sampleDeployment sampleForks).Runs 0 sampleTold := by
  have runs := sampleInterrupted_runs
  have processed := sampleMohoOther_run
  unfold sampleInterrupted at runs processed
  unfold sampleTold
  exact (runs.step (.fold rfl rfl processed)).step (.receive rfl)

@[irreducible] def sampleBoth : AsmWorkerServiceState :=
  (Effect.left ((applyBlock sampleReplaced).run sampleRestored)).get (by decide +kernel)

theorem sampleBoth_run : (applyBlock sampleReplaced).run sampleTurning.worker = .ok () sampleBoth := by
  rw [sampleBoth]
  exact Effect.ok_left_get _

theorem sampleBoth_fit : sampleBoth.context.FitContainers :=
  applyBlock_fit sampleBoth_run sampleTurning.fit

/-- Block 1 is applied, and waits for the Moho worker. -/
@[irreducible] def sampleWaiting : Runner :=
  ⟨⟨sampleBoth, sampleBoth_fit⟩, [], [⟨2, .fill 1⟩], sampleMohoOther.memory, [], [], [⟨2, .fill 11⟩]⟩

theorem sampleWaiting_runs : (sampleDeployment sampleForks).Runs 0 sampleWaiting := by
  have runs := sampleTold_runs
  unfold sampleTold at runs
  unfold sampleWaiting
  exact runs.step (.apply rfl sampleBoth_run)

theorem sampleBoth_persists : Persists (sampleDeployment sampleForks) sampleBoth.context := by
  have persists := sampleWaiting_runs.sound.persists
  unfold sampleWaiting at persists
  exact persists

end

end Asm
