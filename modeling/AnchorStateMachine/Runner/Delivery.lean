import AnchorStateMachine.Runner.Recovery

/-! What holds of the runner at any time, however its workers take turns and wherever it is restarted:
what was stored stays, blocks are announced once and after their parents, and the Moho worker stops
only at a block whose parent was committed but not folded before a restart. -/

namespace Asm
open Outcome

section

variable [AsmLibs] [MohoLibs] {d : Deployment} {r s t : Runner} {block : L1BlockCommitment}

/-! ### What was stored stays -/

/-- A later runner has what an earlier one has stored. -/
structure Runner.Keeps (r s : Runner) : Prop where
  context : r.context.Extends s.context
  moho : ∀ block moho, r.moho.stores.mohoStates.get block = some moho →
    s.moho.stores.mohoStates.get block = some moho

theorem Runner.Keeps.refl (r : Runner) : r.Keeps r := ⟨.refl _, fun _ _ stored => stored⟩

theorem Runner.Keeps.trans (first : r.Keeps s) (second : s.Keeps t) : r.Keeps t :=
  ⟨first.context.trans second.context,
    fun block moho stored => second.moho block moho (first.moho block moho stored)⟩

theorem MohoStores.keeps_insert {stores later : MohoStores} {moho : MohoState}
    (isLater : later.mohoStates = stores.mohoStates.insert block moho) (fresh : block ∉ stores.derived) :
    ∀ block moho, stores.mohoStates.get block = some moho → later.mohoStates.get block = some moho := by
  intro other held stored
  rw [isLater, OrderedTree.get_insert, if_neg]
  · exact stored
  · rintro rfl
    exact fresh ⟨held, stored⟩

namespace Runner.Sound

theorem catchUp_fresh (sound : r.Sound d) {rest : List L1BlockCommitment}
    (pending : r.catchUp = block :: rest) : block ∉ r.moho.stores.derived := by
  obtain ⟨tip, base, baseState, catching⟩ := sound.catching_of_pending pending
  exact (sound.catchUp_parent catching pending).2.2

/-- The next block that is folded has no state yet. -/
theorem next_fresh (sound : r.Sound d) (next : (r.catchUp ++ r.commits).head? = some block) :
    block ∉ r.moho.stores.derived := by
  cases pending : r.catchUp with
  | nil =>
    rw [pending, List.nil_append] at next
    exact (sound.relay.waiting block (List.mem_of_head? next)).2
  | cons first rest =>
    rw [pending] at next
    cases next
    exact sound.catchUp_fresh pending

theorem keeps_processed (sound : r.Sound d) {after : MohoWorkerServiceState}
    (next : (r.catchUp ++ r.commits).head? = some block)
    (processed : (MohoWorkerServiceState.processBlock block).run (r.mohoWorker d) = .ok () after) :
    ∀ block moho, r.moho.stores.mohoStates.get block = some moho →
      after.stores.mohoStates.get block = some moho := by
  obtain ⟨known, other⟩ := sound.next_known next
  obtain ⟨_, moho, folds⟩ := sound.processed known other processed
  exact MohoStores.keeps_insert folds.stored (sound.next_fresh next)

theorem keeps_leavesMoho (sound : r.Sound d) {stores : MohoStores} (leaves : r.LeavesMoho d stores) :
    ∀ block moho, r.moho.stores.mohoStates.get block = some moho →
      stores.mohoStates.get block = some moho := by
  cases leaves with
  | between => exact fun _ _ stored => stored
  | @within block stores next aborts =>
    obtain ⟨logs, moho, folded, aborts⟩ := aborts
    rcases persistBlock_aborts aborts with ⟨isLeft, -⟩ | isLeft
    · rw [isLeft]
      exact fun _ _ stored => stored
    · have isLater : stores.mohoStates = r.moho.stores.mohoStates.insert block moho := by
        rw [isLeft, run_persistBlock]
        rfl
      exact MohoStores.keeps_insert isLater (sound.next_fresh next)

variable [StoredMmr]

theorem keeps_step (sound : r.Sound d) (step : r.Step d s) : r.Keeps s := by
  cases step with
  | submit launched idle isHeight planned some restored =>
    obtain ⟨_, -, -, rfl⟩ := restoreAnchor_ok restored
    exact ⟨.refl _, fun _ _ stored => stored⟩
  | apply pending applied =>
    have working := sound.working
    rw [pending] at working
    exact ⟨(working.apply applied).2.grown, fun _ _ stored => stored⟩
  | catchUp pending processed =>
    exact ⟨.refl _, sound.keeps_processed (by rw [pending]; rfl) processed⟩
  | fold launched queued processed =>
    exact ⟨.refl _, sound.keeps_processed (by rw [launched, queued]; rfl) processed⟩
  | receive queued => exact ⟨.refl _, fun _ _ stored => stored⟩

variable [DecidableEq AnchorState] [DecidableEq MohoState]

theorem keeps_restart (sound : r.Sound d) {context : WorkerContext} {stores : MohoStores}
    (leftAsm : LeavesStores r.asm.worker r.pass context) (leftMoho : r.LeavesMoho d stores)
    (launched : d.Launches context stores s) : r.Keeps s := by
  obtain ⟨folded, relay⟩ := sound.leavesMoho leftMoho
  obtain ⟨persists, grown, -⟩ := sound.leavesAsm leftAsm relay
  have kept := sound.keeps_leavesMoho leftMoho
  have after := sound.restart leftAsm leftMoho launched
  obtain ⟨started, resumed, planned⟩ := launched
  rename_i asm moho left catchUp
  obtain ⟨-, sameContext, -, -⟩ := persists.restart started
  have resumes := MohoWorkerServiceState.new_ok resumed (after.persists.anchorAt after.persists.root)
  refine ⟨?_, fun block held stored => ?_⟩
  · rw [← sameContext] at grown
    exact grown
  · show moho.stores.mohoStates.get block = _
    rw [resumes.seeded, OrderedTree.insert_of_get folded.genesis]
    exact kept block held stored

end Runner.Sound

variable [StoredMmr] [DecidableEq AnchorState] [DecidableEq MohoState] {restarts : Nat}

/-- A runner after further steps and restarts. -/
inductive Deployment.Leads (d : Deployment) (r : Runner) : Runner → Prop
  | refl : Leads d r r
  | step {s t : Runner} (before : Leads d r s) (step : s.Step d t) : Leads d r t
  | restart {s t : Runner} {context : WorkerContext} {stores : MohoStores} (before : Leads d r s)
      (leftAsm : LeavesStores s.asm.worker s.pass context) (leftMoho : s.LeavesMoho d stores)
      (launched : d.Launches context stores t) : Leads d r t

theorem Runner.Sound.leads (sound : r.Sound d) (leads : d.Leads r s) : s.Sound d ∧ r.Keeps s := by
  induction leads with
  | refl => exact ⟨sound, .refl r⟩
  | step before step ih => exact ⟨ih.1.step step, ih.2.trans (ih.1.keeps_step step)⟩
  | restart before leftAsm leftMoho launched ih =>
    exact ⟨ih.1.restart leftAsm leftMoho launched,
      ih.2.trans (ih.1.keeps_restart leftAsm leftMoho launched)⟩

/-- Every stored Moho state is the fold along the ancestry of its block, and names the program that
the ancestry leads to. From then on neither it nor the anchor, the manifest or the auxiliary data of a
processed block changes. -/
theorem runner_durable (runs : d.Runs restarts r) (leads : d.Leads r s) :
    r.context.Extends s.context ∧ ∀ block moho, r.moho.stores.mohoStates.get block = some moho →
      s.moho.stores.mohoStates.get block = some moho ∧ MohoAt d s.context block moho ∧
      foldedPredicate s.context d.genesis.lastProcessedBlock d.predicate block =
        some moho.nextPredicate := by
  obtain ⟨sound, keeps⟩ := runs.sound.leads leads
  refine ⟨keeps.context, fun block moho stored => ?_⟩
  have later := keeps.moho block moho stored
  have derived := sound.folded.folds block moho later
  exact ⟨later, derived, derived.folded.2⟩

/-! ### Announcements -/

/-- What the ASM worker has announced since its start is with the prover, waits for it, or waits for
the Moho worker, in this order; no block is announced twice or before its parent, and the prover is
told of a block only once its Moho state is stored. -/
theorem runner_delivers (runs : d.Runs restarts r) :
    r.asm.worker.emitted = r.received ++ r.derived ++ r.commits ∧
    (r.asm.worker.emitted.Pairwise fun earlier later =>
      earlier ≠ later ∧ d.l1.headerParentOf earlier ≠ some later) ∧
    (∀ block ∈ r.asm.worker.emitted, ∃ anchor,
      Keyed.get AnchorState.lastProcessedBlock r.context.anchors block = some anchor) ∧
    (∀ block ∈ r.received ++ r.derived, ∃ moho, r.moho.stores.mohoStates.get block = some moho) ∧
    ∀ block ∈ r.commits, r.moho.stores.mohoStates.get block = none := by
  have sound := runs.sound
  refine ⟨sound.announced, sound.order, fun block mem => (sound.known block mem).1, sound.delivered,
    fun block queued => ?_⟩
  cases stored : r.moho.stores.mohoStates.get block with
  | none => rfl
  | some moho => exact absurd ⟨moho, stored⟩ (sound.relay.waiting block queued).2

/-! ### Where the Moho worker stops -/

omit [DecidableEq AnchorState] [DecidableEq MohoState] in
theorem Runner.Sound.relays (sound : r.Sound d) (step : r.Step d s) :
    s.relay = r.relay ∨ Relay.Step d.l1.headerParentOf r.relay s.relay := by
  cases step with
  | submit launched idle isHeight planned some restored =>
    obtain ⟨_, -, -, rfl⟩ := restoreAnchor_ok restored
    exact .inl rfl
  | apply pending applied =>
    have working := sound.working
    rw [pending] at working
    exact .inr ((working.apply applied).2.relays sound.persists.l1 _ _)
  | catchUp pending processed =>
    obtain ⟨known, other⟩ := sound.catchUp_known pending
    obtain ⟨_, moho, folds⟩ := sound.processed known other processed
    exact .inr (sound.relays_catchUp pending folds)
  | fold launched queued processed =>
    obtain ⟨known, other⟩ := sound.next_known (by rw [launched, queued]; rfl)
    obtain ⟨_, moho, folds⟩ := sound.processed known other processed
    exact .inr (folds.relays_fold queued)
  | receive queued => exact .inl rfl

/-- Only a restart loses blocks. -/
theorem Deployment.Runs.none_lost (runs : d.Runs 0 r) : r.relay.lost = ∅ := by
  generalize isZero : 0 = restarts at runs
  induction runs with
  | @launch r context stores installs launched =>
    refine Set.eq_empty_of_forall_notMem fun block lost => lost.2.1 ?_
    have seeded := (installs.sound launched).relay.seeded
    have known : block ∈ r.context.committed := lost.1
    obtain ⟨started, -, -⟩ := launched
    rw [Runner.context, (installs.starts started).2.1] at known
    rw [Set.mem_singleton_iff.mp known]
    exact seeded
  | step before step ih =>
    have empty := ih isZero
    rcases before.sound.relays step with same | step
    · rw [same]
      exact empty
    · exact Set.subset_eq_empty step.lost_subset empty
  | restart before leftAsm leftMoho launched => cases isZero

/-- The Moho worker takes a block whose parent was not lost, unless what the block exports does not fit;
otherwise it stops with the missing parent. Before the first restart nothing is lost. -/
theorem moho_worker_stops_iff (runs : d.Runs restarts r) (launched : r.catchUp = [])
    {rest : List L1BlockCommitment} (queued : r.commits = block :: rest) :
    (restarts = 0 → r.relay.lost = ∅) ∧
    ∃ parent, d.l1.headerParentOf block = some parent ∧
      (parent ∈ r.relay.lost → (MohoWorkerServiceState.processBlock block).run (r.mohoWorker d) =
        .error (.error (.missingMohoState parent)) (r.mohoWorker d)) ∧
      (parent ∉ r.relay.lost →
        (∃ after, (MohoWorkerServiceState.processBlock block).run (r.mohoWorker d) = .ok () after) ∨
        ∃ panic : Panic, panic.ExportOverflow ∧ (MohoWorkerServiceState.processBlock block).run
          (r.mohoWorker d) = .error (.panic panic) (r.mohoWorker d)) := by
  have sound := runs.sound
  obtain ⟨known, other⟩ := sound.next_known (by rw [launched, queued]; rfl)
  obtain ⟨parent, anchor, manifest, isParent, folded⟩ := sound.foldBlock_eq known other
  refine ⟨?_, parent, isParent, fun lost => ?_, fun kept => ?_⟩
  · rintro rfl
    exact runs.none_lost
  · refine MohoWorkerServiceState.processBlock_error (folded.trans ?_)
    have missing : r.moho.stores.mohoStates.get parent = none := by
      cases stored : r.moho.stores.mohoStates.get parent with
      | none => rfl
      | some moho => exact absurd ⟨moho, stored⟩ lost.2.1
    rw [MohoStores.getMohoState, missing]
    rfl
  · exact sound.folds_or_panics known other isParent
      ((sound.relay.head_derivable_iff queued isParent).mpr kept)

end

/-! ### A concrete run -/

section

attribute [local instance] sampleChainLibs sampleStoredMmr sampleMmrDecidableEq sampleChainMohoLibs
  sampleChainExportDecidableEq

theorem runner_delivers_sample : (sampleDeployment sampleForks).Runs 0 sampleWaiting ∧
    sampleWaiting.asm.worker.emitted = [⟨2, .fill 11⟩, ⟨2, .fill 1⟩] := by
  refine ⟨sampleWaiting_runs, ?_⟩
  rw [(runner_delivers sampleWaiting_runs).1]
  unfold sampleWaiting
  rfl

/-- The runner is started again while block 1 waits. -/
@[irreducible] def sampleResumed : AsmWorkerServiceState :=
  (sampleStart (sampleDeployment sampleForks) sampleBoth.context).get (by decide +kernel)

theorem sampleResumed_started :
    (sampleDeployment sampleForks).Starts sampleBoth.context sampleResumed := by
  have isWorker : sampleStart (sampleDeployment sampleForks) sampleBoth.context = some sampleResumed := by
    rw [sampleResumed, Option.some_get]
  exact Effect.returned_some isWorker

def sampleRelaunched : AsmWorker where
  worker := sampleResumed
  fit := by
    obtain ⟨-, same, -, -⟩ := sampleBoth_persists.restart sampleResumed_started
    rw [same]
    exact sampleBoth_fit

@[irreducible] def sampleMohoResumed : MohoWorkerServiceState :=
  (sampleMohoNew sampleRelaunched sampleMohoOther.stores).get (by decide +kernel)

/-- It then goes to block 2, which stands on block 1. -/
@[irreducible] def sampleStuck : AsmWorkerServiceState :=
  (sampleSync sampleResumed 2).get (by decide +kernel)

theorem sampleResumed_launched : (sampleDeployment sampleForks).Launches sampleBoth.context
    sampleMohoOther.stores ⟨sampleRelaunched, [], [], sampleMohoResumed.memory, [], [], []⟩ := by
  have isMoho : sampleMohoNew sampleRelaunched sampleMohoOther.stores = some sampleMohoResumed := by
    rw [sampleMohoResumed, Option.some_get]
  obtain ⟨left, resumed⟩ := Effect.returned_some isMoho
  have planned : sampleMohoResumed.planCatchUp.toOption = some [] := by decide +kernel
  exact .launch sampleResumed_started resumed (toOption_some planned)

theorem sampleStuck_runs : ∃ fit, (sampleDeployment sampleForks).Runs 1
    ⟨⟨sampleStuck, fit⟩, [], [⟨3, .fill 2⟩], sampleMohoResumed.memory, [], [], []⟩ := by
  have isStuck : sampleSync sampleResumed 2 = some sampleStuck := by rw [sampleStuck, Option.some_get]
  have synced := sampleSync_run [⟨3, .fill 2⟩] isStuck (by decide +kernel)
  have runs := sampleWaiting_runs
  unfold sampleWaiting at runs
  exact (runs.restart .between .between sampleResumed_launched).sync rfl rfl synced

/-- Block 1 was committed, and lost at the restart. The Moho worker does not take block 2. -/
theorem moho_worker_stops_sample : ∃ r parent, (sampleDeployment sampleForks).Runs 1 r ∧
    r.catchUp = [] ∧ r.commits = [⟨3, .fill 2⟩] ∧
    (sampleDeployment sampleForks).l1.headerParentOf ⟨3, .fill 2⟩ = some parent ∧
    parent ∈ r.relay.lost ∧
    (MohoWorkerServiceState.processBlock ⟨3, .fill 2⟩).run (r.mohoWorker (sampleDeployment sampleForks)) =
      .error (.error (.missingMohoState parent)) (r.mohoWorker (sampleDeployment sampleForks)) := by
  obtain ⟨fit, runs⟩ := sampleStuck_runs
  obtain ⟨-, parent, isParent, stops, -⟩ := moho_worker_stops_iff runs rfl rfl
  have isOne : (sampleDeployment sampleForks).l1.headerParentOf ⟨3, .fill 2⟩ = some ⟨2, .fill 1⟩ := by
    decide +kernel
  cases isParent.symm.trans isOne
  have committed : (Keyed.get AnchorState.lastProcessedBlock sampleStuck.context.anchors
    ⟨2, .fill 1⟩).isSome := by decide +kernel
  have underived : sampleMohoResumed.stores.mohoStates.get ⟨2, .fill 1⟩ = none := by decide +kernel
  have lost : (⟨2, .fill 1⟩ : L1BlockCommitment) ∈ (Runner.relay ⟨⟨sampleStuck, fit⟩, [], [⟨3, .fill 2⟩],
      sampleMohoResumed.memory, [], [], []⟩).lost := by
    have unqueued : (⟨2, .fill 1⟩ : L1BlockCommitment) ∉ ([⟨3, .fill 2⟩] : List L1BlockCommitment) := by
      decide
    refine ⟨Option.isSome_iff_exists.mp committed, ?_, unqueued⟩
    rintro ⟨moho, stored⟩
    cases underived.symm.trans stored
  exact ⟨_, _, runs, rfl, rfl, isOne, lost, stops lost⟩

/-- What was stored stays, though the ASM worker is stopped within the writes of block 1. -/
theorem runner_durable_sample : ∃ s moho, (sampleDeployment sampleForks).Leads sampleTold s ∧
    s.context = sampleTorn ∧ sampleTold.context.Extends s.context ∧
    s.moho.stores.mohoStates.get ⟨2, .fill 11⟩ = some moho ∧
    MohoAt (sampleDeployment sampleForks) s.context ⟨2, .fill 11⟩ moho := by
  have leftAsm : LeavesStores sampleTold.asm.worker sampleTold.pass sampleTorn := by
    unfold sampleTold
    exact sampleTorn_left
  obtain ⟨s, launched, same⟩ := sampleTold_runs.launches leftAsm .between
  have leads : (sampleDeployment sampleForks).Leads sampleTold s := .restart .refl leftAsm .between launched
  obtain ⟨grown, kept⟩ := runner_durable sampleTold_runs leads
  have folded : (sampleMohoOther.stores.mohoStates.get ⟨2, .fill 11⟩).isSome := by decide +kernel
  obtain ⟨moho, stored⟩ := Option.isSome_iff_exists.mp folded
  have before : sampleTold.moho.stores.mohoStates.get ⟨2, .fill 11⟩ = some moho := by
    unfold sampleTold
    exact stored
  obtain ⟨after, derived, -⟩ := kept _ moho before
  exact ⟨s, moho, leads, same, grown, after, derived⟩

end

end Asm
