import AnchorStateMachine.Moho.State
import AnchorStateMachine.Worker.Mirror

/-! The program that executes a block is a function of the ancestry of the block. The worker carries
the predicate in memory and recovers it from a single anchor after a switch of branches or a
restart, and the Moho fold carries its own; all of them are the fold of the manifests along the
ancestry. -/

namespace Asm
open Outcome

/-! ### Ancestry -/

section

variable [MerkleMountainRange] (context : WorkerContext) (genesis : L1BlockCommitment)
  (predicate : PredicateKey)

def foldedPredicateAt : Nat → L1BlockCommitment → Option PredicateKey
  | 0, block => if block = genesis then some predicate else none
  | depth + 1, block => do
    let parent ← context.l1.parentOf block
    let key ← foldedPredicateAt depth parent
    let manifest ← (context.getManifest block).toOption
    pure ((extractNextPredicateFromLogs manifest.logs).getD key)

/-- The predicate that the manifests along the ancestry of a block lead to. -/
def foldedPredicate (block : L1BlockCommitment) : Option PredicateKey :=
  foldedPredicateAt context genesis predicate (block.height - genesis.height) block

variable {context genesis predicate}

theorem foldedPredicate_genesis :
    foldedPredicate context genesis predicate genesis = some predicate := by
  rw [foldedPredicate, Nat.sub_self, foldedPredicateAt, if_pos rfl]

theorem foldedPredicate_block {block parent : L1BlockCommitment} {key : PredicateKey}
    {manifest : AsmManifest} (isParent : context.l1.parentOf block = some parent)
    (above : genesis.height ≤ parent.height)
    (folded : foldedPredicate context genesis predicate parent = some key)
    (got : context.getManifest block = .ok manifest) :
    foldedPredicate context genesis predicate block =
      some ((extractNextPredicateFromLogs manifest.logs).getD key) := by
  have height := context.l1.parentOf_graded _ _ isParent
  unfold foldedPredicate at folded ⊢
  rw [show block.height - genesis.height = parent.height - genesis.height + 1 by omega,
    foldedPredicateAt, isParent]
  show Option.bind (foldedPredicateAt context genesis predicate (parent.height - genesis.height)
    parent) _ = _
  rw [folded, got]
  rfl

end

section

variable [AsmLibs] (d : Deployment) (context : WorkerContext)

/-- An anchor is the result of its block on the anchor of its parent, under the program that the
ancestry of the parent authorizes. -/
def Executed (anchor : AnchorState) : Prop :=
  ∃ parent ∈ context.anchors, ∃ key target block auxData inclusionProof manifest,
    context.l1.parentOf anchor.lastProcessedBlock = some parent.lastProcessedBlock ∧
    foldedPredicate context d.genesis.lastProcessedBlock d.predicate
      parent.lastProcessedBlock = some key ∧
    d.registry.resolve key = .ok target ∧
    context.l1.getL1Block anchor.lastProcessedBlock.blkid = .ok block ∧
    computeAsmTransition target parent block auxData inclusionProof = .ok (.ok ⟨anchor, manifest⟩) ∧
    anchor.specId = target.id

/-- The Moho state derived for a block from the stored anchors and manifests of its ancestry. -/
inductive MohoAt [MohoLibs] : L1BlockCommitment → MohoState → Prop
  | genesis : MohoAt d.genesis.lastProcessedBlock (constructGenesisMohoState d.predicate d.genesis)
  | block {parent block : L1BlockCommitment} {prev moho : MohoState} {anchor : AnchorState}
      {manifest : AsmManifest}
      (before : MohoAt parent prev) (isParent : context.l1.parentOf block = some parent)
      (stored : context.getAnchorState block = .ok anchor)
      (got : context.getManifest block = .ok manifest)
      (next : constructNextMohoState prev anchor manifest.logs = .ok moho) : MohoAt block moho

variable {d context}

theorem Recorded.folded (store : Stored d context) {manifests : List AsmManifest} {anchor : AnchorState}
    (recorded : Recorded d context manifests anchor) :
    foldedPredicate context d.genesis.lastProcessedBlock d.predicate anchor.lastProcessedBlock =
      some (foldPredicate d.predicate manifests) := by
  induction recorded with
  | genesis => exact foldedPredicate_genesis
  | @block past parent anchor block target auxData inclusionProof manifest before stored kept found
      resolved ran ih =>
    have steps := Deployment.steps resolved ran
    have isParent := steps.isParent found
    rw [← store.l1] at isParent
    have got : context.getManifest anchor.lastProcessedBlock = .ok manifest := by
      rw [WorkerContext.getManifest,
        (Keyed.get_iff AsmManifest.block store.manifestKeys).mpr ⟨kept, steps.recorded⟩]
    rw [foldPredicate_concat]
    exact foldedPredicate_block isParent (by rw [before.height_eq]; exact Nat.le_add_right _ _) ih got

theorem Stored.executed (store : Stored d context) {anchor : AnchorState}
    (stored : anchor ∈ context.anchors)
    (other : anchor.lastProcessedBlock ≠ d.genesis.lastProcessedBlock) :
    Executed d context anchor := by
  obtain ⟨manifests, recorded⟩ := store.recorded anchor stored
  cases recorded with
  | genesis => exact absurd rfl other
  | block before stored kept found resolved ran =>
    have steps := Deployment.steps resolved ran
    refine ⟨_, before.mem store, _, _, _, _, _, _, ?_, before.folded store, resolved, ?_, ran,
      steps.specId⟩
    · rw [store.l1]
      exact steps.isParent found
    · rw [store.l1]
      exact found

theorem MohoAt.folded [MohoLibs] {block : L1BlockCommitment} {moho : MohoState}
    (derived : MohoAt d context block moho) :
    d.genesis.lastProcessedBlock.height ≤ block.height ∧
      foldedPredicate context d.genesis.lastProcessedBlock d.predicate block =
        some moho.nextPredicate := by
  induction derived with
  | genesis => exact ⟨Nat.le_refl _, foldedPredicate_genesis⟩
  | block before isParent stored got next ih =>
    have height := context.l1.parentOf_graded _ _ isParent
    refine ⟨by omega, ?_⟩
    rw [constructNextMohoState_ok next]
    exact foldedPredicate_block isParent ih.1 ih.2 got

/-! ### Runs -/

variable [StoredMmr] [DecidableEq AnchorState]

/-- A worker after any sequence of calls and restarts since a first start. -/
inductive Operated (d : Deployment) : AsmWorkerServiceState → Prop
  | start {worker : AsmWorkerServiceState} (started : d.Starts d.emptyStores worker) : Operated d worker
  | sync {pre post : AsmWorkerServiceState} {targetBlkid : Buf32} {processed : List L1BlockCommitment}
      (before : Operated d pre)
      (synced : (syncToBlock targetBlkid).run pre = .ok processed post) : Operated d post
  | restart {pre worker : AsmWorkerServiceState} (before : Operated d pre)
      (started : d.Starts pre.context worker) :
      Operated d worker

theorem Operated.tracks {worker : AsmWorkerServiceState}
    (operated : Operated d worker) : Tracks d worker := by
  induction operated with
  | start started => exact (Tracks.fresh started).1
  | sync before synced ih => exact ih.sync (syncToBlock_ok synced)
  | restart before started ih => exact .restart ih.store started

/-- At any time the predicate in memory is the one of the ancestry of the tip, every stored anchor
was executed by the program of its ancestry, and the Moho state of a block authorizes the same
program. -/
theorem execution_authority [MohoLibs] {worker : AsmWorkerServiceState} (operated : Operated d worker) :
    foldedPredicate worker.context d.genesis.lastProcessedBlock d.predicate worker.blkid =
      some worker.nextPredicate ∧
    (∀ anchor ∈ worker.context.anchors, anchor.lastProcessedBlock ≠ d.genesis.lastProcessedBlock →
      Executed d worker.context anchor) ∧
    ∀ block moho, MohoAt d worker.context block moho →
      foldedPredicate worker.context d.genesis.lastProcessedBlock d.predicate block =
        some moho.nextPredicate := by
  have tracks := operated.tracks
  obtain ⟨manifests, recorded⟩ := tracks.store.recorded _ tracks.anchor
  refine ⟨?_, fun anchor stored other => tracks.store.executed stored other,
    fun block moho derived => derived.folded.2⟩
  rw [tracks.blkid, tracks.predicate manifests recorded]
  exact recorded.folded tracks.store

end

/-! ### A concrete run -/

@[reducible] def sampleChainMohoLibs : @MohoLibs sampleChainLibs.toMerkleMountainRange := sampleMohoLibs

section

attribute [local instance] sampleChainLibs sampleStoredMmr sampleMmrDecidableEq sampleChainMohoLibs

/-- A block that enacts a key, a block on it, and another branch. -/
def sampleRekeyed : Deployment :=
  sampleDeployment [{ sampleUpdateBlock [sampleRekeyTx 1 5] with header := ⟨2, .zero, .fill 3, 1, 0, 0⟩ },
    sampleEmptyBlock 1 2, sampleEmptyBlock 0 11]

@[irreducible] def sampleRekeyWorker : AsmWorkerServiceState :=
  (sampleStart sampleRekeyed sampleRekeyed.emptyStores).get (by decide +kernel)

@[irreducible] def sampleRekeyFirst : AsmWorkerServiceState :=
  (sampleSync sampleRekeyWorker 2).get (by decide +kernel)

@[irreducible] def sampleRekeySecond : AsmWorkerServiceState :=
  (sampleSync sampleRekeyFirst 11).get (by decide +kernel)

@[irreducible] def sampleRestarted : AsmWorkerServiceState :=
  (sampleStart sampleRekeyed sampleRekeySecond.context).get (by decide +kernel)

theorem sampleRekeySecond_operated : Operated sampleRekeyed sampleRekeySecond := by
  have isWorker : sampleStart sampleRekeyed sampleRekeyed.emptyStores = some sampleRekeyWorker := by
    rw [sampleRekeyWorker, Option.some_get]
  have isFirst : sampleSync sampleRekeyWorker 2 = some sampleRekeyFirst := by
    rw [sampleRekeyFirst, Option.some_get]
  have isSecond : sampleSync sampleRekeyFirst 11 = some sampleRekeySecond := by
    rw [sampleRekeySecond, Option.some_get]
  obtain ⟨_, first⟩ := Effect.left_some isFirst
  obtain ⟨_, second⟩ := Effect.left_some isSecond
  exact .sync (.sync (.start (Effect.returned_some isWorker)) first) second

/-- The branch without the key is executed by the first program. After a restart the worker is back
on the branch with the key, and executes the second one. -/
theorem execution_authority_sample :
    sampleRekeySecond.blkid = ⟨2, .fill 11⟩ ∧ sampleRekeySecond.nextPredicate = ⟨1, [0]⟩ ∧
    Operated sampleRekeyed sampleRestarted ∧
    sampleRestarted.context.anchors.map (fun anchor => (anchor.lastProcessedBlock, anchor.specId)) =
      [(⟨1, .zero⟩, 0), (⟨2, .fill 1⟩, 0), (⟨3, .fill 2⟩, 1), (⟨2, .fill 11⟩, 0)] ∧
    foldedPredicate sampleRestarted.context ⟨1, .zero⟩ ⟨1, [0]⟩ ⟨3, .fill 2⟩ = some ⟨1, [5]⟩ ∧
    sampleRestarted.blkid = ⟨3, .fill 2⟩ ∧ sampleRestarted.nextPredicate = ⟨1, [5]⟩ := by
  have isRestarted : sampleStart sampleRekeyed sampleRekeySecond.context = some sampleRestarted := by
    rw [sampleRestarted, Option.some_get]
  have operated : Operated sampleRekeyed sampleRestarted :=
    .restart sampleRekeySecond_operated (Effect.returned_some isRestarted)
  have atTip : sampleRestarted.blkid = ⟨3, .fill 2⟩ := by decide +kernel
  have folded : foldedPredicate sampleRestarted.context ⟨1, .zero⟩ ⟨1, [0]⟩ ⟨3, .fill 2⟩ =
      some ⟨1, [5]⟩ := by
    decide +kernel
  have start : sampleRekeyed.genesis.lastProcessedBlock = ⟨1, .zero⟩ := by decide +kernel
  have carried := (execution_authority operated).1
  rw [atTip, start] at carried
  refine ⟨by decide +kernel, by decide +kernel, operated, by decide +kernel, folded, atTip, ?_⟩
  exact Option.some.inj (carried.symm.trans folded)

end
end Asm
