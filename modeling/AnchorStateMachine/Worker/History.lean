import AnchorStateMachine.Btc.HeaderChain
import AnchorStateMachine.Library.Ancestry
import AnchorStateMachine.Stf.Run
import AnchorStateMachine.Worker.Sync

/-! What the stores of a worker hold: every anchor comes from genesis by transitions, each under the
program that the manifests before it authorize, and the worker in memory is at one of them. -/

namespace Asm
open Outcome

/-! ### The L1 source -/

def L1DataProvider.parentOf (l1 : L1DataProvider) (block : L1BlockCommitment) :
    Option L1BlockCommitment :=
  match block.height, l1.getL1Block block.blkid with
  | height + 1, .ok l1Block => some ⟨height, l1Block.header.prevBlockhash⟩
  | _, _ => none

theorem L1DataProvider.parentOf_graded (l1 : L1DataProvider) :
    Ancestry.Graded l1.parentOf L1BlockCommitment.height := by
  intro block parent isParent
  unfold parentOf at isParent
  split at isParent
  · rename_i height _ isHeight _
    cases isParent
    exact isHeight
  · cases isParent

theorem headerParent_ok {l1 : L1DataProvider} {block parent : L1BlockCommitment}
    (h : l1.headerParent block = .ok parent) : parent.height = block.height - 1 := by
  obtain ⟨_, -, h⟩ := bind_ok h
  cases pure_ok h
  rfl

theorem foldl_pick {α : Type} {pick : Option α → α → Option α}
    (picks : ∀ last x, pick last x = some x ∨ pick last x = last ∧ last.isSome) (xs : List α)
    (start : Option α) :
    (∃ x ∈ xs, xs.foldl pick start = some x) ∨ xs.foldl pick start = start ∧
    (xs = [] ∨ start.isSome) := by
  induction xs generalizing start with
  | nil => exact .inr ⟨rfl, .inl rfl⟩
  | cons x xs ih =>
    rw [List.foldl_cons]
    rcases ih (pick start x) with ⟨y, mem, found⟩ | ⟨stays, -⟩
    · exact .inl ⟨y, .tail _ mem, found⟩
    · rcases picks start x with taken | ⟨kept, some⟩
      · exact .inl ⟨x, .head _, stays.trans taken⟩
      · exact .inr ⟨stays.trans kept, .inr some⟩

/-! ### Predicates -/

def foldPredicate (predicate : PredicateKey) (manifests : List AsmManifest) : PredicateKey :=
  manifests.foldl (fun key manifest => (extractNextPredicateFromLogs manifest.logs).getD key) predicate

theorem foldPredicate_concat (predicate : PredicateKey) (past : List AsmManifest)
    (manifest : AsmManifest) :
    foldPredicate predicate (past ++ [manifest]) =
      (extractNextPredicateFromLogs manifest.logs).getD (foldPredicate predicate past) := by
  rw [foldPredicate, List.foldl_append]
  rfl

/-! ### Transitions -/

/-- What a ruleset must leave alone when it takes over a state. -/
def AsmSpec.KeepsChain [MerkleMountainRange] (spec : AsmSpec) : Prop :=
  ∀ state prepared, spec.prepare state = .ok prepared → prepared.chainView = state.chainView

structure Steps [AsmLibs] (specId : Nat) (pre : AnchorState) (block : Block) (post : AnchorState)
    (manifest : AsmManifest) : Prop where
  tip : post.lastProcessedBlock =
    ⟨pre.lastProcessedBlock.height + 1, HeaderVerificationState.computeBlockHash block.header⟩
  parent : block.header.prevBlockhash = pre.lastProcessedBlock.blkid
  recorded : manifest.block = post.lastProcessedBlock
  history : MerkleMountainRange.addLeaf pre.chainView.historyAccumulator
    (AsmLibs.manifestHash manifest) =
    some post.chainView.historyAccumulator
  entries : MerkleMountainRange.numEntries post.chainView.historyAccumulator =
    post.lastProcessedBlock.height + 1
  specId : post.specId = specId

theorem Steps.isParent [AsmLibs] {specId : Nat} {pre post : AnchorState} {block : Block}
    {manifest : AsmManifest} (steps : Steps specId pre block post manifest) {l1 : L1DataProvider}
    (found : l1.getL1Block post.lastProcessedBlock.blkid = .ok block) :
    l1.parentOf post.lastProcessedBlock = some pre.lastProcessedBlock := by
  rw [steps.tip] at found ⊢
  unfold L1DataProvider.parentOf
  rw [found]
  simp only [steps.parent]

section

variable [AsmLibs]

theorem check_continuity {state : HeaderVerificationState} {header : Header}
    (h : state.check header = .ok ()) :
    header.prevBlockhash = state.lastVerifiedBlock.blkid := by
  unfold HeaderVerificationState.check at h
  split at h
  · cases h
  · rename_i continuity
    exact not_not.mp continuity

theorem lastInsertedHeight_ok {mmr : Mmr} {height : Nat}
    (h : HistoryAccumulator.lastInsertedHeight mmr = .ok height) :
    MerkleMountainRange.numEntries mmr = height + 1 := by
  unfold HistoryAccumulator.lastInsertedHeight at h
  split at h
  · cases h
  · cases pure_ok h
    omega

theorem computeAsmTransition_steps {spec : AsmSpec} (keeps : spec.KeepsChain)
    {pre post : AnchorState} {block : Block} {auxData : AuxData}
    {inclusionProof : Option TxidInclusionProof} {manifest : AsmManifest}
    (h : computeAsmTransition spec pre block auxData inclusionProof = .ok (.ok ⟨post, manifest⟩)) :
    Steps spec.id pre block post manifest := by
  obtain ⟨prepared, took, h⟩ := bind_ok h
  have chain := keeps pre prepared took
  obtain ⟨outcome, checked, h⟩ := bind_ok h
  split at h
  · cases pure_ok h
  · rename_i wtxidsRoot powState aux
    obtain ⟨-, header, -⟩ := checkBlock_ok checked
    rw [chain] at header
    obtain ⟨manager, -, h⟩ := bind_ok h
    obtain ⟨finished, -, h⟩ := bind_ok h
    obtain ⟨sections, history, -, packed, leaf, inserted⟩ := exportOutput_packed h
    cases packed
    rw [chain] at leaf
    obtain ⟨passed, updates⟩ := HeaderVerificationState.checkAndUpdate_eq_ok header
    exact ⟨updates.lastVerifiedBlock, check_continuity passed, rfl, leaf,
      lastInsertedHeight_ok inserted, rfl⟩

/-! ### Stores -/

/-- What stays the same while a worker runs and restarts. Blocks are found under their own hash, and
the supported programs keep to the contract of a ruleset. -/
structure Deployment where
  l1 : L1DataProvider
  registry : ExecutionRegistry
  genesis : AnchorState
  predicate : PredicateKey
  consistent : ∀ blkid block, l1.getL1Block blkid = .ok block →
    HeaderVerificationState.computeBlockHash block.header = blkid
  keepsChain : ∀ target ∈ registry.targets, target.2.KeepsChain

def Deployment.emptyStores (d : Deployment) : WorkerContext := ⟨d.l1, [], [], .empty, []⟩

variable (d : Deployment) (context : WorkerContext)

/-- An anchor with the manifests since genesis: each block is stored with its manifest, and was
processed by the program that the manifests before it authorize. -/
inductive Recorded : List AsmManifest → AnchorState → Prop
  | genesis : Recorded [] d.genesis
  | block {past : List AsmManifest} {parent anchor : AnchorState} {block : Block} {target : AsmSpec}
      {auxData : AuxData} {inclusionProof : Option TxidInclusionProof} {manifest : AsmManifest}
      (before : Recorded past parent) (stored : anchor ∈ context.anchors)
      (kept : manifest ∈ context.manifests)
      (found : d.l1.getL1Block anchor.lastProcessedBlock.blkid = .ok block)
      (resolved : d.registry.resolve (foldPredicate d.predicate past) = .ok target)
      (ran : computeAsmTransition target parent block auxData inclusionProof =
        .ok (.ok ⟨anchor, manifest⟩)) :
      Recorded (past ++ [manifest]) anchor

/-- Stores that hold genesis and what was recorded since. -/
structure Stored : Prop where
  l1 : context.l1 = d.l1
  anchorKeys : (context.anchors.map AnchorState.lastProcessedBlock).Nodup
  manifestKeys : (context.manifests.map AsmManifest.block).Nodup
  root : d.genesis ∈ context.anchors
  recorded : ∀ anchor ∈ context.anchors, ∃ manifests, Recorded d context manifests anchor

variable {d context}

theorem Deployment.steps {key : PredicateKey} {target : AsmSpec} {pre post : AnchorState} {block : Block}
    {auxData : AuxData} {inclusionProof : Option TxidInclusionProof} {manifest : AsmManifest}
    (resolved : d.registry.resolve key = .ok target)
    (ran : computeAsmTransition target pre block auxData inclusionProof = .ok (.ok ⟨post, manifest⟩)) :
    Steps target.id pre block post manifest :=
  computeAsmTransition_steps (d.keepsChain _ (ExecutionRegistry.resolve_ok.mp resolved)) ran

namespace Recorded

variable {manifests others : List AsmManifest} {anchor other : AnchorState}

theorem manifests_kept (recorded : Recorded d context manifests anchor) :
    ∀ manifest ∈ manifests, manifest ∈ context.manifests := by
  induction recorded with
  | genesis => nofun
  | block before stored kept found resolved ran ih =>
    intro manifest mem
    rcases List.mem_append.mp mem with earlier | last
    · exact ih manifest earlier
    · rw [List.mem_singleton.mp last]
      exact kept

theorem line (recorded : Recorded d context manifests anchor) :
    Ancestry.Line d.l1.parentOf d.genesis.lastProcessedBlock (manifests.map AsmManifest.block)
      anchor.lastProcessedBlock := by
  induction recorded with
  | genesis => exact .root
  | @block past parent anchor block target auxData inclusionProof manifest before stored kept found
      resolved ran ih =>
    have steps := Deployment.steps resolved ran
    rw [List.map_append, List.map_singleton, steps.recorded]
    exact ih.child (steps.isParent found)

theorem height_eq (recorded : Recorded d context manifests anchor) :
    anchor.lastProcessedBlock.height = d.genesis.lastProcessedBlock.height + manifests.length := by
  rw [recorded.line.height_eq d.l1.parentOf_graded, List.length_map]

theorem mono {later : WorkerContext} (anchors : ∀ anchor ∈ context.anchors, anchor ∈ later.anchors)
    (kept : ∀ manifest ∈ context.manifests, ∀ anchor ∈ context.anchors,
      manifest.block = anchor.lastProcessedBlock → manifest ∈ later.manifests)
    (recorded : Recorded d context manifests anchor) : Recorded d later manifests anchor := by
  induction recorded with
  | genesis => exact .genesis
  | block before stored isKept found resolved ran ih =>
    exact .block ih (anchors _ stored) (kept _ isKept _ stored
      (Deployment.steps resolved ran).recorded) found
      resolved ran

variable (store : Stored d context)
include store

theorem mem (recorded : Recorded d context manifests anchor) : anchor ∈ context.anchors := by
  cases recorded with
  | genesis => exact store.root
  | block before stored kept found resolved ran => exact stored

theorem unique (recorded : Recorded d context manifests anchor)
    (record : Recorded d context others other)
    (same : anchor.lastProcessedBlock = other.lastProcessedBlock) :
    manifests = others ∧ anchor = other := by
  constructor
  · have line := record.line
    rw [← same] at line
    refine Keyed.eq_of_keys AsmManifest.block (fun _ mem _ mem' => ?_)
      (recorded.line.unique d.l1.parentOf_graded line)
    exact List.inj_on_of_nodup_map store.manifestKeys (recorded.manifests_kept _ mem)
      (record.manifests_kept _ mem')
  · exact List.inj_on_of_nodup_map store.anchorKeys (recorded.mem store) (record.mem store) same

end Recorded

/-! ### The worker in memory -/

/-- A worker over such stores, at one of the anchors. -/
structure Tracks (d : Deployment) (worker : AsmWorkerServiceState) : Prop where
  store : Stored d worker.context
  registry : worker.registry = d.registry
  genesisBlock : worker.genesisBlock = d.genesis.lastProcessedBlock
  genesisHeight : worker.genesisHeight = d.genesis.lastProcessedBlock.height
  genesisPredicate : worker.genesisPredicate = d.predicate
  anchor : worker.anchor ∈ worker.context.anchors
  blkid : worker.blkid = worker.anchor.lastProcessedBlock
  predicate : ∀ manifests, Recorded d worker.context manifests worker.anchor →
    worker.nextPredicate = foldPredicate d.predicate manifests

/-- Recovery finds the predicate that the manifests lead to: in the last manifest, or by the program
that processed the block. -/
theorem recoverFromContext_eq (store : Stored d context) {manifests : List AsmManifest}
    {anchor : AnchorState} (recorded : Recorded d context manifests anchor) :
    recoverFromContext context d.registry d.genesis.lastProcessedBlock d.predicate anchor =
      .ok (foldPredicate d.predicate manifests) := by
  have height := recorded.height_eq
  unfold recoverFromContext
  cases recorded with
  | genesis =>
    rw [if_pos rfl]
    rfl
  | @block past parent anchor block target auxData inclusionProof manifest before stored kept found
      resolved ran =>
    have steps := Deployment.steps resolved ran
    rw [List.length_append, List.length_singleton] at height
    have loaded : context.getManifest anchor.lastProcessedBlock = .ok manifest := by
      rw [WorkerContext.getManifest, (Keyed.get_iff AsmManifest.block store.manifestKeys).mpr
        ⟨kept, steps.recorded⟩]
    dsimp only
    rw [if_neg (fun same => by rw [same] at height; omega), if_neg (by omega), loaded, ok_bind]
    unfold ExecutionRegistry.recoverPredicate
    dsimp only
    rw [← steps.recorded, if_neg (by simp [AsmManifest.block]), foldPredicate_concat]
    split
    · rename_i key logged
      rw [logged]
      rfl
    · rename_i logged
      rw [logged, steps.specId, ExecutionRegistry.predicate_of_resolve resolved]
      rfl

theorem recoverFromContext_ok (store : Stored d context) {manifests : List AsmManifest}
    {anchor : AnchorState} (recorded : Recorded d context manifests anchor)
    {predicate : PredicateKey}
    (h : recoverFromContext context d.registry d.genesis.lastProcessedBlock d.predicate anchor =
      .ok predicate) :
    predicate = foldPredicate d.predicate manifests := by
  rw [recoverFromContext_eq store recorded] at h
  cases h
  rfl

variable {pre post : AsmWorkerServiceState}

theorem Applies.tip [StoredMmr] {blockId : L1BlockCommitment} {block : Block} {target : AsmSpec}
    {auxData : AuxData} {output : AsmStfOutput} {mmr : ManifestMmr} (tracks : Tracks d pre)
    (next : blockId.height = pre.blkid.height + 1)
    (applies : Applies pre blockId block target auxData output mmr post) :
    output.state.lastProcessedBlock = blockId := by
  have resolved := applies.resolved
  have found := applies.found
  rw [tracks.registry] at resolved
  rw [tracks.store.l1] at found
  rw [(Deployment.steps resolved applies.ran).tip, d.consistent _ _ found, ← tracks.blkid, ← next]

theorem baseAt_eq (block : L1BlockCommitment) :
    context.baseAt block = .ok (Keyed.get AnchorState.lastProcessedBlock context.anchors block) := by
  unfold WorkerContext.baseAt WorkerContext.getAnchorState
  cases Keyed.get AnchorState.lastProcessedBlock context.anchors block with
  | none => rfl
  | some stored => rfl

theorem baseAt_some {block : L1BlockCommitment} {anchor : AnchorState}
    (h : context.baseAt block = .ok (some anchor)) :
    Keyed.get AnchorState.lastProcessedBlock context.anchors block = some anchor :=
  Except.ok.inj ((baseAt_eq block).symm.trans h)

theorem baseAt_none {block : L1BlockCommitment} (h : context.baseAt block = .ok none) :
    Keyed.get AnchorState.lastProcessedBlock context.anchors block = none :=
  Except.ok.inj ((baseAt_eq block).symm.trans h)

theorem Tracks.restore (tracks : Tracks d pre) {anchor : AnchorState} {base : L1BlockCommitment}
    (isBase : Keyed.get AnchorState.lastProcessedBlock pre.context.anchors base = some anchor)
    (h : (AsmWorkerServiceState.restoreAnchor anchor base).run pre = .ok () post) :
    Tracks d post ∧ post.context = pre.context ∧ post.anchor = anchor ∧ post.blkid = base := by
  obtain ⟨stored, isBlock⟩ := (Keyed.get_iff _ tracks.store.anchorKeys).mp isBase
  obtain ⟨predicate, unmoved, recovered, rfl⟩ := restoreAnchor_ok h
  refine ⟨⟨tracks.store, tracks.registry, tracks.genesisBlock, tracks.genesisHeight,
    tracks.genesisPredicate,
    stored, isBlock.symm, fun manifests recorded => ?_⟩, rfl, rfl, rfl⟩
  by_cases same : base = pre.blkid
  · have isTip : anchor = pre.anchor := by
      apply List.inj_on_of_nodup_map tracks.store.anchorKeys stored tracks.anchor
      rw [isBlock, same, tracks.blkid]
    dsimp only at recorded ⊢
    rw [unmoved same]
    rw [isTip] at recorded
    exact tracks.predicate manifests recorded
  · have recovered := recovered same
    rw [tracks.registry, tracks.genesisBlock, tracks.genesisPredicate] at recovered
    exact recoverFromContext_ok tracks.store recorded recovered

section

variable [StoredMmr] {blockId : L1BlockCommitment} {block : Block} {target : AsmSpec} {auxData : AuxData}
  {output : AsmStfOutput} {mmr : ManifestMmr}

theorem Recorded.apply (tracks : Tracks d pre)
    (fresh : Keyed.get AnchorState.lastProcessedBlock pre.context.anchors blockId = none)
    (next : blockId.height = pre.blkid.height + 1)
    (applies : Applies pre blockId block target auxData output mmr post) {manifests : List AsmManifest}
    {anchor : AnchorState} (recorded : Recorded d pre.context manifests anchor) :
    Recorded d post.context manifests anchor := by
  have tip := applies.tip tracks next
  have resolved := applies.resolved
  rw [tracks.registry] at resolved
  have steps := Deployment.steps resolved applies.ran
  have unlike := fun anchor (mem : anchor ∈ pre.context.anchors) =>
    Keyed.key_ne AnchorState.lastProcessedBlock fresh mem
  rw [applies.result]
  refine recorded.mono (fun anchor mem => ?_) fun manifest mem anchor stored same => ?_
  · refine (Keyed.mem_put AnchorState.lastProcessedBlock).mpr (.inr ⟨mem, ?_⟩)
    rw [tip]
    exact unlike anchor mem
  · refine (Keyed.mem_put AsmManifest.block).mpr (.inr ⟨mem, ?_⟩)
    rw [same, steps.recorded, tip]
    exact unlike anchor stored

theorem Recorded.applied (tracks : Tracks d pre)
    (fresh : Keyed.get AnchorState.lastProcessedBlock pre.context.anchors blockId = none)
    (next : blockId.height = pre.blkid.height + 1)
    (applies : Applies pre blockId block target auxData output mmr post) {manifests : List AsmManifest}
    (recorded : Recorded d pre.context manifests pre.anchor) :
    Recorded d post.context (manifests ++ [output.manifest]) post.anchor := by
  have before := recorded.apply tracks fresh next applies
  have resolved := applies.resolved
  rw [tracks.registry, tracks.predicate manifests recorded] at resolved
  have found := applies.found
  rw [tracks.store.l1, ← applies.tip tracks next] at found
  rw [applies.result] at before ⊢
  exact .block before ((Keyed.mem_put _).mpr (.inl rfl)) ((Keyed.mem_put _).mpr (.inl rfl))
    found resolved
    applies.ran

theorem Tracks.apply (tracks : Tracks d pre)
    (fresh : Keyed.get AnchorState.lastProcessedBlock pre.context.anchors blockId = none)
    (next : blockId.height = pre.blkid.height + 1)
    (applies : Applies pre blockId block target auxData output mmr post) : Tracks d post := by
  obtain ⟨manifests, recorded⟩ := tracks.store.recorded _ tracks.anchor
  have applied := recorded.applied tracks fresh next applies
  have tip := applies.tip tracks next
  have members : ∀ anchor ∈ post.context.anchors,
      anchor = post.anchor ∨ anchor ∈ pre.context.anchors := by
    intro anchor mem
    rw [applies.result] at mem ⊢
    exact ((Keyed.mem_put _).mp mem).imp_right And.left
  have store : Stored d post.context := by
    constructor
    · rw [applies.result]
      exact tracks.store.l1
    · rw [applies.result]
      exact Keyed.nodup_put _ tracks.store.anchorKeys _
    · rw [applies.result]
      exact Keyed.nodup_put _ tracks.store.manifestKeys _
    · rw [applies.result]
      refine (Keyed.mem_put AnchorState.lastProcessedBlock).mpr (.inr ⟨tracks.store.root, ?_⟩)
      rw [tip]
      exact Keyed.key_ne _ fresh tracks.store.root
    · intro anchor mem
      rcases members anchor mem with rfl | earlier
      · exact ⟨_, applied⟩
      · obtain ⟨others, record⟩ := tracks.store.recorded anchor earlier
        exact ⟨others, record.apply tracks fresh next applies⟩
  have predicate : post.nextPredicate =
      (extractNextPredicateFromLogs output.manifest.logs).getD pre.nextPredicate := by
    rw [applies.result]
  have isAnchor : post.anchor = output.state := by rw [applies.result]
  refine ⟨store, ?_, ?_, ?_, ?_, applied.mem store, ?_, fun others record => ?_⟩
  · rw [applies.result]
    exact tracks.registry
  · rw [applies.result]
    exact tracks.genesisBlock
  · rw [applies.result]
    exact tracks.genesisHeight
  · rw [applies.result]
    exact tracks.genesisPredicate
  · rw [isAnchor, tip, applies.result]
  · rw [(record.unique store applied rfl).1, foldPredicate_concat,
      ← tracks.predicate manifests recorded, predicate]

/-- The forward pass reaches the start of the walk, and keeps whatever applying a block keeps. -/
theorem pass_preserves {genesisHeight : Nat} {base cursor : L1BlockCommitment} {baseState : AnchorState}
    {rest : List L1BlockCommitment} (kept : AsmWorkerServiceState → Prop)
    (step : ∀ pre post blockId block target auxData output mmr, Tracks d pre →
      Keyed.get AnchorState.lastProcessedBlock pre.context.anchors blockId = none →
      blockId.height = pre.blkid.height + 1 → Applies pre blockId block target auxData output mmr post →
      kept pre → kept post)
    (walk : Walk genesisHeight pre.context.baseAt pre.context.l1.headerParent base baseState cursor rest)
    (tracks : Tracks d pre) (atBase : pre.blkid = base)
    (applied : (rest.reverse.forM applyBlock).run pre = .ok () post) (start : kept pre) :
    Tracks d post ∧ post.blkid = cursor ∧ kept post ∧ ∀ block, cursor.height < block.height →
      Keyed.get AnchorState.lastProcessedBlock post.context.anchors block =
        Keyed.get AnchorState.lastProcessedBlock pre.context.anchors block := by
  induction walk generalizing post with
  | base isBase =>
    cases applied
    exact ⟨tracks, atBase, start, fun _ _ => rfl⟩
  | @step cursor parent rest notBase above isParent walk ih =>
    rw [List.reverse_cons] at applied
    obtain ⟨mid, earlier, applied⟩ := Effect.forM_concat_ok applied
    obtain ⟨tracks, atParent, kept, higher⟩ := ih earlier
    have height := headerParent_ok isParent
    have fresh := higher cursor (by omega)
    rw [baseAt_none notBase] at fresh
    have next : cursor.height = mid.blkid.height + 1 := by
      rw [atParent]
      omega
    obtain ⟨block, target, auxData, output, mmr, applies⟩ := applyBlock_ok applied
    refine ⟨tracks.apply fresh next applies, ?_, step _ _ _ _ _ _ _ _ tracks fresh next applies kept, ?_⟩
    · rw [applies.result]
    · intro other isHigher
      rw [← higher other (by omega), applies.result]
      refine Keyed.get_put_of_ne _ _ fun same => ?_
      rw [same, applies.tip tracks next] at isHigher
      omega

theorem Tracks.sync (tracks : Tracks d pre) {targetBlkid : Buf32} {processed : List L1BlockCommitment}
    (syncs : Syncs pre targetBlkid processed post) : Tracks d post := by
  cases syncs with
  | idle => exact tracks
  | @advance height plan mid post isBase planned some restored applied =>
    have walk := planBlockProcessing_ok planned
    obtain ⟨restoredTracks, sameContext, -, atBase⟩ := tracks.restore (baseAt_some walk.isBase) restored
    rw [← sameContext] at walk
    exact (pass_preserves (fun _ => True) (fun _ _ _ _ _ _ _ _ _ _ _ _ _ => trivial) walk
      restoredTracks atBase
      applied trivial).1

end

/-! ### Start and restart -/

section

variable {later : WorkerContext} {genesisState : AnchorState}

theorem seedMmr_ok (h : (AsmWorkerServiceState.seedMmr genesisState).run context = .ok () later) :
    ∃ mmr, later = { context with mmr } ∧
      mmr = if context.mmr.leafCount = 0 then ⟨some genesisState.chainView.historyAccumulator, []⟩
        else context.mmr := by
  replace h := Effect.get_bind_ok h
  dsimp only at h
  split at h
  · rename_i empty
    obtain ⟨_, seeded, h⟩ := Effect.lift_bind_ok h
    unfold WorkerContext.seedManifestMmr at seeded
    rw [if_pos empty] at seeded
    cases seeded
    cases h
    exact ⟨_, rfl, (if_pos empty).symm⟩
  · rename_i seeded
    split at h
    · cases h
    · cases h
      exact ⟨_, rfl, (if_neg seeded).symm⟩

theorem getLatestAnchorState_mem {anchor : AnchorState} (mem : anchor ∈ context.anchors) :
    ∃ latest ∈ context.anchors, context.getLatestAnchorState = some latest := by
  unfold WorkerContext.getLatestAnchorState
  refine (foldl_pick ?_ context.anchors none).elim id fun ⟨_, other⟩ => ?_
  · intro last state
    cases last with
    | none => exact .inl rfl
    | some other =>
      dsimp only
      split
      · exact .inl rfl
      · exact .inr ⟨rfl, rfl⟩
  · rcases other with empty | some
    · rw [empty] at mem
      cases mem
    · cases some

variable [DecidableEq AnchorState]

theorem checkGenesis_ok
    (h : (AsmWorkerServiceState.checkGenesis genesisState).run context = .ok () later) :
    later = context ∨ Keyed.get AnchorState.lastProcessedBlock context.anchors
      genesisState.lastProcessedBlock = none ∧
      context.getLatestAnchorState.isSome ∧ later = context.storeAnchorState genesisState := by
  replace h := Effect.get_bind_ok h
  unfold WorkerContext.getAnchorState at h
  cases found : Keyed.get AnchorState.lastProcessedBlock context.anchors
      genesisState.lastProcessedBlock with
  | some stored =>
    rw [found] at h
    dsimp only at h
    split at h
    · cases h
    · cases h
      exact .inl rfl
  | none =>
    rw [found] at h
    dsimp only at h
    split at h
    · rename_i later
      cases h
      exact .inr ⟨rfl, later, rfl⟩
    · cases h
      exact .inl rfl

variable {predicate : PredicateKey} {registry : ExecutionRegistry} {worker : AsmWorkerServiceState}

theorem new_ok
    (h : (AsmWorkerServiceState.new genesisState predicate registry).run context = .ok worker later) :
    ∃ checked mmr nextPredicate,
      (AsmWorkerServiceState.checkGenesis genesisState).run context = .ok () checked ∧
      mmr = (if checked.mmr.leafCount = 0 then ⟨some genesisState.chainView.historyAccumulator, []⟩
        else checked.mmr) ∧
      later = (if context.getLatestAnchorState.isNone then
        WorkerContext.storeAnchorState { checked with mmr } genesisState else { checked with mmr }) ∧
      recoverFromContext later registry genesisState.lastProcessedBlock predicate
        (context.getLatestAnchorState.getD genesisState) = .ok nextPredicate ∧
      worker = {
        context := later
        registry
        genesisBlock := genesisState.lastProcessedBlock
        genesisPredicate := predicate
        nextPredicate
        anchor := context.getLatestAnchorState.getD genesisState
        blkid := (context.getLatestAnchorState.getD genesisState).lastProcessedBlock
        genesisHeight := genesisState.lastProcessedBlock.height
        emitted := [] } := by
  obtain ⟨target, resolved, h⟩ := Effect.lift_bind_ok h
  dsimp only at h
  split at h
  · cases h
  · replace h := Effect.get_bind_ok h
    obtain ⟨_, valid, h⟩ := Effect.lift_bind_ok h
    obtain ⟨_, checked, isChecked, h⟩ := Effect.bind_ok h
    obtain ⟨_, seeded, isSeeded, h⟩ := Effect.bind_ok h
    obtain ⟨mmr, rfl, isMmr⟩ := seedMmr_ok isSeeded
    split at h
    · rename_i none
      obtain ⟨nextPredicate, recovered, h⟩ :=
        Effect.lift_bind_ok (Effect.get_bind_ok (Effect.modify_bind_ok h))
      cases h
      exact ⟨checked, mmr, nextPredicate, isChecked, isMmr, (if_pos none).symm, recovered, rfl⟩
    · rename_i some
      obtain ⟨nextPredicate, recovered, h⟩ := Effect.lift_bind_ok (Effect.get_bind_ok h)
      cases h
      exact ⟨checked, mmr, nextPredicate, isChecked, isMmr, (if_neg some).symm, recovered, rfl⟩

def Deployment.Starts (d : Deployment) (stores : WorkerContext)
    (worker : AsmWorkerServiceState) : Prop :=
  ∃ later, (AsmWorkerServiceState.new d.genesis d.predicate d.registry).run stores = .ok worker later

theorem Tracks.fresh (started : d.Starts d.emptyStores worker) :
    Tracks d worker ∧ worker.context.anchors = [d.genesis] ∧ worker.anchor = d.genesis ∧
      worker.context.mmr = ⟨some d.genesis.chainView.historyAccumulator, []⟩ := by
  obtain ⟨later, h⟩ := started
  obtain ⟨checked, mmr, nextPredicate, isChecked, isMmr, isLater, recovered, rfl⟩ := new_ok h
  have none : d.emptyStores.getLatestAnchorState = none := rfl
  have same : checked = d.emptyStores := by
    rcases checkGenesis_ok isChecked with same | ⟨-, some, -⟩
    · exact same
    · rw [none] at some
      cases some
  subst same
  rw [none, if_pos Option.isNone_none] at isLater
  rw [none] at recovered ⊢
  have anchors : later.anchors = [d.genesis] := by
    rw [isLater]
    rfl
  have store : Stored d later := by
    refine ⟨?_, ?_, ?_, ?_, fun anchor mem => ?_⟩
    · rw [isLater]
      rfl
    · rw [anchors]
      exact List.nodup_singleton _
    · rw [isLater]
      exact List.nodup_nil
    · rw [anchors]
      exact .head _
    · rw [anchors, List.mem_singleton] at mem
      rw [mem]
      exact ⟨[], .genesis⟩
  refine ⟨⟨store, rfl, rfl, rfl, rfl, store.root, rfl, fun manifests recorded => ?_⟩, anchors, rfl, ?_⟩
  · exact recoverFromContext_ok store recorded recovered
  · rw [isLater]
    exact isMmr.trans (if_pos rfl)

theorem Tracks.restart (store : Stored d context)
    (started : d.Starts context worker) : Tracks d worker := by
  obtain ⟨later, h⟩ := started
  obtain ⟨checked, mmr, nextPredicate, isChecked, -, isLater, recovered, rfl⟩ := new_ok h
  obtain ⟨latest, mem, isLatest⟩ := getLatestAnchorState_mem store.root
  have same : checked = context := by
    rcases checkGenesis_ok isChecked with same | ⟨absent, -⟩
    · exact same
    · exact absurd rfl (Keyed.key_ne _ absent store.root)
  subst same
  rw [isLatest, if_neg (by simp)] at isLater
  rw [isLatest] at recovered ⊢
  have keeps := fun manifests anchor (recorded : Recorded d checked manifests anchor) =>
    show Recorded d later manifests anchor by
      rw [isLater]
      refine Recorded.mono ?_ ?_ recorded
      · exact fun _ mem => mem
      · exact fun _ mem _ _ _ => mem
  have store : Stored d later := by
    refine ⟨?_, ?_, ?_, ?_, fun anchor mem => ?_⟩
    · rw [isLater]
      exact store.l1
    · rw [isLater]
      exact store.anchorKeys
    · rw [isLater]
      exact store.manifestKeys
    · rw [isLater]
      exact store.root
    · rw [isLater] at mem
      obtain ⟨manifests, recorded⟩ := store.recorded anchor mem
      exact ⟨manifests, keeps manifests anchor recorded⟩
  refine ⟨store, rfl, rfl, rfl, rfl, ?_, rfl, fun manifests recorded => ?_⟩
  · rw [isLater]
    exact mem
  · exact recoverFromContext_ok store recorded recovered

end

end
end Asm
