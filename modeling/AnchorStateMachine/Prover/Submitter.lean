import AnchorStateMachine.Prover.Service
import Mathlib.Data.Finset.Union

/-! What a try to submit a proof does to the store, and how far down the chain the tries of a
scheduling cycle can reach. -/

namespace Asm
open Effect

/-- The entries of a job that was started for a proof. -/
def SledProofDb.recorded (db : SledProofDb) (id : ProofId) (remoteId : RemoteProofId) : SledProofDb :=
  ((db.insertProofToRemote id remoteId).insertRemoteToProof id remoteId).setStatus remoteId .requested

namespace SledProofDb

variable {db : SledProofDb} {id other : ProofId} {remoteId otherJob : RemoteProofId}

@[simp] theorem getProof_recorded : (db.recorded id remoteId).getProof other = db.getProof other := by
  cases other <;> rfl

theorem getRemote_recorded :
    (db.recorded id remoteId).getRemote other =
      if other = id then some remoteId else db.getRemote other := by
  show (db.proofToRemote.insert id remoteId).get other = _
  rw [OrderedTree.get_insert]
  rfl

theorem getLocal_recorded :
    (db.recorded id remoteId).getLocal otherJob =
      if otherJob = remoteId then some id else db.getLocal otherJob := by
  show (db.remoteToProof.insert remoteId id).get otherJob = _
  rw [OrderedTree.get_insert]
  rfl

theorem status_recorded :
    (db.recorded id remoteId).status otherJob =
      if otherJob = remoteId then some .requested else db.status otherJob := by
  show (db.remoteProofStatus.insert remoteId .requested).get otherJob = _
  rw [OrderedTree.get_insert]
  rfl

end SledProofDb

section

variable [MerkleMountainRange] [MohoLibs]

/-- A recursion at a block waits for its step proof and for the recursion below, unless that is at
genesis. -/
def InputBuilder.Needs (builder : InputBuilder) (node : Node) (db : SledProofDb)
    (block : L1BlockCommitment) (id : ProofId) : Prop :=
  (db.getAsm (.single block) = none ∧ id = .asm (.single block)) ∨
    (node.parent block ≠ builder.genesis ∧ db.getMoho (node.parent block) = none ∧
      id = .moho (node.parent block))

theorem InputBuilder.Needs.cases {builder : InputBuilder} {node : Node} {db : SledProofDb}
    {block : L1BlockCommitment} {id : ProofId} (needs : builder.Needs node db block id) :
    id = .asm (.single block) ∨ id = .moho (node.parent block) :=
  needs.imp And.right fun previous => previous.2.2

/-- What a try that did not fail came to, by what the store had before. -/
inductive Submission (builder : InputBuilder) (node : Node) (db : SledProofDb) (id : ProofId) :
    SubmitOutcome → SledProofDb → Prop
  | stored (stored : (db.getProof id).isSome = true) :
      Submission builder node db id (.skipped .proofExists) db
  | inFlight (new : db.getProof id = none) (mapped : (db.getRemote id).isSome = true) :
      Submission builder node db id (.skipped .alreadySubmitted) db
  | waits {block : L1BlockCommitment} {missing : List ProofId} (isMoho : id = .moho block)
      (new : db.getProof id = none) (unmapped : db.getRemote id = none) (above : block.height ≠ 0)
      (isMissing : ∀ other, other ∈ missing ↔ builder.Needs node db block other) (some : missing ≠ []) :
      Submission builder node db id (.deferred missing) db
  | started {remoteId : RemoteProofId} (new : db.getProof id = none) (unmapped : db.getRemote id = none)
      (ready : ∀ block, id = .moho block → ∀ other, ¬ builder.Needs node db block other)
      (free : db.getLocal remoteId = none ∨ db.getLocal remoteId = some id)
      (untracked : db.status remoteId = none) :
      Submission builder node db id (.submitted remoteId) (db.recorded id remoteId)

/-! ### How far the tries reach -/

/-- The proofs of a block and of the blocks below it, down to a number of steps. -/
def Node.below (node : Node) : Nat → L1BlockCommitment → Finset ProofId
  | 0, block => {.moho block, .asm (.single block)}
  | steps + 1, block => insert (.moho block)
      (insert (.asm (.single block)) (node.below steps (node.parent block)))

/-- The proofs that a try of a proof can lead to. -/
def Node.reach (node : Node) : ProofId → Finset ProofId
  | .asm range => {.asm range}
  | .moho block => node.below block.height block

theorem Node.mem_below (node : Node) (steps : Nat) (block : L1BlockCommitment) :
    ProofId.moho block ∈ node.below steps block ∧
      ProofId.asm (.single block) ∈ node.below steps block := by
  cases steps with
  | zero => simp [below]
  | succ steps => simp [below]

/-- What a recursion waits for is below it. -/
theorem Node.below_closed {node : Node} {steps : Nat} {top block : L1BlockCommitment}
    (high : top.height ≤ steps) (mem : ProofId.moho block ∈ node.below steps top)
    (above : block.height ≠ 0) :
    ProofId.asm (.single block) ∈ node.below steps top ∧
      ProofId.moho (node.parent block) ∈ node.below steps top := by
  induction steps generalizing top with
  | zero =>
    have isTop : block = top := by simpa [below] using mem
    have low : block.height ≤ 0 := isTop ▸ high
    omega
  | succ steps ih =>
    simp only [below, Finset.mem_insert, reduceCtorEq, false_or, ProofId.moho.injEq] at mem ⊢
    rcases mem with rfl | mem
    · exact ⟨.inl rfl, .inr (node.mem_below steps _).1⟩
    · have lower : (node.parent top).height ≤ steps := by
        show top.height - 1 ≤ steps
        omega
      obtain ⟨asm, moho⟩ := ih lower mem
      exact ⟨.inr asm, .inr moho⟩

theorem Node.mem_reach (node : Node) (id : ProofId) : id ∈ node.reach id := by
  cases id with
  | asm range => exact Finset.mem_singleton_self _
  | moho block => exact (node.mem_below _ _).1

theorem mem_biUnion_reach (node : Node) (queue : PendingProofQueue) :
    queue.pending ⊆ queue.pending.biUnion node.reach :=
  fun id queued => Finset.mem_biUnion.mpr ⟨id, queued, node.mem_reach id⟩

/-! ### What a try does -/

variable [ProverLibs] {world : World}

/-- What a try that failed can have changed: nothing, unless the store failed in the midst of the
entries or tracks a job that is not mapped. -/
def Unchanged (world : World) (id : ProofId) (db after : SledProofDb) : Prop :=
  after = db ∨ (∃ call, world.replies.storageFails call = true) ∨
    ∃ remoteId status, db.status remoteId = some status ∧
      (db.getLocal remoteId = none ∨ db.getLocal remoteId = some id) ∧ db.getRemote id = none

theorem putRemoteProofId_meets (id : ProofId) (remoteId : RemoteProofId) (ctx : ProverContext) :
    Meets (world.putRemoteProofId id remoteId) ctx
      (fun _ after => after.db = (ctx.db.insertProofToRemote id remoteId).insertRemoteToProof
        id remoteId ∧
        (ctx.db.getLocal remoteId = none ∨ ctx.db.getLocal remoteId = some id))
      fun _ after => after.db = ctx.db ∨ ∃ call, world.replies.storageFails call = true := by
  have checked : Meets (world.write "failed to store proof mapping" fun db =>
    db.checkRemoteId id remoteId) ctx
      (fun _ after => after.db = ctx.db ∧
        (ctx.db.getLocal remoteId = none ∨ ctx.db.getLocal remoteId = some id))
      fun _ after => after.db = ctx.db ∨ ∃ call, world.replies.storageFails call = true :=
    (world.meets_write _ _ ctx).mono (fun _ _ written => SledProofDb.checkRemoteId_some written)
      fun _ _ stopped => .inl stopped.1
  -- the two entries are only refused by a store that fails
  have entered : ∀ (f : SledProofDb → SledProofDb) now,
    Meets (world.write "failed to store proof mapping" fun db => some (f db)) now
      (fun _ after => after.db = f now.db)
      fun _ after => after.db = ctx.db ∨ ∃ call, world.replies.storageFails call = true := by
    intro f now
    exact (world.meets_set _ f now).mono (fun _ _ written => written) fun _ _ stopped => .inr
      ⟨_, stopped.2⟩
  refine checked.bind fun _ first ⟨same, free⟩ => ?_
  refine (entered (fun db => db.insertProofToRemote id remoteId) first).bind fun _ second inserted => ?_
  refine (entered (fun db => db.insertRemoteToProof id remoteId) second).mono
    (fun _ after done => ?_) fun _ _ stopped => stopped
  rw [done, inserted, same]
  exact ⟨rfl, free⟩

theorem recordSubmission_meets (world : World) {id : ProofId} (typedId : TypedId) {ctx : ProverContext}
    (unmapped : ctx.db.getRemote id = none) :
    Meets (recordSubmission world id typedId) ctx
      (fun outcome after => ∃ remoteId, outcome = .submitted remoteId ∧
        after.db = ctx.db.recorded id remoteId ∧
        (ctx.db.getLocal remoteId = none ∨ ctx.db.getLocal remoteId = some id) ∧
          ctx.db.status remoteId = none)
      fun _ after => Unchanged world id ctx.db after.db := by
  unfold recordSubmission
  generalize (⟨ProverLibs.intoBytes typedId⟩ : RemoteProofId) = remoteId
  refine ((putRemoteProofId_meets id remoteId ctx).mono (fun _ _ put => put) fun _ _ stopped => ?_).bind
    fun _ mapped put => ?_
  · exact stopped.imp_right .inl
  · have untouched : mapped.db.status remoteId = ctx.db.status remoteId := by
      rw [put.1]
      rfl
    refine ((world.meets_write _ _ mapped).mono (fun _ _ written => SledProofDb.putStatus_some written)
      fun _ _ stopped => ?_).bind fun _ after tracked => ?_
    · rcases stopped.2 with fails | refused
      · exact .inr (.inl ⟨_, fails⟩)
      · obtain ⟨status, isTracked⟩ := SledProofDb.putStatus_none refused
        exact .inr (.inr ⟨remoteId, status, untouched.symm.trans isTracked, put.2, unmapped⟩)
    · refine ⟨remoteId, rfl, ?_, put.2, untouched.symm.trans tracked.2⟩
      rw [tracked.1, put.1]
      rfl

variable [BitcoinLibs]

theorem InputBuilder.Built.missing_iff {builder : InputBuilder} {node : Node} {db : SledProofDb}
    {block : L1BlockCommitment} {missing : List ProofId}
    (built : builder.Built node (fun now => now = db) block (.missingPrerequisites missing))
    (id : ProofId) :
    id ∈ missing ↔ builder.Needs node db block id := by
  cases built with
  | missing above step previous isMissing some =>
    obtain ⟨_, rfl, rfl⟩ := step
    rw [isMissing, mem_missingPrerequisites, decide_eq_true_iff, Needs]
    refine or_congr_right (and_congr_right fun other => ?_)
    obtain ⟨_, rfl, rfl⟩ := previous other
    rfl

theorem InputBuilder.Built.ready_needs {builder : InputBuilder} {node : Node} {db : SledProofDb}
    {block : L1BlockCommitment} {input : MohoRecursiveInput}
    (built : builder.Built node (fun now => now = db) block (.ready input)) (id : ProofId) :
    ¬ builder.Needs node db block id := by
  cases built with
  | ready assembled step previous =>
    obtain ⟨_, rfl, found⟩ := step
    rintro (⟨missing, -⟩ | ⟨other, missing, -⟩)
    · cases missing.symm.trans found
    · obtain ⟨_, _, rfl, stored, -⟩ := (previous.resolve_left fun isGenesis => other isGenesis.1).2
      cases missing.symm.trans stored

/-- A job is only entered for a proof when all it was built from had been read. -/
theorem submit_meets (prover : Prover) (world : World) (id : ProofId) (ctx : ProverContext)
    (new : ctx.db.getProof id = none) (unmapped : ctx.db.getRemote id = none) :
    Meets (submit prover world id) ctx
      (fun outcome after => Submission prover.inputBuilder world.node ctx.db id outcome after.db)
      fun _ after => Unchanged world id ctx.db after.db := by
  have records : ∀ typedId now, now.db = ctx.db →
      (∀ block, id = .moho block → ∀ other, ¬ prover.inputBuilder.Needs world.node ctx.db block other) →
      Meets (recordSubmission world id typedId) now
        (fun outcome after => Submission prover.inputBuilder world.node ctx.db id outcome after.db)
        fun _ after => Unchanged world id ctx.db after.db := by
    intro typedId now same ready
    have recorded := recordSubmission_meets world typedId (same ▸ unmapped)
    rw [same] at recorded
    refine recorded.mono (fun outcome after done => ?_) fun _ _ stopped => stopped
    obtain ⟨remoteId, rfl, isRecorded, free, untracked⟩ := done
    rw [isRecorded]
    exact .started new unmapped ready free untracked
  cases id with
  | asm range =>
    refine (InputBuilder.keeps_buildAsmRuntimeInput world (fun db => db = ctx.db) range).bind_meets rfl
      (fun _ _ => .inl) fun input _ same _ => ?_
    have selects : Keeps (fun now : ProverContext => now.db = ctx.db)
      (lift (prover.asm.get input.mohoPreState.nextPredicate))
        fun _ => True := keeps_lift fun _ _ => trivial
    refine selects.bind_meets same (fun _ _ => .inl) fun program _ same _ => ?_
    refine (program.keeps_startProving world (fun db => db = ctx.db) input).bind_meets same
      (fun _ _ => .inl)
      fun typedId last same _ => ?_
    exact records typedId last same nofun
  | moho block =>
    refine (prover.inputBuilder.keeps_buildMohoRuntimeInput world (fun db => db = ctx.db)
      block).bind_meets rfl
      (fun _ _ => .inl) fun input first same built => ?_
    cases input with
    | missingPrerequisites missing =>
      have isMissing := built.missing_iff
      cases built with
      | missing above _ _ _ some =>
        show Submission _ _ _ _ _ first.db
        rw [same]
        exact .waits rfl new unmapped above isMissing some
    | ready input =>
      have starts : Keeps (fun now : ProverContext => now.db = ctx.db)
          (startProving world .moho (.moho input)) fun _ => True :=
        keeps_startProving world (fun db => db = ctx.db) _ _
      refine starts.bind_meets same (fun _ _ => .inl) fun typedId last same _ => ?_
      refine records typedId last same fun other isMoho => ?_
      cases isMoho
      exact built.ready_needs

/-- The spec of a try: what it returns and writes is decided by the store that it starts from. -/
theorem trySubmit_meets (prover : Prover) (world : World) (id : ProofId) (ctx : ProverContext) :
    Meets (trySubmit prover world id) ctx
      (fun outcome after => Submission prover.inputBuilder world.node ctx.db id outcome after.db)
      fun _ after => Unchanged world id ctx.db after.db := by
  refine ((world.meets_proofExists id ctx).mono (fun _ _ read => read) fun _ _ stopped =>
    .inl stopped.1).bind ?_
  rintro stored first ⟨isStored, same⟩
  cases stored with
  | true =>
    show Submission _ _ _ _ _ first.db
    rw [same]
    exact .stored isStored.symm
  | false =>
    have new : ctx.db.getProof id = none := by simpa using isStored.symm
    refine ((world.meets_read _ _ first).mono (fun _ _ read => read) fun _ _ stopped =>
      .inl (stopped.1.trans same)).bind ?_
    rintro remoteId second ⟨isRemote, sameAgain⟩
    rw [same] at isRemote sameAgain
    cases remoteId with
    | some remoteId =>
      show Submission _ _ _ _ _ second.db
      rw [sameAgain]
      exact .inFlight new (by rw [← isRemote]; rfl)
    | none =>
      have submits := submit_meets prover world id second
      rw [sameAgain] at submits
      exact submits new isRemote.symm

theorem trySubmit_closed (prover : Prover) (world : World) (queue : PendingProofQueue) :
    Cycle.Closed (trySubmit prover world) (queue.pending.biUnion world.node.reach) := by
  intro id mem ctx missing after ran other isMissing
  obtain ⟨root, queued, reached⟩ := Finset.mem_biUnion.mp mem
  have submission := (trySubmit_meets prover world id ctx).ok ran
  generalize after.db = later at submission
  cases submission with
  | @waits block _ isMoho new unmapped above isNeeded some =>
    subst isMoho
    have needed := ((isNeeded other).mp isMissing).cases
    cases root with
    | asm range => cases Finset.mem_singleton.mp reached
    | moho top =>
      obtain ⟨asm, moho⟩ := Node.below_closed le_rfl reached above
      refine ⟨Finset.mem_biUnion.mpr ⟨.moho top, queued, ?_⟩, ?_⟩
      · rcases needed with rfl | rfl
        · exact asm
        · exact moho
      · rcases needed with rfl | rfl
        · exact nofun
        · intro same
          have lower : (world.node.parent block).height = block.height - 1 := rfl
          rw [ProofId.moho.inj same] at lower
          omega

end

end Asm
