import AnchorStateMachine.Prover.Soundness
import AnchorStateMachine.Prover.Submitter

/-! Every proof that was ever in the queue of a generator is still to be had: it is in the queue, or
stored, or a job for it is in flight. It is lost when its job is discarded, because nothing puts it
back into the queue. -/

namespace Asm
open Effect

/-! ### Jobs in the store -/

/-- A tracked job is in flight and is the job of its proof. A proof whose job is not tracked any
more is stored. -/
structure Tracked (db : SledProofDb) : Prop where
  active : ∀ remoteId status, db.status remoteId = some status → status.isActive = true
  owner : ∀ remoteId status, db.status remoteId = some status →
    ∃ id, db.getLocal remoteId = some id ∧ db.getRemote id = some remoteId
  known : ∀ id remoteId, db.getRemote id = some remoteId → db.getLocal remoteId = some id
  kept : ∀ id remoteId, db.getRemote id = some remoteId →
    (db.getProof id).isSome = true ∨ (db.status remoteId).isSome = true

/-- The proof is stored or it has a job. -/
def Held (db : SledProofDb) (id : ProofId) : Prop :=
  (db.getProof id).isSome = true ∨ (db.getRemote id).isSome = true

/-- What is left of a job that will not yield a proof. -/
def SledProofDb.discarded (db : SledProofDb) (remoteId : RemoteProofId) : SledProofDb :=
  match db.getLocal remoteId with
  | some id => (db.clearRemoteSubmission id).deleteStatus remoteId
  | none => db.deleteStatus remoteId

section

variable {db : SledProofDb} {id : ProofId} {remoteId : RemoteProofId} {receipt : Receipt}

theorem tracked_empty : Tracked .empty := ⟨nofun, nofun, nofun, nofun⟩

theorem Tracked.setStatus (tracked : Tracked db) {status : RemoteProofStatus}
    (active : status.isActive = true) (isTracked : (db.status remoteId).isSome = true) :
    Tracked (db.setStatus remoteId status) := by
  obtain ⟨old, isOld⟩ := Option.isSome_iff_exists.mp isTracked
  refine ⟨fun job now isNow => ?_, fun job now isNow => ?_, tracked.known, fun other job mapped => ?_⟩
  · rw [SledProofDb.status_setStatus] at isNow
    by_cases same : job = remoteId
    · rw [if_pos same] at isNow
      cases isNow
      exact active
    · rw [if_neg same] at isNow
      exact tracked.active job now isNow
  · rw [SledProofDb.status_setStatus] at isNow
    by_cases same : job = remoteId
    · subst same
      exact tracked.owner job old isOld
    · rw [if_neg same] at isNow
      exact tracked.owner job now isNow
  · rw [SledProofDb.getProof_setStatus, SledProofDb.status_setStatus]
    refine (tracked.kept other job mapped).imp_right fun before => ?_
    by_cases same : job = remoteId
    · rw [if_pos same]
      rfl
    · rw [if_neg same]
      exact before

theorem Tracked.completed (tracked : Tracked db) (isJob : db.getLocal remoteId = some id) :
    Tracked ((db.storeProof receipt id).deleteStatus remoteId) := by
  have status : ∀ job now, ((db.storeProof receipt id).deleteStatus remoteId).status job = some now →
      db.status job = some now := by
    intro job now isNow
    have before := (SledProofDb.status_deleteStatus_some isNow).2
    rwa [SledProofDb.status_storeProof] at before
  refine ⟨fun job now isNow => tracked.active job now (status job now isNow), fun job now isNow => ?_,
    fun other job mapped => ?_, fun other job mapped => ?_⟩
  · obtain ⟨owner, isOwner, mapped⟩ := tracked.owner job now (status job now isNow)
    exact ⟨owner, by simpa using isOwner, by simpa using mapped⟩
  · simp only [SledProofDb.getRemote_deleteStatus, SledProofDb.getRemote_storeProof] at mapped
    simpa using tracked.known other job mapped
  · simp only [SledProofDb.getRemote_deleteStatus, SledProofDb.getRemote_storeProof] at mapped
    rw [SledProofDb.getProof_deleteStatus, SledProofDb.getProof_storeProof,
      SledProofDb.status_deleteStatus, SledProofDb.status_storeProof]
    by_cases same : other = id
    · rw [if_pos same]
      exact .inl rfl
    · -- the job belongs to another proof
      have otherJob : job ≠ remoteId := by
        rintro rfl
        exact same (Option.some.inj ((tracked.known other job mapped).symm.trans isJob))
      rw [if_neg same, if_neg otherJob]
      exact tracked.kept other job mapped

/-- A tracked job is discarded together with the mapping of its proof. -/
theorem Tracked.discarded_eq (tracked : Tracked db) (isTracked : (db.status remoteId).isSome = true) :
    ∃ id, db.getLocal remoteId = some id ∧ db.getRemote id = some remoteId ∧
      db.discarded remoteId = (db.clearRemoteSubmission id).deleteStatus remoteId := by
  obtain ⟨old, isOld⟩ := Option.isSome_iff_exists.mp isTracked
  obtain ⟨id, isJob, mapped⟩ := tracked.owner remoteId old isOld
  refine ⟨id, isJob, mapped, ?_⟩
  rw [SledProofDb.discarded, isJob]

theorem Tracked.discarded (tracked : Tracked db) (isTracked : (db.status remoteId).isSome = true) :
    Tracked (db.discarded remoteId) := by
  obtain ⟨id, isJob, mapped, isDiscarded⟩ := tracked.discarded_eq isTracked
  rw [isDiscarded]
  refine ⟨fun job now isNow => ?_, fun job now isNow => ?_, fun other job isRemote => ?_,
    fun other job isRemote => ?_⟩
  · exact tracked.active job now (SledProofDb.status_deleteStatus_some isNow).2
  · obtain ⟨different, isNow⟩ := SledProofDb.status_deleteStatus_some isNow
    obtain ⟨owner, isOwner, mappedToo⟩ := tracked.owner job now isNow
    refine ⟨owner, by simpa using isOwner, ?_⟩
    have otherOwner : owner ≠ id := by
      rintro rfl
      exact different (Option.some.inj (mappedToo.symm.trans mapped))
    rw [SledProofDb.getRemote_deleteStatus, SledProofDb.getRemote_clearRemoteSubmission,
      if_neg otherOwner]
    exact mappedToo
  · simpa using tracked.known other job (SledProofDb.getRemote_clearRemoteSubmission_some isRemote).2
  · obtain ⟨different, wasRemote⟩ := SledProofDb.getRemote_clearRemoteSubmission_some isRemote
    have otherJob : job ≠ remoteId := by
      rintro rfl
      exact different (Option.some.inj ((tracked.known other job wasRemote).symm.trans isJob))
    rw [SledProofDb.getProof_deleteStatus, SledProofDb.getProof_clearRemoteSubmission,
      SledProofDb.status_deleteStatus, if_neg otherJob, SledProofDb.status_clearRemoteSubmission]
    exact tracked.kept other job wasRemote

theorem Tracked.recorded (tracked : Tracked db) (unmapped : db.getRemote id = none)
    (free : db.getLocal remoteId = none ∨ db.getLocal remoteId = some id) :
    Tracked (db.recorded id remoteId) := by
  -- the job is new for the store, so that it is mapped to no other proof
  have otherJob : ∀ other job, other ≠ id → db.getRemote other = some job → job ≠ remoteId := by
    rintro other job different mapped rfl
    have known := tracked.known other job mapped
    rcases free with new | same
    · cases new.symm.trans known
    · exact different (Option.some.inj (known.symm.trans same))
  refine ⟨fun job now isNow => ?_, fun job now isNow => ?_, fun other job mapped => ?_,
    fun other job mapped => ?_⟩
  · rw [SledProofDb.status_recorded] at isNow
    by_cases same : job = remoteId
    · rw [if_pos same] at isNow
      cases isNow
      rfl
    · rw [if_neg same] at isNow
      exact tracked.active job now isNow
  · rw [SledProofDb.status_recorded] at isNow
    rw [SledProofDb.getLocal_recorded]
    by_cases same : job = remoteId
    · rw [if_pos same]
      exact ⟨id, rfl, by rw [SledProofDb.getRemote_recorded, if_pos rfl, same]⟩
    · rw [if_neg same] at isNow ⊢
      obtain ⟨owner, isOwner, mapped⟩ := tracked.owner job now isNow
      have different : owner ≠ id := by
        rintro rfl
        cases unmapped.symm.trans mapped
      exact ⟨owner, isOwner, by rw [SledProofDb.getRemote_recorded, if_neg different]; exact mapped⟩
  · rw [SledProofDb.getRemote_recorded] at mapped
    rw [SledProofDb.getLocal_recorded]
    by_cases same : other = id
    · rw [if_pos same] at mapped
      cases mapped
      rw [if_pos rfl, same]
    · rw [if_neg same] at mapped
      rw [if_neg (otherJob other job same mapped)]
      exact tracked.known other job mapped
  · rw [SledProofDb.getRemote_recorded] at mapped
    rw [SledProofDb.getProof_recorded, SledProofDb.status_recorded]
    by_cases same : other = id
    · rw [if_pos same] at mapped
      cases mapped
      exact .inr (by rw [if_pos rfl]; rfl)
    · rw [if_neg same] at mapped
      rw [if_neg (otherJob other job same mapped)]
      exact tracked.kept other job mapped

end

/-- The proof is in the queue, or stored, or its job is in flight. -/
def Covered (state : ProverServiceState) (id : ProofId) : Prop :=
  id ∈ state.queue.pending ∨ (state.ctx.db.getProof id).isSome = true ∨
    ∃ remoteId status, state.ctx.db.getRemote id = some remoteId ∧
      state.ctx.db.status remoteId = some status ∧
      status.isActive = true

theorem Tracked.covered {state : ProverServiceState} {id : ProofId} (tracked : Tracked state.ctx.db)
    (kept : id ∈ state.queue.pending ∨ Held state.ctx.db id) : Covered state id := by
  rcases kept with queued | stored | mapped
  · exact .inl queued
  · exact .inr (.inl stored)
  · obtain ⟨remoteId, isJob⟩ := Option.isSome_iff_exists.mp mapped
    refine .inr ((tracked.kept id remoteId isJob).imp_right fun inFlight => ?_)
    obtain ⟨status, isStatus⟩ := Option.isSome_iff_exists.mp inFlight
    exact ⟨remoteId, status, isJob, isStatus, tracked.active remoteId status isStatus⟩

/-! ### Tries -/

section

variable [MerkleMountainRange] [MohoLibs] {builder : InputBuilder} {node : Node} {db after : SledProofDb}
  {id other : ProofId} {outcome : SubmitOutcome}

theorem Submission.tracked (submission : Submission builder node db id outcome after)
    (tracked : Tracked db) :
    Tracked after := by
  cases submission with
  | stored | inFlight | waits => exact tracked
  | started new unmapped ready free untracked => exact tracked.recorded unmapped free

theorem Submission.held (submission : Submission builder node db id outcome after)
    (held : Held db other) :
    Held after other := by
  cases submission with
  | stored | inFlight | waits => exact held
  | started new unmapped ready free untracked =>
    unfold Held at *
    rw [SledProofDb.getProof_recorded, SledProofDb.getRemote_recorded]
    refine held.imp_right fun mapped => ?_
    by_cases same : other = id
    · rw [if_pos same]
      rfl
    · rw [if_neg same]
      exact mapped

theorem Submission.settles (submission : Submission builder node db id outcome after)
    (settles : (⟨id, .ok outcome⟩ : Attempt).settles = true) : Held after id := by
  cases submission with
  | stored stored => exact .inl stored
  | inFlight new mapped => exact .inr mapped
  | waits => cases settles
  | started new unmapped ready free untracked =>
    refine .inr ?_
    rw [SledProofDb.getRemote_recorded, if_pos rfl]
    rfl

end

/-! ### Reconciliation -/

section

variable [MerkleMountainRange] [MohoLibs] [ProverLibs] {prover : Prover} {world : World}

/-- The remote prover says that a job failed, or delivers a receipt for it that does not verify. -/
def Rejected (prover : Prover) (world : World) (db : SledProofDb) (remoteId : RemoteProofId) : Prop :=
  ∃ typedId, ProverLibs.tryFromBytes remoteId.bytes = some typedId ∧
    ((∃ call reason, world.replies.getStatus call typedId = some (.failed reason)) ∨
      ∃ id call host receipt, db.getLocal remoteId = some id ∧
        receiptHost prover (prover.inputBuilder.verifier.expected world.node id) = .ok host ∧
        world.replies.getProof call host typedId = some receipt ∧
        prover.inputBuilder.verifier.verify receipt
          (prover.inputBuilder.verifier.expected world.node id) ≠ .ok ())

/-- What the reconciliation of a job comes to, if the store does not fail. -/
inductive Reconciled (prover : Prover) (world : World) (db : SledProofDb)
    (remoteId : RemoteProofId) : SledProofDb → Prop
  | same : Reconciled prover world db remoteId db
  | updated {status : RemoteProofStatus} (active : status.isActive = true)
      (tracked : (db.status remoteId).isSome = true) :
      Reconciled prover world db remoteId (db.setStatus remoteId status)
  | completed {id : ProofId} {receipt : Receipt} (isJob : db.getLocal remoteId = some id) :
      Reconciled prover world db remoteId ((db.storeProof receipt id).deleteStatus remoteId)
  | discarded (rejected : Rejected prover world db remoteId) :
      Reconciled prover world db remoteId (db.discarded remoteId)

def Calm (world : World) : Prop := ∀ call, world.replies.storageFails call = false

theorem Calm.read {α : Type} (calm : Calm world) (context : String) (f : SledProofDb → α)
    (ctx : ProverContext) :
    Meets (world.read context f) ctx (fun a after => a = f ctx.db ∧ after.db = ctx.db)
      fun _ _ => False :=
  (world.meets_read context f ctx).mono (fun _ _ read => read) fun _ _ stopped => by
    rw [calm] at stopped
    exact nomatch stopped.2

theorem Calm.set (calm : Calm world) (context : String) (f : SledProofDb → SledProofDb)
    (ctx : ProverContext) :
    Meets (world.write context fun db => some (f db)) ctx (fun _ after => after.db = f ctx.db)
      fun _ _ => False :=
  (world.meets_set context f ctx).mono (fun _ _ written => written) fun _ _ stopped => by
    rw [calm] at stopped
    exact nomatch stopped.2

theorem discardSubmission_meets (calm : Calm world) (remoteId : RemoteProofId) (ctx : ProverContext) :
    Meets (discardSubmission world remoteId) ctx
      (fun _ after => after.db = ctx.db.discarded remoteId) fun _ _ => False := by
  refine (calm.read _ _ ctx).bind fun found first read => ?_
  obtain ⟨isFound, same⟩ := read
  unfold SledProofDb.discarded
  rw [← isFound]
  cases found with
  | none =>
    refine (calm.set _ (fun db => db.deleteStatus remoteId) first).mono (fun _ after done => ?_)
      fun _ _ stopped => stopped
    rw [done, same]
  | some id =>
    refine (calm.set _ (fun db => db.clearRemoteSubmission id) first).bind fun _ second cleared => ?_
    refine (calm.set _ (fun db => db.deleteStatus remoteId) second).mono (fun _ after done => ?_)
      fun _ _ stopped => stopped
    rw [done, cleared, same]

theorem storeCompletedProof_meets (calm : Calm world) (id : ProofId) (receipt : Receipt)
    (ctx : ProverContext) :
    Meets (world.storeCompletedProof id receipt) ctx
      (fun _ after => after.db = ctx.db.storeProof receipt id)
      fun _ _ => False := by
  cases id with
  | asm range => exact calm.set _ (fun db => db.storeAsm range receipt) ctx
  | moho block => exact calm.set _ (fun db => db.storeMoho block receipt) ctx

/-- The store after a part of the reconciliation. The queue is left alone. -/
def Leads (prover : Prover) (world : World) (remoteId : RemoteProofId)
    (before after : ProverServiceState) : Prop :=
  Reconciled prover world before.ctx.db remoteId after.ctx.db ∧ after.queue = before.queue

theorem leads_same {remoteId : RemoteProofId} {before after : ProverServiceState}
    (sameDb : after.ctx.db = before.ctx.db) (sameQueue : after.queue = before.queue) :
    Leads prover world remoteId before after := by
  refine ⟨?_, sameQueue⟩
  rw [sameDb]
  exact .same

theorem Leads.of_same {remoteId : RemoteProofId} {before now after : ProverServiceState}
    (sameDb : now.ctx.db = before.ctx.db) (sameQueue : now.queue = before.queue)
    (leads : Leads prover world remoteId now after) :
    Leads prover world remoteId before after := by
  unfold Leads at *
  rw [← sameDb, ← sameQueue]
  exact leads

theorem discard_leads (calm : Calm world) {remoteId : RemoteProofId} {state : ProverServiceState}
    (rejected : Rejected prover world state.ctx.db remoteId) :
    Meets (onCtx (discardSubmission world remoteId)) state
      (fun _ after => Leads prover world remoteId state after)
      fun _ after => Leads prover world remoteId state after := by
  refine (discardSubmission_meets calm remoteId state.ctx).focus (fun _ ctx done => ⟨?_, rfl⟩)
    fun _ _ stopped => stopped.elim
  show Reconciled prover world state.ctx.db remoteId ctx.db
  rw [done]
  exact .discarded rejected

theorem handleCompleted_leads (calm : Calm world) {remoteId : RemoteProofId} {typedId : TypedId}
    (decoded : ProverLibs.tryFromBytes remoteId.bytes = some typedId) (state : ProverServiceState) :
    Meets (handleCompleted prover world remoteId typedId) state
      (fun _ after => Leads prover world remoteId state after)
      fun _ after => Leads prover world remoteId state after := by
  have retrieved : Meets (onCtx (retrieve prover world remoteId typedId)) state
      (fun completed after => after.ctx.db = state.ctx.db ∧ after.queue = state.queue ∧
        state.ctx.db.getLocal remoteId = some completed.1 ∧
        completed.2.1 = prover.inputBuilder.verifier.expected world.node completed.1 ∧
        ∃ call host, receiptHost prover completed.2.1 = .ok host ∧
          world.replies.getProof call host typedId = some completed.2.2)
      fun _ after => Leads prover world remoteId state after := by
    have retrieves := keeps_retrieve prover world (fun db => db = state.ctx.db) remoteId typedId
      state.ctx rfl
    refine retrieves.focus (fun completed ctx ended => ?_) fun _ ctx same => leads_same same rfl
    obtain ⟨same, ⟨_, rfl, isJob⟩, rest⟩ := ended
    exact ⟨same, rfl, isJob, rest⟩
  refine retrieved.bind ?_
  rintro ⟨id, expected, receipt⟩ first ⟨sameDb, sameQueue, isJob, isExpected, served⟩
  dsimp only at isJob isExpected served ⊢
  subst isExpected
  cases checked : prover.inputBuilder.verifier.verify receipt
      (prover.inputBuilder.verifier.expected world.node id) with
  | error error =>
    obtain ⟨call, host, selected, served⟩ := served
    have rejected : Rejected prover world first.ctx.db remoteId := by
      refine ⟨typedId, decoded, .inr ⟨id, call, host, receipt, by rw [sameDb]; exact isJob,
        selected, served, ?_⟩⟩
      rw [checked]
      exact nofun
    exact (discard_leads calm rejected).mono (fun _ _ leads => leads.of_same sameDb sameQueue)
      fun _ _ leads => leads.of_same sameDb sameQueue
  | ok _ =>
    have stores : Meets (onCtx (world.storeCompletedProof id receipt)) first
        (fun _ after => after.ctx.db = state.ctx.db.storeProof receipt id ∧ after.queue = state.queue)
        fun _ after => Leads prover world remoteId state after := by
      refine (storeCompletedProof_meets calm id receipt first.ctx).focus
        (fun _ ctx done => ⟨?_, sameQueue⟩)
        fun _ _ stopped => stopped.elim
      show ctx.db = _
      rw [done, sameDb]
    refine stores.bind fun _ second ⟨isStored, stillQueued⟩ => ?_
    have advances : Meets (modify fun state => state.advanceProven id : ServiceM PUnit) second
        (fun _ after => after.ctx.db = state.ctx.db.storeProof receipt id ∧ after.queue = state.queue)
        fun _ after => Leads prover world remoteId state after := by
      show (second.advanceProven id).ctx.db = _ ∧ (second.advanceProven id).queue = _
      rw [ProverServiceState.advanceProven_ctx, ProverServiceState.advanceProven_queue]
      exact ⟨isStored, stillQueued⟩
    refine advances.bind fun _ third ⟨isStored, stillQueued⟩ => ?_
    refine (calm.set _ (fun db => db.deleteStatus remoteId) third.ctx).focus
      (fun _ ctx done => ⟨?_, stillQueued⟩)
      fun _ _ stopped => stopped.elim
    show Reconciled prover world state.ctx.db remoteId ctx.db
    rw [done, isStored]
    exact .completed isJob

theorem reconcileOne_leads (prover : Prover) (calm : Calm world) (remoteId : RemoteProofId)
    (oldStatus : RemoteProofStatus) (state : ProverServiceState) :
    Meets (reconcileOne prover world remoteId oldStatus) state
      (fun _ after => Leads prover world remoteId state after)
      fun _ after => Leads prover world remoteId state after := by
  have polled : Meets (onCtx (pollStatus world remoteId)) state
      (fun polled after => after.ctx.db = state.ctx.db ∧ after.queue = state.queue ∧
        ProverLibs.tryFromBytes remoteId.bytes = some polled.1 ∧
        ∃ call, world.replies.getStatus call polled.1 = some polled.2)
      fun _ after => Leads prover world remoteId state after := by
    have polls := keeps_pollStatus world (fun db => db = state.ctx.db) remoteId state.ctx rfl
    exact polls.focus (fun polled ctx ended => ⟨ended.1, rfl, ended.2⟩) fun _ ctx same =>
      leads_same same rfl
  refine polled.bind ?_
  rintro ⟨typedId, newStatus⟩ first ⟨sameDb, sameQueue, decoded, call, replied⟩
  dsimp only at decoded replied ⊢
  by_cases unchanged : newStatus = oldStatus
  · rw [if_pos unchanged]
    exact leads_same sameDb sameQueue
  · rw [if_neg unchanged]
    have updates : newStatus.isActive = true →
      Meets (onCtx (world.write "failed to update proof status" fun db =>
        db.updateStatus remoteId newStatus)) first
          (fun _ after => Leads prover world remoteId state after)
        fun _ after => Leads prover world remoteId state after := by
      intro active
      refine (world.meets_write _ _ first.ctx).focus (fun _ ctx written => ⟨?_, sameQueue⟩)
        fun _ ctx stopped =>
        leads_same (stopped.1.trans sameDb) sameQueue
      show Reconciled prover world state.ctx.db remoteId ctx.db
      rw [sameDb] at written
      rw [SledProofDb.updateStatus_some written]
      exact .updated active (SledProofDb.updateStatus_tracked written)
    cases newStatus with
    | completed =>
      exact (handleCompleted_leads calm decoded first).mono
        (fun _ _ leads => leads.of_same sameDb sameQueue)
        fun _ _ leads => leads.of_same sameDb sameQueue
    | failed reason =>
      have rejected : Rejected prover world first.ctx.db remoteId :=
        ⟨typedId, decoded, .inl ⟨call, reason, replied⟩⟩
      exact (discard_leads calm rejected).mono (fun _ _ leads => leads.of_same sameDb sameQueue)
        fun _ _ leads => leads.of_same sameDb sameQueue
    | requested => exact updates rfl
    | inProgress => exact updates rfl

/-- None of the jobs of a proof is rejected. -/
def Trusted (prover : Prover) (world : World) (db : SledProofDb) (id : ProofId) : Prop :=
  ∀ remoteId, db.getLocal remoteId = some id → ¬ Rejected prover world db remoteId

/-- Where the reconciliation of some jobs leads from a store. -/
structure Safe (prover : Prover) (world : World) (db now : SledProofDb) : Prop where
  tracked : Tracked now
  jobs : ∀ remoteId, now.getLocal remoteId = db.getLocal remoteId
  held : ∀ id, Trusted prover world db id → Held db id → Held now id

variable {db now after : SledProofDb} {remoteId : RemoteProofId}

theorem Safe.rejected (safe : Safe prover world db now) (rejected : Rejected prover world now remoteId) :
    Rejected prover world db remoteId := by
  unfold Rejected at *
  rw [← safe.jobs]
  exact rejected

theorem Reconciled.status_other (reconciled : Reconciled prover world db remoteId after)
    {job : RemoteProofId} (other : job ≠ remoteId) : after.status job = db.status job := by
  cases reconciled with
  | same => rfl
  | updated active tracked => rw [SledProofDb.status_setStatus, if_neg other]
  | completed isJob => rw [SledProofDb.status_deleteStatus, if_neg other, SledProofDb.status_storeProof]
  | discarded rejected =>
    unfold SledProofDb.discarded
    split
    · rw [SledProofDb.status_deleteStatus, if_neg other, SledProofDb.status_clearRemoteSubmission]
    · rw [SledProofDb.status_deleteStatus, if_neg other]

theorem Safe.step (safe : Safe prover world db now) (inFlight : (now.status remoteId).isSome = true)
    (reconciled : Reconciled prover world now remoteId after) : Safe prover world db after := by
  cases reconciled with
  | same => exact safe
  | updated active isTracked =>
    refine ⟨safe.tracked.setStatus active isTracked, safe.jobs, fun id trusted held => ?_⟩
    simpa [Held] using safe.held id trusted held
  | @completed id receipt isJob =>
    refine ⟨safe.tracked.completed isJob, fun job => by simpa using safe.jobs job,
      fun other trusted held => ?_⟩
    have before := safe.held other trusted held
    unfold Held at *
    rw [SledProofDb.getProof_deleteStatus, SledProofDb.getProof_storeProof,
      SledProofDb.getRemote_deleteStatus, SledProofDb.getRemote_storeProof]
    by_cases same : other = id
    · rw [if_pos same]
      exact .inl rfl
    · rw [if_neg same]
      exact before
  | discarded rejected =>
    obtain ⟨owner, isJob, mapped, isDiscarded⟩ := safe.tracked.discarded_eq inFlight
    refine ⟨safe.tracked.discarded inFlight, fun job => ?_, fun other trusted held => ?_⟩
    · rw [isDiscarded]
      simpa using safe.jobs job
    · -- only the proof of the job loses it, and that proof is not trusted
      have different : other ≠ owner := by
        rintro rfl
        exact trusted remoteId (safe.jobs remoteId ▸ isJob) (safe.rejected rejected)
      have before := safe.held other trusted held
      unfold Held at *
      rw [isDiscarded, SledProofDb.getProof_deleteStatus, SledProofDb.getProof_clearRemoteSubmission,
        SledProofDb.getRemote_deleteStatus, SledProofDb.getRemote_clearRemoteSubmission,
        if_neg different]
      exact before

theorem reconcileJob_leads (calm : Calm world) (job : RemoteProofId × RemoteProofStatus)
    (state : ProverServiceState) :
    Meets (reconcileJob prover world job) state (fun _ after => Leads prover world job.1 state after)
      fun error _ => error.isTerminal = true := by
  have reconciles := reconcileOne_leads prover calm job.1 job.2 state
  unfold Meets EStateM.run reconcileJob
  cases ran : (reconcileOne prover world job.1 job.2).run state with
  | ok _ after => exact reconciles.ok ran
  | error error after =>
    by_cases terminal : error.isTerminal = true
    · simp [terminal]
    · simpa [terminal] using reconciles.error ran

/-- The loop over the jobs in flight. Each is still tracked when its turn comes, because no other
job has its id. -/
theorem reconcileJobs_safe (calm : Calm world) {jobs : List (RemoteProofId × RemoteProofStatus)}
    {state : ProverServiceState} (safe : Safe prover world db state.ctx.db)
    (distinct : (jobs.map Prod.fst).Nodup)
    (inFlight : ∀ job ∈ jobs, (state.ctx.db.status job.1).isSome = true) :
    Meets (jobs.forM (reconcileJob prover world)) state
      (fun _ after => Safe prover world db after.ctx.db ∧ after.queue = state.queue)
      fun error _ => error.isTerminal = true := by
  induction jobs generalizing state with
  | nil => exact ⟨safe, rfl⟩
  | cons job jobs ih =>
    obtain ⟨fresh, distinct⟩ := List.nodup_cons.mp distinct
    refine (reconcileJob_leads calm job state).bind fun _ next ⟨reconciled, sameQueue⟩ => ?_
    have still : ∀ other ∈ jobs, (next.ctx.db.status other.1).isSome = true := by
      intro other mem
      have different : other.1 ≠ job.1 := fun same => fresh (same ▸ List.mem_map_of_mem mem)
      rw [reconciled.status_other different]
      exact inFlight other (.tail _ mem)
    refine (ih (safe.step (inFlight job (.head _)) reconciled) distinct still).mono
      (fun _ after ended => ?_)
      fun _ _ stopped => stopped
    exact ⟨ended.1, ended.2.trans sameQueue⟩

theorem reconcileActiveProofs_safe (prover : Prover) (calm : Calm world)
    {state : ProverServiceState} (tracked : Tracked state.ctx.db) :
    Meets (reconcileActiveProofs prover world) state
      (fun _ after => Safe prover world state.ctx.db after.ctx.db ∧ after.queue = state.queue)
      fun error _ => error.isTerminal = true := by
  have reads : Meets (onCtx (world.read "failed to query in-progress proofs" fun db =>
    db.inProgress)) state
      (fun jobs after => jobs = state.ctx.db.inProgress ∧ after.ctx.db = state.ctx.db ∧
        after.queue = state.queue)
      fun error _ => error.isTerminal = true :=
    (calm.read _ _ state.ctx).focus (fun _ _ read => ⟨read.1, read.2, rfl⟩) fun _ _ stopped =>
      stopped.elim
  refine reads.bind ?_
  rintro jobs first ⟨rfl, sameDb, sameQueue⟩
  have safe : Safe prover world state.ctx.db first.ctx.db := by
    rw [sameDb]
    exact ⟨tracked, fun _ => rfl, fun _ _ held => held⟩
  have inFlight : ∀ job ∈ state.ctx.db.inProgress, (first.ctx.db.status job.1).isSome = true := by
    intro job mem
    rw [sameDb, (SledProofDb.mem_inProgress.mp mem).1]
    rfl
  refine (reconcileJobs_safe calm safe state.ctx.db.inProgress_distinct inFlight).mono
    (fun _ after ended => ?_)
    fun _ _ stopped => stopped
  exact ⟨ended.1, ended.2.trans sameQueue⟩

/-! ### The scheduling pass -/

variable [BitcoinLibs]

/-- What a scheduling pass does about the proofs of a store. -/
structure Covers (before : ProverServiceState) (pass : Pass) : Prop where
  tracked : Tracked pass.state.ctx.db
  held : ∀ id, Held before.ctx.db id → Held pass.state.ctx.db id
  queued : ∀ id ∈ before.queue.pending, id ∈ pass.state.queue.pending ∨ Held pass.state.ctx.db id
  tried : ∀ attempt ∈ pass.log, ∀ id, (attempt.proofId = id ∨ id ∈ attempt.missing) →
    id ∈ pass.state.queue.pending ∨ Held pass.state.ctx.db id

/-- The tries of a cycle keep the jobs in order and lose no proof, and what they settle is held. -/
theorem trySubmit_holds (calm : Calm world) {db : SledProofDb} (log : List Attempt)
    (ctx : ProverContext) (id : ProofId)
    (before : Tracked ctx.db ∧ (∀ id, Held db id → Held ctx.db id) ∧
      ∀ attempt ∈ log, attempt.settles = true → Held ctx.db attempt.proofId) :
    Meets (trySubmit prover world id) ctx
      (fun outcome after => Tracked after.db ∧ (∀ id, Held db id → Held after.db id) ∧
        ∀ attempt ∈ log ++ [⟨id, .ok outcome⟩], attempt.settles = true → Held after.db attempt.proofId)
      fun error after => Tracked after.db ∧ (∀ id, Held db id → Held after.db id) ∧
        ∀ attempt ∈ log ++ [⟨id, .error error⟩], attempt.settles = true →
          Held after.db attempt.proofId := by
  obtain ⟨tracked, held, settled⟩ := before
  refine (trySubmit_meets prover world id ctx).mono (fun outcome after submission => ?_)
    fun error after unchanged => ?_
  · refine ⟨submission.tracked tracked, fun other isHeld => submission.held (held other isHeld), ?_⟩
    refine List.forall_mem_append.mpr ⟨fun attempt mem settles => ?_,
      List.forall_mem_singleton.mpr submission.settles⟩
    exact submission.held (settled attempt mem settles)
  · have same : after.db = ctx.db := by
      rcases unchanged with same | ⟨call, fails⟩ | ⟨remoteId, status, isStatus, owned, unmapped⟩
      · exact same
      · rw [calm] at fails
        cases fails
      · -- a tracked job is mapped to by its proof
        obtain ⟨owner, isOwner, mapped⟩ := tracked.owner remoteId status isStatus
        rw [isOwner] at owned
        cases owned.resolve_left nofun
        cases unmapped.symm.trans mapped
    rw [same]
    exact ⟨tracked, held, List.forall_mem_append.mpr ⟨settled, List.forall_mem_singleton.mpr nofun⟩⟩

theorem scheduleProofs_covers (calm : Calm world) {fuel : Nat} {state : ProverServiceState}
    {pass : Pass} (tracked : Tracked state.ctx.db)
    (h : scheduleProofs prover world fuel state = some pass) : Covers state pass := by
  cases scheduleProofs_some h with
  | uncounted _ fails =>
    rw [calm] at fails
    cases fails
  | @full ctx same =>
    refine ⟨same ▸ tracked, fun id held => ?_, fun id queued => .inl queued,
      fun _ mem => absurd mem List.not_mem_nil⟩
    show Held ctx.db id
    rw [same]
    exact held
  | @cycled ctx capacity result done same room cycled =>
    have ended := scheduleWith_ended (trySubmit_closed prover world state.queue)
      (mem_biUnion_reach world.node state.queue) cycled
    obtain ⟨tracked, held, settled⟩ := scheduleWith_invariant
      (fun log now => Tracked now.db ∧ (∀ id, Held state.ctx.db id → Held now.db id) ∧
        ∀ attempt ∈ log, attempt.settles = true → Held now.db attempt.proofId)
      (trySubmit_holds calm)
      ⟨same ▸ tracked, fun id held => same.symm ▸ held, fun _ mem => absurd mem List.not_mem_nil⟩ cycled
    have seen : ∀ id, (id ∈ state.queue.pending ∨ ∃ attempt ∈ done.log, id ∈ attempt.missing) →
        id ∈ done.queue.pending ∨ Held done.submitter.db id := by
      intro id seen
      rcases ended.covered id seen with left | ⟨attempt, mem, rfl, settles⟩
      · exact .inl left
      · exact .inr (settled attempt mem settles)
    refine ⟨tracked, held, fun id queued => seen id (.inl queued), fun attempt mem id isTried => ?_⟩
    rcases isTried with rfl | isMissing
    · exact (ended.requeued attempt mem).symm.imp_right fun settles => settled attempt mem settles
    · exact seen id (.inr ⟨attempt, mem, isMissing⟩)

theorem scheduleProofs_returns (prover : Prover) (world : World) (state : ProverServiceState) :
    ∃ enough pass, ∀ fuel, enough ≤ fuel → scheduleProofs prover world fuel state = some pass := by
  unfold scheduleProofs
  cases (world.read "failed to query in-progress proofs" fun db => db.inProgress.length).run
      state.ctx with
  | error error ctx => exact ⟨0, _, fun _ _ => rfl⟩
  | ok inFlight ctx =>
    dsimp only
    by_cases full : prover.config.maxConcurrentProofs - inFlight = 0
    · simp only [if_pos full]
      exact ⟨0, _, fun _ _ => rfl⟩
    · simp only [if_neg full]
      obtain ⟨enough, result, done, returned⟩ :=
        scheduleWith_returns (trySubmit_closed prover world state.queue)
        (mem_biUnion_reach world.node state.queue) ctx (prover.config.maxConcurrentProofs - inFlight)
      exact ⟨enough, _, fun fuel more => by rw [returned fuel more, Option.map_some]⟩

/-! ### Runs -/

theorem tick_covers (generator : prover.config.mode = .generator) (calm : Calm world) {fuel : Nat}
    {state : ProverServiceState} {pass : Pass} (tracked : Tracked state.ctx.db)
    (h : tick prover world fuel state = some pass)
    (alive : ∀ error, pass.result = .error error → error.isTerminal = false) :
    ∃ reconciled, Safe prover world state.ctx.db reconciled.ctx.db ∧ reconciled.queue = state.queue ∧
      Covers reconciled pass := by
  have reconciles := reconcileActiveProofs_safe prover calm tracked
  cases tick_some h with
  | @stopped error after ran =>
    have going := alive error rfl
    rw [reconciles.error ran] at going
    cases going
  | @scheduled after _ ran ended =>
    obtain ⟨safe, sameQueue⟩ := reconciles.ok ran
    exact ⟨after, safe, sameQueue, scheduleProofs_covers calm safe.tracked ended⟩
  | followed follower =>
    rw [generator] at follower
    cases follower

variable {node : Node}

theorem processInput_covers (generator : prover.config.mode = .generator) {fuel : Nat}
    {state : ProverServiceState} {message : ProverMessage} {pass : Pass}
    (tracked : Tracked state.ctx.db)
    (calm : ∀ replies, message = .tick replies → Calm ⟨node, replies⟩)
    (h : processInput prover node fuel state message = some pass) (ok : pass.result = .ok ()) :
    Tracked pass.state.ctx.db ∧
    (∀ id, (∀ replies, message = .tick replies → Trusted prover ⟨node, replies⟩ state.ctx.db id) →
      id ∈ state.queue.pending ∨ Held state.ctx.db id → id ∈ pass.state.queue.pending ∨
        Held pass.state.ctx.db id) ∧
    ∀ attempt ∈ pass.log, ∀ id, (attempt.proofId = id ∨ id ∈ attempt.missing) →
      id ∈ pass.state.queue.pending ∨ Held pass.state.ctx.db id := by
  cases message with
  | block block =>
    cases h
    refine ⟨tracked, fun id _ before => before.imp_left fun queued => ?_,
      fun _ mem => absurd mem List.not_mem_nil⟩
    simp [ProverServiceState.enqueueBlockProofs, queued]
  | tick replies =>
    obtain ⟨ticked, ran, rfl⟩ := Option.map_eq_some_iff.mp h
    rw [Pass.swallow_state, Pass.swallow_log]
    obtain ⟨reconciled, safe, sameQueue, covers⟩ := tick_covers generator (calm replies rfl) tracked ran
      fun error failed => Pass.swallow_ok ok failed
    refine ⟨covers.tracked, fun id trusted before => ?_, covers.tried⟩
    rcases before with queued | held
    · exact covers.queued id (sameQueue ▸ queued)
    · exact .inr (covers.held id (safe.held id (trusted replies rfl) held))

theorem processInput_returns (generator : prover.config.mode = .generator) (state : ProverServiceState)
    (message : ProverMessage) :
    ∃ enough pass, ∀ fuel, enough ≤ fuel → processInput prover node fuel state message = some pass := by
  cases message with
  | block block => exact ⟨0, _, fun _ _ => rfl⟩
  | tick replies =>
    suffices ∃ enough pass, ∀ fuel, enough ≤ fuel → tick prover ⟨node, replies⟩ fuel state = some pass by
      obtain ⟨enough, pass, ticks⟩ := this
      exact ⟨enough, pass.swallow, fun fuel more => congrArg (Option.map Pass.swallow) (ticks fuel more)⟩
    unfold tick
    cases (reconcileActiveProofs prover ⟨node, replies⟩).run state with
    | error error after => exact ⟨0, _, fun _ _ => rfl⟩
    | ok _ after =>
      rw [generator]
      exact scheduleProofs_returns prover ⟨node, replies⟩ after

/-- The proof was in the queue at some time of the run, or was put there in the course of a pass. -/
def EverQueued (start : ProverServiceState) (steps : List Served) (id : ProofId) : Prop :=
  id ∈ start.queue.pending ∨ ∃ step ∈ steps, id ∈ step.pass.state.queue.pending ∨
    ∃ attempt ∈ step.pass.log, attempt.proofId = id ∨ id ∈ attempt.missing

/-- In a run whose store does not fail, the proofs that were queued and none of whose jobs is
rejected are kept. -/
theorem serves_kept (generator : prover.config.mode = .generator) {start state : ProverServiceState}
    {steps : List Served} (tracked : Tracked start.ctx.db) (run : Serves prover node start steps state)
    (alive : ∀ step ∈ steps, step.pass.result = .ok ())
    (calm : ∀ step ∈ steps, ∀ replies, step.message = .tick replies → Calm ⟨node, replies⟩) :
    Tracked state.ctx.db ∧ ∀ id, EverQueued start steps id →
      (∀ step ∈ steps, ∀ replies, step.message = .tick replies →
        Trusted prover ⟨node, replies⟩ step.before.ctx.db id) →
      id ∈ state.queue.pending ∨ Held state.ctx.db id := by
  induction run with
  | start =>
    refine ⟨tracked, fun id queued _ => .inl (queued.resolve_right ?_)⟩
    rintro ⟨_, mem, -⟩
    cases mem
  | @serve steps state message fuel pass before _ processed ih =>
    obtain ⟨aliveBefore, aliveNow⟩ := List.forall_mem_append.mp alive
    obtain ⟨calmBefore, calmNow⟩ := List.forall_mem_append.mp calm
    obtain ⟨trackedBefore, kept⟩ := ih aliveBefore calmBefore
    have ok : pass.result = .ok () := aliveNow _ (List.mem_singleton_self _)
    obtain ⟨trackedNow, keeps, tries⟩ := processInput_covers generator trackedBefore
      (calmNow _ (List.mem_singleton_self _)) processed ok
    refine ⟨trackedNow, fun id queued trusted => ?_⟩
    obtain ⟨trustedBefore, trustedNow⟩ := List.forall_mem_append.mp trusted
    have earlier : EverQueued start steps id → id ∈ pass.state.queue.pending ∨
        Held pass.state.ctx.db id :=
      fun seen => keeps id (trustedNow _ (List.mem_singleton_self _)) (kept id seen trustedBefore)
    rcases queued with atStart | ⟨step, mem, seen⟩
    · exact earlier (.inl atStart)
    · rcases List.mem_append.mp mem with old | new
      · exact earlier (.inr ⟨step, old, seen⟩)
      · cases List.mem_singleton.mp new
        rcases seen with queued | ⟨attempt, inLog, isTried⟩
        · exact .inl queued
        · exact tries attempt inLog id isTried

/-! ### A generator without work -/

theorem scheduleProofs_idle {fuel : Nat} {state : ProverServiceState} {pass : Pass}
    (empty : state.queue.pending = ∅) (h : scheduleProofs prover world fuel state = some pass) :
    pass.state.ctx.db = state.ctx.db ∧ pass.state.queue = state.queue := by
  cases scheduleProofs_some h with
  | uncounted same _ => exact ⟨same, rfl⟩
  | full same => exact ⟨same, rfl⟩
  | @cycled ctx capacity result done same room cycled =>
    have none : ∀ attempt ∈ done.log, False := by
      refine scheduleWith_tried (fun _ => False) (fun id queued => ?_) cycled fun _ _ absurd =>
        absurd.elim
      rw [empty] at queued
      cases queued
    have noLog : done.log = [] := List.eq_nil_iff_forall_not_mem.mpr none
    have ended := scheduleWith_ended (trySubmit_closed prover world state.queue)
      (mem_biUnion_reach world.node state.queue) cycled
    refine ⟨?_, ?_⟩
    · refine scheduleWith_invariant (fun log now => log = [] → now.db = state.ctx.db) ?_ (fun _ => same)
        cycled noLog
      intro log now id _
      refine .intro (fun outcome after _ absurd => ?_) fun error after _ absurd => ?_
      · simp at absurd
      · simp at absurd
    · have isOk : result = .ok () := by
        rcases ended.stopped with ⟨isOk, -⟩ | ⟨earlier, id, error, isLog, -⟩
        · exact isOk
        · rw [noLog] at isLog
          simp at isLog
      have left : done.capacity ≠ 0 := by
        have spent := ended.spent
        rw [noLog, List.countP_nil] at spent
        omega
      have drained : done.queue.pending = ∅ := by
        refine Finset.eq_empty_of_forall_notMem fun id queued => ?_
        obtain ⟨attempt, mem, -⟩ := ended.drained isOk left id queued
        exact none attempt mem
      exact congrArg PendingProofQueue.mk (drained.trans empty.symm)

theorem processInput_idle (generator : prover.config.mode = .generator) {fuel : Nat}
    {state : ProverServiceState} {replies : Replies} {pass : Pass}
    (noJobs : state.ctx.db.inProgress = []) (empty : state.queue.pending = ∅)
    (h : processInput prover node fuel state (.tick replies) = some pass) :
    pass.state.ctx.db = state.ctx.db ∧ pass.state.queue = state.queue := by
  obtain ⟨ticked, ran, rfl⟩ := Option.map_eq_some_iff.mp h
  rw [Pass.swallow_state]
  have reconciles : Meets (reconcileActiveProofs prover ⟨node, replies⟩) state
      (fun _ after => after.ctx.db = state.ctx.db ∧ after.queue = state.queue)
      fun _ after => after.ctx.db = state.ctx.db ∧ after.queue = state.queue := by
    have reads : Meets (onCtx (World.read ⟨node, replies⟩ "failed to query in-progress proofs"
      fun db => db.inProgress))
        state (fun jobs after => jobs = [] ∧ after.ctx.db = state.ctx.db ∧ after.queue = state.queue)
        fun _ after => after.ctx.db = state.ctx.db ∧ after.queue = state.queue :=
      (World.meets_read ⟨node, replies⟩ _ _ state.ctx).focus
        (fun _ _ read => ⟨read.1.trans noJobs, read.2, rfl⟩) fun _ _ stopped => ⟨stopped.1, rfl⟩
    refine reads.bind ?_
    rintro jobs first ⟨rfl, same⟩
    exact same
  cases tick_some ran with
  | stopped reconciled => exact reconciles.error reconciled
  | scheduled reconciled ended =>
    obtain ⟨sameDb, sameQueue⟩ := reconciles.ok reconciled
    obtain ⟨stillDb, stillQueue⟩ := scheduleProofs_idle (sameQueue ▸ empty) ended
    exact ⟨stillDb.trans sameDb, stillQueue.trans sameQueue⟩
  | followed follower =>
    rw [generator] at follower
    cases follower

/-- Without jobs and with an empty queue, ticks change nothing, whatever the replies. -/
theorem serveAll_idle (generator : prover.config.mode = .generator) {fuel : Nat}
    {state last : ProverServiceState} {messages : List ProverMessage} {steps : List Served}
    (ticks : ∀ message ∈ messages, ∃ replies, message = .tick replies)
    (noJobs : state.ctx.db.inProgress = []) (empty : state.queue.pending = ∅)
    (h : serveAll prover node fuel state messages = some (steps, last)) :
    last.ctx.db = state.ctx.db ∧ last.queue = state.queue := by
  induction messages generalizing state steps with
  | nil =>
    cases h
    exact ⟨rfl, rfl⟩
  | cons message messages ih =>
    obtain ⟨pass, processed, h⟩ := Option.bind_eq_some_iff.mp h
    obtain ⟨replies, rfl⟩ := ticks message (.head _)
    obtain ⟨sameDb, sameQueue⟩ := processInput_idle generator noJobs empty processed
    split at h
    · cases h
    · obtain ⟨⟨later, ended⟩, rest, h⟩ := Option.bind_eq_some_iff.mp h
      cases h
      obtain ⟨stillDb, stillQueue⟩ := ih (fun message mem => ticks message (.tail _ mem))
        (sameDb ▸ noJobs) (sameQueue ▸ empty) rest
      exact ⟨stillDb.trans sameDb, stillQueue.trans sameQueue⟩

/-! ### What is kept -/

/-- A generator loses no proof whose jobs are not rejected, and it is never stuck in a pass. -/
theorem obligations_kept {prover : Prover} (generator : prover.config.mode = .generator)
    {db : SledProofDb} (tracked : Tracked db) {latest : Option L1BlockCommitment}
    {steps : List Served} {state : ProverServiceState}
    (run : Serves prover node (.new prover db latest) steps state)
    (alive : ∀ step ∈ steps, step.pass.result = .ok ())
    (calm : ∀ step ∈ steps, ∀ replies, step.message = .tick replies →
      ∀ call, replies.storageFails call = false) :
    (∀ message, ∃ enough pass, ∀ fuel, enough ≤ fuel →
      processInput prover node fuel state message = some pass) ∧
    ∀ id, EverQueued (.new prover db latest) steps id →
      (∀ step ∈ steps, ∀ replies, step.message = .tick replies →
        Trusted prover ⟨node, replies⟩ step.before.ctx.db id) →
      Covered state id := by
  obtain ⟨trackedNow, kept⟩ := serves_kept generator tracked run alive calm
  exact ⟨processInput_returns generator state,
    fun id queued trusted => trackedNow.covered (kept id queued trusted)⟩

end

/-! ### A recursion that is proven and one that fails -/

section

attribute [local instance] sampleProverMmr sampleBitcoinLibs sampleProverMoho sampleProverLibs

theorem sampleReplies_trusted {status : RemoteProofStatus}
    (notFailed : ∀ reason, status ≠ .failed reason) (db : SledProofDb) :
    Trusted sampleProver ⟨sampleNode, sampleReplies status⟩ db (.moho (sampleAt 1)) := by
  have good : sampleProver.inputBuilder.verifier.verify (sampleRecursiveReceipt 1)
      (sampleProver.inputBuilder.verifier.expected sampleNode (.moho (sampleAt 1))) = .ok () := by
    decide +kernel
  rintro remoteId isJob ⟨typedId, -, ⟨call, reason, failed⟩ |
    ⟨id, call, host, receipt, isOwner, selected, served, wrong⟩⟩
  · exact notFailed reason (Option.some.inj failed)
  · cases isJob.symm.trans isOwner
    cases selected
    cases served
    exact wrong good

theorem obligations_kept_sample :
    EverQueued (.new sampleProver .empty none) sampleProven.1 (.moho (sampleAt 1)) ∧
    Covered sampleProven.2 (.moho (sampleAt 1)) := by
  obtain ⟨run, alive⟩ := sampleServe_serves sampleProven_eq
  have ticks : ∀ step ∈ sampleProven.1, ∀ replies, step.message = .tick replies →
      replies = sampleReplies .requested ∨ replies = sampleReplies .completed := by
    intro step mem replies isTick
    have sent := sampleServe_messages sampleProven_eq mem
    simpa [isTick, sampleMessages] using sent
  have queued : ∃ step ∈ sampleProven.1, ProofId.moho (sampleAt 1) ∈ step.pass.state.queue.pending := by
    decide +kernel
  obtain ⟨step, mem, isQueued⟩ := queued
  have everQueued : EverQueued (.new sampleProver .empty none) sampleProven.1 (.moho (sampleAt 1)) :=
    .inr ⟨step, mem, .inl isQueued⟩
  have calm : ∀ step ∈ sampleProven.1, ∀ replies, step.message = .tick replies →
      ∀ call, replies.storageFails call = false := by
    intro step mem replies isTick call
    rcases ticks step mem replies isTick with rfl | rfl <;> rfl
  refine ⟨everQueued, (obligations_kept rfl tracked_empty run alive calm).2 _ everQueued ?_⟩
  intro step mem replies isTick
  rcases ticks step mem replies isTick with rfl | rfl
  · exact sampleReplies_trusted (fun _ failed => by cases failed) _
  · exact sampleReplies_trusted (fun _ failed => by cases failed) _

/-- The step of the first block is proven, and then the job of its recursion fails. -/
def sampleFailing : List ProverMessage :=
  [.block (sampleAt 1), .tick (sampleReplies .requested), .tick (sampleReplies .completed),
    .tick (sampleReplies (.failed "out of memory"))]

@[irreducible] def sampleFailed :
    List Served × ProverServiceState := (sampleServe sampleFailing).get (by decide +kernel)

theorem sampleFailed_eq : sampleServe sampleFailing = some sampleFailed := by
  unfold sampleFailed
  exact (Option.some_get _).symm

theorem obligations_lost :
    Serves sampleProver sampleNode (.new sampleProver .empty none) sampleFailed.1 sampleFailed.2 ∧
    (∀ step ∈ sampleFailed.1, step.pass.result = .ok ()) ∧
    (∀ step ∈ sampleFailed.1, ∀ replies, step.message = .tick replies →
      (∀ call, replies.storageFails call = false) ∧
        ∀ call host input, replies.startProving call host input = some call) ∧
    EverQueued (.new sampleProver .empty none) sampleFailed.1 (.moho (sampleAt 1)) ∧
    ∀ fuel ticks more last, (∀ message ∈ ticks, ∃ replies, message = .tick replies) →
      serveAll sampleProver sampleNode fuel sampleFailed.2 ticks = some (more, last) →
      ¬ Covered last (.moho (sampleAt 1)) := by
  obtain ⟨run, alive⟩ := sampleServe_serves sampleFailed_eq
  refine ⟨run, alive, fun step mem replies isTick => ?_, ?_,
    fun fuel ticks more last onlyTicks served covered => ?_⟩
  · have sent := sampleServe_messages sampleFailed_eq mem
    simp only [isTick, sampleFailing, List.mem_cons, ProverMessage.tick.injEq, reduceCtorEq,
      false_or, List.not_mem_nil, or_false] at sent
    rcases sent with rfl | rfl | rfl <;> exact ⟨fun _ => rfl, fun _ _ _ => rfl⟩
  · have queued : ∃ step ∈ sampleFailed.1,
      ProofId.moho (sampleAt 1) ∈ step.pass.state.queue.pending := by
      decide +kernel
    obtain ⟨step, mem, isQueued⟩ := queued
    exact .inr ⟨step, mem, .inl isQueued⟩
  · have noJobs : sampleFailed.2.ctx.db.inProgress = [] := by decide +kernel
    have empty : sampleFailed.2.queue.pending = ∅ := by decide +kernel
    have new : sampleFailed.2.ctx.db.getProof (.moho (sampleAt 1)) = none := by decide +kernel
    have unmapped : sampleFailed.2.ctx.db.getRemote (.moho (sampleAt 1)) = none := by decide +kernel
    obtain ⟨sameDb, sameQueue⟩ := serveAll_idle rfl onlyTicks noJobs empty served
    rw [Covered, sameDb, sameQueue, empty, new, unmapped] at covered
    rcases covered with queued | stored | ⟨_, _, mapped, -⟩
    · cases queued
    · cases stored
    · cases mapped

end

end Asm
