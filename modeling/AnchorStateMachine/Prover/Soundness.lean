import AnchorStateMachine.Btc.Binding
import AnchorStateMachine.Prover.Service

/-! Proofs come from a remote prover and from a peer, and neither is trusted. What is stored has
passed the check against the states of the node, so that the proofs that a recursion is built from
fit together. -/

namespace Asm
open Effect

section

variable [MerkleMountainRange] [MohoLibs] [ProverLibs] {prover : Prover} {world : World}
  {inv : SledProofDb → Prop}

/-! ### What a tick keeps of the store

Only proofs that passed the check are stored, on both ways in. All else that is written are the
records of jobs. -/

/-- A property of the stored proofs. -/
structure IgnoresJobs (inv : SledProofDb → Prop) : Prop where
  other : ∀ db after, after.asmProofs = db.asmProofs → after.mohoProofs = db.mohoProofs →
    inv db → inv after

namespace IgnoresJobs

variable (ignoresJobs : IgnoresJobs inv)

include ignoresJobs

theorem keeps_record (context : String) {f : SledProofDb → Option SledProofDb}
    (records : ∀ db after, f db = some after → after.asmProofs = db.asmProofs ∧
      after.mohoProofs = db.mohoProofs) :
    Keeps (fun ctx => inv ctx.db) (world.write context f) fun _ => True := by
  apply world.keeps_write
  intro db after start written
  obtain ⟨asm, moho⟩ := records db after written
  exact ignoresJobs.other db after asm moho start

/-- The records of a job are inserted and removed without a condition. -/
theorem keeps_set (context : String) (f : SledProofDb → SledProofDb)
    (records : ∀ db, (f db).asmProofs = db.asmProofs ∧ (f db).mohoProofs = db.mohoProofs) :
    Keeps (fun ctx => inv ctx.db) (world.write context fun db => some (f db)) fun _ => True := by
  apply ignoresJobs.keeps_record
  intro db after written
  cases written
  exact records db

theorem keeps_putRemoteProofId (id : ProofId) (remoteId : RemoteProofId) :
    Keeps (fun ctx => inv ctx.db) (world.putRemoteProofId id remoteId) fun _ => True := by
  apply (ignoresJobs.keeps_record _ ?_).bind
  · intro _ _
    apply (ignoresJobs.keeps_set _ (fun db => db.insertProofToRemote id remoteId) fun _ =>
      ⟨rfl, rfl⟩).bind
    intro _ _
    exact ignoresJobs.keeps_set _ (fun db => db.insertRemoteToProof id remoteId) fun _ => ⟨rfl, rfl⟩
  · intro db after checked
    obtain ⟨rfl, -⟩ := SledProofDb.checkRemoteId_some checked
    exact ⟨rfl, rfl⟩

theorem keeps_recordSubmission (id : ProofId) (typedId : TypedId) :
    Keeps (fun ctx => inv ctx.db) (recordSubmission world id typedId) fun _ => True := by
  apply (ignoresJobs.keeps_putRemoteProofId id _).bind
  intro _ _
  apply (ignoresJobs.keeps_record _ ?_).bind
  · exact fun _ _ => keeps_pure trivial
  · intro db after put
    obtain ⟨rfl, -⟩ := SledProofDb.putStatus_some put
    exact ⟨rfl, rfl⟩

theorem keeps_discardSubmission (remoteId : RemoteProofId) :
    Keeps (fun ctx => inv ctx.db) (discardSubmission world remoteId) fun _ => True := by
  have untracked : Keeps (fun ctx => inv ctx.db) (world.write "failed to remove proof status" fun db =>
      some (db.deleteStatus remoteId)) fun _ => True :=
    ignoresJobs.keeps_set _ (fun db => db.deleteStatus remoteId) fun _ => ⟨rfl, rfl⟩
  refine (world.keeps_read _ _).bind fun found _ => ?_
  cases found with
  | none => exact untracked
  | some id =>
    apply (ignoresJobs.keeps_set _ (fun db => db.clearRemoteSubmission id) fun _ => ⟨rfl, rfl⟩).bind
    intro _ _
    exact untracked

end IgnoresJobs

/-- What the storing of a checked proof keeps too. -/
structure OfProofs (verifier : ProofVerifier) (node : Node) (inv : SledProofDb → Prop) : Prop extends
    IgnoresJobs inv where
  stored : ∀ db id receipt, inv db → verifier.verify receipt (verifier.expected node id) = .ok () →
    inv (db.storeProof receipt id)

namespace OfProofs

variable (ofProofs : OfProofs prover.inputBuilder.verifier world.node inv)

include ofProofs

theorem keeps_handleCompleted (remoteId : RemoteProofId) (typedId : TypedId) :
    Keeps (fun state => inv state.ctx.db) (handleCompleted prover world remoteId typedId)
      fun _ => True := by
  refine ((keeps_retrieve prover world inv remoteId typedId).focus fun _ _ => rfl).bind ?_
  rintro ⟨id, expected, receipt⟩ ⟨-, isExpected, -⟩
  dsimp only at isExpected ⊢
  subst isExpected
  cases checked : prover.inputBuilder.verifier.verify receipt
      (prover.inputBuilder.verifier.expected world.node id) with
  | error error => exact (ofProofs.toIgnoresJobs.keeps_discardSubmission remoteId).focus fun _ _ => rfl
  | ok _ =>
    refine ((world.keeps_storeCompletedProof fun db start => ofProofs.stored db id receipt start
      checked).focus
      fun _ _ => rfl).bind fun _ _ => ?_
    have advanced : Keeps (fun state => inv state.ctx.db)
        (modify fun state => state.advanceProven id : ServiceM PUnit) fun _ => True := by
      refine keeps_modify (fun state start => ?_) trivial
      rw [ProverServiceState.advanceProven_ctx]
      exact start
    refine advanced.bind fun _ _ => ?_
    exact (ofProofs.toIgnoresJobs.keeps_set _ (fun db => db.deleteStatus remoteId) fun _ =>
      ⟨rfl, rfl⟩).focus fun _ _ => rfl

theorem keeps_reconcileOne (remoteId : RemoteProofId) (oldStatus : RemoteProofStatus) :
    Keeps (fun state => inv state.ctx.db) (reconcileOne prover world remoteId oldStatus)
      fun _ => True := by
  refine ((keeps_pollStatus world inv remoteId).focus fun _ _ => rfl).bind ?_
  rintro ⟨typedId, newStatus⟩ _
  dsimp only
  by_cases same : newStatus = oldStatus
  · rw [if_pos same]
    exact keeps_pure trivial
  · rw [if_neg same]
    have updated : Keeps (fun ctx => inv ctx.db) (world.write "failed to update proof status" fun db =>
        db.updateStatus remoteId newStatus) fun _ => True := by
      apply ofProofs.toIgnoresJobs.keeps_record
      intro db after updated
      cases SledProofDb.updateStatus_some updated
      exact ⟨rfl, rfl⟩
    cases newStatus with
    | completed => exact ofProofs.keeps_handleCompleted remoteId typedId
    | failed reason =>
      exact (ofProofs.toIgnoresJobs.keeps_discardSubmission remoteId).focus fun _ _ => rfl
    | requested => exact updated.focus fun _ _ => rfl
    | inProgress => exact updated.focus fun _ _ => rfl

theorem keeps_reconcileActiveProofs :
    Keeps (fun state => inv state.ctx.db) (reconcileActiveProofs prover world) fun _ => True := by
  refine ((world.keeps_read _ _).focus fun _ _ => rfl).bind fun inProgress _ => keeps_forM
    fun job _ => ?_
  intro state start
  have ended := ofProofs.keeps_reconcileOne job.1 job.2 state start
  unfold Meets EStateM.run reconcileJob
  cases ran : (reconcileOne prover world job.1 job.2).run state with
  | ok _ after => exact ⟨(ended.ok ran).1, trivial⟩
  | error error after =>
    by_cases terminal : error.isTerminal = true
    · simpa [terminal] using ended.error ran
    · simpa [terminal] using ended.error ran

theorem keeps_tryFetch (id : ProofId) :
    Keeps (fun fetcher => inv fetcher.ctx.db) (tryFetch prover world id) fun _ => True := by
  refine ((world.keeps_proofExists id).focus fun _ _ => rfl).bind fun stored _ => ?_
  cases stored with
  | true => exact keeps_pure trivial
  | false =>
    refine ((keeps_peerProof world id).focus fun _ _ => rfl).bind fun served _ => ?_
    cases served with
    | none => exact keeps_pure trivial
    | some receipt =>
      refine ((ProofVerifier.keeps_expectedAttestation world _ id).focus fun _ _ => rfl).bind ?_
      rintro expected rfl
      cases checked : prover.inputBuilder.verifier.verify receipt
          (prover.inputBuilder.verifier.expected world.node id) with
      | error error => exact keeps_pure trivial
      | ok _ =>
        refine ((world.keeps_storeCompletedProof fun db start => ofProofs.stored db id receipt start
          checked).focus
          fun _ _ => rfl).bind fun _ _ => ?_
        exact Keeps.bind (keeps_modify (fun _ start => start) trivial) fun _ (_ : True) =>
          keeps_pure trivial

end OfProofs

section

variable [BitcoinLibs]

namespace IgnoresJobs

variable (ignoresJobs : IgnoresJobs inv)

include ignoresJobs

theorem keeps_submit (id : ProofId) :
    Keeps (fun ctx => inv ctx.db) (submit prover world id) fun _ => True := by
  cases id with
  | asm range =>
    refine (InputBuilder.keeps_buildAsmRuntimeInput world inv range).bind fun input _ => ?_
    refine (keeps_lift fun _ _ => trivial).bind fun program _ => ?_
    exact (program.keeps_startProving world inv input).bind fun typedId _ =>
      ignoresJobs.keeps_recordSubmission _ typedId
  | moho block =>
    refine (InputBuilder.keeps_buildMohoRuntimeInput world _ inv block).bind fun input _ => ?_
    cases input with
    | missingPrerequisites missing => exact keeps_pure trivial
    | ready input =>
      exact (keeps_startProving world inv _ _).bind fun typedId _ =>
        ignoresJobs.keeps_recordSubmission _ typedId

theorem keeps_trySubmit (id : ProofId) :
    Keeps (fun ctx => inv ctx.db) (trySubmit prover world id) fun _ => True := by
  refine (world.keeps_proofExists id).bind fun stored _ => ?_
  cases stored with
  | true => exact keeps_pure trivial
  | false =>
    refine (world.keeps_read _ _).bind fun remoteId _ => ?_
    cases remoteId with
    | none => exact ignoresJobs.keeps_submit id
    | some remoteId => exact keeps_pure trivial

/-- A scheduling pass stores no proofs. -/
theorem keeps_scheduleProofs {fuel : Nat} {state : ProverServiceState} {pass : Pass}
    (start : inv state.ctx.db) (h : scheduleProofs prover world fuel state = some pass) :
    inv pass.state.ctx.db := by
  cases scheduleProofs_some h with
  | uncounted same _ => exact same.symm ▸ start
  | full same => exact same.symm ▸ start
  | cycled same _ ended =>
    exact scheduleWith_keeps (fun ctx => inv ctx.db) ignoresJobs.keeps_trySubmit
      (same.symm ▸ start) ended

end IgnoresJobs

namespace OfProofs

variable {node : Node} (ofProofs : OfProofs prover.inputBuilder.verifier node inv)

include ofProofs

theorem keeps_followProofs {replies : Replies} {fuel : Nat} {state : ProverServiceState} {pass : Pass}
    (start : inv state.ctx.db) (h : followProofs prover ⟨node, replies⟩ fuel state = some pass) :
    inv pass.state.ctx.db := by
  unfold followProofs at h
  split at h
  · cases h
    exact start
  · split at h
    · cases h
      exact start
    · dsimp only at h
      split at h
      · obtain ⟨ended, fetched, rfl⟩ := Option.map_eq_some_iff.mp h
        rw [afterFetch_ctx]
        exact fetchWith_keeps (fun fetcher => inv fetcher.ctx.db) ofProofs.keeps_tryFetch start fetched
      · rename_i health _ _ _ _
        have probed : inv (probe ⟨node, replies⟩ state health).2.ctx.db := start
        exact ofProofs.toIgnoresJobs.keeps_scheduleProofs probed h
      · cases h
        exact start

theorem keeps_tick {replies : Replies} {fuel : Nat} {state : ProverServiceState} {pass : Pass}
    (start : inv state.ctx.db) (h : tick prover ⟨node, replies⟩ fuel state = some pass) :
    inv pass.state.ctx.db := by
  have reconciles : Keeps (fun state => inv state.ctx.db)
      (reconcileActiveProofs prover ⟨node, replies⟩) fun _ => True :=
    OfProofs.keeps_reconcileActiveProofs ofProofs
  have reconciled := reconciles state start
  cases tick_some h with
  | stopped ran => exact reconciled.error ran
  | scheduled ran ended => exact ofProofs.toIgnoresJobs.keeps_scheduleProofs (reconciled.ok ran).1 ended
  | followed _ ran ended => exact ofProofs.keeps_followProofs (reconciled.ok ran).1 ended

theorem keeps_processInput {fuel : Nat} {state : ProverServiceState} {message : ProverMessage}
    {pass : Pass} (start : inv state.ctx.db)
    (h : processInput prover node fuel state message = some pass) :
    inv pass.state.ctx.db := by
  cases message with
  | block block =>
    cases h
    exact start
  | tick replies =>
    obtain ⟨ticked, ran, rfl⟩ := Option.map_eq_some_iff.mp h
    rw [Pass.swallow_state]
    exact ofProofs.keeps_tick start ran

/-- What holds of the store at the start holds after every run. -/
theorem keeps_serves {begin state : ProverServiceState} {steps : List Served} (start : inv begin.ctx.db)
    (run : Serves prover node begin steps state) : inv state.ctx.db := by
  induction run with
  | start => exact start
  | serve before alive processed ih => exact ofProofs.keeps_processInput ih processed

end OfProofs

end

/-! ### What is stored -/

/-- Every proof in the store passes the check against the states of the node. -/
def Sound (verifier : ProofVerifier) (node : Node) (db : SledProofDb) : Prop :=
  ∀ id receipt, db.getProof id = some receipt →
    verifier.verify receipt (verifier.expected node id) = .ok ()

theorem sound_ofProofs (verifier : ProofVerifier) (node : Node) :
    OfProofs verifier node (Sound verifier node) where
  other db after asm moho sound id receipt found :=
    sound id receipt (SledProofDb.getProof_congr asm moho id ▸ found)
  stored db id receipt sound checked other found := by
    intro isStored
    rw [SledProofDb.getProof_storeProof] at isStored
    by_cases same : other = id
    · rw [if_pos same] at isStored
      cases isStored
      exact same ▸ checked
    · rw [if_neg same] at isStored
      exact sound other found isStored

theorem sound_empty {verifier : ProofVerifier} {node : Node} {db : SledProofDb}
    (noAsm : db.asmProofs = .empty) (noMoho : db.mohoProofs = .empty) : Sound verifier node db := by
  intro id receipt found
  have nothing : db.getProof id = SledProofDb.empty.getProof id :=
    SledProofDb.getProof_congr noAsm noMoho id
  rw [nothing] at found
  cases id <;> cases found

/-- The endpoint of a block in the states of the node. -/
def Node.endpoint (node : Node) (block : L1BlockCommitment) : StateRefAttestation :=
  attestation block (node.mohoState block)

variable {builder : InputBuilder} {node : Node} {db : SledProofDb}

theorem Sound.step (sound : Sound builder.verifier node db) {range : L1Range} {receipt : Receipt}
    (found : db.getAsm range = some receipt) :
    ProverLibs.verifyClaimWitness (node.mohoState (node.parent range.last)).nextPredicate
      receipt.publicValues
        receipt.proof = true ∧
      ProverLibs.decodeStepAttestation receipt.publicValues =
        some ⟨node.endpoint (node.parent range.last), node.endpoint range.last⟩ :=
  builder.verifier.verify_step_iff.mp (sound (.asm range) receipt found)

theorem Sound.recursive (sound : Sound builder.verifier node db) {block : L1BlockCommitment}
    {receipt : Receipt} (found : db.getMoho block = some receipt) :
    ProverLibs.verifyClaimWitness builder.mohoPredicate receipt.publicValues receipt.proof = true ∧
      ProverLibs.decodeRecursiveOutput receipt.publicValues =
        some ⟨⟨node.endpoint builder.genesis, node.endpoint block⟩, builder.mohoPredicate⟩ :=
  builder.verifier.verify_recursive_iff.mp (sound (.moho block) receipt found)

/-! ### What a recursion is built from -/

variable [BitcoinLibs]

/-- The parts of a recursion input fit together. The step starts where the previous proof ended, and
the predicate that the step proof satisfies is shown to be a part of the state that the step starts
from. -/
structure InputBuilder.Fits (builder : InputBuilder) (node : Node) (db : SledProofDb)
    (block : L1BlockCommitment) (input : MohoRecursiveInput) : Prop where
  origin : input.incrementalStepProof.attestation.origin = node.endpoint (node.parent block)
  previous : (node.parent block = builder.genesis ∧ input.prevMohoProof = none ∧
      input.incrementalStepProof.attestation.origin = node.endpoint builder.genesis) ∨
    (node.parent block ≠ builder.genesis ∧ ∃ prev, input.prevMohoProof = some prev ∧
      prev.attestation.proven = input.incrementalStepProof.attestation.origin)
  verified : ∃ receipt, db.getAsm (.single block) = some receipt ∧
    input.incrementalStepProof.proof = receipt.proof ∧
    ProverLibs.decodeStepAttestation receipt.publicValues = some input.incrementalStepProof.attestation ∧
    ProverLibs.verifyClaimWitness input.stepPredicate receipt.publicValues receipt.proof = true
  leaf : input.stepPredicateMerkleProof.index = nextPredicateLeafIndex ∧
    MerkleTree.climb hashTreePair (ProverLibs.predicateRoot input.stepPredicate)
      input.stepPredicateMerkleProof.index
      input.stepPredicateMerkleProof.cohashes = input.incrementalStepProof.attestation.origin.commitment

/-- The commitment of a Moho state is the root of the tree over its parts. -/
def StateTree : Prop :=
  ∀ state : MohoState, MerkleTree.Rooted hashTreePair (mohoLeaves state) 2
    (ProverLibs.computeCommitment state)

theorem fits_of_ready (stateTree : StateTree) (sound : Sound builder.verifier node db)
    {replies : Replies} {calls : Nat} {block : L1BlockCommitment} {input : MohoRecursiveInput}
    {after : ProverContext}
    (ran : (builder.buildMohoRuntimeInput ⟨node, replies⟩ block).run ⟨db, calls⟩ =
      .ok (.ready input) after) :
    builder.Fits node db block input := by
  have built := InputBuilder.keeps_buildMohoRuntimeInput ⟨node, replies⟩ builder
    (fun now => now = db) block
    ⟨db, calls⟩ rfl
  cases (built.ok ran).2 with
  | @ready _ asm prev assembled step previous =>
  obtain ⟨_, rfl, asmFound⟩ := step
  obtain ⟨satisfied, attested⟩ := sound.step asmFound
  obtain ⟨decoded, sameProof⟩ := assembled.step
  have transition : input.incrementalStepProof.attestation =
      ⟨node.endpoint (node.parent block), node.endpoint block⟩ :=
    Option.some.inj (decoded.symm.trans attested)
  refine { origin := ?_, previous := ?_, verified := ?_, leaf := ?_ }
  · rw [transition]
  · rw [transition]
    rcases previous with ⟨isGenesis, rfl⟩ | ⟨notGenesis, _, receipt, rfl, found, rfl⟩
    · refine .inl ⟨isGenesis, ?_, congrArg node.endpoint isGenesis⟩
      exact (Except.ok.inj assembled.previous).symm
    · obtain ⟨-, isOutput⟩ := sound.recursive found
      have given := assembled.previous
      rw [InputBuilder.decodePrevMoho, isOutput] at given
      exact .inr ⟨notGenesis, _, (Except.ok.inj given).symm, rfl⟩
  · refine ⟨asm, asmFound, sameProof, decoded, ?_⟩
    rw [assembled.stepPredicate]
    exact satisfied
  · have rooted := stateTree (node.mohoState (node.parent block))
    rw [assembled.merkleProof, assembled.stepPredicate, transition, genMerkleProof, ← rooted.depth_eq]
    exact ⟨rfl, rooted.climb_path rfl⟩

/-- In every run over a store without proofs, whatever the remote prover and the peer reply, the
stored proofs attest to the transitions of the node, and the recursions that are built from them fit
together. A scheduling pass builds them from the proofs that are stored when it ends. -/
theorem stored_proofs_attest {prover : Prover} (stateTree : StateTree) (noAsm : db.asmProofs = .empty)
    (noMoho : db.mohoProofs = .empty) {latest : Option L1BlockCommitment} {steps : List Served}
    {state : ProverServiceState} (run : Serves prover node (.new prover db latest) steps state) :
    (∀ range receipt, state.ctx.db.getAsm range = some receipt →
      ProverLibs.verifyClaimWitness (node.mohoState (node.parent range.last)).nextPredicate
          receipt.publicValues receipt.proof = true ∧
        ProverLibs.decodeStepAttestation receipt.publicValues =
          some ⟨node.endpoint (node.parent range.last), node.endpoint range.last⟩) ∧
    (∀ block receipt, state.ctx.db.getMoho block = some receipt →
      ProverLibs.verifyClaimWitness prover.inputBuilder.mohoPredicate receipt.publicValues
        receipt.proof = true ∧
        ProverLibs.decodeRecursiveOutput receipt.publicValues =
          some ⟨⟨node.endpoint prover.inputBuilder.genesis, node.endpoint block⟩,
            prover.inputBuilder.mohoPredicate⟩) ∧
    ∀ replies ctx after block input, ctx.db.asmProofs = state.ctx.db.asmProofs →
      ctx.db.mohoProofs = state.ctx.db.mohoProofs →
      (prover.inputBuilder.buildMohoRuntimeInput ⟨node, replies⟩ block).run ctx =
        .ok (.ready input) after →
      prover.inputBuilder.Fits node ctx.db block input := by
  have sound : Sound prover.inputBuilder.verifier node state.ctx.db :=
    (sound_ofProofs _ node).keeps_serves (sound_empty noAsm noMoho) run
  refine ⟨fun range receipt => sound.step, fun block receipt => sound.recursive, ?_⟩
  intro replies ctx after block input asm moho ran
  exact fits_of_ready stateTree ((sound_ofProofs _ node).other _ _ asm moho sound) ran

end

/-! ### Proofs of two blocks -/

@[reducible] def sampleProverMmr : MerkleMountainRange where
  Mmr := Unit
  MerkleProof := Unit
  newRepeated _ _ := ()
  numEntries _ := 0
  addLeaf _ _ := some ()
  verify _ _ _ := true
  index _ := 0

section

attribute [local instance] sampleProverMmr sampleBitcoinLibs

@[reducible] def sampleProverMoho : MohoLibs where
  anchorStateRoot _ := .zero
  ExportMmr := Unit
  emptyExportMmr := ()
  addExportEntry _ _ := some ()
  maxExportContainers := 8

attribute [local instance] sampleProverMoho

def sampleEndpoint (bytes : Bytes) : StateRefAttestation :=
  ⟨(Buf32.ofSlice (bytes.take 32)).getD .zero, (Buf32.ofSlice ((bytes.drop 32).take 32)).getD .zero⟩

/-- Jobs are numbered. Public values are written out, and a proof is good if it repeats the
condition of the predicate. -/
@[reducible] def sampleProverLibs : ProverLibs where
  TypedId := Nat
  intoBytes job := List.replicate job 0
  tryFromBytes bytes := some bytes.length
  verifyClaimWitness key _ proof := proof = key.condition
  decodeStepAttestation bytes := some ⟨sampleEndpoint bytes, sampleEndpoint (bytes.drop 64)⟩
  decodeRecursiveOutput bytes :=
    some ⟨⟨sampleEndpoint bytes, sampleEndpoint (bytes.drop 64)⟩, ⟨1, bytes.drop 128⟩⟩
  innerStateRoot inner := inner
  predicateRoot key := sampleDigest key.condition
  exportStateRoot _ := .zero
  computeCommitment state :=
    hashTreePair (hashTreePair state.inner (sampleDigest state.nextPredicate.condition))
      (hashTreePair .zero .zero)

attribute [local instance] sampleProverLibs

theorem sample_stateTree : StateTree := by
  intro state
  have leaves : 1 < (mohoLeaves state).length := by simp [mohoLeaves]
  have above : 1 < (MerkleTree.parents hashTreePair (mohoLeaves state)).length := by
    rw [MerkleTree.length_parents]
    simp [mohoLeaves]
  exact .up leaves (.up above (.leaf _))

/-- The block at a height has the hash that is filled with the height. -/
def sampleNode : Node where
  mohoState block := ⟨block.blkid, ⟨1, [7]⟩, []⟩
  header blkid := ⟨1, .fill (blkid.bytes.headD 0 - 1), .zero, 0, 0, 0⟩
  block _ := ⟨⟨1, .zero, .zero, 0, 0, 0⟩, []⟩
  auxData _ := ⟨[], []⟩
  anchorState _ := ⟨0, [], ⟨.init ⟨⟨0, .zero⟩, 0, 0, .regtest⟩, ()⟩, []⟩

def sampleAt (height : Nat) : L1BlockCommitment := ⟨height, .fill (.ofNat height)⟩

def sampleProver : Prover := ⟨⟨[⟨0, ⟨1, [7]⟩⟩]⟩, ⟨sampleAt 0, ⟨1, [9]⟩⟩, ⟨4, .generator⟩⟩

def sampleWritten (origin target : L1BlockCommitment) : Bytes :=
  [origin, target].flatMap fun block =>
    block.blkid.bytes ++ (ProverLibs.computeCommitment (sampleNode.mohoState block)).bytes

def sampleStepReceipt (height : Nat) : Receipt := ⟨sampleWritten (sampleAt (height - 1)) (sampleAt height), [7]⟩

def sampleRecursiveReceipt (height : Nat) : Receipt := ⟨sampleWritten (sampleAt 0) (sampleAt height) ++ [9], [9]⟩

/-- Every call succeeds, and all jobs are for one block and have one status. -/
def sampleRepliesAt (height : Nat) (status : RemoteProofStatus) : Replies where
  storageFails _ := false
  mohoState _ := .found
  chain _ := none
  getStatus _ _ := some status
  getProof _ host _ :=
    match host with
    | .asm _ => some (sampleStepReceipt height)
    | .moho => some (sampleRecursiveReceipt height)
  startProving call _ _ := some call
  peerStatus _ := none
  peerAsmProof _ _ := none
  peerMohoProof _ _ := none

def sampleReplies : RemoteProofStatus → Replies := sampleRepliesAt 1

def sampleServe (messages : List ProverMessage) : Option (List Served × ProverServiceState) :=
  serveAll sampleProver sampleNode 10 (.new sampleProver .empty none) messages

theorem sampleServe_messages {messages : List ProverMessage}
    {served : List Served × ProverServiceState} (h : sampleServe messages = some served)
    {step : Served} (mem : step ∈ served.1) : step.message ∈ messages := by
  unfold sampleServe at h
  have sent : served.1.map Served.message = messages := serveAll_messages sampleProver h
  rw [← sent]
  exact List.mem_map_of_mem mem

theorem sampleServe_serves {messages : List ProverMessage} {steps : List Served}
    {last : ProverServiceState} (h : sampleServe messages = some (steps, last)) :
    Serves sampleProver sampleNode (.new sampleProver .empty none) steps last ∧
      ∀ step ∈ steps, step.pass.result = .ok () := by
  unfold sampleServe at h
  have started : Serves sampleProver sampleNode (.new sampleProver .empty none) []
      (.new sampleProver .empty none) := .start
  have served := serves_serveAll sampleProver started (fun _ mem => absurd mem List.not_mem_nil) h
  rw [List.nil_append] at served
  exact served

/-- The step is submitted and then the recursion, and each is stored when it is completed. -/
def sampleMessages : List ProverMessage :=
  [.block (sampleAt 1), .tick (sampleReplies .requested), .tick (sampleReplies .completed),
    .tick (sampleReplies .completed)]

@[irreducible] def sampleProven :
    List Served × ProverServiceState := (sampleServe sampleMessages).get (by decide +kernel)

theorem sampleProven_eq : sampleServe sampleMessages = some sampleProven := by
  unfold sampleProven
  exact (Option.some_get _).symm

/-- Then a second block, which stands on the first. -/
def sampleMoreMessages : List ProverMessage :=
  sampleMessages ++ [.block (sampleAt 2), .tick (sampleRepliesAt 2 .requested),
    .tick (sampleRepliesAt 2 .completed), .tick (sampleRepliesAt 2 .completed)]

@[irreducible] def sampleProvenTwo : List Served × ProverServiceState :=
  (sampleServe sampleMoreMessages).get (by decide +kernel)

theorem sampleProvenTwo_eq : sampleServe sampleMoreMessages = some sampleProvenTwo := by
  unfold sampleProvenTwo
  exact (Option.some_get _).symm

def sampleInput : MohoRecursiveInput where
  mohoPredicate := ⟨1, [9]⟩
  prevMohoProof := some ⟨⟨sampleNode.endpoint (sampleAt 0), sampleNode.endpoint (sampleAt 1)⟩, [9]⟩
  incrementalStepProof := ⟨⟨sampleNode.endpoint (sampleAt 1), sampleNode.endpoint (sampleAt 2)⟩, [7]⟩
  stepPredicate := ⟨1, [7]⟩
  stepPredicateMerkleProof := genMerkleProof (mohoLeaves (sampleNode.mohoState (sampleAt 1))) 1

/-- The recursion of the second block builds on that of the first. -/
theorem stored_proofs_attest_sample :
    sampleProvenTwo.2.ctx.db.getAsm (.single (sampleAt 2)) = some (sampleStepReceipt 2) ∧
    ProverLibs.decodeStepAttestation (sampleStepReceipt 2).publicValues =
      some ⟨sampleNode.endpoint (sampleAt 1), sampleNode.endpoint (sampleAt 2)⟩ ∧
    sampleProvenTwo.2.ctx.db.getMoho (sampleAt 2) = some (sampleRecursiveReceipt 2) ∧
    ProverLibs.decodeRecursiveOutput (sampleRecursiveReceipt 2).publicValues =
      some ⟨⟨sampleNode.endpoint (sampleAt 0), sampleNode.endpoint (sampleAt 2)⟩, ⟨1, [9]⟩⟩ ∧
    sampleProver.inputBuilder.Fits sampleNode sampleProvenTwo.2.ctx.db (sampleAt 2) sampleInput := by
  have asmStored : sampleProvenTwo.2.ctx.db.getAsm (.single (sampleAt 2)) = some (sampleStepReceipt 2) := by
    decide +kernel
  have mohoStored : sampleProvenTwo.2.ctx.db.getMoho (sampleAt 2) = some (sampleRecursiveReceipt 2) := by
    decide +kernel
  have ready : returned ((sampleProver.inputBuilder.buildMohoRuntimeInput
      ⟨sampleNode, sampleRepliesAt 2 .completed⟩ (sampleAt 2)).run sampleProvenTwo.2.ctx) =
        some (.ready sampleInput) := by decide +kernel
  obtain ⟨after, ran⟩ := returned_some ready
  have noAsm : SledProofDb.empty.asmProofs = .empty := rfl
  have noMoho : SledProofDb.empty.mohoProofs = .empty := rfl
  obtain ⟨steps, recursions, inputs⟩ := stored_proofs_attest sample_stateTree noAsm noMoho
    (sampleServe_serves sampleProvenTwo_eq).1
  exact ⟨asmStored, (steps _ _ asmStored).2, mohoStored, (recursions _ _ mohoStored).2,
    inputs _ _ after _ _ rfl rfl ran⟩

end

end Asm
