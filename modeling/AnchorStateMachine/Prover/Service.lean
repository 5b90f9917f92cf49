import AnchorStateMachine.Prover.Input
import AnchorStateMachine.Prover.Schedule

/-! The prover service. A committed block puts its two proofs in the queue. A tick first looks after
the jobs in flight and then submits proofs from the queue, or, in a follower, fetches them from the
peer. -/

namespace Asm
open Effect PendingProofQueue

structure FollowerConfig where
  maxLag : Nat
  maxPeerFailures : Nat

inductive ProverMode
  | generator
  | follower (config : FollowerConfig)

structure OrchestratorConfig where
  maxConcurrentProofs : Nat
  mode : ProverMode

/-- What is fixed when the service is launched. -/
structure Prover where
  asm : AsmHostRegistry
  inputBuilder : InputBuilder
  config : OrchestratorConfig

structure PeerHealth where
  failures : Nat
  servedInvalidProof : Bool
  deriving DecidableEq

structure ProverServiceState where
  ctx : ProverContext
  queue : PendingProofQueue
  lastCommitted : Option L1BlockCommitment
  lastProven : Option L1BlockCommitment
  peer : Option PeerHealth

namespace ProverServiceState

/-- The service over a store, with the latest block that the Moho worker has a state for. -/
def new (prover : Prover) (db : SledProofDb)
    (latestMohoState : Option L1BlockCommitment) : ProverServiceState where
  ctx := ⟨db, 0⟩
  queue :=
    match latestMohoState with
    | none => .new
    | some seed =>
      if db.getLatestMoho ≠ some seed ∧ prover.inputBuilder.genesis.height < seed.height then
        PendingProofQueue.new.enqueue (.moho seed)
      else .new
  lastCommitted := latestMohoState
  lastProven := db.getLatestMoho
  peer :=
    match prover.config.mode with
    | .generator => none
    | .follower _ => some ⟨0, false⟩

def enqueueBlockProofs (state : ProverServiceState) (block : L1BlockCommitment) : ProverServiceState :=
  { state with
    queue := (state.queue.enqueue (.asm (.single block))).enqueue (.moho block)
    lastCommitted := some block }

def advanceProven (state : ProverServiceState) : ProofId → ProverServiceState
  | .moho block =>
    if state.lastProven.all fun current => current.height < block.height then
      { state with lastProven := some block }
    else state
  | .asm _ => state

@[simp] theorem advanceProven_ctx (state : ProverServiceState) (id : ProofId) :
    (state.advanceProven id).ctx = state.ctx := by
  cases id with
  | asm range => rfl
  | moho block =>
    unfold advanceProven
    dsimp only
    split <;> rfl

@[simp] theorem advanceProven_queue (state : ProverServiceState) (id : ProofId) :
    (state.advanceProven id).queue = state.queue := by
  cases id with
  | asm range => rfl
  | moho block =>
    unfold advanceProven
    dsimp only
    split <;> rfl

end ProverServiceState

/-! ### The fetching loop -/

inductive FetchOutcome
  | fetched
  | alreadyStored
  | notAvailable
  | invalid
  deriving DecidableEq

structure StateFetcher where
  ctx : ProverContext
  fetched : List ProofId

/-- The fetching loop between two turns. -/
structure Fetching (σ : Type) where
  queue : PendingProofQueue
  fetcher : σ
  parked : List ProofId
  servedInvalidProof : Bool

namespace Fetching

variable {σ : Type}

def requeue (fetching : Fetching σ) : Fetching σ :=
  { fetching with queue := fetching.parked.foldl enqueue fetching.queue }

def next (tryFetch : ProofId → EStateM ProverError σ FetchOutcome) (upTo : Nat) (fetching : Fetching σ) :
    Loop.Step (Fetching σ) (Fetching σ) :=
  match fetching.queue.dequeueOne with
  | none => .done fetching.requeue
  | some (proofId, queue) =>
    let parked := fetching.parked ++ [proofId]
    if upTo < proofId.height then .done (requeue { fetching with queue, parked })
    else
      match (tryFetch proofId).run fetching.fetcher with
      | .ok .fetched fetcher => .again { fetching with queue, fetcher }
      | .ok .alreadyStored fetcher => .again { fetching with queue, fetcher }
      | .ok .notAvailable fetcher => .again { fetching with queue, fetcher, parked }
      | .ok .invalid fetcher => .done (requeue ⟨queue, fetcher, parked, true⟩)
      | .error _ fetcher => .again { fetching with queue, fetcher, parked }

end Fetching

def fetchWith {σ : Type} (tryFetch : ProofId → EStateM ProverError σ FetchOutcome) (fuel : Nat)
    (queue : PendingProofQueue) (fetcher : σ) (upTo : Nat) : Option (Fetching σ) :=
  Loop.run (Fetching.next tryFetch upTo) fuel ⟨queue, fetcher, [], false⟩

section

variable {σ : Type} {tryFetch : ProofId → EStateM ProverError σ FetchOutcome} (inv : σ → Prop)

theorem Fetching.next_keeps (keeps : ∀ id, Keeps inv (tryFetch id) fun _ => True) {fetching : Fetching σ}
    (before : inv fetching.fetcher) (upTo : Nat) :
    match fetching.next tryFetch upTo with
    | .again after => inv after.fetcher
    | .done after => inv after.fetcher := by
  unfold next
  cases fetching.queue.dequeueOne with
  | none => exact before
  | some taken =>
    dsimp only
    by_cases above : upTo < taken.1.height
    · rw [if_pos above]
      exact before
    · rw [if_neg above]
      have after := keeps taken.1 fetching.fetcher before
      cases ran : (tryFetch taken.1).run fetching.fetcher with
      | ok outcome fetcher => cases outcome <;> exact (after.ok ran).1
      | error error fetcher => exact after.error ran

/-- What every fetch keeps of the fetcher, the loop keeps. -/
theorem fetchWith_keeps (keeps : ∀ id, Keeps inv (tryFetch id) fun _ => True) {fetcher : σ}
    (start : inv fetcher) {fuel upTo : Nat} {queue : PendingProofQueue} {ended : Fetching σ}
    (h : fetchWith tryFetch fuel queue fetcher upTo = some ended) : inv ended.fetcher := by
  obtain ⟨last, holds, isLast⟩ := Loop.run_invariant (fun fetching => inv fetching.fetcher)
    (fun fetching next before again => by
      have kept := Fetching.next_keeps inv keeps before upTo
      rw [again] at kept
      exact kept) start h
  have kept := Fetching.next_keeps inv keeps holds upTo
  rw [isLast] at kept
  exact kept

end

/-- What is left to do after the fetching loop: the frontier moves up, and a peer that served a
wrong proof is not followed again. -/
def afterFetch (state : ProverServiceState) (ended : Fetching StateFetcher) : ProverServiceState :=
  let state := { state with ctx := ended.fetcher.ctx, queue := ended.queue }
  let state := ended.fetcher.fetched.foldl ProverServiceState.advanceProven state
  if ended.servedInvalidProof then
    { state with peer := state.peer.map fun health => { health with servedInvalidProof := true } }
  else state

theorem afterFetch_ctx (state : ProverServiceState) (ended : Fetching StateFetcher) :
    (afterFetch state ended).ctx = ended.fetcher.ctx := by
  have advanced : ∀ (fetched : List ProofId) (state : ProverServiceState),
      (fetched.foldl ProverServiceState.advanceProven state).ctx = state.ctx := by
    intro fetched
    induction fetched with
    | nil => exact fun state => rfl
    | cons id fetched ih => exact fun state => (ih _).trans (state.advanceProven_ctx id)
  unfold afterFetch
  dsimp only
  split
  · exact advanced _ _
  · exact advanced _ _

/-- How a pass ends, with the log of the scheduling loop if it ran. -/
structure Pass where
  state : ProverServiceState
  result : Except ProverError Unit
  log : List Attempt

/-- An error that is not terminal is logged and swallowed. With any other the service stops. -/
def Pass.swallow (pass : Pass) : Pass :=
  match pass.result with
  | .ok () => pass
  | .error error => if error.isTerminal then pass else { pass with result := .ok () }

@[simp] theorem Pass.swallow_state (pass : Pass) : pass.swallow.state = pass.state := by
  unfold swallow
  split
  · rfl
  · split <;> rfl

@[simp] theorem Pass.swallow_log (pass : Pass) : pass.swallow.log = pass.log := by
  unfold swallow
  split
  · rfl
  · split <;> rfl

/-- The service goes on only after errors that are not terminal. -/
theorem Pass.swallow_ok {pass : Pass} (ok : pass.swallow.result = .ok ()) {error : ProverError}
    (failed : pass.result = .error error) : error.isTerminal = false := by
  by_contra terminal
  rw [Bool.not_eq_false] at terminal
  unfold swallow at ok
  simp only [failed, terminal, if_true] at ok
  cases ok

section

variable [MerkleMountainRange] [MohoLibs] [ProverLibs] (prover : Prover) (world : World)

/-! ### Reconciliation -/

abbrev ServiceM := EStateM ProverError ProverServiceState

def onCtx {α : Type} (x : ProverM α) : ServiceM α :=
  focus ProverServiceState.ctx (fun state ctx => { state with ctx }) x

def discardSubmission (remoteId : RemoteProofId) : ProverM Unit := do
  let proofId ← world.read "failed to look up proof ID from remote ID" fun db => db.getLocal remoteId
  match proofId with
  | some proofId =>
    world.write "failed to clear remote proof mapping" fun db => some (db.clearRemoteSubmission proofId)
  | none => pure ()
  world.write "failed to remove proof status" fun db => some (db.deleteStatus remoteId)

def receiptHost : ExpectedAttestation → Except ProverError ProofHost
  | .step _ predicate => ProofHost.asm <$> prover.asm.get predicate
  | .recursive _ => .ok .moho

/-- The receipt of a job that is said to be completed, with the proof that it is for and what it has
to attest to. -/
def retrieve (remoteId : RemoteProofId) (typedId : TypedId) :
    ProverM (ProofId × ExpectedAttestation × Receipt) := do
  let found ← world.read "failed to look up proof ID from remote ID" fun db => db.getLocal remoteId
  let proofId ← lift (require (.notFound "no mapping found for completed remote proof") found)
  let expected ← prover.inputBuilder.verifier.expectedAttestation world proofId
  let host ← lift (receiptHost prover expected)
  let receipt ← ask fun call => require .remoteRetrieve (world.replies.getProof call host typedId)
  pure (proofId, expected, receipt)

theorem keeps_retrieve (inv : SledProofDb → Prop) (remoteId : RemoteProofId) (typedId : TypedId) :
    Keeps (fun ctx => inv ctx.db) (retrieve prover world remoteId typedId) fun completed =>
      (∃ db, inv db ∧ db.getLocal remoteId = some completed.1) ∧
      completed.2.1 = prover.inputBuilder.verifier.expected world.node completed.1 ∧
      ∃ call host, receiptHost prover completed.2.1 = .ok host ∧
        world.replies.getProof call host typedId = some completed.2.2 := by
  refine (world.keeps_read _ _).bind fun found ⟨db, holds, isFound⟩ => ?_
  refine (keeps_lift fun id got => require_ok got).bind fun id got => ?_
  refine (ProofVerifier.keeps_expectedAttestation world _ id).bind fun expected isExpected => ?_
  refine (keeps_lift fun host selected => selected).bind fun host selected => ?_
  refine (keeps_ask _).bind fun receipt ⟨call, served⟩ => keeps_pure ?_
  exact ⟨⟨db, holds, isFound.trans got⟩, isExpected, call, host, selected, require_ok served⟩

def handleCompleted (remoteId : RemoteProofId) (typedId : TypedId) : ServiceM Unit := do
  let (proofId, expected, receipt) ← onCtx (retrieve prover world remoteId typedId)
  match prover.inputBuilder.verifier.verify receipt expected with
  | .error _ => onCtx (discardSubmission world remoteId)
  | .ok () => do
    onCtx (world.storeCompletedProof proofId receipt)
    modify fun state => state.advanceProven proofId
    onCtx (world.write "failed to remove completed proof status" fun db =>
      some (db.deleteStatus remoteId))

def pollStatus (remoteId : RemoteProofId) : ProverM (TypedId × RemoteProofStatus) := do
  let typedId ← lift (require .remoteIdDecode (ProverLibs.tryFromBytes remoteId.bytes))
  let newStatus ← ask fun call => require .remoteStatus (world.replies.getStatus call typedId)
  pure (typedId, newStatus)

theorem keeps_pollStatus (inv : SledProofDb → Prop) (remoteId : RemoteProofId) :
    Keeps (fun ctx => inv ctx.db) (pollStatus world remoteId) fun polled =>
      ProverLibs.tryFromBytes remoteId.bytes = some polled.1 ∧
      ∃ call, world.replies.getStatus call polled.1 = some polled.2 := by
  refine (keeps_lift fun typedId decoded => require_ok decoded).bind fun typedId decoded => ?_
  exact (keeps_ask _).bind fun newStatus ⟨call, replied⟩ => keeps_pure
    ⟨decoded, call, require_ok replied⟩

def reconcileOne (remoteId : RemoteProofId) (oldStatus : RemoteProofStatus) : ServiceM Unit := do
  let (typedId, newStatus) ← onCtx (pollStatus world remoteId)
  if newStatus = oldStatus then pure ()
  else
    match newStatus with
    | .completed => handleCompleted prover world remoteId typedId
    | .failed _ => onCtx (discardSubmission world remoteId)
    | .requested | .inProgress =>
      onCtx (world.write "failed to update proof status" fun db => db.updateStatus remoteId newStatus)

/-- Only a terminal error ends the pass. -/
def reconcileJob (job : RemoteProofId × RemoteProofStatus) : ServiceM Unit := fun state =>
  match (reconcileOne prover world job.1 job.2).run state with
  | .ok _ state => .ok () state
  | .error error state => if error.isTerminal then .error error state else .ok () state

def reconcileActiveProofs : ServiceM Unit := do
  let inProgress ← onCtx (world.read "failed to query in-progress proofs" fun db => db.inProgress)
  inProgress.forM (reconcileJob prover world)

/-! ### Following a peer -/

def fetcherCtx {α : Type} (x : ProverM α) : EStateM ProverError StateFetcher α :=
  focus StateFetcher.ctx (fun fetcher ctx => { fetcher with ctx }) x

/-- The receipt that the peer has for a proof, if it has one. The peer knows proofs by the hash of
their block. -/
def peerProof : ProofId → ProverM (Option Receipt)
  | .asm range =>
    if range.start ≠ range.last then throw (.peerUnaddressable "multi-block ASM range")
    else
      ask fun call =>
        require (.peer "failed to fetch ASM proof from peer")
          (world.replies.peerAsmProof call range.last.blkid)
  | .moho block =>
    ask fun call => require (.peer "failed to fetch Moho proof from peer")
      (world.replies.peerMohoProof call block.blkid)

theorem keeps_peerProof {inv : SledProofDb → Prop} (id : ProofId) :
    Keeps (fun ctx => inv ctx.db) (peerProof world id) fun _ => True := by
  cases id with
  | asm range =>
    rw [peerProof]
    by_cases several : range.start ≠ range.last
    · rw [if_pos several]
      exact keeps_throw
    · rw [if_neg several]
      exact (keeps_ask _).mono fun _ _ => trivial
  | moho block =>
    rw [peerProof]
    exact (keeps_ask _).mono fun _ _ => trivial

def tryFetch (proofId : ProofId) : EStateM ProverError StateFetcher FetchOutcome := do
  let exists_ ← fetcherCtx (world.proofExists proofId)
  if exists_ then pure .alreadyStored
  else do
    let served ← fetcherCtx (peerProof world proofId)
    match served with
    | none => pure .notAvailable
    | some receipt => do
      let expected ← fetcherCtx (prover.inputBuilder.verifier.expectedAttestation world proofId)
      match prover.inputBuilder.verifier.verify receipt expected with
      | .error _ => pure .invalid
      | .ok () => do
        fetcherCtx (world.storeCompletedProof proofId receipt)
        modify fun fetcher => { fetcher with fetched := fetcher.fetched ++ [proofId] }
        pure .fetched

inductive FallbackReason
  | unavailable (failures : Nat)
  | lagging (lag : Nat)
  | invalidProofs
  deriving DecidableEq

inductive FollowAction
  | fetch (upTo : Nat)
  | fallback (reason : FallbackReason)
  | wait
  deriving DecidableEq

def followAction (peerStatus : Option ProverStatus) (lastCommitted : Option L1BlockCommitment)
    (genesisHeight : Nat) (config : FollowerConfig) (health : PeerHealth) : FollowAction :=
  if health.servedInvalidProof then .fallback .invalidProofs
  else
    match peerStatus with
    | none => if config.maxPeerFailures ≤ health.failures then .fallback
        (.unavailable health.failures) else .wait
    | some status =>
      match lastCommitted with
      | none => .wait
      | some committed =>
        let peerProven := (status.lastProven.map L1BlockCommitment.height).getD genesisHeight
        let lag := committed.height - peerProven
        if config.maxLag < lag then .fallback (.lagging lag) else .fetch peerProven

/-- The probe of a tick and what it says about the peer. -/
def probe (state : ProverServiceState) (health : PeerHealth) :
    Option ProverStatus × ProverServiceState :=
  let status := world.replies.peerStatus state.ctx.calls
  let failures := if status.isSome then 0 else min (health.failures + 1) u32Max
  (status, { state with
    ctx := { state.ctx with calls := state.ctx.calls + 1 }
    peer := some { health with failures } })

/-! ### Submission -/

def startProving (host : ProofHost) (input : ProofInput) : ProverM TypedId :=
  ask fun call => require .remoteSubmit (world.replies.startProving call host input)

theorem keeps_startProving (inv : SledProofDb → Prop) (host : ProofHost) (input : ProofInput) :
    Keeps (fun ctx => inv ctx.db) (startProving world host input) fun _ => True :=
  (keeps_ask _).mono fun _ _ => trivial

/-- The host was selected by the predicate, which is checked again. -/
def AsmProgramDescriptor.startProving (program : AsmProgramDescriptor)
    (input : RuntimeInput) : ProverM TypedId :=
  if program.predicate ≠ input.mohoPreState.nextPredicate then throw
    (.unsupportedAsmPredicate program.specId)
  else Asm.startProving world (.asm program) (.asm input)

theorem AsmProgramDescriptor.keeps_startProving (inv : SledProofDb → Prop)
    (program : AsmProgramDescriptor) (input : RuntimeInput) :
    Keeps (fun ctx => inv ctx.db) (program.startProving world input) fun _ => True := by
  unfold AsmProgramDescriptor.startProving
  by_cases other : program.predicate ≠ input.mohoPreState.nextPredicate
  · rw [if_pos other]
    exact keeps_throw
  · rw [if_neg other]
    exact Asm.keeps_startProving world inv _ _

variable [BitcoinLibs]

def recordSubmission (proofId : ProofId) (typedId : TypedId) : ProverM SubmitOutcome := do
  let remoteId : RemoteProofId := ⟨ProverLibs.intoBytes typedId⟩
  world.putRemoteProofId proofId remoteId
  world.write "failed to store initial proof status" fun db => db.putStatus remoteId .requested
  pure (.submitted remoteId)

/-- The submission of a proof that is neither stored nor in flight. -/
def submit : ProofId → ProverM SubmitOutcome
  | .asm range => do
    let input ← InputBuilder.buildAsmRuntimeInput world range
    let program ← lift (prover.asm.get input.mohoPreState.nextPredicate)
    let typedId ← program.startProving world input
    recordSubmission world (.asm range) typedId
  | .moho block => do
    let input ← prover.inputBuilder.buildMohoRuntimeInput world block
    match input with
    | .missingPrerequisites missing => pure (.deferred missing)
    | .ready input => do
      let typedId ← startProving world .moho (.moho input)
      recordSubmission world (.moho block) typedId

def trySubmit (proofId : ProofId) : ProverM SubmitOutcome := do
  let exists_ ← world.proofExists proofId
  if exists_ then pure (.skipped .proofExists)
  else do
    let remoteId ← world.read "failed to check remote proof mapping" fun db => db.getRemote proofId
    if remoteId.isSome then pure (.skipped .alreadySubmitted) else submit prover world proofId

def scheduleProofs (fuel : Nat) (state : ProverServiceState) : Option Pass :=
  match (world.read "failed to query in-progress proofs" fun db => db.inProgress.length).run
    state.ctx with
  | .error error ctx => some ⟨{ state with ctx }, .error error, []⟩
  | .ok inFlight ctx =>
    let capacity := prover.config.maxConcurrentProofs - inFlight
    if capacity = 0 then some ⟨{ state with ctx }, .ok (), []⟩
    else
      (scheduleWith (trySubmit prover world) fuel state.queue ctx capacity).map fun ended =>
        ⟨{ state with ctx := ended.2.submitter, queue := ended.2.queue }, ended.1, ended.2.log⟩

/-- The ways in which a scheduling pass ends. -/
inductive Scheduled (fuel : Nat) (state : ProverServiceState) : Pass → Prop
  | uncounted {error : ProverError} {ctx : ProverContext} (same : ctx.db = state.ctx.db)
      (fails : world.replies.storageFails state.ctx.calls = true) :
      Scheduled fuel state ⟨{ state with ctx }, .error error, []⟩
  | full {ctx : ProverContext} (same : ctx.db = state.ctx.db) :
      Scheduled fuel state ⟨{ state with ctx }, .ok (), []⟩
  | cycled {ctx : ProverContext} {capacity : Nat} {result : Except ProverError Unit}
      {done : Cycle ProverContext} (same : ctx.db = state.ctx.db) (room : capacity ≠ 0)
      (ended : scheduleWith (trySubmit prover world) fuel state.queue ctx capacity =
        some (result, done)) :
      Scheduled fuel state ⟨{ state with ctx := done.submitter, queue := done.queue }, result, done.log⟩

variable {prover world} in
theorem scheduleProofs_some {fuel : Nat} {state : ProverServiceState} {pass : Pass}
    (h : scheduleProofs prover world fuel state = some pass) :
    Scheduled prover world fuel state pass := by
  unfold scheduleProofs at h
  have counts := world.meets_read "failed to query in-progress proofs"
    (fun db => db.inProgress.length) state.ctx
  cases ran : (world.read "failed to query in-progress proofs" fun db => db.inProgress.length).run
      state.ctx with
  | error error ctx =>
    rw [ran] at h
    cases h
    exact .uncounted (counts.error ran).1 (counts.error ran).2
  | ok inFlight ctx =>
    rw [ran] at h
    have same := (counts.ok ran).2
    dsimp only at h
    split at h
    · cases h
      exact .full same
    · rename_i room
      obtain ⟨⟨result, done⟩, ended, rfl⟩ := Option.map_eq_some_iff.mp h
      exact .cycled same room ended

/-! ### The service -/

def followProofs (fuel : Nat) (state : ProverServiceState) : Option Pass :=
  match prover.config.mode with
  | .generator => some ⟨state, .ok (), []⟩
  | .follower config =>
    match state.peer with
    | none => some ⟨state, .error (.missingDependency "peer"), []⟩
    | some health =>
      let (status, state) := probe world state health
      let health := state.peer.getD health
      match followAction status state.lastCommitted prover.inputBuilder.genesis.height config health with
      | .fetch upTo =>
        (fetchWith (tryFetch prover world) fuel state.queue ⟨state.ctx, []⟩ upTo).map fun ended =>
          ⟨afterFetch state ended, .ok (), []⟩
      | .fallback _ => scheduleProofs prover world fuel state
      | .wait => some ⟨state, .ok (), []⟩

def tick (fuel : Nat) (state : ProverServiceState) : Option Pass :=
  match (reconcileActiveProofs prover world).run state with
  | .error error state => some ⟨state, .error error, []⟩
  | .ok _ state =>
    match prover.config.mode with
    | .generator => scheduleProofs prover world fuel state
    | .follower _ => followProofs prover world fuel state

/-- The ways in which a tick ends: the reconciliation stops it, or proofs are scheduled or followed
after it. -/
inductive Ticked (fuel : Nat) (state : ProverServiceState) : Pass → Prop
  | stopped {error : ProverError} {after : ProverServiceState}
      (ran : (reconcileActiveProofs prover world).run state = .error error after) :
      Ticked fuel state ⟨after, .error error, []⟩
  | scheduled {after : ProverServiceState} {pass : Pass}
      (ran : (reconcileActiveProofs prover world).run state = .ok () after)
      (ended : scheduleProofs prover world fuel after = some pass) : Ticked fuel state pass
  | followed {after : ProverServiceState} {pass : Pass} {config : FollowerConfig}
      (follower : prover.config.mode = .follower config)
      (ran : (reconcileActiveProofs prover world).run state = .ok () after)
      (ended : followProofs prover world fuel after = some pass) : Ticked fuel state pass

variable {prover world} in
theorem tick_some {fuel : Nat} {state : ProverServiceState} {pass : Pass}
    (h : tick prover world fuel state = some pass) : Ticked prover world fuel state pass := by
  unfold tick at h
  cases ran : (reconcileActiveProofs prover world).run state with
  | error error after =>
    rw [ran] at h
    cases h
    exact .stopped ran
  | ok _ after =>
    rw [ran] at h
    cases mode : prover.config.mode with
    | generator =>
      rw [mode] at h
      exact .scheduled ran h
    | follower config =>
      rw [mode] at h
      exact .followed mode ran h

inductive ProverMessage
  | block (block : L1BlockCommitment)
  | tick (replies : Replies)

def processInput (node : Node) (fuel : Nat) (state : ProverServiceState) : ProverMessage → Option Pass
  | .block block => some ⟨state.enqueueBlockProofs block, .ok (), []⟩
  | .tick replies => (tick prover ⟨node, replies⟩ fuel state).map Pass.swallow

/-- A message that was processed, with the state before it. -/
structure Served where
  before : ProverServiceState
  message : ProverMessage
  pass : Pass

/-- The runs of the service. After a pass that stopped it nothing is processed. -/
inductive Serves (node : Node) (start : ProverServiceState) : List Served → ProverServiceState → Prop
  | start : Serves node start [] start
  | serve {steps : List Served} {state : ProverServiceState} {message : ProverMessage} {fuel : Nat}
      {pass : Pass}
      (before : Serves node start steps state) (alive : ∀ step ∈ steps, step.pass.result = .ok ())
      (processed : processInput prover node fuel state message = some pass) :
      Serves node start (steps ++ [⟨state, message, pass⟩]) pass.state

/-- Serves messages one after the other, if none of them stops the service. -/
def serveAll (node : Node) (fuel : Nat) (state : ProverServiceState) :
    List ProverMessage → Option (List Served × ProverServiceState)
  | [] => some ([], state)
  | message :: rest => do
    let pass ← processInput prover node fuel state message
    match pass.result with
    | .error _ => none
    | .ok () => do
      let (steps, last) ← serveAll node fuel pass.state rest
      some (⟨state, message, pass⟩ :: steps, last)

theorem serveAll_messages {node : Node} {fuel : Nat} {state last : ProverServiceState}
    {steps : List Served} {messages : List ProverMessage}
    (h : serveAll prover node fuel state messages = some (steps, last)) :
    steps.map Served.message = messages := by
  induction messages generalizing steps state with
  | nil =>
    cases h
    rfl
  | cons message messages ih =>
    obtain ⟨pass, processed, h⟩ := Option.bind_eq_some_iff.mp h
    split at h
    · cases h
    · obtain ⟨⟨later, ended⟩, rest, h⟩ := Option.bind_eq_some_iff.mp h
      cases h
      rw [List.map_cons, ih rest]

theorem serves_serveAll {node : Node} {fuel : Nat} {start state last : ProverServiceState}
    {steps more : List Served} {messages : List ProverMessage}
    (before : Serves prover node start steps state)
    (alive : ∀ step ∈ steps, step.pass.result = .ok ())
    (h : serveAll prover node fuel state messages = some (more, last)) :
    Serves prover node start (steps ++ more) last ∧
      ∀ step ∈ steps ++ more, step.pass.result = .ok () := by
  induction messages generalizing steps state more with
  | nil =>
    cases h
    rw [List.append_nil]
    exact ⟨before, alive⟩
  | cons message messages ih =>
    obtain ⟨pass, processed, h⟩ := Option.bind_eq_some_iff.mp h
    cases isResult : pass.result with
    | error error =>
      rw [isResult] at h
      cases h
    | ok _ =>
      rw [isResult] at h
      obtain ⟨⟨later, ended⟩, rest, h⟩ := Option.bind_eq_some_iff.mp h
      cases h
      have served := ih (before.serve alive processed)
        (List.forall_mem_append.mpr ⟨alive, List.forall_mem_singleton.mpr isResult⟩) rest
      rw [List.append_assoc] at served
      exact served

end

end Asm
