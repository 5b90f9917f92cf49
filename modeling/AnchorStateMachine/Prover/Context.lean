import AnchorStateMachine.Btc.Body
import AnchorStateMachine.Library.Effect
import AnchorStateMachine.Prover.Store

/-! What the prover worker reads and talks to. Its own store is part of its state. The states and
headers of blocks, the remote prover and the peer are outside, and any call that leaves the worker
may fail. -/

namespace Asm
open Effect

/-! ### What proofs attest to -/

/-- A block, by its hash, and the commitment of the Moho state at it. -/
structure StateRefAttestation where
  reference : Buf32
  commitment : Buf32
  deriving DecidableEq

structure StepMohoAttestation where
  origin : StateRefAttestation
  target : StateRefAttestation
  deriving DecidableEq

structure RecursiveMohoAttestation where
  genesis : StateRefAttestation
  proven : StateRefAttestation
  deriving DecidableEq

structure MohoRecursiveOutput where
  attestation : RecursiveMohoAttestation
  mohoPredicate : PredicateKey
  deriving DecidableEq

/-- What the worker takes from other crates: the ids of remote jobs, predicates, the decoding of
what a program commits to, and the hashes of a Moho state and its parts. -/
class ProverLibs [MerkleMountainRange] [MohoLibs] where
  TypedId : Type
  intoBytes : TypedId → Bytes
  tryFromBytes : Bytes → Option TypedId
  verifyClaimWitness : PredicateKey → Bytes → Bytes → Bool
  decodeStepAttestation : Bytes → Option StepMohoAttestation
  decodeRecursiveOutput : Bytes → Option MohoRecursiveOutput
  innerStateRoot : Buf32 → Buf32
  predicateRoot : PredicateKey → Buf32
  exportStateRoot : List ExportContainer → Buf32
  computeCommitment : MohoState → Buf32

export ProverLibs (TypedId)

/-! ### Programs and their inputs -/

structure AsmProgramDescriptor where
  specId : Nat
  predicate : PredicateKey
  deriving DecidableEq

/-- A client of the remote prover, bound to the program that it proves. -/
inductive ProofHost
  | asm (program : AsmProgramDescriptor)
  | moho
  deriving DecidableEq

structure AsmHostRegistry where
  hosts : List AsmProgramDescriptor

def AsmHostRegistry.get (registry : AsmHostRegistry) (predicate : PredicateKey) :
    Except ProverError AsmProgramDescriptor :=
  match registry.hosts.find? fun host => host.predicate = predicate with
  | some host => .ok host
  | none => .error (.unknownArtifact predicate)

section

variable [MerkleMountainRange] [MohoLibs]

structure AsmStepInput where
  block : Block
  auxData : AuxData
  coinbaseInclusionProof : Option TxidInclusionProof

structure RuntimeInput where
  mohoPreState : MohoState
  innerPreState : AnchorState
  stepInput : AsmStepInput

end

structure StepMohoProof where
  attestation : StepMohoAttestation
  proof : Bytes
  deriving DecidableEq

structure RecursiveMohoProof where
  attestation : RecursiveMohoAttestation
  proof : Bytes
  deriving DecidableEq

/-- The siblings on the way from a leaf to the root, from below. -/
structure MerkleProofB32 where
  cohashes : List Buf32
  index : Nat
  deriving DecidableEq

structure MohoRecursiveInput where
  mohoPredicate : PredicateKey
  prevMohoProof : Option RecursiveMohoProof
  incrementalStepProof : StepMohoProof
  stepPredicate : PredicateKey
  stepPredicateMerkleProof : MerkleProofB32
  deriving DecidableEq

inductive ProofInput [MerkleMountainRange] [MohoLibs]
  | asm (input : RuntimeInput)
  | moho (input : MohoRecursiveInput)

/-! ### The world outside -/

structure ProverStatus where
  pending : Nat
  lastCommitted : Option L1BlockCommitment
  lastProven : Option L1BlockCommitment
  deriving DecidableEq

inductive Presence
  | found
  | absent
  | failed
  deriving DecidableEq

section

variable [MerkleMountainRange] [MohoLibs]

/-- What the node derived for each block. It is the same whenever it is read. -/
structure Node where
  mohoState : L1BlockCommitment → MohoState
  header : Buf32 → Header
  block : Buf32 → Block
  auxData : L1BlockCommitment → AuxData
  anchorState : L1BlockCommitment → AnchorState

/-- The block below, at the hash that the header names. -/
def Node.parent (node : Node) (block : L1BlockCommitment) : L1BlockCommitment :=
  ⟨block.height - 1, (node.header block.blkid).prevBlockhash⟩

variable [ProverLibs]

/-- What the calls that leave the worker come back with. A call is known by its number, so that an
answer may depend on everything that happened before. A `none` of the remote prover or of the peer
is an error. -/
structure Replies where
  storageFails : Nat → Bool
  mohoState : Nat → Presence
  chain : Nat → Option ProverError
  getStatus : Nat → TypedId → Option RemoteProofStatus
  getProof : Nat → ProofHost → TypedId → Option Receipt
  startProving : Nat → ProofHost → ProofInput → Option TypedId
  peerStatus : Nat → Option ProverStatus
  peerAsmProof : Nat → Buf32 → Option (Option Receipt)
  peerMohoProof : Nat → Buf32 → Option (Option Receipt)

structure World where
  node : Node
  replies : Replies

end

/-! ### Calls -/

structure ProverContext where
  db : SledProofDb
  calls : Nat

abbrev ProverM := EStateM ProverError ProverContext

/-- The value that must be there. -/
def require {α : Type} (error : ProverError) : Option α → Except ProverError α
  | none => .error error
  | some a => .ok a

theorem require_ok {α : Type} {error : ProverError} {found : Option α} {a : α}
    (h : require error found = .ok a) :
    found = some a := by
  cases found with
  | none => cases h
  | some b =>
    cases h
    rfl

/-- A call to the outside, which is answered by its number. -/
def ask {α : Type} (answer : Nat → Except ProverError α) : ProverM α := fun ctx =>
  match answer ctx.calls with
  | .ok a => .ok a { ctx with calls := ctx.calls + 1 }
  | .error error => .error error { ctx with calls := ctx.calls + 1 }

section

variable {α : Type} {inv : SledProofDb → Prop}

/-- A call to the outside leaves the store alone. -/
theorem keeps_ask (answer : Nat → Except ProverError α) :
    Keeps (fun ctx => inv ctx.db) (ask answer) fun a => ∃ call, answer call = .ok a := by
  intro ctx start
  unfold Meets EStateM.run ask
  cases answered : answer ctx.calls with
  | ok a => exact ⟨start, ctx.calls, answered⟩
  | error error => exact start

end

section

variable [MerkleMountainRange] [MohoLibs] [ProverLibs]

namespace World

variable {α : Type} (world : World)

/-- A call to the store. It may fail, and it may be refused. -/
def sled (context : String) (op : SledProofDb → Option (α × SledProofDb)) : ProverM α := fun ctx =>
  if world.replies.storageFails ctx.calls then .error (.storage context)
    { ctx with calls := ctx.calls + 1 }
  else
    match op ctx.db with
    | none => .error (.storage context) { ctx with calls := ctx.calls + 1 }
    | some (a, db) => .ok a ⟨db, ctx.calls + 1⟩

def read (context : String) (f : SledProofDb → α) :
    ProverM α := world.sled context fun db => some (f db, db)

def write (context : String) (f : SledProofDb → Option SledProofDb) : ProverM Unit :=
  world.sled context fun db => (f db).map fun db => ((), db)

variable {inv : SledProofDb → Prop}

theorem meets_sled (context : String) (op : SledProofDb → Option (α × SledProofDb))
    (ctx : ProverContext) :
    Meets (world.sled context op) ctx (fun a after => op ctx.db = some (a, after.db)) fun _ after =>
      after.db = ctx.db ∧ (world.replies.storageFails ctx.calls = true ∨ op ctx.db = none) := by
  unfold Meets EStateM.run sled
  by_cases fails : world.replies.storageFails ctx.calls = true
  · rw [if_pos fails]
    exact ⟨rfl, .inl fails⟩
  · rw [if_neg fails]
    cases op ctx.db with
    | none => exact ⟨rfl, .inr rfl⟩
    | some result => rfl

theorem meets_read (context : String) (f : SledProofDb → α) (ctx : ProverContext) :
    Meets (world.read context f) ctx (fun a after => a = f ctx.db ∧ after.db = ctx.db) fun _ after =>
      after.db = ctx.db ∧ world.replies.storageFails ctx.calls = true := by
  refine (world.meets_sled _ _ ctx).mono (fun a after done => ?_) fun _ after stopped => ?_
  · obtain ⟨same, sameDb⟩ := Prod.mk.inj (Option.some.inj done)
    exact ⟨same.symm, sameDb.symm⟩
  · exact ⟨stopped.1, stopped.2.resolve_right nofun⟩

theorem meets_write (context : String) (f : SledProofDb → Option SledProofDb) (ctx : ProverContext) :
    Meets (world.write context f) ctx (fun _ after => f ctx.db = some after.db) fun _ after =>
      after.db = ctx.db ∧ (world.replies.storageFails ctx.calls = true ∨ f ctx.db = none) := by
  refine (world.meets_sled _ _ ctx).mono (fun a after done => ?_) fun _ after stopped => ?_
  · obtain ⟨written, isWritten, same⟩ := Option.map_eq_some_iff.mp done
    cases same
    exact isWritten
  · exact ⟨stopped.1, stopped.2.imp_right Option.map_eq_none_iff.mp⟩

/-- A write that is never refused. -/
theorem meets_set (context : String) (f : SledProofDb → SledProofDb) (ctx : ProverContext) :
    Meets (world.write context fun db => some (f db)) ctx (fun _ after => after.db = f ctx.db)
      fun _ after => after.db = ctx.db ∧ world.replies.storageFails ctx.calls = true :=
  (world.meets_write _ _ ctx).mono (fun _ _ written => (Option.some.inj written).symm) fun _ _ stopped =>
    ⟨stopped.1, stopped.2.resolve_right nofun⟩

theorem keeps_read (context : String) (f : SledProofDb → α) :
    Keeps (fun ctx => inv ctx.db) (world.read context f) fun a => ∃ db, inv db ∧ f db = a := by
  intro ctx start
  have same : ∀ {after : ProverContext}, after.db = ctx.db → inv after.db := fun same => same ▸ start
  refine (world.meets_read context f ctx).mono (fun a after read => ?_) fun _ after stopped =>
    same stopped.1
  exact ⟨same read.2, ctx.db, start, read.1.symm⟩

theorem keeps_write {context : String} {f : SledProofDb → Option SledProofDb}
    (step : ∀ db after, inv db → f db = some after → inv after) :
    Keeps (fun ctx => inv ctx.db) (world.write context f) fun _ => True := by
  intro ctx start
  have same : ∀ {after : ProverContext}, after.db = ctx.db → inv after.db := fun same => same ▸ start
  refine (world.meets_write context f ctx).mono (fun _ after written => ?_) fun _ after stopped =>
    same stopped.1
  exact ⟨step ctx.db after.db start written, trivial⟩

def getMohoState (block : L1BlockCommitment) : ProverM MohoState :=
  ask fun call =>
    match world.replies.mohoState call with
    | .found => .ok (world.node.mohoState block)
    | .absent => .error (.notFound "moho state not found for block")
    | .failed => .error (.storage "failed to fetch moho state")

/-- Reads from the chain source and from the stores of the ASM worker. -/
def fromChain (a : α) : ProverM α :=
  ask fun call =>
    match world.replies.chain call with
    | none => .ok a
    | some error => .error error

theorem keeps_getMohoState (block : L1BlockCommitment) :
    Keeps (fun ctx => inv ctx.db) (world.getMohoState block) fun state => state =
      world.node.mohoState block := by
  apply (keeps_ask _).mono
  rintro state ⟨call, answered⟩
  split at answered
  · exact (Except.ok.inj answered).symm
  · cases answered
  · cases answered

theorem keeps_fromChain (a : α) : Keeps (fun ctx => inv ctx.db) (world.fromChain a) fun b => b = a := by
  apply (keeps_ask _).mono
  rintro b ⟨call, answered⟩
  split at answered
  · exact (Except.ok.inj answered).symm
  · cases answered

def getL1BlockHeader (blkid : Buf32) : ProverM Header := world.fromChain (world.node.header blkid)

def getL1Block (blkid : Buf32) : ProverM Block := world.fromChain (world.node.block blkid)

def getAuxData (block : L1BlockCommitment) :
    ProverM AuxData := world.fromChain (world.node.auxData block)

def getAnchorState (block : L1BlockCommitment) :
    ProverM AnchorState := world.fromChain (world.node.anchorState block)

/-! ### The proof store -/

def proofExists : ProofId → ProverM Bool
  | .asm range => world.read "failed to check ASM proof" fun db => (db.getAsm range).isSome
  | .moho block => world.read "failed to check Moho proof" fun db => (db.getMoho block).isSome

def storeCompletedProof (proofId : ProofId) (receipt : Receipt) : ProverM Unit :=
  match proofId with
  | .asm range => world.write "failed to store ASM proof" fun db => some (db.storeAsm range receipt)
  | .moho block => world.write "failed to store Moho proof" fun db => some (db.storeMoho block receipt)

theorem meets_proofExists (id : ProofId) (ctx : ProverContext) :
    Meets (world.proofExists id) ctx (fun stored after => stored = (ctx.db.getProof id).isSome ∧
      after.db = ctx.db)
      fun _ after => after.db = ctx.db ∧ world.replies.storageFails ctx.calls = true := by
  cases id with
  | asm range => exact world.meets_read _ _ ctx
  | moho block => exact world.meets_read _ _ ctx

theorem keeps_proofExists (id : ProofId) :
    Keeps (fun ctx => inv ctx.db) (world.proofExists id) fun stored => ∃ db, inv db ∧
      (db.getProof id).isSome = stored := by
  cases id with
  | asm range => exact world.keeps_read _ _
  | moho block => exact world.keeps_read _ _

theorem keeps_storeCompletedProof {id : ProofId} {receipt : Receipt}
    (step : ∀ db, inv db → inv (db.storeProof receipt id)) :
    Keeps (fun ctx => inv ctx.db) (world.storeCompletedProof id receipt) fun _ => True := by
  have stored : ∀ db after, inv db → some (db.storeProof receipt id) = some after → inv after := by
    intro db after start done
    cases done
    exact step db start
  cases id with
  | asm range => exact world.keeps_write stored
  | moho block => exact world.keeps_write stored

/-- Three calls to the store: the check of the job's id and the two entries. -/
def putRemoteProofId (proofId : ProofId) (remoteId : RemoteProofId) : ProverM Unit := do
  world.write "failed to store proof mapping" fun db => db.checkRemoteId proofId remoteId
  world.write "failed to store proof mapping" fun db => some (db.insertProofToRemote proofId remoteId)
  world.write "failed to store proof mapping" fun db => some (db.insertRemoteToProof proofId remoteId)

end World

end

end Asm
