import AnchorStateMachine.Library.MerkleTree
import AnchorStateMachine.Prover.Context

/-! The inputs that proofs are made from, and the check that a receipt is a proof of what it is
filed under. Both are derived from the states that the node holds. -/

namespace Asm
open Effect

/-- The genesis block and the Moho predicate, which are fixed for the life of the worker. -/
structure InputBuilder where
  genesis : L1BlockCommitment
  mohoPredicate : PredicateKey

inductive MohoInput
  | ready (input : MohoRecursiveInput)
  | missingPrerequisites (missing : List ProofId)
  deriving DecidableEq

def nextPredicateLeafIndex : Nat := 1

namespace InputBuilder

/-- The proofs that a recursion at a block waits for. -/
def missingPrerequisites (l1Ref parent : L1BlockCommitment) (asm : Option Receipt) (requiresPrev : Bool)
    (prev : Option Receipt) : List ProofId :=
  (if asm.isNone then [.asm (.single l1Ref)] else []) ++
  (if requiresPrev && prev.isNone then [.moho parent] else [])

theorem mem_missingPrerequisites {l1Ref parent : L1BlockCommitment} {asm prev : Option Receipt}
    {requiresPrev : Bool} {id : ProofId} :
    id ∈ missingPrerequisites l1Ref parent asm requiresPrev prev ↔
      (asm = none ∧ id = .asm (.single l1Ref)) ∨
      (requiresPrev = true ∧ prev = none ∧ id = .moho parent) := by
  unfold missingPrerequisites
  cases asm <;> cases requiresPrev <;> cases prev <;> simp

end InputBuilder

section

variable [MerkleMountainRange] [MohoLibs] [ProverLibs] (world : World)

def parentCommitment (l1Ref : L1BlockCommitment) : ProverM L1BlockCommitment := do
  let header ← world.getL1BlockHeader l1Ref.blkid
  match l1Ref.height with
  | 0 => throw (.notFound "block at height 0 has no parent block")
  | height + 1 => pure ⟨height, header.prevBlockhash⟩

theorem keeps_parentCommitment {inv : SledProofDb → Prop} (block : L1BlockCommitment) :
    Keeps (fun ctx => inv ctx.db) (parentCommitment world block) fun parent =>
      parent = world.node.parent block ∧ block.height ≠ 0 := by
  apply (world.keeps_fromChain _).bind
  rintro header rfl
  obtain ⟨height, blkid⟩ := block
  cases height with
  | zero => exact keeps_throw
  | succ height => exact keeps_pure ⟨rfl, nofun⟩

namespace InputBuilder

def fetchPrevMoho (requiresPrev : Bool) (parent : L1BlockCommitment) : ProverM (Option Receipt) :=
  if requiresPrev then world.read "failed to fetch previous moho proof" fun db =>
    db.getMoho parent else pure none

theorem keeps_fetchPrevMoho {inv : SledProofDb → Prop} (requiresPrev : Bool)
    (parent : L1BlockCommitment) :
    Keeps (fun ctx => inv ctx.db) (fetchPrevMoho world requiresPrev parent) fun prev =>
      requiresPrev = true → ∃ db, inv db ∧ db.getMoho parent = prev := by
  cases requiresPrev with
  | false => exact keeps_pure nofun
  | true =>
    rw [fetchPrevMoho, if_pos rfl]
    exact (world.keeps_read _ _).mono fun prev isPrev _ => isPrev

end InputBuilder

/-! ### The tree of a Moho state -/

section

variable [BitcoinLibs]

def hashTreePair (left right : Buf32) : Buf32 := sha256 (left.bytes ++ right.bytes)

def mohoLeaves (state : MohoState) : List Buf32 :=
  [ProverLibs.innerStateRoot state.inner, ProverLibs.predicateRoot state.nextPredicate,
    ProverLibs.exportStateRoot state.exportState, .zero]

def genMerkleProof (leaves : List Buf32) (index : Nat) : MerkleProofB32 :=
  ⟨MerkleTree.path hashTreePair (Nat.clog 2 leaves.length) leaves index, index⟩

/-! ### Inputs -/

namespace InputBuilder

variable (builder : InputBuilder)

def buildAsmRuntimeInput (range : L1Range) : ProverM RuntimeInput := do
  if range.start ≠ range.last then throw .unsupportedAsmRange
  let commitment := range.start
  let block ← world.getL1Block commitment.blkid
  let auxData ← world.getAuxData commitment
  let coinbaseInclusionProof := TxidInclusionProof.generate block.txdata 0
  let parent ← parentCommitment world commitment
  let anchorState ← world.getAnchorState parent
  let mohoPreState ← world.getMohoState parent
  pure ⟨mohoPreState, anchorState, ⟨block, auxData, coinbaseInclusionProof⟩⟩

def decodePrevMoho : Option Receipt → Except ProverError (Option RecursiveMohoProof)
  | none => .ok none
  | some receipt => do
    let output ← require (.decode "moho recursive output")
      (ProverLibs.decodeRecursiveOutput receipt.publicValues)
    pure (some ⟨output.attestation, receipt.proof⟩)

/-- The input of a recursion whose prerequisites are there. -/
def assembleMohoInput (parent : L1BlockCommitment) (asm : Receipt)
    (prev : Option Receipt) : ProverM MohoInput := do
  let asmAttestation ← lift (require (.decode "ASM attestation")
    (ProverLibs.decodeStepAttestation asm.publicValues))
  let prevMohoProof ← lift (decodePrevMoho prev)
  let parentState ← world.getMohoState parent
  pure (.ready {
    mohoPredicate := builder.mohoPredicate
    prevMohoProof
    incrementalStepProof := ⟨asmAttestation, asm.proof⟩
    stepPredicate := parentState.nextPredicate
    stepPredicateMerkleProof := genMerkleProof (mohoLeaves parentState) nextPredicateLeafIndex })

def buildMohoRuntimeInput (l1Ref : L1BlockCommitment) : ProverM MohoInput := do
  let asmProof ← world.read "failed to fetch ASM step proof" fun db => db.getAsm (.single l1Ref)
  let parent ← parentCommitment world l1Ref
  let requiresPrev : Bool := parent ≠ builder.genesis
  let prevMoho ← fetchPrevMoho world requiresPrev parent
  match asmProof, requiresPrev, prevMoho with
  | some asm, false, _ => builder.assembleMohoInput world parent asm none
  | some asm, true, some prev => builder.assembleMohoInput world parent asm (some prev)
  | asm, requiresPrev, prev => pure (.missingPrerequisites
      (missingPrerequisites l1Ref parent asm requiresPrev prev))

variable {inv : SledProofDb → Prop}

theorem keeps_buildAsmRuntimeInput (inv : SledProofDb → Prop) (range : L1Range) :
    Keeps (fun ctx => inv ctx.db) (buildAsmRuntimeInput world range) fun input =>
      input.mohoPreState = world.node.mohoState (world.node.parent range.start) := by
  unfold buildAsmRuntimeInput
  by_cases several : range.start ≠ range.last
  · rw [if_pos several]
    exact keeps_throw
  · rw [if_neg several]
    apply (world.keeps_fromChain _).bind
    intro block _
    apply (world.keeps_fromChain _).bind
    intro auxData _
    apply (keeps_parentCommitment world _).bind
    rintro parent ⟨rfl, -⟩
    apply (world.keeps_fromChain _).bind
    intro anchorState _
    apply (world.keeps_getMohoState _).bind
    rintro state rfl
    exact keeps_pure rfl

/-- An input that was assembled for a block from the receipts of its prerequisites. -/
structure Assembled (node : Node) (block : L1BlockCommitment) (asm : Receipt) (prev : Option Receipt)
    (input : MohoRecursiveInput) : Prop where
  predicate : input.mohoPredicate = builder.mohoPredicate
  step : ProverLibs.decodeStepAttestation asm.publicValues =
    some input.incrementalStepProof.attestation ∧
    input.incrementalStepProof.proof = asm.proof
  previous : decodePrevMoho prev = .ok input.prevMohoProof
  stepPredicate : input.stepPredicate = (node.mohoState (node.parent block)).nextPredicate
  merkleProof : input.stepPredicateMerkleProof =
    genMerkleProof (mohoLeaves (node.mohoState (node.parent block))) nextPredicateLeafIndex

theorem keeps_assembleMohoInput (block : L1BlockCommitment) (asm : Receipt) (prev : Option Receipt) :
    Keeps (fun ctx => inv ctx.db) (builder.assembleMohoInput world (world.node.parent block) asm
      prev) fun input =>
      ∃ ready, input = .ready ready ∧ builder.Assembled world.node block asm prev ready := by
  refine (keeps_lift fun attestation decoded => require_ok decoded).bind fun attestation isStep => ?_
  refine (keeps_lift fun prevMohoProof decoded => decoded).bind fun prevMohoProof isPrev => ?_
  apply (world.keeps_getMohoState _).bind
  rintro state rfl
  exact keeps_pure ⟨_, rfl, rfl, ⟨isStep, rfl⟩, isPrev, rfl, rfl⟩

/-- What `buildMohoRuntimeInput` returns for a block. -/
inductive Built (node : Node) (inv : SledProofDb → Prop) (block : L1BlockCommitment) : MohoInput → Prop
  | missing {asm prev : Option Receipt} {missing : List ProofId} (above : block.height ≠ 0)
      (step : ∃ db, inv db ∧ db.getAsm (.single block) = asm)
      (previous : node.parent block ≠ builder.genesis → ∃ db, inv db ∧
        db.getMoho (node.parent block) = prev)
      (isMissing : missing = missingPrerequisites block (node.parent block) asm
        (decide (node.parent block ≠ builder.genesis)) prev) (some : missing ≠ []) :
      Built node inv block (.missingPrerequisites missing)
  | ready {input : MohoRecursiveInput} {asm : Receipt} {prev : Option Receipt}
      (assembled : builder.Assembled node block asm prev input)
      (step : ∃ db, inv db ∧ db.getAsm (.single block) = some asm)
      (previous : (node.parent block = builder.genesis ∧ prev = none) ∨
        (node.parent block ≠ builder.genesis ∧
        ∃ db receipt, inv db ∧ db.getMoho (node.parent block) = some receipt ∧ prev = some receipt)) :
      Built node inv block (.ready input)

theorem keeps_buildMohoRuntimeInput (inv : SledProofDb → Prop) (block : L1BlockCommitment) :
    Keeps (fun ctx => inv ctx.db) (builder.buildMohoRuntimeInput world block)
      (builder.Built world.node inv block) := by
  refine (world.keeps_read _ _).bind fun asmProof isAsm => ?_
  apply (keeps_parentCommitment world block).bind
  rintro parent ⟨rfl, above⟩
  refine (keeps_fetchPrevMoho world _ _).bind fun prevMoho isPrev => ?_
  cases asmProof with
  | none =>
    exact keeps_pure (.missing above isAsm (fun other => isPrev (decide_eq_true other)) rfl nofun)
  | some asm =>
    by_cases isGenesis : world.node.parent block = builder.genesis
    · have free : decide (world.node.parent block ≠ builder.genesis) = false := by simpa using isGenesis
      rw [free]
      refine (keeps_assembleMohoInput world builder block asm none).mono ?_
      rintro input ⟨ready, rfl, assembled⟩
      exact .ready assembled isAsm (.inl ⟨isGenesis, rfl⟩)
    · have bound : decide (world.node.parent block ≠ builder.genesis) = true := by simpa using isGenesis
      rw [bound] at isPrev ⊢
      cases prevMoho with
      | none =>
        have noPrev : world.node.parent block ≠ builder.genesis →
            ∃ db, inv db ∧ db.getMoho (world.node.parent block) = none := fun _ => isPrev rfl
        refine keeps_pure (.missing above isAsm noPrev ?_ nofun)
        rw [bound]
      | some prev =>
        refine (keeps_assembleMohoInput world builder block asm (some prev)).mono ?_
        rintro input ⟨ready, rfl, assembled⟩
        obtain ⟨db, holds, found⟩ := isPrev rfl
        exact .ready assembled isAsm (.inr ⟨isGenesis, db, prev, holds, found, rfl⟩)

end InputBuilder

end

/-! ### Verification -/

structure EndpointMismatch where
  expected : StateRefAttestation
  actual : StateRefAttestation
  deriving DecidableEq

inductive VerifyError
  | receipt
  | decode (what : String)
  | wrongTarget (mismatch : EndpointMismatch)
  | wrongOrigin (mismatch : EndpointMismatch)
  | predicateMismatch
  deriving DecidableEq

/-- The transition that a receipt has to attest to. A step has to satisfy the predicate that its
parent names. -/
inductive ExpectedAttestation
  | step (attestation : StepMohoAttestation) (predicate : PredicateKey)
  | recursive (attestation : RecursiveMohoAttestation)
  deriving DecidableEq

structure ProofVerifier where
  moho : PredicateKey
  genesis : L1BlockCommitment

def InputBuilder.verifier (builder : InputBuilder) :
    ProofVerifier := ⟨builder.mohoPredicate, builder.genesis⟩

/-- The reference of a block is its hash. -/
def attestation (block : L1BlockCommitment) (state : MohoState) : StateRefAttestation :=
  ⟨block.blkid, ProverLibs.computeCommitment state⟩

def attested (block : L1BlockCommitment) : ProverM StateRefAttestation := do
  let state ← world.getMohoState block
  pure (attestation block state)

/-- Which end of a transition is not the expected one. -/
def diverged (expectedOrigin expectedTarget actualOrigin actualTarget : StateRefAttestation) :
    VerifyError :=
  if actualTarget ≠ expectedTarget then .wrongTarget ⟨expectedTarget, actualTarget⟩
  else .wrongOrigin ⟨expectedOrigin, actualOrigin⟩

namespace ProofVerifier

variable (verifier : ProofVerifier)

def expectedAttestation : ProofId → ProverM ExpectedAttestation
  | .asm range => do
    let block := range.last
    let parent ← parentCommitment world block
    let parentState ← world.getMohoState parent
    let target ← attested world block
    pure (.step ⟨attestation parent parentState, target⟩ parentState.nextPredicate)
  | .moho block => do
    let genesis ← attested world verifier.genesis
    let proven ← attested world block
    pure (.recursive ⟨genesis, proven⟩)

/-- The transition that the states of the node give for a proof. -/
def expected (node : Node) : ProofId → ExpectedAttestation
  | .asm range =>
    let parent := node.parent range.last
    .step ⟨attestation parent (node.mohoState parent),
      attestation range.last (node.mohoState range.last)⟩
      (node.mohoState parent).nextPredicate
  | .moho block =>
    .recursive ⟨attestation verifier.genesis (node.mohoState verifier.genesis),
      attestation block (node.mohoState block)⟩

theorem keeps_attested {inv : SledProofDb → Prop} (block : L1BlockCommitment) :
    Keeps (fun ctx => inv ctx.db) (attested world block) fun endpoint =>
      endpoint = attestation block (world.node.mohoState block) := by
  apply (world.keeps_getMohoState block).bind
  rintro state rfl
  exact keeps_pure rfl

theorem keeps_expectedAttestation {inv : SledProofDb → Prop} (id : ProofId) :
    Keeps (fun ctx => inv ctx.db) (verifier.expectedAttestation world id) fun attestation =>
      attestation = verifier.expected world.node id := by
  cases id with
  | asm range =>
    apply (keeps_parentCommitment world range.last).bind
    rintro parent ⟨rfl, -⟩
    apply (world.keeps_getMohoState _).bind
    rintro parentState rfl
    apply (keeps_attested world range.last).bind
    rintro target rfl
    exact keeps_pure rfl
  | moho block =>
    apply (keeps_attested world verifier.genesis).bind
    rintro genesis rfl
    apply (keeps_attested world block).bind
    rintro proven rfl
    exact keeps_pure rfl

def decode {α : Type} (what : String) : Option α → Except VerifyError α
  | none => .error (.decode what)
  | some a => .ok a

def verify (receipt : Receipt) : ExpectedAttestation → Except VerifyError Unit
  | .step attestation predicate => do
    if ¬ ProverLibs.verifyClaimWitness predicate receipt.publicValues receipt.proof then throw .receipt
    let actual ← decode "ASM step attestation" (ProverLibs.decodeStepAttestation receipt.publicValues)
    if actual = attestation then pure ()
    else throw (diverged attestation.origin attestation.target actual.origin actual.target)
  | .recursive attestation => do
    if ¬ ProverLibs.verifyClaimWitness verifier.moho receipt.publicValues receipt.proof then
      throw .receipt
    let output ← decode "moho recursive output" (ProverLibs.decodeRecursiveOutput receipt.publicValues)
    if output.mohoPredicate ≠ verifier.moho then throw .predicateMismatch
    if output.attestation = attestation then pure ()
    else throw (diverged attestation.genesis attestation.proven output.attestation.genesis
      output.attestation.proven)

/-- An accepted step receipt satisfies the predicate and commits to exactly the expected transition.
-/
theorem verify_step_iff {receipt : Receipt} {attestation : StepMohoAttestation}
    {predicate : PredicateKey} :
    verifier.verify receipt (.step attestation predicate) = .ok () ↔
      ProverLibs.verifyClaimWitness predicate receipt.publicValues receipt.proof = true ∧
        ProverLibs.decodeStepAttestation receipt.publicValues = some attestation := by
  unfold verify
  by_cases satisfied : ProverLibs.verifyClaimWitness predicate receipt.publicValues receipt.proof = true
  · cases ProverLibs.decodeStepAttestation receipt.publicValues with
    | none => simp [satisfied, decode]
    | some actual =>
      by_cases same : actual = attestation
      · simp [satisfied, decode, same]
      · simp [satisfied, decode, same]
  · simp [satisfied]

theorem verify_recursive_iff {receipt : Receipt} {attestation : RecursiveMohoAttestation} :
    verifier.verify receipt (.recursive attestation) = .ok () ↔
      ProverLibs.verifyClaimWitness verifier.moho receipt.publicValues receipt.proof = true ∧
        ProverLibs.decodeRecursiveOutput receipt.publicValues = some ⟨attestation, verifier.moho⟩ := by
  unfold verify
  by_cases satisfied : ProverLibs.verifyClaimWitness verifier.moho receipt.publicValues
    receipt.proof = true
  · cases ProverLibs.decodeRecursiveOutput receipt.publicValues with
    | none => simp [satisfied, decode]
    | some output =>
      obtain ⟨actual, predicate⟩ := output
      by_cases committed : predicate = verifier.moho
      · by_cases same : actual = attestation
        · simp [satisfied, decode, committed, same]
        · simp [satisfied, decode, committed, same]
      · simp [satisfied, decode, committed]
  · simp [satisfied]

end ProofVerifier

end

end Asm
