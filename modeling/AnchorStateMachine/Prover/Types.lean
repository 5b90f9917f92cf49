import AnchorStateMachine.Moho.Worker
import Mathlib.Data.Finset.Max

/-! The names that the prover worker gives to proofs and to the jobs that produce them, its errors,
and the queue of the proofs that are still to be acquired. -/

namespace Asm

/-! ### Proofs and jobs -/

/-- A range of blocks. Both ends belong to it. -/
structure L1Range where
  start : L1BlockCommitment
  last : L1BlockCommitment
  deriving DecidableEq

def L1Range.single (block : L1BlockCommitment) : L1Range := ⟨block, block⟩

inductive ProofId
  | asm (range : L1Range)
  | moho (block : L1BlockCommitment)
  deriving DecidableEq

namespace ProofId

def height : ProofId → Nat
  | asm range => range.start.height
  | moho block => block.height

def variantRank : ProofId → Nat
  | asm _ => 0
  | moho _ => 1

/-- Lower heights come first, and at one height the step proof comes before the recursive proof that
needs it. -/
def key (id : ProofId) : Nat ×ₗ Nat ×ₗ L1BlockCommitment ×ₗ L1BlockCommitment :=
  match id with
  | asm range => toLex (id.height, toLex (id.variantRank, toLex (range.start, range.last)))
  | moho block => toLex (id.height, toLex (id.variantRank, toLex (block, block)))

theorem key_injective : Function.Injective key := by
  intro a b same
  cases a with
  | asm range =>
    cases b with
    | asm other =>
      simp only [key, toLex_inj, Prod.mk.injEq] at same
      obtain ⟨-, -, start, last⟩ := same
      cases range
      cases other
      cases start
      cases last
      rfl
    | moho block => simp [key, variantRank] at same
  | moho block =>
    cases b with
    | asm other => simp [key, variantRank] at same
    | moho other =>
      simp only [key, toLex_inj, Prod.mk.injEq] at same
      rw [same.2.2.1]

instance : LinearOrder ProofId := LinearOrder.lift' key key_injective

end ProofId

/-- The name that the remote prover gives to a job: bytes that only the prover can read. -/
structure RemoteProofId where
  bytes : Bytes
  deriving DecidableEq

instance : LinearOrder RemoteProofId :=
  LinearOrder.lift' (fun remoteId => remoteId.bytes.map UInt8.toNat) fun a b same => by
    cases a
    cases b
    exact congrArg RemoteProofId.mk (List.map_injective_iff.mpr (fun _ _ => UInt8.toNat_inj.mp) same)

inductive RemoteProofStatus
  | requested
  | inProgress
  | completed
  | failed (reason : String)
  deriving DecidableEq

def RemoteProofStatus.isActive : RemoteProofStatus → Bool
  | requested | inProgress => true
  | completed | failed _ => false

/-! ### Errors -/

/-- The errors of the running worker. What a backend says of its own failures is left out. -/
inductive ProverError
  | unknownArtifact (predicate : PredicateKey)
  | unsupportedAsmRange
  | unsupportedAsmPredicate (specId : Nat)
  | missingDependency (dependency : String)
  | storage (context : String)
  | notFound (what : String)
  | decode (what : String)
  | remoteStatus
  | remoteRetrieve
  | remoteSubmit
  | peer (context : String)
  | peerUnaddressable (what : String)
  | remoteIdDecode
  deriving DecidableEq

/-- The node lacks the program that the chain authorizes, so that trying again cannot help. -/
def ProverError.isTerminal : ProverError → Bool
  | unsupportedAsmPredicate _ | unsupportedAsmRange | unknownArtifact _ => true
  | _ => false

/-! ### The queue -/

structure PendingProofQueue where
  pending : Finset ProofId
  deriving DecidableEq

namespace PendingProofQueue

def new : PendingProofQueue := ⟨∅⟩

def enqueue (queue : PendingProofQueue) (id : ProofId) : PendingProofQueue := ⟨insert id queue.pending⟩

def dequeueOne (queue : PendingProofQueue) : Option (ProofId × PendingProofQueue) :=
  if some : queue.pending.Nonempty then
    Option.some (queue.pending.min' some, ⟨queue.pending.erase (queue.pending.min' some)⟩)
  else none

variable {queue rest : PendingProofQueue} {id : ProofId}

@[simp] theorem mem_enqueue {other : ProofId} :
    id ∈ (queue.enqueue other).pending ↔ id = other ∨ id ∈ queue.pending := Finset.mem_insert

theorem mem_enqueueAll {ids : List ProofId} :
    id ∈ (ids.foldl enqueue queue).pending ↔ id ∈ ids ∨ id ∈ queue.pending := by
  induction ids generalizing queue with
  | nil => simp
  | cons first ids ih =>
    rw [List.foldl_cons, ih, mem_enqueue, List.mem_cons]
    tauto

theorem dequeueOne_none (h : queue.dequeueOne = none) : queue.pending = ∅ := by
  unfold dequeueOne at h
  split at h
  · cases h
  · rename_i empty
    exact Finset.not_nonempty_iff_eq_empty.mp empty

/-- The first id is taken out, and only it. -/
structure Dequeued (queue : PendingProofQueue) (id : ProofId) (rest : PendingProofQueue) : Prop where
  mem : id ∈ queue.pending
  first : ∀ other ∈ queue.pending, id ≤ other
  left : rest.pending = queue.pending.erase id

theorem dequeueOne_some (h : queue.dequeueOne = some (id, rest)) : Dequeued queue id rest := by
  unfold dequeueOne at h
  split at h
  · cases h
    exact ⟨Finset.min'_mem _ _, fun other mem => Finset.min'_le _ other mem, rfl⟩
  · cases h

theorem Dequeued.mem_iff (taken : Dequeued queue id rest) {other : ProofId} :
    other ∈ rest.pending ↔ other ≠ id ∧ other ∈ queue.pending := by
  rw [taken.left, Finset.mem_erase]

theorem Dequeued.cases (taken : Dequeued queue id rest) {other : ProofId} (mem : other ∈ queue.pending) :
    other = id ∨ other ∈ rest.pending := by
  by_cases same : other = id
  · exact .inl same
  · exact .inr (taken.mem_iff.mpr ⟨same, mem⟩)

theorem Dequeued.card_lt (taken : Dequeued queue id rest) : rest.pending.card < queue.pending.card := by
  rw [taken.left]
  exact Finset.card_erase_lt_of_mem taken.mem

end PendingProofQueue

end Asm
