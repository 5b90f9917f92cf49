import AnchorStateMachine.Library.Keyed
import AnchorStateMachine.Stf.Transition

/-! The programs a worker can execute, each under the predicate that authorizes it. -/

namespace Asm

inductive AnchorMismatch
  | network (anchor l1 : Network)
  | block (height : Nat) (anchor l1 : Buf32)
  | epochStartTimestamp (epochStartHeight anchor l1 : Nat)
  | nextTarget (anchor l1 : Nat)
  deriving DecidableEq

inductive WorkerError
  | unsupportedExecutionPredicate (predicate : PredicateKey)
  | duplicateExecutionPredicate
  | duplicateExecutionSpec (specId : Nat)
  | unsupportedExecutionSpec (specId : Nat)
  | recoveryManifestMismatch (anchor manifest : L1BlockCommitment)
  | genesisSpecMismatch
  | genesisStateMismatch
  | partialManifestMmr (leafCount expected : Nat)
  | missingManifest (block : L1BlockCommitment)
  | invalidRecoveryAnchor (block : L1BlockCommitment)
  | asmError (error : AsmError)
  | missingGenesisState
  | anchorMismatch (mismatch : AnchorMismatch)
  | missingAsmState (blkid : Buf32)
  | btcRpc
  | dbError
  | manifestHashNotFound (index : Nat)
  | mmrProofFailed (index : Nat)
  deriving DecidableEq

/-- The supported programs. No two have one predicate, and no two have one spec id. -/
structure ExecutionRegistry [MerkleMountainRange] where
  targets : List (PredicateKey × AsmSpec)
  predicates : (targets.map Prod.fst).Nodup
  specIds : (targets.map fun target => target.2.id).Nodup

def AnchorState.lastProcessedBlock [MerkleMountainRange] (state : AnchorState) : L1BlockCommitment :=
  state.chainView.powState.lastVerifiedBlock

namespace ExecutionRegistry

variable [MerkleMountainRange]

def empty : ExecutionRegistry := ⟨[], .nil, .nil⟩

def register (registry : ExecutionRegistry) (predicate : PredicateKey) (spec : AsmSpec) :
    Except WorkerError ExecutionRegistry :=
  if known : predicate ∈ registry.targets.map Prod.fst then .error .duplicateExecutionPredicate
  else if taken : spec.id ∈ registry.targets.map fun target => target.2.id then
    .error (.duplicateExecutionSpec spec.id)
  else .ok {
    targets := registry.targets ++ [(predicate, spec)]
    predicates := Keyed.nodup_concat _ registry.predicates known
    specIds := Keyed.nodup_concat _ registry.specIds taken }

def predicate (registry : ExecutionRegistry) (specId : Nat) : Except WorkerError PredicateKey :=
  match registry.targets.find? (·.2.id = specId) with
  | none => .error (.unsupportedExecutionSpec specId)
  | some (key, _) => .ok key

def resolve (registry : ExecutionRegistry) (predicate : PredicateKey) : Except WorkerError AsmSpec :=
  match registry.targets.find? (·.1 = predicate) with
  | none => .error (.unsupportedExecutionPredicate predicate)
  | some (_, target) => .ok target

theorem resolve_ok {registry : ExecutionRegistry} {predicate : PredicateKey} {target : AsmSpec} :
    registry.resolve predicate = .ok target ↔ (predicate, target) ∈ registry.targets := by
  have found := Keyed.find?_iff Prod.fst registry.predicates (k := predicate) (x := (predicate, target))
  rw [and_iff_left rfl] at found
  rw [← found, resolve]
  split
  · rename_i absent
    rw [absent]
    exact ⟨nofun, nofun⟩
  · rename_i key spec isFirst
    have isKey : key = predicate := by simpa using List.find?_some isFirst
    rw [isFirst, isKey]
    simp

/-- The program that is resolved for a predicate leads back to it by its spec id. -/
theorem predicate_of_resolve {registry : ExecutionRegistry} {key : PredicateKey} {target : AsmSpec}
    (resolved : registry.resolve key = .ok target) : registry.predicate target.id = .ok key := by
  have mem := resolve_ok.mp resolved
  have found := (Keyed.find?_iff (fun target : PredicateKey × AsmSpec => target.2.id)
    registry.specIds).mpr ⟨mem, rfl⟩
  rw [predicate, found]


/-- The predicate for the block after a committed anchor, from its manifest or else from the program
that produced it. -/
def recoverPredicate (registry : ExecutionRegistry) (anchor : AnchorState) (manifest : AsmManifest) :
    Except WorkerError PredicateKey :=
  let block := anchor.lastProcessedBlock
  if manifest.height ≠ block.height ∨ manifest.blkid ≠ block.blkid then
    .error (.recoveryManifestMismatch block ⟨manifest.height, manifest.blkid⟩)
  else
    match extractNextPredicateFromLogs manifest.logs with
    | some predicate => .ok predicate
    | none => registry.predicate anchor.specId

end ExecutionRegistry
end Asm
