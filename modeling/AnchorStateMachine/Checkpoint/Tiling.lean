import AnchorStateMachine.Checkpoint.Governance

/-! The checkpoints a run accepts, in order: their epochs count up, and their L1 ranges tile the chain
from the genesis height to the verified tip. -/

namespace Asm
open Outcome

namespace Checkpoint
open CheckpointState

/-- An accepted checkpoint, with the block it was in, the auxiliary data of that block, and the tip
and predicate it was verified against. -/
structure Acceptance where
  height : Nat
  aux : VerifiedAuxData
  last : CheckpointTip
  predicate : PredicateKey
  checkpoint : AcceptedCheckpoint

namespace Acceptance

def tip (acceptance : Acceptance) : CheckpointTip := acceptance.checkpoint.payload.newTip

def heights (acceptance : Acceptance) : List Nat := acceptance.checkpoint.coverage.heights

end Acceptance

section

variable [CheckpointLibs]

def acceptanceOf (visit : StepVisit) : Option Acceptance :=
  match visit.input, accepts visit.pre visit.input with
  | .tx height aux _, .ok (some checkpoint) =>
    some ⟨height, aux, visit.pre.verifiedTip, visit.pre.checkpointPredicate, checkpoint⟩
  | _, _ => none

def acceptances (history : List StepVisit) : List Acceptance := history.filterMap acceptanceOf

structure Acceptance.Checked (acceptance : Acceptance) : Prop where
  epoch : acceptance.tip.epoch = acceptance.last.epoch + 1
  slot : acceptance.last.l2Commitment.slot < acceptance.tip.l2Commitment.slot
  ascends : acceptance.last.l1Height ≤ acceptance.tip.l1Height
  below : acceptance.tip.l1Height < acceptance.height
  heights : acceptance.heights = List.range' (acceptance.last.l1Height + 1)
    (acceptance.tip.l1Height - acceptance.last.l1Height)
  manifests : coveredManifestsHash acceptance.checkpoint.coverage acceptance.aux =
    .ok acceptance.checkpoint.asmManifestsHash
  proven : verifyProof acceptance.predicate acceptance.last acceptance.checkpoint.payload
    acceptance.checkpoint.asmManifestsHash = .ok ()

theorem accepts_checked {state : CheckpointState} {height : Nat} {aux : VerifiedAuxData}
    {accepted : AcceptedCheckpoint} (accepts : Accepts state height aux accepted) :
    Acceptance.Checked ⟨height, aux, state.verifiedTip, state.checkpointPredicate, accepted⟩ := by
  have progress := verifyProgression_ok accepts.progression
  exact ⟨progress.epoch, progress.slot, progress.ascends, progress.below, progress.heights,
    accepts.manifests, accepts.proven⟩

/-- Checkpoints in order, from one tip to another: each starts from the tip of the one before. -/
structure Tiles (first : CheckpointTip) (tiles : List Acceptance) (last : CheckpointTip) : Prop where
  chained : tiles.map (·.last) ++ [last] = first :: tiles.map (·.tip)
  checked : ∀ tile ∈ tiles, tile.Checked
  epochs : tiles.map (·.tip.epoch) = List.range' (first.epoch + 1) tiles.length
  epoch : last.epoch = first.epoch + tiles.length
  slots : (tiles.map (·.tip.l2Commitment.slot)).Pairwise (· < ·)
  slot : ∀ tile ∈ tiles, tile.tip.l2Commitment.slot ≤ last.l2Commitment.slot
  covered : tiles.flatMap (·.heights) = List.range' (first.l1Height + 1) (last.l1Height - first.l1Height)
  ascends : first.l1Height ≤ last.l1Height

theorem tiles_nil (tip : CheckpointTip) : Tiles tip [] tip :=
  ⟨rfl, nofun, rfl, rfl, .nil, nofun, by simp, le_rfl⟩

theorem Tiles.snoc {first last : CheckpointTip} {tiles : List Acceptance} {tile : Acceptance}
    (chain : Tiles first tiles last) (checked : tile.Checked) (next : tile.last = last) :
    Tiles first (tiles ++ [tile]) tile.tip := by
  subst next
  obtain ⟨chained, each, epochs, epoch, slots, slot, covered, ascends⟩ := chain
  have newEpoch := checked.epoch
  have newSlot := checked.slot
  have newAscends := checked.ascends
  refine ⟨?_, ?_, ?_, ?_, ?_, ?_, ?_, by omega⟩
  · rw [List.map_append, List.map_singleton, List.map_append, List.map_singleton, chained]
    rfl
  · intro other mem
    rcases List.mem_append.mp mem with old | new
    · exact each other old
    · rw [List.mem_singleton.mp new]
      exact checked
  · rw [List.map_append, epochs, List.length_append, List.range'_append_1.symm]
    simp only [List.map_singleton, List.length_singleton, List.range'_one]
    rw [newEpoch, epoch, Nat.add_right_comm]
  · rw [newEpoch, epoch, List.length_append]
    rfl
  · rw [List.map_append, List.pairwise_append]
    refine ⟨slots, List.pairwise_singleton _ _, fun before old after new => ?_⟩
    obtain ⟨other, mem, rfl⟩ := List.mem_map.mp old
    have bound := slot other mem
    rw [List.map_singleton, List.mem_singleton] at new
    omega
  · intro other mem
    rcases List.mem_append.mp mem with old | new
    · exact (slot other old).trans (Nat.le_of_lt newSlot)
    · rw [List.mem_singleton.mp new]
  · rw [List.flatMap_append, covered, List.flatMap_singleton, checked.heights]
    have start : tile.last.l1Height + 1 =
        first.l1Height + 1 + (tile.last.l1Height - first.l1Height) := by
      omega
    rw [start, List.range'_append_1]
    congr 1
    omega

/-! ### Runs -/

variable {state post : CheckpointState} {event : Event}

theorem acceptances_snoc (past : List StepVisit) (visit : StepVisit) :
    acceptances (past ++ [visit]) = acceptances past ++ (acceptanceOf visit).toList := by
  rw [acceptances, List.filterMap_append]
  cases here : acceptanceOf visit <;> simp [acceptances, here]

theorem step_tiles {first : CheckpointTip} {past : List StepVisit}
    (tiles : Tiles first (acceptances past) state.verifiedTip) (h : step state event = .ok post) :
    Tiles first (acceptances (past ++ [⟨state, event, post⟩])) post.verifiedTip := by
  rw [acceptances_snoc]
  rcases step_cases h with ⟨rejected, rfl, height, aux, tx, rfl⟩ |
    ⟨height, aux, tx, accepted, rfl, decided, accepts, rfl⟩ | ⟨l1ref, msg, rfl, -, processed⟩
  · have none : acceptanceOf ⟨post, .tx height aux tx, post⟩ = none := by simp [acceptanceOf, rejected]
    rwa [none, Option.toList_none, List.append_nil]
  · have found : acceptanceOf ⟨state, .tx height aux tx, accepted.post⟩ =
        some ⟨height, aux, state.verifiedTip, state.checkpointPredicate, accepted⟩ := by
      simp [acceptanceOf, decided]
    rw [found, accepts.tip]
    exact tiles.snoc (accepts_checked accepts) rfl
  · have none : acceptanceOf ⟨state, .msg l1ref msg, post⟩ = none := rfl
    rwa [none, Option.toList_none, List.append_nil, processMsg_tip processed]

theorem events_tile {events : List Event} (h : events.foldlM step state = .ok post) :
    Tiles state.verifiedTip (acceptances (visits step state events)) post.verifiedTip :=
  foldlM_history (f := step) (fun past current =>
    Tiles state.verifiedTip (acceptances past) current.verifiedTip) []
    (fun _ _ _ _ _ tiles stepped => step_tiles tiles stepped) (tiles_nil _) h

end
end Checkpoint
end Asm
