import AnchorStateMachine.Btc.HeaderChain
import AnchorStateMachine.Worker.State

/-! The check of an anchor against L1 agrees with header verification: it computes from absolute
heights what verification carries along from header to header. -/

namespace Asm
open Outcome HeaderVerificationState HeaderChain

section

variable [BitcoinLibs]

/-- The first height of the epoch of a height. -/
def epochStartHeight (network : Network) (height : Nat) : Nat :=
  getRelativeDifficultyAdjustmentHeight 0 height network

theorem epochStartHeight_le (network : Network) (height : Nat) :
    epochStartHeight network height ≤ height := by
  unfold epochStartHeight getRelativeDifficultyAdjustmentHeight
  exact Nat.div_mul_le_self _ _

theorem epochStartHeight_succ (network : Network) (height : Nat) :
    epochStartHeight network (height + 1) =
    if (height + 1) % BitcoinLibs.difficultyAdjustmentInterval network = 0 then height + 1
    else epochStartHeight network height := by
  unfold epochStartHeight getRelativeDifficultyAdjustmentHeight
  generalize BitcoinLibs.difficultyAdjustmentInterval network = interval
  dsimp only [Nat.add_zero]
  split
  · rename_i starts
    exact Nat.div_mul_cancel (Nat.dvd_of_mod_eq_zero starts)
  · rename_i inside
    rw [Nat.add_zero, Nat.add_zero, Nat.succ_div_of_not_dvd fun divides =>
      inside (Nat.mod_eq_zero_of_dvd divides)]

/-- The target of the block after a height, from the headers of the chain. -/
def expectedTarget (network : Network) (chain : Nat → Header) (height : Nat) : Nat :=
  if (height + 1) % BitcoinLibs.difficultyAdjustmentInterval network = 0 then
    BitcoinLibs.fromNextWorkRequired network (chain height).bits
      ((chain height).time - (chain (epochStartHeight network height)).time)
  else (chain height).bits

/-- The state is the one that the chain has at its height. -/
structure Agrees (chain : Nat → Header) (state : HeaderVerificationState) : Prop where
  blkid : state.lastVerifiedBlock.blkid = computeBlockHash (chain state.lastVerifiedBlock.height)
  epochStart : state.epochStartTimestamp =
    (chain (epochStartHeight state.network state.lastVerifiedBlock.height)).time
  target : state.nextBlockTarget = expectedTarget state.network chain state.lastVerifiedBlock.height

variable {l1 : L1DataProvider} {chain : Nat → Header} {state next : HeaderVerificationState}

theorem validateAnchorAgainstL1_iff
    (served : ∀ height ≤ state.lastVerifiedBlock.height, l1.getL1BlockHeaderAtHeight height =
      .ok (chain height)) :
    validateAnchorAgainstL1 l1 state = .ok () ↔ l1.getNetwork = .ok state.network ∧
      Agrees chain state := by
  have atHeight := served _ (Nat.le_refl _)
  have atEpoch := served _ (epochStartHeight_le state.network state.lastVerifiedBlock.height)
  unfold epochStartHeight at atEpoch
  constructor
  · intro h
    obtain ⟨network, isNetwork, h⟩ := bind_ok h
    by_cases other : network ≠ state.network
    · rw [if_pos other] at h
      cases h
    rw [if_neg other, atHeight] at h
    rw [not_not] at other
    subst other
    by_cases wrongBlock : computeBlockHash (chain state.lastVerifiedBlock.height) ≠
      state.lastVerifiedBlock.blkid
    · rw [ok_bind, if_pos wrongBlock] at h
      cases h
    rw [ok_bind, if_neg wrongBlock] at h
    dsimp only at h
    rw [atEpoch, ok_bind] at h
    split at h
    · cases h
    · rename_i start
      by_cases wrongTarget : expectedTarget state.network chain state.lastVerifiedBlock.height ≠
        state.nextBlockTarget
      · cases (if_pos wrongTarget).symm.trans h
      · exact ⟨isNetwork, (not_not.mp wrongBlock).symm, (not_not.mp start).symm,
          (not_not.mp wrongTarget).symm⟩
  · rintro ⟨isNetwork, blkid, epochStart, target⟩
    unfold validateAnchorAgainstL1
    unfold expectedTarget epochStartHeight at target
    unfold epochStartHeight at epochStart
    simp only [isNetwork, ok_bind, atHeight, atEpoch, ← blkid, ← epochStart, ne_eq, not_true, if_false]
    rw [epochStart, if_neg (not_not.mpr target.symm)]
    rfl

theorem check_bits {header : Header} (h : state.check header = .ok ()) :
    header.bits = state.nextBlockTarget := by
  unfold check at h
  split at h
  · cases h
  · split at h
    · cases h
    · rename_i sameBits
      exact not_not.mp sameBits

/-- An accepted header carries the agreement to the next height. -/
theorem Agrees.update (agrees : Agrees chain state)
    (accepts : (checkAndUpdateMut (chain (state.lastVerifiedBlock.height + 1))).run state =
      .ok (.ok (), next)) :
    Agrees chain next := by
  obtain ⟨checked, updates⟩ := checkAndUpdate_eq_ok (accepts_iff.mp accepts)
  have height : next.lastVerifiedBlock.height = state.lastVerifiedBlock.height + 1 := by
    rw [updates.lastVerifiedBlock]
  have bits := check_bits checked
  have start : next.epochStartTimestamp =
      (chain (epochStartHeight next.network next.lastVerifiedBlock.height)).time := by
    rw [updates.epochStart, height, updates.network, epochStartHeight_succ, agrees.epochStart]
    by_cases starts : state.StartsEpoch 1
    · rw [if_pos starts, if_pos (show _ % _ = 0 from starts)]
    · rw [if_neg starts, if_neg (show ¬ _ % _ = 0 from starts)]
  refine ⟨?_, start, ?_⟩
  · rw [height, updates.lastVerifiedBlock]
  · rw [updates.target, expectedTarget, ← start, height, updates.network, bits]
    by_cases turns : state.StartsEpoch 2
    · rw [if_pos turns, if_pos (show _ % _ = 0 from turns)]
    · rw [if_neg turns, if_neg (show ¬ _ % _ = 0 from turns)]

theorem HeaderChain.Accepted.agrees {anchor : L1Anchor} {headers : List Header}
    (accepted : Accepted anchor headers state) (agrees : Agrees chain (.init anchor))
    (onChain : headers = (List.range' (anchor.block.height + 1) headers.length).map chain) :
    Agrees chain state := by
  induction accepted with
  | init => exact agrees
  | @accept past state next header before accepts ih =>
    rw [List.length_append, List.length_singleton, List.range'_1_concat, List.map_append] at onChain
    obtain ⟨pastOnChain, last⟩ := List.append_inj' onChain rfl
    have isTip := before.refines.lastVerifiedBlock
    have isNext : header = chain (state.lastVerifiedBlock.height + 1) := by
      simp only [List.map_cons, List.map_nil, List.cons.injEq, and_true] at last
      rw [isTip, tip, last]
      congr 1
      dsimp only
      omega
    subst isNext
    exact (ih pastOnChain).update accepts

/-- The anchor that a state stands for. -/
def HeaderVerificationState.anchor (state : HeaderVerificationState) : L1Anchor :=
  ⟨state.lastVerifiedBlock, state.nextBlockTarget, state.epochStartTimestamp, state.network⟩

theorem Agrees.anchor_eq {other : L1Anchor} (agrees : Agrees chain state)
    (otherAgrees : Agrees chain (.init other))
    (sameHeight : other.block.height = state.lastVerifiedBlock.height)
    (sameNetwork : other.network = state.network) :
    other = state.anchor := by
  have blkid : other.block.blkid = computeBlockHash (chain other.block.height) := otherAgrees.blkid
  have start : other.epochStartTimestamp =
      (chain (epochStartHeight other.network other.block.height)).time :=
    otherAgrees.epochStart
  have target : other.nextTarget = expectedTarget other.network chain other.block.height :=
    otherAgrees.target
  rw [sameHeight] at blkid
  rw [sameHeight, sameNetwork] at start target
  obtain ⟨⟨height, otherBlkid⟩, otherTarget, otherStart, otherNetwork⟩ := other
  obtain ⟨network, ⟨stateHeight, stateBlkid⟩, nextTarget, epochStart, history, pow⟩ := state
  simp only [HeaderVerificationState.anchor, L1Anchor.mk.injEq, L1BlockCommitment.mk.injEq]
  exact ⟨⟨sameHeight, blkid.trans agrees.blkid.symm⟩, target.trans agrees.target.symm,
    start.trans agrees.epochStart.symm, sameNetwork⟩

/-- From an anchor that L1 confirms, verification of the next headers of the chain leads to the
anchor that L1 confirms at their height, and to no other. -/
theorem anchor_check_agrees {anchor : L1Anchor} {height : Nat}
    (served : ∀ k ≤ height, l1.getL1BlockHeaderAtHeight k = .ok (chain k))
    (above : anchor.block.height ≤ height)
    (valid : validateAnchorAgainstL1 l1 (.init anchor) = .ok ())
    (accepted : Accepted anchor
      ((List.range' (anchor.block.height + 1) (height - anchor.block.height)).map chain) state) :
    state.anchor.block.height = height ∧
    validateAnchorAgainstL1 l1 (.init state.anchor) = .ok () ∧
    ∀ other : L1Anchor, other.block.height = height → validateAnchorAgainstL1 l1 (.init other) = .ok () →
      other = state.anchor := by
  have servedAnchor : ∀ k ≤ (HeaderVerificationState.init anchor).lastVerifiedBlock.height,
      l1.getL1BlockHeaderAtHeight k = .ok (chain k) := fun k below => served k (below.trans above)
  obtain ⟨isNetwork, anchored⟩ := (validateAnchorAgainstL1_iff servedAnchor).mp valid
  have refines := accepted.refines
  have network : state.network = anchor.network := refines.network
  have reached : state.lastVerifiedBlock.height = height := by
    rw [refines.lastVerifiedBlock, tip, List.length_map, List.length_range']
    dsimp only
    omega
  have agrees := accepted.agrees anchored (by rw [List.length_map, List.length_range'])
  refine ⟨reached, ?_, ?_⟩
  · apply (validateAnchorAgainstL1_iff _).mpr
    · exact ⟨isNetwork.trans (congrArg Except.ok network.symm), agrees.blkid, agrees.epochStart,
        agrees.target⟩
    · intro k below
      exact served k (below.trans reached.le)
  · intro other atHeight otherValid
    have otherServed : ∀ k ≤ (HeaderVerificationState.init other).lastVerifiedBlock.height,
        l1.getL1BlockHeaderAtHeight k = .ok (chain k) :=
          fun k below => served k (below.trans atHeight.le)
    obtain ⟨otherNetwork, otherAgrees⟩ := (validateAnchorAgainstL1_iff otherServed).mp otherValid
    have sameNetwork : other.network = state.network :=
      (Except.ok.inj (otherNetwork.symm.trans isNetwork)).trans network.symm
    exact agrees.anchor_eq otherAgrees (atHeight.trans reached.symm) sameNetwork

end

section

attribute [local instance] sampleHeaderLibs

/-- The sample headers after height 3, and headers of one time and target up to there. -/
def sampleHeaderAt : Nat → Header
  | 4 => sampleChild 3 10 1
  | 5 => sampleChild 4 13 1
  | 6 => sampleChild 5 12 4
  | height => sampleChild (height - 1) 5 1

def sampleHeaderSource : L1DataProvider where
  getL1Block _ := .error .btcRpc
  getL1BlockHeader _ := .error .btcRpc
  getL1BlockHeaderAtHeight height := .ok (sampleHeaderAt height)
  getL1BlockHeight _ := .error .btcRpc
  getBitcoinTx _ := .error .btcRpc
  getNetwork := .ok .regtest

theorem anchor_check_agrees_sample :
    ∃ state, Accepted sampleAnchor ((List.range' 4 3).map sampleHeaderAt) state ∧
    validateAnchorAgainstL1 sampleHeaderSource (.init sampleAnchor) = .ok () ∧
    validateAnchorAgainstL1 sampleHeaderSource (.init state.anchor) = .ok () ∧
      state.anchor.block.height = 6 := by
  obtain ⟨_, _, state, first, second, third⟩ := sample_accepted
  have accepted : Accepted sampleAnchor ((List.range' 4 3).map sampleHeaderAt) state :=
    Accepted.accept (.accept (.accept .init first) second) third
  have valid : validateAnchorAgainstL1 sampleHeaderSource (.init sampleAnchor) = .ok () := rfl
  have low : sampleAnchor.block.height ≤ 6 := by decide
  obtain ⟨reached, confirmed, -⟩ := anchor_check_agrees (fun _ _ => rfl) low valid accepted
  exact ⟨state, accepted, valid, confirmed, reached⟩

end
end Asm
