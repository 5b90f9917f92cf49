import AnchorStateMachine.Btc.Body
import AnchorStateMachine.Common.Panic
import Mathlib.Data.List.Sort

/-! Header verification: continuity, proof of work and timestamps along the L1 chain. -/

namespace Asm

/-! ### Timestamps -/

def timestampsForMedian : Nat := 11

/-- A ring of the latest block timestamps; `head` is where the next one goes. -/
structure TimestampStore where
  buffer : List Nat
  head : Nat
  size : buffer.length = timestampsForMedian
  inBounds : head < timestampsForMedian
  deriving DecidableEq

namespace TimestampStore

def empty : TimestampStore := ⟨List.replicate timestampsForMedian 0, 0, rfl, by decide⟩

def insert (store : TimestampStore) (timestamp : Nat) : TimestampStore where
  buffer := store.buffer.set store.head timestamp
  head := (store.head + 1) % timestampsForMedian
  size := by rw [List.length_set, store.size]
  inBounds := Nat.mod_lt _ (by decide)

def median (store : TimestampStore) : Nat :=
  (store.buffer.insertionSort (· ≤ ·)).getD (timestampsForMedian / 2) 0

end TimestampStore

/-! ### Header chain -/

structure L1Anchor where
  block : L1BlockCommitment
  nextTarget : Nat
  epochStartTimestamp : Nat
  network : Network
  deriving DecidableEq

structure HeaderVerificationState where
  network : Network
  lastVerifiedBlock : L1BlockCommitment
  nextBlockTarget : Nat
  epochStartTimestamp : Nat
  blockTimestampHistory : TimestampStore
  totalAccumulatedPow : Nat
  deriving DecidableEq

inductive L1VerificationError
  | continuityError (expected found : Buf32)
  | powMismatch (expected found : Nat)
  | powNotMet (blockHash : Buf32) (target : Nat)
  | timestampError (time median : Nat)
  deriving DecidableEq

namespace HeaderVerificationState

def init (anchor : L1Anchor) : HeaderVerificationState where
  network := anchor.network
  lastVerifiedBlock := anchor.block
  nextBlockTarget := anchor.nextTarget
  epochStartTimestamp := anchor.epochStartTimestamp
  blockTimestampHistory := .empty
  totalAccumulatedPow := 0

def addWork (a b : Nat) : Exec Nat :=
  if a + b < 2 ^ 256 then pure (a + b) else throw .arithmeticOverflow

variable [BitcoinLibs]

/-- The target after the last verified block, whose header is given. A block may be older than the
start of its epoch; the timespan is then zero. -/
def nextTarget (state : HeaderVerificationState) (header : Header) : Exec Nat := do
  let nextHeight ← addU32 state.lastVerifiedBlock.height 1
  if nextHeight % BitcoinLibs.difficultyAdjustmentInterval state.network ≠ 0 then
    pure state.nextBlockTarget
  else
    let timespan := header.time - state.epochStartTimestamp
    pure (BitcoinLibs.fromNextWorkRequired state.network header.bits timespan)

def updateTimestamps (state : HeaderVerificationState) (timestamp : Nat) : HeaderVerificationState :=
  let startsEpoch :=
    state.lastVerifiedBlock.height % BitcoinLibs.difficultyAdjustmentInterval state.network = 0
  { state with
    blockTimestampHistory := state.blockTimestampHistory.insert timestamp
    epochStartTimestamp := if startsEpoch then timestamp else state.epochStartTimestamp }

def computeBlockHash (header : Header) : Buf32 := sha256d (BitcoinLibs.encodeHeader header)

def check (state : HeaderVerificationState) (header : Header) : Except L1VerificationError Unit :=
  if header.prevBlockhash ≠ state.lastVerifiedBlock.blkid then
    .error (.continuityError state.lastVerifiedBlock.blkid header.prevBlockhash)
  else if header.bits ≠ state.nextBlockTarget then
    .error (.powMismatch state.nextBlockTarget header.bits)
  else if header.time ≤ state.blockTimestampHistory.median then
    .error (.timestampError header.time state.blockTimestampHistory.median)
  else if ¬ BitcoinLibs.targetMetBy header.bits (computeBlockHash header) then
    .error (.powNotMet (computeBlockHash header) header.bits)
  else .ok ()

def update (state : HeaderVerificationState) (header : Header) : Exec HeaderVerificationState := do
  let nextHeight ← addU32 state.lastVerifiedBlock.height 1
  let state := { state with lastVerifiedBlock := ⟨nextHeight, computeBlockHash header⟩ }
  let state := state.updateTimestamps header.time
  let nextBlockTarget ← state.nextTarget header
  let totalAccumulatedPow ←
    addWork state.totalAccumulatedPow (BitcoinLibs.headerWork header.bits)
  pure { state with nextBlockTarget, totalAccumulatedPow }

def checkAndUpdate (state : HeaderVerificationState) (header : Header) :
    Exec (Except L1VerificationError HeaderVerificationState) :=
  match state.check header with
  | .error error => pure (.error error)
  | .ok () => do
    let updated ← state.update header
    pure (.ok updated)

theorem checkAndUpdate_ok {state updated : HeaderVerificationState} {header : Header}
    (h : state.checkAndUpdate header = .ok (.ok updated)) :
    updated.lastVerifiedBlock = ⟨state.lastVerifiedBlock.height + 1, computeBlockHash header⟩ ∧
      updated.network = state.network ∧ updated.lastVerifiedBlock.height < u32Bound := by
  unfold checkAndUpdate at h
  split at h
  · cases Outcome.pure_ok h
  · obtain ⟨_, advanced, h⟩ := Outcome.bind_ok h
    cases Outcome.pure_ok h
    obtain ⟨_, height, h⟩ := Outcome.bind_ok advanced
    obtain ⟨rfl, bounded⟩ := addU32_ok height
    obtain ⟨_, _, h⟩ := Outcome.bind_ok h
    obtain ⟨_, _, h⟩ := Outcome.bind_ok h
    cases Outcome.pure_ok h
    exact ⟨rfl, rfl, bounded⟩

theorem checkAndUpdate_error {state : HeaderVerificationState} {header : Header} {panic : Panic}
    (h : state.checkAndUpdate header = .error panic) : panic = .arithmeticOverflow := by
  unfold checkAndUpdate at h
  split at h
  · cases h
  · rcases Outcome.bind_error h with stopped | ⟨_, _, h⟩
    · rcases Outcome.bind_error stopped with height | ⟨_, _, stopped⟩
      · exact addU32_error height
      · rcases Outcome.bind_error stopped with target | ⟨_, _, stopped⟩
        · rcases Outcome.bind_error target with height | ⟨_, _, target⟩
          · exact addU32_error height
          · split at target <;> cases target
        · rcases Outcome.bind_error stopped with work | ⟨_, _, stopped⟩
          · unfold addWork at work
            split at work
            · cases work
            · cases work
              rfl
          · cases stopped
    · cases h

end HeaderVerificationState
end Asm
