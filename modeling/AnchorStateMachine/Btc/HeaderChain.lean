import AnchorStateMachine.Btc.Header
import Mathlib.Data.List.Infix
import Mathlib.Data.List.Rotate

/-! What header verification keeps is a function of the anchor and the headers accepted since: the
times of the last eleven, the start of the epoch, the target that is required next and the work. -/

namespace Asm
open Outcome

/-! ### Timestamps -/

/-- Overwriting the oldest entry of a ring drops it from the front and adds the new one at the end. -/
theorem rotate_set {α : Type*} {ring : List α} {head : Nat} (inBounds : head < ring.length) (a : α) :
    (ring.set head a).rotate (head + 1) = (ring.rotate head).tail ++ [a] := by
  have length : (ring.set head a).length = ring.length := List.length_set
  rw [List.rotate_eq_drop_append_take (by omega),
    List.rotate_eq_drop_append_take (Nat.le_of_lt inBounds),
    List.drop_set_of_lt (by omega), List.take_add_one, List.take_set_of_le (Nat.le_refl _),
    List.getElem?_set_self inBounds, List.drop_eq_getElem_cons inBounds, List.cons_append,
    List.tail_cons,
    List.append_assoc]
  rfl

namespace TimestampStore

def inOrder (store : TimestampStore) : List Nat := store.buffer.rotate store.head

theorem inOrder_insert (store : TimestampStore) (timestamp : Nat) :
    (store.insert timestamp).inOrder = store.inOrder.tail ++ [timestamp] := by
  have inBounds : store.head < store.buffer.length := store.size ▸ store.inBounds
  have length : (store.buffer.set store.head timestamp).length = timestampsForMedian :=
    (store.insert timestamp).size
  show (store.buffer.set store.head timestamp).rotate ((store.head + 1) % timestampsForMedian) = _
  rw [← length, List.rotate_mod, rotate_set inBounds, inOrder]

theorem buffer_perm (store : TimestampStore) : store.buffer.Perm store.inOrder :=
  (List.rotate_perm store.buffer store.head).symm

theorem median_eq (store : TimestampStore) :
    store.median = (store.inOrder.insertionSort (· ≤ ·)).getD (timestampsForMedian / 2) 0 := by
  have same : store.buffer.insertionSort (· ≤ ·) = store.inOrder.insertionSort (· ≤ ·) := by
    apply List.Perm.eq_of_sortedLE List.sortedLE_insertionSort List.sortedLE_insertionSort
    exact (List.perm_insertionSort _ _).trans
      (store.buffer_perm.trans (List.perm_insertionSort _ _).symm)
  rw [median, same]

end TimestampStore

/-! ### The state in place -/

namespace HeaderVerificationState

theorem addWork_ok {a b sum : Nat} (h : addWork a b = .ok sum) : sum = a + b := by
  unfold addWork at h
  split at h
  · exact (pure_ok h).symm
  · cases h

variable [BitcoinLibs]

def checkAndUpdateMut (header : Header) :
    StateT HeaderVerificationState Exec (Except L1VerificationError Unit) := do
  let state ← get
  if header.prevBlockhash ≠ state.lastVerifiedBlock.blkid then
    return .error (.continuityError state.lastVerifiedBlock.blkid header.prevBlockhash)
  if header.bits ≠ state.nextBlockTarget then
    return .error (.powMismatch state.nextBlockTarget header.bits)
  let median := state.blockTimestampHistory.median
  if header.time ≤ median then
    return .error (.timestampError header.time median)
  let blockHash := computeBlockHash header
  if ¬ BitcoinLibs.targetMetBy header.bits blockHash then
    return .error (.powNotMet blockHash header.bits)
  let nextHeight ← addU32 state.lastVerifiedBlock.height 1
  modify ({ · with lastVerifiedBlock := ⟨nextHeight, blockHash⟩ })
  modify (·.updateTimestamps header.time)
  let nextBlockTarget ← (← get).nextTarget header
  modify ({ · with nextBlockTarget })
  let totalAccumulatedPow ← addWork (← get).totalAccumulatedPow (BitcoinLibs.headerWork header.bits)
  modify ({ · with totalAccumulatedPow })
  return .ok ()

theorem checkAndUpdateMut_eq (state : HeaderVerificationState) (header : Header) :
    (checkAndUpdateMut header).run state = (do
      match ← state.checkAndUpdate header with
      | .error error => pure (.error error, state)
      | .ok next => pure (.ok (), next)) := by
  unfold checkAndUpdateMut checkAndUpdate check
  simp only [StateT.run_bind, StateT.run_get, pure_bind]
  by_cases continuity : header.prevBlockhash ≠ state.lastVerifiedBlock.blkid
  · simp only [if_pos continuity]
    rfl
  by_cases target : header.bits ≠ state.nextBlockTarget
  · simp only [if_neg continuity, if_pos target]
    rfl
  by_cases time : header.time ≤ state.blockTimestampHistory.median
  · simp only [if_neg continuity, if_neg target, if_pos time]
    rfl
  by_cases pow : ¬ BitcoinLibs.targetMetBy header.bits (computeBlockHash header)
  · simp only [if_neg continuity, if_neg target, if_neg time, if_pos pow]
    rfl
  simp only [if_neg continuity, if_neg target, if_neg time, if_neg pow, update, bind_assoc, pure_bind]
  simp

theorem accepts_iff {state next : HeaderVerificationState} {header : Header} :
    (checkAndUpdateMut header).run state = .ok (.ok (), next) ↔
      state.checkAndUpdate header = .ok (.ok next) := by
  rw [checkAndUpdateMut_eq]
  constructor
  · intro accepts
    obtain ⟨result, checked, accepts⟩ := bind_ok accepts
    cases result with
    | error error => cases pure_ok accepts
    | ok updated =>
      cases pure_ok accepts
      exact checked
  · intro checked
    rw [checked]
    rfl

theorem nextTarget_ok {state : HeaderVerificationState} {header : Header} {target : Nat}
    (h : state.nextTarget header = .ok target) :
    target = if (state.lastVerifiedBlock.height + 1) %
        BitcoinLibs.difficultyAdjustmentInterval state.network = 0 then
      BitcoinLibs.fromNextWorkRequired state.network header.bits
        (header.time - state.epochStartTimestamp)
    else state.nextBlockTarget := by
  obtain ⟨_, height, h⟩ := bind_ok h
  obtain ⟨rfl, -⟩ := addU32_ok height
  split at h
  · rename_i inside
    rw [if_neg inside]
    exact (pure_ok h).symm
  · rename_i starts
    rw [if_pos (not_not.mp starts)]
    exact (pure_ok h).symm

def StartsEpoch (state : HeaderVerificationState) (k : Nat) : Prop :=
  (state.lastVerifiedBlock.height + k) % BitcoinLibs.difficultyAdjustmentInterval state.network = 0

instance (state : HeaderVerificationState) : DecidablePred state.StartsEpoch :=
  fun _ => inferInstanceAs (Decidable (_ = _))

structure Updates (state : HeaderVerificationState) (header : Header)
    (next : HeaderVerificationState) : Prop where
  network : next.network = state.network
  lastVerifiedBlock : next.lastVerifiedBlock =
    ⟨state.lastVerifiedBlock.height + 1, computeBlockHash header⟩
  timestamps : next.blockTimestampHistory = state.blockTimestampHistory.insert header.time
  epochStart : next.epochStartTimestamp = if state.StartsEpoch 1 then header.time else
    state.epochStartTimestamp
  target : next.nextBlockTarget = if state.StartsEpoch 2 then
      BitcoinLibs.fromNextWorkRequired state.network header.bits (header.time - next.epochStartTimestamp)
    else state.nextBlockTarget
  work : next.totalAccumulatedPow = state.totalAccumulatedPow + BitcoinLibs.headerWork header.bits

theorem update_ok {state next : HeaderVerificationState} {header : Header}
    (h : state.update header = .ok next) : Updates state header next := by
  obtain ⟨nextHeight, height, h⟩ := bind_ok h
  obtain ⟨rfl, -⟩ := addU32_ok height
  obtain ⟨target, isTarget, h⟩ := bind_ok h
  obtain ⟨work, isWork, h⟩ := bind_ok h
  cases pure_ok h
  exact ⟨rfl, rfl, rfl, rfl, nextTarget_ok isTarget, addWork_ok isWork⟩

theorem checkAndUpdate_eq_ok {state updated : HeaderVerificationState} {header : Header}
    (h : state.checkAndUpdate header = .ok (.ok updated)) :
    state.check header = .ok () ∧ Updates state header updated := by
  unfold checkAndUpdate at h
  split at h
  · cases pure_ok h
  · rename_i checked
    obtain ⟨_, advanced, h⟩ := bind_ok h
    cases pure_ok h
    exact ⟨checked, update_ok advanced⟩

end HeaderVerificationState

/-! ### The chain as a list of headers -/

namespace HeaderChain
open HeaderVerificationState (computeBlockHash checkAndUpdateMut checkAndUpdateMut_eq accepts_iff
  checkAndUpdate_eq_ok)

/-- The times of the last eleven headers, with zeros before the first. -/
def recentTimes (headers : List Header) : List Nat :=
  (List.replicate timestampsForMedian 0 ++ headers.map Header.time).drop headers.length

def medianTime (headers : List Header) : Nat :=
  ((recentTimes headers).insertionSort (· ≤ ·)).getD (timestampsForMedian / 2) 0

theorem recentTimes_concat (past : List Header) (header : Header) :
    recentTimes (past ++ [header]) = (recentTimes past).tail ++ [header.time] := by
  rw [recentTimes, recentTimes, List.map_append, ← List.append_assoc, List.length_append,
    List.length_singleton, List.tail_drop, List.drop_append_of_le_length]
  · rfl
  · rw [List.length_append, List.length_replicate, List.length_map, timestampsForMedian]
    omega

variable [BitcoinLibs] (anchor : L1Anchor)

def numbered (headers : List Header) : List (Nat × Header) :=
  headers.mapIdx fun i header => (anchor.block.height + i + 1, header)

def tip (headers : List Header) : L1BlockCommitment where
  height := anchor.block.height + headers.length
  blkid := (headers.getLast?.map computeBlockHash).getD anchor.block.blkid

def StartsEpoch (height : Nat) :
    Prop := height % BitcoinLibs.difficultyAdjustmentInterval anchor.network = 0

instance : DecidablePred (StartsEpoch anchor) := fun _ => inferInstanceAs (Decidable (_ = _))

def epochStart (headers : List Header) : Nat :=
  (((numbered anchor headers).filter fun entry => StartsEpoch anchor entry.1).getLast?.map
    fun entry => entry.2.time).getD anchor.epochStartTimestamp

/-- The target that the last header hands over to the next epoch, if it is the last of its own. -/
def retarget (headers : List Header) : Option Nat :=
  if StartsEpoch anchor (anchor.block.height + headers.length + 1) then
    headers.getLast?.map fun header =>
      BitcoinLibs.fromNextWorkRequired anchor.network header.bits
        (header.time - epochStart anchor headers)
  else none

/-- The target of the last epoch change up to here. -/
def requiredTarget (headers : List Header) : Nat :=
  (headers.inits.filterMap (retarget anchor)).getLast?.getD anchor.nextTarget

def totalWork (headers : List Header) :
    Nat := (headers.map fun header => BitcoinLibs.headerWork header.bits).sum

theorem epochStart_concat (past : List Header) (header : Header) :
    epochStart anchor (past ++ [header]) =
      if StartsEpoch anchor (anchor.block.height + past.length + 1) then header.time
      else epochStart anchor past := by
  rw [epochStart, numbered, List.mapIdx_append, List.filter_append, List.getLast?_append,
    List.mapIdx_singleton, Nat.zero_add]
  split
  · rename_i starts
    simp [starts]
  · rename_i inside
    simp [inside, epochStart, numbered]

theorem requiredTarget_nil : requiredTarget anchor [] = anchor.nextTarget := by
  have none : retarget anchor [] = none := by
    unfold retarget
    split <;> rfl
  simp [requiredTarget, none]

theorem requiredTarget_concat (past : List Header) (header : Header) :
    requiredTarget anchor (past ++ [header]) =
      (retarget anchor (past ++ [header])).getD (requiredTarget anchor past) := by
  have inits : (past ++ [header]).inits = past.inits ++ [past ++ [header]] := by
    rw [List.inits_append]
    rfl
  rw [requiredTarget, inits, List.filterMap_append, List.getLast?_append, List.filterMap_cons,
    List.filterMap_nil]
  cases retarget anchor (past ++ [header]) <;> rfl

/-! ### Accepted headers -/

/-- Headers accepted one after another from the anchor on. -/
inductive Accepted : List Header → HeaderVerificationState → Prop
  | init : Accepted [] (.init anchor)
  | accept {past : List Header} {state next : HeaderVerificationState} {header : Header}
      (before : Accepted past state)
      (accepts : (checkAndUpdateMut header).run state = .ok (.ok (), next)) :
      Accepted (past ++ [header]) next

structure Refines (headers : List Header) (state : HeaderVerificationState) : Prop where
  network : state.network = anchor.network
  lastVerifiedBlock : state.lastVerifiedBlock = tip anchor headers
  timestamps : state.blockTimestampHistory.buffer.Perm (recentTimes headers)
  median : state.blockTimestampHistory.median = medianTime headers
  epochStartTimestamp : state.epochStartTimestamp = epochStart anchor headers
  nextBlockTarget : state.nextBlockTarget = requiredTarget anchor headers
  totalAccumulatedPow : state.totalAccumulatedPow = totalWork headers

structure Extends (past : List Header) (header : Header) : Prop where
  continuity : header.prevBlockhash = (tip anchor past).blkid
  target : header.bits = requiredTarget anchor past
  time : medianTime past < header.time
  pow : BitcoinLibs.targetMetBy header.bits (computeBlockHash header) = true

variable {anchor} {headers past : List Header} {state next : HeaderVerificationState} {header : Header}

theorem Refines.check_ok (refines : Refines anchor headers state) :
    state.check header = .ok () ↔ Extends anchor headers header := by
  unfold HeaderVerificationState.check
  rw [refines.lastVerifiedBlock, refines.median, refines.nextBlockTarget]
  constructor
  · intro h
    split at h
    · cases h
    · rename_i continuity
      split at h
      · cases h
      · rename_i target
        split at h
        · cases h
        · rename_i time
          split at h
          · cases h
          · rename_i pow
            exact ⟨not_not.mp continuity, not_not.mp target, Nat.lt_of_not_le time, not_not.mp pow⟩
  · rintro ⟨continuity, target, time, pow⟩
    rw [if_neg (not_not.mpr continuity), if_neg (not_not.mpr target), if_neg (Nat.not_le.mpr time),
      if_neg (not_not.mpr pow)]

/-- The ring of timestamps, read from its head, is the window of the last headers. -/
theorem Accepted.inOrder (accepted : Accepted anchor headers state) :
    state.blockTimestampHistory.inOrder = recentTimes headers := by
  induction accepted with
  | init => rfl
  | accept before accepts ih =>
    obtain ⟨-, updates⟩ := checkAndUpdate_eq_ok (accepts_iff.mp accepts)
    rw [recentTimes_concat, ← ih, updates.timestamps, TimestampStore.inOrder_insert]

theorem Refines.startsEpoch (refines : Refines anchor past state) (k : Nat) :
    state.StartsEpoch k ↔ StartsEpoch anchor (anchor.block.height + past.length + k) := by
  rw [HeaderVerificationState.StartsEpoch, StartsEpoch, refines.network, refines.lastVerifiedBlock, tip]

theorem Refines.update (refines : Refines anchor past state) (updates : state.Updates header next)
    (inOrder : next.blockTimestampHistory.inOrder = recentTimes (past ++ [header])) :
    Refines anchor (past ++ [header]) next := by
  have epoch : next.epochStartTimestamp = epochStart anchor (past ++ [header]) := by
    rw [updates.epochStart, epochStart_concat, refines.epochStartTimestamp]
    exact if_congr (refines.startsEpoch 1) rfl rfl
  constructor
  · rw [updates.network, refines.network]
  · rw [updates.lastVerifiedBlock, refines.lastVerifiedBlock, tip, tip]
    simp [Nat.add_assoc]
  · rw [← inOrder]
    exact TimestampStore.buffer_perm _
  · rw [TimestampStore.median_eq, inOrder, medianTime]
  · exact epoch
  · have height : anchor.block.height + (past ++ [header]).length + 1 =
      anchor.block.height + past.length + 2 := by
      rw [List.length_append, List.length_singleton]
      omega
    rw [updates.target, epoch, requiredTarget_concat, retarget, height, List.getLast?_concat,
      refines.nextBlockTarget, refines.network]
    by_cases turns : state.StartsEpoch 2
    · rw [if_pos turns, if_pos ((refines.startsEpoch 2).mp turns)]
      rfl
    · rw [if_neg turns, if_neg (mt (refines.startsEpoch 2).mpr turns)]
      rfl
  · rw [updates.work, refines.totalAccumulatedPow, totalWork, totalWork, List.map_append,
      List.sum_append]
    rfl

theorem Accepted.refines (accepted : Accepted anchor headers state) : Refines anchor headers state := by
  induction accepted with
  | init => exact ⟨rfl, rfl, .refl _, rfl, rfl, (requiredTarget_nil anchor).symm, rfl⟩
  | accept before accepts ih =>
    obtain ⟨-, updates⟩ := checkAndUpdate_eq_ok (accepts_iff.mp accepts)
    exact ih.update updates (Accepted.accept before accepts).inOrder

theorem Accepted.extends (accepted : Accepted anchor headers state) {rest : List Header}
    (split : headers = past ++ header :: rest) : Extends anchor past header := by
  induction accepted generalizing rest with
  | init => simp at split
  | @accept earlier before _ last accepted accepts ih =>
    rcases List.eq_nil_or_concat rest with rfl | ⟨rest, final, rfl⟩
    · obtain ⟨rfl, same⟩ := List.append_inj' split rfl
      cases same
      exact accepted.refines.check_ok.mp
        (checkAndUpdate_eq_ok (accepts_iff.mp accepts)).1
    · have shorter : earlier = past ++ header :: rest := by
        rw [List.concat_eq_append, ← List.cons_append, ← List.append_assoc] at split
        exact (List.append_inj' split rfl).1
      exact ih shorter

/-- Header verification refines the chain as a list: after any headers accepted from an anchor on,
the state is what the headers say, each of them extended the ones before it, and a header that is
rejected changes nothing. -/
theorem header_chain_refines (accepted : Accepted anchor headers state) :
    Refines anchor headers state ∧
    (∀ past header rest, headers = past ++ header :: rest → Extends anchor past header) ∧
    ∀ header error next,
      (checkAndUpdateMut header).run state = .ok (.error error, next) → next = state := by
  refine ⟨accepted.refines, fun past header rest split => accepted.extends split, ?_⟩
  intro header error next rejected
  rw [checkAndUpdateMut_eq] at rejected
  obtain ⟨result, -, rejected⟩ := bind_ok rejected
  cases result with
  | error error =>
    cases pure_ok rejected
    rfl
  | ok updated => cases pure_ok rejected

end HeaderChain

/-! ### Three headers across an epoch -/

namespace HeaderChain
open HeaderVerificationState (checkAndUpdateMut)

/-- A block hash is the Merkle root, epochs have two blocks, and a target grows by the timespan. -/
@[reducible] def sampleHeaderLibs : BitcoinLibs where
  sha256 bytes := (Buf32.ofSlice bytes).getD .zero
  deserialize _ := none
  encodeBase _ := []
  encodeTx _ := []
  encodeHeader header := header.merkleRoot.bytes
  targetMetBy _ _ := true
  headerWork bits := bits
  fromNextWorkRequired _ bits timespan := bits + timespan
  difficultyAdjustmentInterval _ := 2

attribute [local instance] sampleHeaderLibs

def sampleAnchor : L1Anchor := ⟨⟨3, .fill 3⟩, 1, 5, .regtest⟩

def sampleChild (parent time bits : Nat) : Header :=
  ⟨1, .fill (UInt8.ofNat parent), .fill (UInt8.ofNat (parent + 1)), time, bits, 0⟩

theorem sample_accepted : ∃ first second third,
    (checkAndUpdateMut (sampleChild 3 10 1)).run (.init sampleAnchor) =
      .ok (.ok (), first) ∧
    (checkAndUpdateMut (sampleChild 4 13 1)).run first = .ok (.ok (), second) ∧
    (checkAndUpdateMut (sampleChild 5 12 4)).run second = .ok (.ok (), third) :=
  ⟨_, _, _, rfl, rfl, rfl⟩

theorem header_chain_refines_sample : ∃ state,
    Accepted sampleAnchor [sampleChild 3 10 1, sampleChild 4 13 1, sampleChild 5 12 4] state ∧
    state.lastVerifiedBlock = ⟨6, .fill 6⟩ ∧ state.epochStartTimestamp = 12 ∧ state.nextBlockTarget = 4 ∧
    state.totalAccumulatedPow = 6 := by
  obtain ⟨_, _, state, first, second, third⟩ := sample_accepted
  have accepted := Accepted.accept (.accept (.accept .init first) second) third
  obtain ⟨refines, -⟩ := header_chain_refines accepted
  refine ⟨state, accepted, ?_, ?_, ?_, ?_⟩
  · rw [refines.lastVerifiedBlock]
    decide +kernel
  · rw [refines.epochStartTimestamp]
    decide +kernel
  · rw [refines.nextBlockTarget]
    decide +kernel
  · rw [refines.totalAccumulatedPow]
    decide +kernel

end HeaderChain
end Asm
