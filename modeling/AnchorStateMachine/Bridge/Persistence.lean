import AnchorStateMachine.Bridge.Invariant
import AnchorStateMachine.Bridge.StoredState
import AnchorStateMachine.Library.Keyed
import AnchorStateMachine.Stf.State

/-! Persisting the bridge state. Between blocks the state is kept as the bytes of its section, so
reading it back must not change it, and states with the same content must have the same bytes. The
bytes of a bitmap hold bits past its end, so the second takes an invariant: the bridge never sets them. -/

namespace Asm
open Ssz Outcome

/-! ### Clean bitmaps -/

/-- The bits past the end are zero. -/
def OperatorBitmap.Clean (bitmap : OperatorBitmap) : Prop := bitmap.bits.Clean

theorem OperatorBitmap.newWithSize_clean (size : Nat) : (newWithSize size false).Clean :=
  PackedBits.ofValue_false_clean size

theorem OperatorBitmap.Clean.trySet {bitmap after : OperatorBitmap} {idx : Nat} {active : Bool}
    (clean : bitmap.Clean) (done : bitmap.trySet idx active = .ok after) : after.Clean := by
  rcases trySet_cases done with ⟨inside, rfl⟩ | ⟨rfl, rfl⟩
  · exact PackedBits.Clean.set clean inside active
  · have longer : bitmap.bits.len < bitmap.len + 1 := Nat.lt_succ_self _
    refine (PackedBits.Clean.resize clean longer false).set ?_ active
    rw [PackedBits.resize_len longer]
    exact longer

theorem OperatorTable.addOperator_clean {table : OperatorTable} {active : OperatorBitmap} {pk : Buf32}
    {after : OperatorTable × OperatorBitmap} (clean : active.Clean)
    (h : addOperator (table, active) pk = .ok after) :
    after.1.historicalNnScripts = table.historicalNnScripts ∧ after.2.Clean := by
  rw [addOperator] at h
  split at h
  · cases pure_ok h
    exact ⟨rfl, clean⟩
  · split at h
    · cases h
    · dsimp only at h
      split at h
      · cases h
      · rename_i set
        cases pure_ok h
        exact ⟨rfl, clean.trySet set⟩

theorem OperatorTable.removeOperator_clean {table : OperatorTable} {active after : OperatorBitmap}
    {idx : Nat} (clean : active.Clean) (h : table.removeOperator active idx = .ok after) :
    after.Clean := by
  unfold removeOperator at h
  split at h
  · split at h
    · cases h
    · rename_i set
      cases pure_ok h
      exact clean.trySet set
  · cases pure_ok h
    exact clean

theorem OperatorTable.applyMembershipChanges_clean [TaprootKeys] {table after : OperatorTable}
    {add : List Buf32} {remove : List Nat}
    (clean : ∀ config ∈ table.historicalNnScripts, config.operators.Clean)
    (h : table.applyMembershipChanges add remove = .ok after) :
    ∀ config ∈ after.historicalNnScripts, config.operators.Clean := by
  have initial : OperatorBitmap.Clean
      ((table.historicalNnScripts.getLast?.map (·.operators)).getD .newEmpty) := by
    cases last : table.historicalNnScripts.getLast? with
    | none => exact PackedBits.empty_clean
    | some config => exact clean config (List.mem_of_getLast? last)
  obtain ⟨⟨grown, added⟩, addition, h⟩ := bind_ok h
  obtain ⟨active, removal, h⟩ := bind_ok h
  obtain ⟨same, addedClean⟩ : grown.historicalNnScripts = table.historicalNnScripts ∧ added.Clean := by
    refine foldlM_preserves (fun current : OperatorTable × OperatorBitmap =>
      current.1.historicalNnScripts = table.historicalNnScripts ∧ current.2.Clean) ?_
      ⟨rfl, initial⟩ addition
    rintro key - current next ⟨same, clean⟩ step
    have kept := addOperator_clean clean step
    exact ⟨kept.1.trans same, kept.2⟩
  have activeClean : active.Clean :=
    foldlM_preserves OperatorBitmap.Clean (fun _ _ _ _ => removeOperator_clean) addedClean removal
  split at h
  · obtain ⟨aggKey, -, h⟩ := bind_ok h
    cases pure_ok h
    intro config mem
    rcases List.mem_append.mp mem with old | new
    · exact clean config (same ▸ old)
    · rw [List.mem_singleton.mp new]
      exact activeClean
  · cases pure_ok h
    rw [same]
    exact clean

theorem AssignmentEntry.reassign_clean [ChaCha20] {entry renewed : AssignmentEntry} {deadline : Nat}
    {seed : Buf32} {notary current : OperatorBitmap} (clean : entry.previousAssignees.Clean)
    (h : entry.reassign deadline seed notary current = .ok renewed) :
    renewed.previousAssignees.Clean := by
  obtain ⟨tried, set, h⟩ := bind_ok h
  obtain ⟨eligible, -, h⟩ := bind_ok h
  split at h
  · cases pure_ok h
    exact clean.trySet (mapError_ok_iff.mp set)
  · obtain ⟨everyone, -, h⟩ := bind_ok h
    obtain ⟨assignee, -, h⟩ := bind_ok h
    cases pure_ok h
    exact OperatorBitmap.newWithSize_clean _
  · cases h

namespace BridgeStateV1

def Clean (state : BridgeStateV1) : Prop := state.EachBitmap OperatorBitmap.Clean

theorem new_clean [TaprootKeys] {config : BridgeInitConfig} {state : BridgeStateV1}
    (h : new config = .ok state) : state.Clean := by
  obtain ⟨operators, listed, h⟩ := bind_ok h
  cases pure_ok h
  refine ⟨?_, List.forall_mem_nil _⟩
  unfold OperatorTable.fromOperatorList at listed
  split at listed
  · cases listed
  · exact OperatorTable.applyMembershipChanges_clean (List.forall_mem_nil _) listed

variable [BridgeLibs] {state after : BridgeStateV1}

theorem Clean.membership {add : List Buf32} {remove : List Nat} (clean : state.Clean)
    (h : state.applyOperatorSetUpdate add remove = .ok after) : after.Clean := by
  obtain ⟨operators, changed, rfl⟩ := applyOperatorSetUpdate_ok h
  exact ⟨OperatorTable.applyMembershipChanges_clean clean.history changed, clean.assignments⟩

theorem Clean.assigns {l1ref : L1BlockCommitment} {intent : WithdrawalIntent} {entry : AssignmentEntry}
    (clean : state.Clean) (assigns : Assigns l1ref state intent entry after) : after.Clean := by
  obtain ⟨size, cleared⟩ := (createWithdrawalAssignment_ok assigns.created).2.2.2.2.2
  obtain rfl := assigns.after
  refine ⟨clean.history, fun other mem => ?_⟩
  rcases SortedVec.mem_insert.mp mem with rfl | mem
  · rw [cleared]
    exact OperatorBitmap.newWithSize_clean size
  · exact clean.assignments other mem

end BridgeStateV1

namespace Bridge

variable [BridgeLibs]

theorem processMsg_clean {l1ref : L1BlockCommitment} {msg : BridgeIncomingMsg}
    {state after : BridgeStateV1} (clean : state.Clean) (h : processMsg l1ref state msg = .ok after) :
    after.Clean := by
  cases msg with
  | dispatchWithdrawal payload =>
    replace h : dispatchWithdrawal l1ref state payload = .ok after := h
    unfold dispatchWithdrawal at h
    split at h
    · cases h
    · refine foldlM_preserves BridgeStateV1.Clean (fun intent _ s t clean step => ?_) clean h
      obtain ⟨entry, assigns⟩ := assignWithdrawal_ok step
      exact clean.assigns assigns
  | updateOperatorSet payload => exact clean.membership h
  | updateSafeHarborAddress address =>
    cases pure_ok h
    exact { clean with }
  | defcon =>
    cases pure_ok h
    exact { clean with }

theorem step_clean {event : Event} {before next : BridgeStateV1 × MsgRelayer}
    (inv : before.1.Invariant) (clean : before.1.Clean) (h : step before event = .ok next) :
    next.1.Clean := by
  obtain ⟨state, relayer⟩ := before
  obtain ⟨after, relayed⟩ := next
  cases event with
  | tx claim aux tx =>
    rcases processTx_cases h with ⟨rfl, -⟩ | ⟨info, -, -, admits, -⟩ | ⟨info, entry, -, -, fulfills, -⟩ |
      ⟨operatorIdx, removed, -⟩
    · exact clean
    · obtain ⟨notarySet, -, rfl⟩ := admits.after
      exact { clean with }
    · obtain rfl := fulfills.after
      exact ⟨clean.history, fun entry mem =>
        clean.assignments entry ((SortedVec.remove_sublist _ _).subset mem)⟩
    · exact clean.membership removed
  | reassign l1Block =>
    obtain ⟨reassigned, pass, h⟩ := bind_ok h
    cases pure_ok h
    obtain ⟨renewed, rfl, passed⟩ := reassignExpired_ok inv pass
    refine ⟨clean.history, fun entry mem => ?_⟩
    obtain ⟨earlier, listed, passed⟩ := Keyed.exists_of_forall₂ passed mem
    by_cases expired : earlier.fulfillmentDeadline ≤ l1Block.height
    · obtain ⟨config, -, moved, -⟩ := passed.moved expired
      exact AssignmentEntry.reassign_clean (clean.assignments earlier listed) moved
    · rw [passed.kept (Nat.lt_of_not_le expired)]
      exact clean.assignments earlier listed
  | publishPow accumulatedPow =>
    cases pure_ok h
    exact clean
  | msg l1ref msg =>
    obtain ⟨processed, processing, h⟩ := bind_ok h
    cases pure_ok h
    exact processMsg_clean clean processing

/-- What calls to the bridge keep: its invariant, and that bitmaps have no bits past their end. -/
theorem calls_clean {calls : List Call} {before after : BridgeStateV1 × MsgRelayer}
    (start : before.1.Invariant ∧ before.1.Clean)
    (applied : calls.foldlM Call.apply before = .ok after) : after.1.Invariant ∧ after.1.Clean := by
  rw [foldlM_apply_events] at applied
  exact foldlM_preserves (fun s => s.1.Invariant ∧ s.1.Clean)
    (fun _ _ _ _ kept taken => ⟨step_invariant kept.1 taken, step_clean kept.1 kept.2 taken⟩) start applied

end Bridge

namespace BridgeStateV1

/-! ### Content -/

/-- The same tables and scalars, with bitmaps that are the same as sequences of bits. -/
structure SameContent (state other : BridgeStateV1) : Prop where
  registry : (state.operators.nextIdx, state.operators.operators, state.operators.aggKey) =
    (other.operators.nextIdx, other.operators.operators, other.operators.aggKey)
  history : state.operators.historicalNnScripts.map (fun entry => (entry.script, entry.operators.bits.bits)) =
    other.operators.historicalNnScripts.map fun entry => (entry.script, entry.operators.bits.bits)
  deposits : state.deposits = other.deposits
  assignments : state.assignments.assignments.map (fun entry => (entry.depositEntry,
      entry.withdrawalOutput, entry.operatorFee, entry.currentAssignee, entry.previousAssignees.bits.bits,
      entry.fulfillmentDeadline)) =
    other.assignments.assignments.map fun entry => (entry.depositEntry, entry.withdrawalOutput,
      entry.operatorFee, entry.currentAssignee, entry.previousAssignees.bits.bits, entry.fulfillmentDeadline)
  scalars : (state.assignments.assignmentDuration, state.denomination, state.operatorFee,
      state.recoveryDelay, state.safeHarbor) =
    (other.assignments.assignmentDuration, other.denomination, other.operatorFee, other.recoveryDelay,
      other.safeHarbor)

theorem Clean.eq_of_content {state other : BridgeStateV1} (clean : state.Clean) (otherClean : other.Clean)
    (same : state.SameContent other) : state = other := by
  have scripts : state.operators.historicalNnScripts = other.operators.historicalNnScripts := by
    refine Keyed.eq_of_keys _ ?_ same.history
    rintro ⟨script, ⟨operators⟩⟩ mem ⟨otherScript, ⟨otherOperators⟩⟩ otherMem sameEntry
    obtain ⟨rfl, sameBits⟩ := Prod.mk.inj sameEntry
    cases PackedBits.Clean.eq_of_bits (clean.history _ mem) (otherClean.history _ otherMem) sameBits
    rfl
  have assignments : state.assignments.assignments = other.assignments.assignments := by
    refine Keyed.eq_of_keys _ ?_ same.assignments
    rintro ⟨deposit, output, fee, assignee, ⟨tried⟩, deadline⟩ mem
      ⟨otherDeposit, otherOutput, otherFee, otherAssignee, ⟨otherTried⟩, otherDeadline⟩ otherMem sameEntry
    simp only [Prod.mk.injEq] at sameEntry
    obtain ⟨rfl, rfl, rfl, rfl, sameBits, rfl⟩ := sameEntry
    cases PackedBits.Clean.eq_of_bits (clean.assignments _ mem) (otherClean.assignments _ otherMem) sameBits
    rfl
  obtain ⟨registry, -, deposits, -, scalars⟩ := same
  obtain ⟨⟨_, _, _, _⟩, _, ⟨_, _⟩, _, _, _, _⟩ := state
  obtain ⟨⟨_, _, _, _⟩, _, ⟨_, _⟩, _, _, _, _⟩ := other
  simp_all

/-- The tables of a consistent bridge state are in order, and no bitmap is longer than the operator
table. -/
theorem ordered_of_invariant [TaprootKeys] {state : BridgeStateV1} (inv : state.Invariant) :
    state.Ordered where
  operators := inv.operators.toRegistry.sorted
  deposits := inv.depositsSorted
  assignments := inv.assignmentsSorted
  bitmaps := by
    have bound : state.operators.nextIdx < u32Bound :=
      Nat.lt_of_le_of_lt inv.operators.bound (by decide)
    have scripts : ∀ config ∈ state.history, config.operators.len < u32Bound :=
      fun config mem => Nat.lt_of_le_of_lt (inv.operators.coherent config mem).1 bound
    refine ⟨scripts, fun entry mem => ?_⟩
    obtain ⟨config, known, -, sameLen⟩ := inv.assignments entry mem
    have small := scripts config (List.mem_of_getElem? known)
    rwa [← sameLen] at small

/-! ### Runs -/

variable [BridgeLibs] [StateLibs]

/-- The states of a bridge that processes blocks, and at any point may be written to its section and
read back. Its numbers, keys and descriptors are values of their types. -/
inductive Reached : BridgeStateV1 → Prop
  | new {config : BridgeInitConfig} {state : BridgeStateV1}
      (created : BridgeStateV1.new config = .ok state) (typed : state.Typed) : Reached state
  | calls {before state : BridgeStateV1} {calls : List Bridge.Call} {relayer relayed : MsgRelayer}
      (reached : Reached before)
      (applied : calls.foldlM Bridge.Call.apply (before, relayer) = .ok (state, relayed))
      (typed : state.Typed) : Reached state
  | persist {before state : BridgeStateV1} (reached : Reached before)
      (fits : (Stored.bridgeState.encode before).length ≤ maxSectionStateBytes)
      (read : Stored.bridgeState.decode (Stored.bridgeState.encode before) = some state) :
      Reached state

theorem read_back (libs : StateLibs.Lawful) {state : BridgeStateV1} (typed : state.Typed)
    (inv : state.Invariant) (fits : (Stored.bridgeState.encode state).length < offsetBound) :
    Stored.bridgeState.decode (Stored.bridgeState.encode state) = some state :=
  (Stored.bridgeState_lawful libs).decode_encode ⟨typed, ordered_of_invariant inv⟩ fits

theorem Reached.sound (libs : StateLibs.Lawful) {state : BridgeStateV1} (reached : Reached state) :
    state.Typed ∧ state.Invariant ∧ state.Clean := by
  induction reached with
  | new created typed => exact ⟨typed, new_invariant created, new_clean created⟩
  | calls _ applied typed ih => exact ⟨typed, Bridge.calls_clean ih.2 applied⟩
  | persist _ fits read ih =>
    have small : maxSectionStateBytes < offsetBound := by decide
    rw [read_back libs ih.1 ih.2.1 (Nat.lt_of_le_of_lt fits small)] at read
    cases read
    exact ih

end BridgeStateV1

/-- A reached state is read back from its bytes as it was, and any other with the same content has
the same bytes. -/
theorem bridge_state_persistent [BridgeLibs] [StateLibs] (libs : StateLibs.Lawful)
    {state : BridgeStateV1} (reached : state.Reached) :
    ((Stored.bridgeState.encode state).length < offsetBound →
      Stored.bridgeState.decode (Stored.bridgeState.encode state) = some state) ∧
    ∀ other : BridgeStateV1, other.Reached → other.SameContent state →
      Stored.bridgeState.encode other = Stored.bridgeState.encode state := by
  obtain ⟨typed, inv, clean⟩ := reached.sound libs
  refine ⟨BridgeStateV1.read_back libs typed inv, ?_⟩
  intro other otherReached same
  obtain ⟨-, -, otherClean⟩ := otherReached.sound libs
  rw [otherClean.eq_of_content clean same]

/-! ### A concrete run -/

section

attribute [local instance] Bridge.sampleLibs sampleStateLibs

theorem sampleStateLibs_lawful : StateLibs.Lawful where
  descriptor := Codec.byteString_lawful.via (fun _ _ => trivial) fun _ _ => rfl
  amount := by
    have lawful := Codec.uint_lawful 8
    exact ⟨fun fixed _ small => lawful.length fixed (of_decide_eq_true small),
      fun small => lawful.decode_encode (of_decide_eq_true small)⟩
  scriptBuf := Codec.byteString_lawful
  xOnlyPublicKey := (Codec.byteVector_lawful 32).via (fun key _ => key.size) fun key _ =>
    dif_pos key.size

def sampleHarborAddress : SafeHarborAddress := ⟨⟨4 :: List.replicate 32 7⟩⟩

def sampleStoredConfig : BridgeInitConfig :=
  { Bridge.sampleConfig with operators := [.fill 1, .fill 7], safeHarborAddress := sampleHarborAddress }

def sampleDestination : Descriptor := ⟨4 :: List.replicate 32 9⟩

/-- Deposits, and a withdrawal that is assigned to the oldest of them at height 100 and reassigned at
height 102. -/
def sampleStoredCalls (deposits : List TxInput) : List Bridge.Call :=
  [.onTxs .v1 deposits (Bridge.sampleBlock 100) 0 Bridge.sampleAux,
    .onMsgs [.dispatchWithdrawal ⟨sampleDestination, 10, .any⟩] (Bridge.sampleBlock 100),
    .onTxs .v1 [] (Bridge.sampleBlock 102) 0 Bridge.sampleAux]

def sampleFreshState : BridgeStateV1 where
  operators := ⟨2, [⟨0, .fill 1⟩, ⟨1, .fill 7⟩], .fill 1, [⟨(Buf32.fill 1).bytes, ⟨⟨2, [3], rfl⟩⟩⟩]⟩
  deposits := []
  assignments := ⟨[], 2⟩
  denomination := 10
  operatorFee := 1
  recoveryDelay := 100
  safeHarbor := ⟨sampleHarborAddress, false⟩

def sampleStoredState : BridgeStateV1 :=
  { sampleFreshState with
    deposits := [⟨8, 0, 10⟩]
    assignments := ⟨[⟨⟨7, 0, 10⟩, ⟨sampleDestination, 10⟩, 1, 1, ⟨⟨2, [1], rfl⟩⟩, 104⟩], 2⟩ }

/-- After the second of the two deposits alone. -/
def samplePartState : BridgeStateV1 := { sampleFreshState with deposits := [⟨8, 0, 10⟩] }

theorem sampleFreshState_typed : sampleFreshState.Typed :=
  ⟨by decide, by decide, by decide, List.forall_mem_nil _, List.forall_mem_nil _, by decide, by decide,
    by decide, by decide, by decide⟩

theorem samplePartState_typed : samplePartState.Typed :=
  { sampleFreshState_typed with
    deposits := List.forall_mem_singleton.mpr ⟨by decide, by decide, by decide⟩ }

theorem sampleStoredState_typed : sampleStoredState.Typed :=
  { samplePartState_typed with
    assignments := List.forall_mem_singleton.mpr
      ⟨⟨by decide, by decide, by decide⟩, ⟨by decide, by decide⟩, by decide, by decide, by decide⟩ }

/-- The calls lead from one state to another, whatever was relayed. -/
theorem sample_calls {before after : BridgeStateV1} {calls : List Bridge.Call} (reached : before.Reached)
    (typed : after.Typed)
    (ran : (calls.foldlM Bridge.Call.apply (before, .new)).toOption.map Prod.fst = some after) :
    after.Reached := by
  obtain ⟨⟨state, relayed⟩, applied, rfl⟩ := Option.map_eq_some_iff.mp ran
  exact .calls reached (toOption_some applied) typed

theorem sampleFreshState_reached : sampleFreshState.Reached := by
  have fresh : (BridgeStateV1.new sampleStoredConfig).toOption = some sampleFreshState := by
    decide +kernel
  exact .new (toOption_some fresh) sampleFreshState_typed

/-- The same content is reached when the second deposit comes first, and the state is written and read
before the other one. -/
theorem bridge_state_persistent_sample :
    sampleStoredState.Reached ∧
    Stored.bridgeState.decode (Stored.bridgeState.encode sampleStoredState) = some sampleStoredState ∧
    ∃ read other relayed,
      Stored.bridgeState.decode (Stored.bridgeState.encode samplePartState) = some read ∧
      (sampleStoredCalls [Bridge.sampleDeposit 7]).foldlM Bridge.Call.apply (read, .new) =
        .ok (other, relayed) ∧
      other.Reached ∧ other.SameContent sampleStoredState ∧
      Stored.bridgeState.encode other = Stored.bridgeState.encode sampleStoredState := by
  have both : ((sampleStoredCalls [Bridge.sampleDeposit 7, Bridge.sampleDeposit 8]).foldlM
      Bridge.Call.apply (sampleFreshState, .new)).toOption.map Prod.fst = some sampleStoredState := by
    decide +kernel
  have one : ([Bridge.Call.onTxs .v1 [Bridge.sampleDeposit 8] (Bridge.sampleBlock 100) 0
      Bridge.sampleAux].foldlM Bridge.Call.apply (sampleFreshState, .new)).toOption.map Prod.fst =
      some samplePartState := by decide +kernel
  have later : ((sampleStoredCalls [Bridge.sampleDeposit 7]).foldlM Bridge.Call.apply
      (samplePartState, .new)).toOption.map Prod.fst = some sampleStoredState := by decide +kernel
  have reached := sample_calls sampleFreshState_reached sampleStoredState_typed both
  have part := sample_calls sampleFreshState_reached samplePartState_typed one
  have small : (Stored.bridgeState.encode sampleStoredState).length ≤ maxSectionStateBytes ∧
      (Stored.bridgeState.encode samplePartState).length ≤ maxSectionStateBytes := by decide +kernel
  obtain ⟨readBack, canonical⟩ := bridge_state_persistent sampleStateLibs_lawful reached
  have readPart := (bridge_state_persistent sampleStateLibs_lawful part).1
    (Nat.lt_of_le_of_lt small.2 (by decide))
  have restored : samplePartState.Reached := .persist part small.2 readPart
  obtain ⟨⟨other, relayed⟩, ran, (content : other = sampleStoredState)⟩ := Option.map_eq_some_iff.mp later
  have again : other.Reached := sample_calls restored (content ▸ sampleStoredState_typed)
    (later.trans (congrArg some content.symm))
  have same : other.SameContent sampleStoredState := by
    cases content
    exact ⟨rfl, rfl, rfl, rfl, rfl⟩
  exact ⟨reached, readBack (Nat.lt_of_le_of_lt small.1 (by decide)), _, other, relayed, readPart,
    toOption_some ran, again, same, canonical other again same⟩

end
end Asm
