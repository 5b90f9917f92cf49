import AnchorStateMachine.Bridge.OperatorInvariant
import AnchorStateMachine.Bridge.Run
import Mathlib.Data.List.Sublists

/-! The two things slash and unstake validation rely on: that a stake connector script is recognised
exactly, and that a script names one set of operators in the history of N/N configurations. -/

namespace Asm
open Outcome

/-! ### Reading back what the builder pushes -/

namespace Script

theorem takePush_length {n : Nat} {rest left : Bytes} {instruction : Instruction}
    (h : takePush n rest = .ok (instruction, left)) : left.length ≤ rest.length := by
  unfold takePush at h
  split at h
  · cases h
  · cases h
    exact List.drop_sublist n rest |>.length_le

theorem nextInstruction_length {opcode : UInt8} {rest left : Bytes} {instruction : Instruction}
    (h : nextInstruction opcode rest = .ok (instruction, left)) : left.length ≤ rest.length := by
  unfold nextInstruction at h
  split at h
  · exact takePush_length h
  · split at h
    · split at h
      · exact (takePush_length h).trans (Nat.le_add_right _ 1)
      · cases h
    · split at h
      · split at h
        · exact (takePush_length h).trans (Nat.le_add_right _ 2)
        · cases h
      · split at h
        · split at h
          · exact (takePush_length h).trans (Nat.le_add_right _ 4)
          · cases h
        · cases h
          exact Nat.le_refl _

theorem instructionsFuel_eq {fuel more : Nat} {script : Bytes} (enough : script.length ≤ fuel)
    (enoughMore : script.length ≤ more) :
    instructionsFuel fuel script = instructionsFuel more script := by
  induction fuel generalizing more script with
  | zero =>
    cases script with
    | nil => cases more <;> rfl
    | cons opcode rest => exact absurd enough (Nat.not_succ_le_zero _)
  | succ fuel ih =>
    cases script with
    | nil => cases more <;> rfl
    | cons opcode rest =>
      cases more with
      | zero => exact absurd enoughMore (Nat.not_succ_le_zero _)
      | succ more =>
        rw [List.length_cons] at enough enoughMore
        rw [instructionsFuel, instructionsFuel]
        cases read : nextInstruction opcode rest with
        | error => rfl
        | ok next =>
          obtain ⟨instruction, left⟩ := next
          have shorter := nextInstruction_length read
          have same : instructionsFuel fuel left = instructionsFuel more left := ih (by omega) (by omega)
          exact congrArg (.ok instruction :: ·) same

@[simp] theorem instructions_nil : instructions [] = [] := rfl

theorem instructions_cons {opcode : UInt8} {rest left : Bytes} {instruction : Instruction}
    (read : nextInstruction opcode rest = .ok (instruction, left)) :
    instructions (opcode :: rest) = .ok instruction :: instructions left := by
  have shorter := nextInstruction_length read
  rw [instructions, List.length_cons, instructionsFuel, read]
  exact congrArg (.ok instruction :: ·) (instructionsFuel_eq shorter (Nat.le_refl _))

@[simp] theorem instructions_op {code : UInt8} (above : 0x4e < code) (rest : Bytes) :
    instructions (code :: rest) = .ok (.op code) :: instructions rest := by
  have above : 0x4e < code.toNat := above
  apply instructions_cons
  unfold nextInstruction
  rw [if_neg, if_neg, if_neg, if_neg]
  · rintro rfl
    exact absurd above (by decide)
  · rintro rfl
    exact absurd above (by decide)
  · rintro rfl
    exact absurd above (by decide)
  · intro below
    have below : code.toNat < 0x4c := below
    omega

/-- A slice that the builder pushes with a one-byte opcode is read back as it is. -/
theorem instructions_pushSlice {data : Bytes} (short : data.length < 0x4c) (rest : Bytes) :
    instructions (pushSlice data ++ rest) = .ok (.pushBytes data) :: instructions rest := by
  have length : (UInt8.ofNat data.length).toNat = data.length := by
    rw [UInt8.toNat_ofNat']
    exact Nat.mod_eq_of_lt (by omega)
  rw [pushSlice, List.cons_append]
  apply instructions_cons
  unfold nextInstruction
  have opcode : UInt8.ofNat data.length < 0x4c := by
    rw [UInt8.lt_iff_toNat_lt, length]
    exact short
  rw [if_pos opcode, length, takePush, if_neg (by simp), List.take_left, List.drop_left]

end Script

/-! ### The stake connector script -/

open Script

theorem Buf32.ofSlice_bytes (buf : Buf32) : Buf32.ofSlice buf.bytes = some buf := dif_pos buf.size

theorem instructions_stakeConnectorScript (stakeHash pubkey : Buf32) :
    instructions (stakeConnectorScript stakeHash pubkey) =
      [.ok (.pushBytes pubkey.bytes), .ok (.op opCheckSigVerify), .ok (.op opSize),
        .ok (.pushBytes [0x20]),
        .ok (.op opEqualVerify), .ok (.op opSha256), .ok (.pushBytes stakeHash.bytes),
        .ok (.op opEqual)] := by
  have size : pushInt 0x20 = pushSlice [0x20] := rfl
  have short (buf : Buf32) : buf.bytes.length < 0x4c := by
    rw [buf.size]
    decide
  rw [stakeConnectorScript, size]
  simp only [List.append_assoc, List.cons_append, List.nil_append]
  rw [instructions_pushSlice (short pubkey), instructions_op (by decide), instructions_op (by decide),
    instructions_pushSlice (by decide), instructions_op (by decide), instructions_op (by decide),
    instructions_pushSlice (short stakeHash), instructions_op (by decide), instructions_nil]

theorem extractScriptParams_stakeConnectorScript (stakeHash pubkey : Buf32) :
    extractScriptParams (stakeConnectorScript stakeHash pubkey) = some (pubkey, stakeHash) := by
  unfold extractScriptParams pushedBuf32
  rw [instructions_stakeConnectorScript]
  simp [Buf32.ofSlice_bytes]

/-- A script is recognised exactly if the builder makes it from a valid key and a hash, and it makes
no script from two such pairs. -/
theorem stake_connector_recognised [BridgeTxLibs] (script : Bytes) :
    (∀ pubkey stakeHash, validateAndExtractScriptParams script = some (pubkey, stakeHash) ↔
      isXOnlyPublicKey pubkey ∧ script = stakeConnectorScript stakeHash pubkey) ∧
    (∀ pubkey stakeHash other otherHash, script = stakeConnectorScript stakeHash pubkey →
      script = stakeConnectorScript otherHash other → pubkey = other ∧ stakeHash = otherHash) ∧
    (validateAndExtractScriptParams script = none ↔
      ¬ ∃ pubkey stakeHash, isXOnlyPublicKey pubkey ∧
        script = stakeConnectorScript stakeHash pubkey) := by
  have recognised : ∀ pubkey stakeHash, validateAndExtractScriptParams script =
    some (pubkey, stakeHash) ↔
      isXOnlyPublicKey pubkey ∧ script = stakeConnectorScript stakeHash pubkey := by
    intro pubkey stakeHash
    constructor
    · intro h
      unfold validateAndExtractScriptParams at h
      obtain ⟨⟨key, hash⟩, -, h⟩ := Option.bind_eq_some_iff.mp h
      dsimp only at h
      split at h
      · rename_i rebuilt
        cases h
        simpa using rebuilt
      · cases h
    · rintro ⟨valid, rfl⟩
      unfold validateAndExtractScriptParams
      rw [extractScriptParams_stakeConnectorScript]
      simp [valid]
  refine ⟨recognised, ?_, ?_⟩
  · rintro pubkey stakeHash other otherHash rfl same
    have params := extractScriptParams_stakeConnectorScript stakeHash pubkey
    rw [same, extractScriptParams_stakeConnectorScript] at params
    cases params
    exact ⟨rfl, rfl⟩
  · rw [Option.eq_none_iff_forall_ne_some]
    constructor
    · rintro none ⟨pubkey, stakeHash, built⟩
      exact none _ ((recognised pubkey stakeHash).mpr built)
    · rintro notBuilt ⟨pubkey, stakeHash⟩ found
      exact notBuilt ⟨pubkey, stakeHash, (recognised pubkey stakeHash).mp found⟩

/-- The size of the preimage is pushed as one byte, and the same script with a longer push is not
recognised. -/
theorem stake_connector_recognised_sample :
    let _ := Bridge.sampleLibs
    ∃ script, stakeConnectorScript (.fill 2) (.fill 1) = 32 :: script ∧
      validateAndExtractScriptParams (32 :: script) = some (.fill 1, .fill 2) ∧
      validateAndExtractScriptParams (0x4c :: 32 :: script) = none := by
  intro _
  refine ⟨_, rfl, ((stake_connector_recognised _).1 _ _).mpr ⟨rfl, rfl⟩, ?_⟩
  rw [(stake_connector_recognised _).2.2]
  rintro ⟨pubkey, stakeHash, -, built⟩
  exact absurd (List.head_eq_of_cons_eq built) (by rw [pubkey.size]; decide)

/-! ### The history of configurations -/

namespace OperatorTable

theorem isActive_eq_of_activeKeys {operators : List OperatorEntry} {bitmap other : OperatorBitmap}
    (distinct : (operators.map (·.musig2Pk)).Nodup)
    (same : activeKeys operators bitmap = activeKeys operators other) {op : OperatorEntry}
    (mem : op ∈ operators) : bitmap.isActive op.idx = other.isActive op.idx := by
  have listed (bitmap : OperatorBitmap) : op.musig2Pk ∈ activeKeys operators bitmap ↔
      bitmap.isActive op.idx := by
    constructor
    · intro active
      obtain ⟨entry, isActive, sameKey⟩ := List.mem_map.mp active
      obtain ⟨registered, set⟩ := List.mem_filter.mp isActive
      rwa [← List.inj_on_of_nodup_map distinct registered mem sameKey]
    · intro set
      exact List.mem_map_of_mem (List.mem_filter.mpr ⟨mem, set⟩)
  rw [Bool.eq_iff_iff, ← listed bitmap, ← listed other, same]

section

variable [TaprootKeys]

/-- No two selections of these keys have the same N/N script. -/
def NoScriptCollision (keys : List Buf32) : Prop :=
  ∀ selection other aggKey otherAggKey, selection.Sublist keys → other.Sublist keys →
    aggregateSchnorrKeys selection = some aggKey → aggregateSchnorrKeys other = some otherAggKey →
    buildNnScript aggKey = buildNnScript otherAggKey → selection = other

theorem Consistent.script_operators {table : OperatorTable} (consistent : Consistent table)
    (injective : NoScriptCollision (table.operators.map (·.musig2Pk))) {entry other : HistoricalNnScript}
    (mem : entry ∈ table.historicalNnScripts) (memOther : other ∈ table.historicalNnScripts)
    (same : entry.script = other.script) (idx : Nat) :
    entry.operators.isActive idx = other.operators.isActive idx := by
  obtain ⟨covered, aggKey, aggregated, script⟩ := consistent.coherent entry mem
  obtain ⟨coveredOther, otherAggKey, otherAggregated, otherScript⟩ := consistent.coherent other memOther
  have selected (bitmap : OperatorBitmap) : (activeKeys table.operators bitmap).Sublist
      (table.operators.map (·.musig2Pk)) := List.filter_sublist.map _
  have keys := injective _ _ _ _ (selected entry.operators) (selected other.operators) aggregated
    otherAggregated
    (by rw [← script, same, otherScript])
  by_cases registered : idx < table.operators.length
  · have agree := isActive_eq_of_activeKeys consistent.keys keys (List.getElem_mem registered)
    rwa [consistent.idx_eq registered] at agree
  · -- neither bitmap reaches past the registered operators
    have unset {bitmap : OperatorBitmap} (covered : bitmap.len ≤ table.nextIdx) :
        bitmap.isActive idx = false := by
      rw [Bool.eq_false_iff]
      intro set
      have inside := OperatorBitmap.isActive_lt set
      have next := consistent.next
      omega
    rw [unset covered, unset coveredOther]

end
end OperatorTable

section

variable [BridgeLibs]

/-- Entries of the history with the same script have the same operators, so that slash and unstake
validation decide as any matching entry tells. -/
theorem historical_lookup_unambiguous {operators : List Buf32}
    {changes : List OperatorTable.MembershipChange} {state : BridgeStateV1}
    (built : OperatorTable.build operators changes = .ok state.operators)
    (injective : OperatorTable.NoScriptCollision (state.operators.operators.map (·.musig2Pk))) :
    (∀ entry ∈ state.operators.historicalNnScripts, ∀ other ∈ state.operators.historicalNnScripts,
      entry.script = other.script → ∀ idx, entry.operators.isActive idx = other.operators.isActive idx) ∧
    (∀ entry ∈ state.operators.historicalNnScripts, ∀ idx,
      validateSlashStakeConnector state idx entry.script =
        if entry.operators.isActive idx then .ok () else .error
          (.operatorNotInMultisig idx entry.script)) ∧
    ∀ entry ∈ state.operators.historicalNnScripts, ∀ info scriptPubkey,
      entry.script = buildNnScript info.witnessPushedPubkey →
      validateUnstakeInfo state info scriptPubkey =
        if ¬ entry.operators.isActive info.operatorIdx then
          .error (.operatorNotInMultisig info.operatorIdx entry.script)
        else if scriptPubkey ≠ expectedStakeConnectorScriptPubkey info.stakeHash
          info.witnessPushedPubkey then
          .error .stakeConnectorMismatch
        else .ok () := by
  have consistent := (OperatorTable.build_consistent built).1
  have found {entry : HistoricalNnScript} (mem : entry ∈ state.operators.historicalNnScripts)
    {script : Bytes}
      (same : entry.script = script) : ∃ config,
      state.operators.historicalNnScripts.find? (·.script = script) = some config ∧
        config.script = entry.script ∧
        ∀ idx, config.operators.isActive idx = entry.operators.isActive idx := by
    cases first : state.operators.historicalNnScripts.find? (·.script = script) with
    | none => exact absurd (decide_eq_true same) (List.find?_eq_none.mp first entry mem)
    | some config =>
      have isFound := List.find?_some first
      have matched : config.script = entry.script := (of_decide_eq_true isFound).trans same.symm
      exact ⟨config, rfl, matched,
        consistent.script_operators injective (List.mem_of_find?_eq_some first) mem matched⟩
  refine ⟨fun entry mem other memOther same => consistent.script_operators injective mem memOther
    same, ?_, ?_⟩
  · intro entry mem idx
    obtain ⟨config, first, matched, agree⟩ := found mem rfl
    unfold validateSlashStakeConnector
    rw [first]
    dsimp only
    rw [agree, matched]
  · intro entry mem info scriptPubkey same
    obtain ⟨config, first, matched, agree⟩ := found mem same
    unfold validateUnstakeInfo
    dsimp only
    rw [first]
    dsimp only
    rw [agree, matched]

end

/-- Keys for a concrete history: a list of keys is aggregated by the number their bytes write. -/
@[reducible] def sampleNumberedLibs : BridgeLibs :=
  { Bridge.sampleLibs with
    aggregateSchnorrKeys := fun keys =>
      some (.fill (keys.foldl (fun number key => number * 4 + key.bytes.headD 0) 0))
    newP2tr := fun key _ => key.bytes }

/-- A third operator joins and leaves, and the first script recurs under a longer bitmap. -/
theorem historical_lookup_unambiguous_sample :
    let _ := sampleNumberedLibs
    ∃ state : BridgeStateV1,
      OperatorTable.build [.fill 1, .fill 2] [⟨[.fill 3], []⟩, ⟨[], [2]⟩] = .ok state.operators ∧
      (∃ first joined last, state.operators.historicalNnScripts = [first, joined, last] ∧
        first.script = last.script ∧ first.operators ≠ last.operators ∧
        ∀ idx, first.operators.isActive idx = last.operators.isActive idx) := by
  intro _
  obtain ⟨table, built, first, joined, last, history, recurs, longer, registered⟩ : ∃ table,
      @OperatorTable.build sampleNumberedLibs.toTaprootKeys [.fill 1, .fill 2]
        [⟨[.fill 3], []⟩, ⟨[], [2]⟩] = .ok table ∧
      ∃ first joined last, table.historicalNnScripts = [first, joined, last] ∧
        first.script = last.script ∧ first.operators ≠ last.operators ∧
        table.operators.map (·.musig2Pk) = [.fill 1, .fill 2, .fill 3] := by
    refine ⟨_, rfl, _, _, _, rfl, rfl, ?_, rfl⟩
    decide
  have injective : OperatorTable.NoScriptCollision (table.operators.map (·.musig2Pk)) := by
    rw [registered]
    intro selection other aggKey otherAggKey selected otherSelected aggregated otherAggregated same
    cases aggregated
    cases otherAggregated
    have distinct : ∀ selection ∈ List.sublists [Buf32.fill 1, .fill 2, .fill 3],
        ∀ other ∈ List.sublists [Buf32.fill 1, .fill 2, .fill 3],
        selection.foldl (fun number key => number * 4 + key.bytes.headD 0) 0 =
          other.foldl (fun number key => number * 4 + key.bytes.headD 0) 0 → selection = other := by
            decide +kernel
    exact distinct _ (List.mem_sublists.mpr selected) _ (List.mem_sublists.mpr otherSelected)
      (List.head_eq_of_cons_eq same)
  let state : BridgeStateV1 := ⟨table, [], ⟨[], 0⟩, 10, 1, 100, ⟨⟨⟨[]⟩⟩, false⟩⟩
  refine ⟨state, built, first, joined, last, history, recurs, longer, ?_⟩
  have builtState : OperatorTable.build [.fill 1, .fill 2] [⟨[.fill 3], []⟩, ⟨[], [2]⟩] =
      .ok state.operators := built
  have entries := (historical_lookup_unambiguous builtState injective).1
  have listed : state.operators.historicalNnScripts = [first, joined, last] := history
  rw [listed] at entries
  exact entries first (by simp) last (by simp) recurs

end Asm
