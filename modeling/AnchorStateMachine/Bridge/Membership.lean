import AnchorStateMachine.Bridge.Bitmap
import AnchorStateMachine.Bridge.OperatorTable
import Mathlib.Data.List.Infix

/-! What the parts of a membership change do to the operator table: registering operators, clearing
bits, and recording an N/N configuration. -/

namespace Asm
open Outcome

def activeKeys (operators : List OperatorEntry) (bitmap : OperatorBitmap) : List Buf32 :=
  (operators.filter fun op => bitmap.isActive op.idx).map (·.musig2Pk)

/-- A later bitmap covers at least the same indices and sets none that the earlier one had cleared. -/
def Succeeds (earlier later : OperatorBitmap) : Prop :=
  earlier.len ≤ later.len ∧ ∀ i < earlier.len, later.isActive i → earlier.isActive i

theorem succeeds_refl (bitmap : OperatorBitmap) : Succeeds bitmap bitmap :=
  ⟨Nat.le_refl _, fun _ _ set => set⟩

theorem succeeds_trans {a b c : OperatorBitmap} (first : Succeeds a b) (second : Succeeds b c) :
    Succeeds a c :=
  ⟨first.1.trans second.1, fun i inside set =>
    first.2 i inside (second.2 i (Nat.lt_of_lt_of_le inside first.1) set)⟩

namespace OperatorTable

/-- Operator `i` of the table has index `i`, keys are distinct and the next index is free. -/
structure Registry (table : OperatorTable) : Prop where
  next : table.nextIdx = table.operators.length
  indices : table.operators.map (·.idx) = List.range table.operators.length
  keys : (table.operators.map (·.musig2Pk)).Nodup
  bound : table.nextIdx ≤ u32Max

def currentBitmap (table : OperatorTable) : OperatorBitmap :=
  (table.historicalNnScripts.getLast?.map (·.operators)).getD .newEmpty

section Registry

variable {table : OperatorTable}

theorem bootstrap_registry : Registry bootstrap :=
  ⟨rfl, rfl, List.nodup_nil, Nat.zero_le _⟩

theorem Registry.idx_eq (registry : Registry table) {i : Nat} (inside : i < table.operators.length) :
    table.operators[i].idx = i := by
  have same := congrArg (·[i]?) registry.indices
  simpa [inside] using same

theorem Registry.sorted (registry : Registry table) :
    SortedVec.StrictlySorted OperatorEntry.idx table.operators := by
  have increasing : (table.operators.map (·.idx)).Pairwise (· < ·) := by
    rw [registry.indices]
    exact List.pairwise_lt_range
  exact List.pairwise_map.mp increasing

theorem Registry.mem_idx_lt (registry : Registry table) {op : OperatorEntry}
    (mem : op ∈ table.operators) : op.idx < table.operators.length := by
  have listed : op.idx ∈ table.operators.map (·.idx) := List.mem_map_of_mem mem
  rw [registry.indices] at listed
  exact List.mem_range.mp listed

theorem Registry.getOperator_eq (registry : Registry table) (idx : Nat) :
    table.getOperator idx = table.operators[idx]? := by
  unfold getOperator
  by_cases inside : idx < table.operators.length
  · rw [List.getElem?_eq_getElem inside, SortedVec.get_eq_some_iff registry.sorted]
    exact ⟨List.getElem_mem inside, registry.idx_eq inside⟩
  · rw [List.getElem?_eq_none (Nat.le_of_not_lt inside), SortedVec.get_eq_none_iff registry.sorted]
    rintro op mem rfl
    exact inside (registry.mem_idx_lt mem)

end Registry

/-! ### Adding operators -/

/-- What adding operators changes: the table grows at its end, and so does the bitmap. -/
structure Extends (before after : OperatorTable × OperatorBitmap) : Prop where
  registry : Registry after.1
  sameLen : after.2.len = after.1.nextIdx
  operators : before.1.operators <+: after.1.operators
  aggKey : after.1.aggKey = before.1.aggKey
  history : after.1.historicalNnScripts = before.1.historicalNnScripts
  kept : ∀ i < before.2.len, after.2.isActive i = before.2.isActive i
  grows : before.2.len ≤ after.2.len

theorem extends_refl {table : OperatorTable} {active : OperatorBitmap} (registry : Registry table)
    (sameLen : active.len = table.nextIdx) : Extends (table, active) (table, active) :=
  ⟨registry, sameLen, List.prefix_rfl, rfl, rfl, fun _ _ => rfl, Nat.le_refl _⟩

theorem extends_trans {a b c : OperatorTable × OperatorBitmap} (first : Extends a b)
    (second : Extends b c) : Extends a c where
  registry := second.registry
  sameLen := second.sameLen
  operators := first.operators.trans second.operators
  aggKey := second.aggKey.trans first.aggKey
  history := second.history.trans first.history
  kept i inside :=
    (second.kept i (Nat.lt_of_lt_of_le inside first.grows)).trans (first.kept i inside)
  grows := first.grows.trans second.grows

theorem addOperator_extends {table : OperatorTable} {active : OperatorBitmap}
    {after : OperatorTable × OperatorBitmap} {pk : Buf32} (registry : Registry table)
    (sameLen : active.len = table.nextIdx) (h : addOperator (table, active) pk = .ok after) :
    Extends (table, active) after ∧ ∃ op ∈ after.1.operators, op.musig2Pk = pk := by
  rw [addOperator] at h
  split at h
  · rename_i known
    cases pure_ok h
    refine ⟨extends_refl registry sameLen, ?_⟩
    simpa using known
  · rename_i unknown
    split at h
    · cases h
    · rename_i free
      dsimp only at h
      split at h
      · cases h
      · rename_i active' set
        cases pure_ok h
        obtain ⟨-, lenAfter, activeAfter⟩ := OperatorBitmap.trySet_ok set
        -- the new entry carries the next index, so it goes to the end of the table
        have last : SortedVec.insert OperatorEntry.idx ⟨table.nextIdx, pk⟩ table.operators =
            table.operators ++ [⟨table.nextIdx, pk⟩] := by
          apply SortedVec.insert_last
          intro op mem
          rw [registry.next]
          exact registry.mem_idx_lt mem
        have room : table.nextIdx + 1 ≤ u32Max := by
          have := registry.bound
          omega
        refine ⟨⟨⟨?_, ?_, ?_, room⟩, ?_, ?_, rfl, rfl, ?_, ?_⟩, ?_⟩
        · simp [registry.next]
        · rw [last]
          simp [registry.indices, registry.next, List.range_succ]
        · rw [last, List.map_append]
          refine List.nodup_append.mpr ⟨registry.keys, List.nodup_singleton _, ?_⟩
          intro key mem other isNew same
          obtain ⟨op, memOp, rfl⟩ := List.mem_map.mp mem
          rw [List.map_singleton, List.mem_singleton] at isNew
          exact unknown (by simpa using ⟨op, memOp, same.trans isNew⟩)
        · rw [lenAfter, sameLen]
          exact Nat.max_eq_right (Nat.le_succ _)
        · exact last ▸ List.prefix_append _ _
        · intro i inside
          rw [activeAfter, if_neg (by dsimp only at inside; omega)]
        · rw [lenAfter]
          exact Nat.le_max_left _ _
        · exact ⟨⟨table.nextIdx, pk⟩, by simp, rfl⟩

theorem addOperators_extends {table : OperatorTable} {active : OperatorBitmap}
    {after : OperatorTable × OperatorBitmap} {operators : List Buf32} (registry : Registry table)
    (sameLen : active.len = table.nextIdx) (h : table.addOperators active operators = .ok after) :
    Extends (table, active) after := by
  refine foldlM_preserves (Extends (table, active)) (fun pk _ s t invariant step => ?_)
    (extends_refl registry sameLen) h
  exact extends_trans invariant (addOperator_extends invariant.registry invariant.sameLen step).1

theorem addOperators_nonempty {table : OperatorTable} {active : OperatorBitmap}
    {after : OperatorTable × OperatorBitmap} {operators : List Buf32} (registry : Registry table)
    (sameLen : active.len = table.nextIdx) (some : operators ≠ [])
    (h : table.addOperators active operators = .ok after) : after.1.operators ≠ [] := by
  cases operators with
  | nil => exact absurd rfl some
  | cons pk rest =>
    unfold addOperators at h
    rw [List.foldlM_cons] at h
    obtain ⟨middle, first, h⟩ := bind_ok h
    obtain ⟨grown, op, mem, -⟩ := addOperator_extends registry sameLen first
    have rest := addOperators_extends grown.registry grown.sameLen h
    exact List.ne_nil_of_mem (rest.operators.subset mem)

/-! ### Removing operators -/

theorem removeOperator_clears {table : OperatorTable} {active after : OperatorBitmap} {idx : Nat}
    (h : table.removeOperator active idx = .ok after) :
    after.len = active.len ∧ ∀ i, after.isActive i → active.isActive i := by
  unfold removeOperator at h
  split at h
  · rename_i known
    split at h
    · cases h
    · rename_i cleared set
      cases pure_ok h
      obtain ⟨-, lenAfter, activeAfter⟩ := OperatorBitmap.trySet_ok set
      refine ⟨by rw [lenAfter]; exact Nat.max_eq_left known.2, fun i => ?_⟩
      rw [activeAfter]
      split
      · exact fun set => absurd set (by simp)
      · exact id
  · cases pure_ok h
    exact ⟨rfl, fun _ => id⟩

theorem removeOperators_clears {table : OperatorTable} {active after : OperatorBitmap}
    {indices : List Nat} (h : table.removeOperators active indices = .ok after) :
    after.len = active.len ∧ ∀ i, after.isActive i → active.isActive i := by
  refine foldlM_preserves
    (fun bitmap => bitmap.len = active.len ∧ ∀ i, bitmap.isActive i → active.isActive i)
    (fun idx _ s t invariant step => ?_) ⟨rfl, fun _ => id⟩ h
  have cleared := removeOperator_clears step
  exact ⟨cleared.1.trans invariant.1, fun i set => invariant.2 i (cleared.2 i set)⟩

/-! ### Bitmap updates cannot fail -/

def Undocumented (panic : Panic) : Prop :=
  panic ∉ [.emptyOperatorList, .operatorIndexExhausted, .emptyMultisig, .keyAggregation]

theorem addOperator_avoids {table : OperatorTable} {active : OperatorBitmap} (pk : Buf32)
    (sameLen : active.len = table.nextIdx) : Avoids Undocumented (addOperator (table, active) pk) := by
  rw [addOperator]
  split
  · exact avoids_ok _
  · split
    · exact avoids_error (by simp [Undocumented])
    · obtain ⟨result, set⟩ := OperatorBitmap.trySet_total true sameLen.ge
      simp only [set]
      exact avoids_ok _

theorem removeOperator_avoids (table : OperatorTable) (active : OperatorBitmap) (idx : Nat) :
    Avoids Undocumented (table.removeOperator active idx) := by
  unfold removeOperator
  split
  · rename_i known
    obtain ⟨result, set⟩ := OperatorBitmap.trySet_total false known.2.le
    simp only [set]
    exact avoids_ok _
  · exact avoids_ok _

/-! ### Recording a configuration -/

theorem activeKeys_grown {operators more : List OperatorEntry} {bitmap : OperatorBitmap}
    (fresh : ∀ op ∈ more, bitmap.len ≤ op.idx) :
    activeKeys (operators ++ more) bitmap = activeKeys operators bitmap := by
  have none : more.filter (fun op => bitmap.isActive op.idx) = [] := by
    rw [List.filter_eq_nil_iff]
    intro op mem set
    exact absurd (OperatorBitmap.isActive_lt set) (Nat.not_lt.mpr (fresh op mem))
  rw [activeKeys, List.filter_append, none, List.append_nil, activeKeys]

/-- A configuration's script is the key-path P2TR script of the aggregation of the keys set in its
bitmap. -/
def Coherent [TaprootKeys] (operators : List OperatorEntry) (aggKey : Buf32)
    (entry : HistoricalNnScript) : Prop :=
  aggregateSchnorrKeys (activeKeys operators entry.operators) = some aggKey ∧
    entry.script = buildNnScript aggKey

variable [TaprootKeys]

theorem calculateAggregatedKey_ok {table : OperatorTable} {active : OperatorBitmap} {aggKey : Buf32}
    (registry : Registry table) (sameLen : active.len = table.nextIdx)
    (h : table.calculateAggregatedKey active = .ok aggKey) :
    aggregateSchnorrKeys (activeKeys table.operators active) = some aggKey := by
  have fits : active.len ≤ u32Bound := by
    rw [sameLen]
    exact registry.bound.trans (Nat.sub_le _ _)
  have keys : (active.activeIndices.filterMap fun op => (table.getOperator op).map (·.musig2Pk)) =
      activeKeys table.operators active := by
    rw [OperatorBitmap.activeIndices_eq fits, sameLen, registry.next, ← registry.indices,
      List.filter_map, List.filterMap_map, activeKeys, ← List.filterMap_eq_map]
    apply List.filterMap_congr
    intro op mem
    simp [getOperator, SortedVec.get_of_mem registry.sorted (List.mem_of_mem_filter mem)]
  simp only [calculateAggregatedKey, keys] at h
  split at h
  · cases h
  · split at h
    · rename_i found
      cases pure_ok h
      exact found
    · cases h

theorem coherent_grown {table after : OperatorTable} {aggKey : Buf32} {entry : HistoricalNnScript}
    (registry : Registry table) (registryAfter : Registry after)
    (grows : table.operators <+: after.operators) (covered : entry.operators.len ≤ table.nextIdx)
    (coherent : Coherent table.operators aggKey entry) : Coherent after.operators aggKey entry := by
  obtain ⟨more, eq⟩ := grows
  refine ⟨?_, coherent.2⟩
  rw [← eq, activeKeys_grown, coherent.1]
  intro op mem
  obtain ⟨i, inside, rfl⟩ := List.mem_iff_getElem.mp mem
  have position : table.operators.length + i < after.operators.length := by
    rw [← eq, List.length_append]
    omega
  have idx := registryAfter.idx_eq position
  simp only [← eq, List.getElem_append_right (Nat.le_add_right _ _), Nat.add_sub_cancel_left] at idx
  rw [idx]
  exact covered.trans (registry.next ▸ Nat.le_add_right _ _)

end OperatorTable
end Asm
