import AnchorStateMachine.Bridge.Membership

/-!
The operator table invariant. Membership changes keep five views of the operator set coherent: the
indices, the keys, the current bitmap, the N/N scripts and the aggregated key. The history of N/N
configurations only grows, and an operator that has left the multisig does not come back.
-/

namespace Asm.OperatorTable
open Outcome

section

variable [TaprootKeys]

/-- The operator table invariant, before and after the first configuration is recorded. -/
structure Consistent (table : OperatorTable) : Prop extends Registry table where
  succession : table.historicalNnScripts.Pairwise fun earlier later =>
    Succeeds earlier.operators later.operators
  coherent : ∀ entry ∈ table.historicalNnScripts, entry.operators.len ≤ table.nextIdx ∧
    ∃ aggKey, Coherent table.operators aggKey entry
  currentLen : table.currentBitmap.len = table.nextIdx
  currentKey : ∀ entry, table.historicalNnScripts.getLast? = some entry →
    Coherent table.operators table.aggKey entry

theorem bootstrap_consistent : Consistent bootstrap where
  toRegistry := bootstrap_registry
  succession := .nil
  coherent := by simp [bootstrap]
  currentLen := rfl
  currentKey := by simp [bootstrap]

theorem currentBitmap_succeeds {table : OperatorTable} (consistent : Consistent table)
    {entry : HistoricalNnScript} (mem : entry ∈ table.historicalNnScripts) :
    Succeeds entry.operators table.currentBitmap := by
  obtain ⟨before, last, history⟩ : ∃ before last, table.historicalNnScripts = before ++ [last] :=
    ⟨_, _, (List.dropLast_append_getLast (List.ne_nil_of_mem mem)).symm⟩
  have current : table.currentBitmap = last.operators := by simp [currentBitmap, history]
  have succession := consistent.succession
  rw [history] at mem succession
  rw [current]
  rcases List.mem_append.mp mem with old | isLast
  · exact (List.pairwise_append.mp succession).2.2 entry old last (List.mem_singleton.mpr rfl)
  · rw [List.mem_singleton.mp isLast]
    exact succeeds_refl _

/-- What a membership change does: it leaves the table alone, or registers operators at its end and
records one configuration that succeeds the current one. -/
theorem applyMembershipChanges_cases {table after : OperatorTable} {add : List Buf32}
    {remove : List Nat} (consistent : Consistent table)
    (h : table.applyMembershipChanges add remove = .ok after) :
    after = table ∨ ∃ active, Registry after ∧ table.operators <+: after.operators ∧
      after.historicalNnScripts =
        table.historicalNnScripts ++ [⟨buildNnScript after.aggKey, active⟩] ∧
      active.len = after.nextIdx ∧ Succeeds table.currentBitmap active ∧
      aggregateSchnorrKeys (activeKeys after.operators active) = some after.aggKey := by
  unfold applyMembershipChanges at h
  obtain ⟨⟨grown, added⟩, addition, h⟩ := bind_ok h
  obtain ⟨active, removal, h⟩ := bind_ok h
  have grows := addOperators_extends consistent.toRegistry consistent.currentLen addition
  obtain ⟨sameLen, cleared⟩ := removeOperators_clears removal
  have len : active.len = grown.nextIdx := sameLen.trans grows.sameLen
  have succeeds : Succeeds table.currentBitmap active := by
    refine ⟨sameLen ▸ grows.grows, fun i inside set => ?_⟩
    rw [← grows.kept i inside]
    exact cleared i set
  split at h
  · refine .inr ⟨active, ?_⟩
    unfold recordNnScript at h
    obtain ⟨aggKey, aggregated, h⟩ := bind_ok h
    cases pure_ok h
    have keys := calculateAggregatedKey_ok grows.registry len aggregated
    refine ⟨⟨grows.registry.next, grows.registry.indices, grows.registry.keys, grows.registry.bound⟩,
      grows.operators, ?_, len, succeeds, keys⟩
    rw [grows.history]
  · -- the bitmap kept its length, so no operator was registered either
    rename_i unchanged
    cases pure_ok h
    left
    have same : active.bits.bits = table.currentBitmap.bits.bits := not_not.mp unchanged
    have sameNext : after.nextIdx = table.nextIdx := by
      rw [← len, ← consistent.currentLen, OperatorBitmap.len, ← PackedBits.bits_length, same,
        PackedBits.bits_length, OperatorBitmap.len]
    have sameOperators : table.operators = after.operators := by
      apply grows.operators.eq_of_length
      rw [← consistent.next, ← sameNext, grows.registry.next]
    have sameKey := grows.aggKey
    have sameHistory := grows.history
    obtain ⟨nextIdx, operators, aggKey, history⟩ := after
    obtain ⟨nextIdx', operators', aggKey', history'⟩ := table
    simp_all

theorem applyMembershipChanges_consistent {table after : OperatorTable} {add : List Buf32}
    {remove : List Nat} (consistent : Consistent table)
    (h : table.applyMembershipChanges add remove = .ok after) : Consistent after := by
  rcases applyMembershipChanges_cases consistent h with
    rfl | ⟨active, registry, grows, history, len, succeeds, aggregated⟩
  · exact consistent
  · have notLess : table.nextIdx ≤ after.nextIdx := by
      rw [consistent.next, registry.next]
      exact grows.length_le
    have currentBitmap : after.currentBitmap = active := by simp [currentBitmap, history]
    refine {
      toRegistry := registry, succession := ?_, coherent := ?_, currentLen := ?_, currentKey := ?_ }
    · rw [history]
      refine List.pairwise_append.mpr ⟨consistent.succession, List.pairwise_singleton _ _, ?_⟩
      intro earlier mem later isNew
      rw [List.mem_singleton] at isNew
      subst isNew
      -- the new configuration succeeds the last one, which succeeds every earlier one
      have last := currentBitmap_succeeds consistent mem
      exact succeeds_trans last succeeds
    · intro entry mem
      rw [history] at mem
      rcases List.mem_append.mp mem with old | isNew
      · obtain ⟨covered, aggKey, coherent⟩ := consistent.coherent entry old
        exact ⟨covered.trans notLess, aggKey,
          coherent_grown consistent.toRegistry registry grows covered coherent⟩
      · rw [List.mem_singleton] at isNew
        subst isNew
        exact ⟨len.le, after.aggKey, aggregated, rfl⟩
    · rw [currentBitmap, len]
    · intro entry last
      rw [history, List.getLast?_append] at last
      simp only [List.getLast?_singleton, Option.some_or, Option.some.injEq] at last
      subst last
      exact ⟨aggregated, rfl⟩

theorem applyMembershipChanges_history {table after : OperatorTable} {add : List Buf32}
    {remove : List Nat} (consistent : Consistent table)
    (h : table.applyMembershipChanges add remove = .ok after) :
    table.historicalNnScripts <+: after.historicalNnScripts := by
  rcases applyMembershipChanges_cases consistent h with rfl | ⟨active, -, -, history, -⟩
  · exact List.prefix_rfl
  · exact history ▸ List.prefix_append _ _

theorem applyMembershipChanges_avoids {table : OperatorTable} (consistent : Consistent table)
    (add : List Buf32) (remove : List Nat) :
    Avoids Undocumented (table.applyMembershipChanges add remove) := by
  unfold applyMembershipChanges
  have adding : Avoids Undocumented (table.addOperators table.currentBitmap add) := by
    refine foldlM_avoids (Extends (table, table.currentBitmap))
      (fun pk _ s t invariant step => ?_) (fun pk _ s invariant => ?_)
      (extends_refl consistent.toRegistry consistent.currentLen)
    · exact extends_trans invariant (addOperator_extends invariant.registry invariant.sameLen step).1
    · exact addOperator_avoids pk invariant.sameLen
  refine adding.bind fun ⟨grown, added⟩ _ => ?_
  have removing : Avoids Undocumented (grown.removeOperators added remove) :=
    foldlM_avoids (fun _ => True) (fun _ _ _ _ _ _ => trivial)
      (fun idx _ s _ => removeOperator_avoids grown s idx) trivial
  refine removing.bind fun active _ => ?_
  split
  · unfold recordNnScript
    refine Avoids.bind ?_ fun _ _ => avoids_ok _
    unfold calculateAggregatedKey
    dsimp only
    split
    · exact avoids_error (by simp [Undocumented])
    · split
      · exact avoids_ok _
      · exact avoids_error (by simp [Undocumented])
  · exact avoids_ok _

/-! ### Runs -/

structure MembershipChange where
  addMembers : List Buf32
  removeMembers : List Nat
  deriving DecidableEq

def applyChanges (table : OperatorTable) (changes : List MembershipChange) : Exec OperatorTable :=
  changes.foldlM (fun table change => table.applyMembershipChanges change.addMembers
    change.removeMembers)
    table

def build (operators : List Buf32) (changes : List MembershipChange) : Exec OperatorTable := do
  let table ← fromOperatorList operators
  table.applyChanges changes

theorem fromOperatorList_consistent {operators : List Buf32} {table : OperatorTable}
    (h : fromOperatorList operators = .ok table) :
    Consistent table ∧ table.historicalNnScripts ≠ [] := by
  unfold fromOperatorList at h
  split at h
  · cases h
  · rename_i nonempty
    have consistent := applyMembershipChanges_consistent bootstrap_consistent h
    refine ⟨consistent, fun empty => ?_⟩
    -- some operator was registered, so the current bitmap is not the empty one
    rcases applyMembershipChanges_cases bootstrap_consistent h with rfl | ⟨active, -, -, history, -⟩
    · unfold applyMembershipChanges at h
      obtain ⟨⟨grown, added⟩, addition, h⟩ := bind_ok h
      obtain ⟨active, removal, h⟩ := bind_ok h
      have some := addOperators_nonempty bootstrap_registry rfl (by simpa using nonempty) addition
      split at h
      · unfold recordNnScript at h
        obtain ⟨aggKey, -, h⟩ := bind_ok h
        have same := congrArg OperatorTable.historicalNnScripts (pure_ok h)
        simp [bootstrap] at same
      · rename_i unchanged
        cases pure_ok h
        exact some rfl
    · simp [history] at empty

theorem applyChanges_consistent {table after : OperatorTable} {changes : List MembershipChange}
    (consistent : Consistent table) (h : table.applyChanges changes = .ok after) :
    Consistent after ∧ table.historicalNnScripts <+: after.historicalNnScripts := by
  refine foldlM_preserves
    (fun t => Consistent t ∧ table.historicalNnScripts <+: t.historicalNnScripts)
    (fun change _ s t invariant step => ?_) ⟨consistent, List.prefix_rfl⟩ h
  exact ⟨applyMembershipChanges_consistent invariant.1 step,
    invariant.2.trans (applyMembershipChanges_history invariant.1 step)⟩

theorem build_consistent {operators : List Buf32} {changes : List MembershipChange}
    {table : OperatorTable} (h : build operators changes = .ok table) :
    Consistent table ∧ table.historicalNnScripts ≠ [] := by
  unfold build at h
  obtain ⟨first, listed, h⟩ := bind_ok h
  obtain ⟨consistent, recorded⟩ := fromOperatorList_consistent listed
  obtain ⟨after, history⟩ := applyChanges_consistent consistent h
  exact ⟨after, fun empty => recorded (List.prefix_nil.mp (empty ▸ history))⟩

theorem fromOperatorList_avoids (operators : List Buf32) :
    Avoids Undocumented (fromOperatorList operators) := by
  unfold fromOperatorList
  split
  · exact avoids_error (by simp [Undocumented])
  · exact applyMembershipChanges_avoids bootstrap_consistent _ _

theorem build_avoids (operators : List Buf32) (changes : List MembershipChange) :
    Avoids Undocumented (build operators changes) := by
  unfold build
  refine (fromOperatorList_avoids operators).bind fun table listed => ?_
  exact foldlM_avoids Consistent
    (fun _ _ _ _ invariant step => applyMembershipChanges_consistent invariant step)
    (fun _ _ _ invariant => applyMembershipChanges_avoids invariant _ _)
    (fromOperatorList_consistent listed).1

theorem currentMultisig_ok {table : OperatorTable} (consistent : Consistent table)
    (recorded : table.historicalNnScripts ≠ []) :
    table.currentMultisig = .ok table.currentBitmap ∧ table.currentBitmap.len = table.nextIdx := by
  refine ⟨?_, consistent.currentLen⟩
  have last := List.getLast?_eq_getLast_of_ne_nil recorded
  simp [currentMultisig, currentNnScript, currentBitmap, last]

/-! ### The table's contract -/

structure Sound (table : OperatorTable) : Prop where
  nextIdx : table.nextIdx = table.operators.length
  multisig : ∃ current, table.currentMultisig = .ok current ∧ current.len = table.nextIdx
  indices : ∀ i (inside : i < table.operators.length), table.operators[i].idx = i
  distinct : (table.operators.map (·.musig2Pk)).Nodup
  lengths : table.historicalNnScripts.Pairwise fun earlier later =>
    earlier.operators.len ≤ later.operators.len
  scripts : ∀ entry ∈ table.historicalNnScripts, ∃ aggKey,
    aggregateSchnorrKeys (activeKeys table.operators entry.operators) = some aggKey ∧
      entry.script = newP2tr aggKey none
  aggKey : ∃ last, table.historicalNnScripts.getLast? = some last ∧
    aggregateSchnorrKeys (activeKeys table.operators last.operators) = some table.aggKey
  retired : ∀ i j k : Nat, i < j → j < k → ∀ first second third : HistoricalNnScript,
    table.historicalNnScripts[i]? = some first → table.historicalNnScripts[j]? = some second →
    table.historicalNnScripts[k]? = some third →
    ∀ op, first.operators.isActive op → ¬ second.operators.isActive op → ¬ third.operators.isActive op

theorem consistent_sound {table : OperatorTable} (consistent : Consistent table)
    (recorded : table.historicalNnScripts ≠ []) : Sound table where
  nextIdx := consistent.next
  multisig := ⟨_, currentMultisig_ok consistent recorded⟩
  indices _ inside := consistent.idx_eq inside
  distinct := consistent.keys
  lengths := consistent.succession.imp fun succeeds => succeeds.1
  scripts entry mem := (consistent.coherent entry mem).2
  aggKey := by
    have last := List.getLast?_eq_getLast_of_ne_nil recorded
    exact ⟨_, last, (consistent.currentKey _ last).1⟩
  retired := by
    intro i j k below above first second third atI atJ atK op wasSet cleared set
    have succession := List.pairwise_iff_getElem.mp consistent.succession
    obtain ⟨insideI, rfl⟩ := List.getElem?_eq_some_iff.mp atI
    obtain ⟨insideJ, rfl⟩ := List.getElem?_eq_some_iff.mp atJ
    obtain ⟨insideK, rfl⟩ := List.getElem?_eq_some_iff.mp atK
    -- the operator was registered at `i`, so position `j` already covers its index
    have covered := (OperatorBitmap.isActive_lt wasSet).trans_le (succession i j insideI insideJ below).1
    exact cleared ((succession j k insideJ insideK above).2 op covered set)

/-- No `try_set` of a membership change fails; and every table built from an operator list by
membership changes is sound, with the history of every earlier point of the run as an initial part of
its own. -/
theorem build_sound (operators : List Buf32) (changes : List MembershipChange) :
    (∀ error, build operators changes ≠ .error (.operatorBitmap error)) ∧
    ∀ table, build operators changes = .ok table →
      Sound table ∧
      ∀ before after, changes = before ++ after → ∃ earlier, build operators before = .ok earlier ∧
        earlier.historicalNnScripts <+: table.historicalNnScripts := by
  refine ⟨fun error stopped => build_avoids operators changes _ stopped (by simp [Undocumented]), ?_⟩
  intro table built
  obtain ⟨consistent, recorded⟩ := build_consistent built
  refine ⟨consistent_sound consistent recorded, ?_⟩
  rintro before after rfl
  unfold build at built ⊢
  obtain ⟨first, listed, built⟩ := bind_ok built
  obtain ⟨earlier, atBefore, built⟩ := foldlM_append_ok built
  refine ⟨earlier, by rw [listed]; exact atBefore, ?_⟩
  have consistentBefore := (applyChanges_consistent (fromOperatorList_consistent listed).1 atBefore).1
  exact (applyChanges_consistent consistentBefore built).2

end

/-- Keys for concrete runs: the aggregation of a list is its first key, and a script is the key
itself. -/
@[reducible] def sampleKeys : TaprootKeys where
  aggregateSchnorrKeys keys := keys.head?
  newP2tr key _ := key.bytes

theorem build_sound_sample :
    let _ := sampleKeys
    ∃ table, build [.fill 1, .fill 2] [⟨[.fill 3, .fill 2], [0, 9]⟩] = .ok table ∧
      table.historicalNnScripts.map (·.operators.bits.bits) = [[true, true], [false, true, true]] ∧
      Sound table := by
  intro _
  have bitmaps : (@build sampleKeys [.fill 1, .fill 2] [⟨[.fill 3, .fill 2], [0, 9]⟩]).toOption.map
      (·.historicalNnScripts.map (·.operators.bits.bits)) = some [[true, true], [false, true, true]] := by
    decide +kernel
  obtain ⟨table, isTable, shape⟩ := Option.map_eq_some_iff.mp bitmaps
  have built := toOption_some isTable
  exact ⟨table, built, shape, ((build_sound _ _).2 table built).1⟩

end Asm.OperatorTable
