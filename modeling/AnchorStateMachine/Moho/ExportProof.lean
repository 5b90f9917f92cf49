import AnchorStateMachine.Moho.Worker

/-! Proofs of exported entries: they are made from the stored leaves and checked against the
accumulator in the Moho state of a block. -/

namespace Asm
open Outcome

/-- Accumulators of exported entries, and the proofs made from their leaves. -/
class ExportProofs [MerkleMountainRange] [MohoLibs] where
  ExportProof : Type
  numEntries : MohoLibs.ExportMmr → Nat
  generateProof : List Buf32 → Nat → Option ExportProof
  verify : MohoLibs.ExportMmr → ExportProof → Buf32 → Bool

inductive ExportProofError
  | noStateAtBlock (block : L1BlockCommitment)
  | noSuchContainer (containerId : ContainerId) (block : L1BlockCommitment)
  | noSuchLeaf (containerId : ContainerId)
  | leafAfterBlock (containerId : ContainerId) (mmrIndex atLeafCount : Nat)
  | proofDoesNotVerify (containerId : ContainerId) (mmrIndex : Nat) (block : L1BlockCommitment)
  | exportEntries
  deriving DecidableEq

section

variable [MerkleMountainRange] [MohoLibs]

/-- The accumulator that grows from the empty one by some leaves. -/
def exportMmr (leaves : List Buf32) : Option MohoLibs.ExportMmr :=
  leaves.foldlM MohoLibs.addExportEntry MohoLibs.emptyExportMmr

def findContainer (containers : List ExportContainer) (containerId : Nat) : Option ExportContainer :=
  containers.find? fun container => container.containerId = containerId

section

variable [ExportProofs]

/-- Proofs are correct: the accumulator of some leaves counts them, and accepts the proof of each. -/
def ExportProofs.Correct : Prop :=
  ∀ leaves mmr, exportMmr leaves = some mmr → numEntries mmr = leaves.length ∧
    ∀ index leaf, leaves[index]? = some leaf → ∃ proof, generateProof leaves index = some proof ∧
      verify mmr proof leaf = true

def SledExportEntriesDb.generateProof (db : SledExportEntriesDb) (id : ContainerId)
    (mmrIndex atLeafCount : Nat) :
    Except ExportProofError ExportProofs.ExportProof :=
  if db.numEntries id < atLeafCount ∨ atLeafCount ≤ mmrIndex then .error .exportEntries
  else
    match ExportProofs.generateProof ((db.nodes id).take atLeafCount) mmrIndex with
    | none => .error .exportEntries
    | some proof => .ok proof

def buildExportEntryMmrProof (stores : MohoStores) (block : L1BlockCommitment)
    (containerId : ContainerId) (leaf : Buf32) : Except ExportProofError ExportProofs.ExportProof :=
  match stores.mohoStates.get block with
  | none => .error (.noStateAtBlock block)
  | some mohoState =>
    match findContainer mohoState.exportState containerId with
    | none => .error (.noSuchContainer containerId block)
    | some container =>
      let atLeafCount := ExportProofs.numEntries container.entries
      match stores.exportEntries.findIndex containerId leaf with
      | none => .error (.noSuchLeaf containerId)
      | some mmrIndex =>
        if atLeafCount ≤ mmrIndex then .error (.leafAfterBlock containerId mmrIndex atLeafCount)
        else do
          let proof ← stores.exportEntries.generateProof containerId mmrIndex atLeafCount
          if ExportProofs.verify container.entries proof leaf then .ok proof
          else .error (.proofDoesNotVerify containerId mmrIndex block)

end

/-! ### The accumulators of a state -/

/-- A state exports some leaves to a container: its accumulator is theirs, and it is there if there
are any. -/
structure ExportsTo (containers : List ExportContainer) (containerId : Nat)
    (leaves : List Buf32) : Prop where
  mmr : exportMmr leaves = some (((findContainer containers containerId).map
    ExportContainer.entries).getD
    MohoLibs.emptyExportMmr)
  found : leaves ≠ [] → findContainer containers containerId ≠ none

/-- Changing a container leaves the others alone. -/
theorem containerMut_ok {containers after : List ExportContainer} {containerId : Nat}
    {change : ExportContainer → Exec ExportContainer}
    (keeps : ∀ container changed, change container = .ok changed →
      changed.containerId = container.containerId)
    (h : containerMut containers containerId change = .ok after) :
    (∃ changed, change ((findContainer containers containerId).getD (.new containerId)) = .ok changed ∧
      findContainer after containerId = some changed) ∧
    ∀ other, other ≠ containerId → findContainer after other = findContainer containers other := by
  induction containers generalizing after with
  | nil =>
    obtain ⟨changed, isChanged, h⟩ := bind_ok h
    cases pure_ok h
    have same : changed.containerId = containerId := keeps _ _ isChanged
    refine ⟨⟨changed, isChanged, by simp [findContainer, same]⟩, fun other different => ?_⟩
    simp [findContainer, same, Ne.symm different]
  | cons container rest ih =>
    unfold containerMut at h
    split at h
    · rename_i here
      obtain ⟨changed, isChanged, h⟩ := bind_ok h
      cases pure_ok h
      have same : changed.containerId = containerId := (keeps _ _ isChanged).trans here
      have first : findContainer (container :: rest) containerId = some container := by
        simp [findContainer, here]
      refine ⟨⟨changed, by rw [first]; exact isChanged, by simp [findContainer, same]⟩,
        fun other different => ?_⟩
      simp [findContainer, same, here, Ne.symm different]
    · rename_i elsewhere
      obtain ⟨more, changedRest, h⟩ := bind_ok h
      cases pure_ok h
      obtain ⟨⟨changed, isChanged, found⟩, others⟩ := ih changedRest
      have skip : ∀ xs, findContainer (container :: xs) containerId = findContainer xs containerId := by
        simp [findContainer, elsewhere]
      refine ⟨⟨changed, by rw [skip]; exact isChanged, by rw [skip]; exact found⟩,
        fun other different => ?_⟩
      have := others other different
      simp only [findContainer, List.find?_cons] at this ⊢
      rw [this]

/-- The leaves that logs add to a container, in their order. -/
def exportLeaves (logs : List AsmLogEntry) (containerId : Nat) : List Buf32 :=
  logs.filterMap fun
    | .newExportEntry id entryData => if id = containerId then some entryData else none
    | _ => none

theorem exportMmr_concat {leaves : List Buf32} {mmr : MohoLibs.ExportMmr}
    (h : exportMmr leaves = some mmr) (leaf : Buf32) :
    exportMmr (leaves ++ [leaf]) = MohoLibs.addExportEntry mmr leaf := by
  unfold exportMmr at h ⊢
  rw [List.foldlM_append, h]
  exact Option.bind_fun_some (MohoLibs.addExportEntry mmr leaf)

theorem entries_getD (found : Option ExportContainer) (containerId : Nat) :
    (found.getD (.new containerId)).entries =
    (found.map ExportContainer.entries).getD MohoLibs.emptyExportMmr := by
  cases found with
  | none => rfl
  | some container => rfl

theorem ExportsTo.of_find {containers after : List ExportContainer} {containerId : Nat}
    {leaves : List Buf32} (exports : ExportsTo containers containerId leaves)
    (same : findContainer after containerId = findContainer containers containerId) :
    ExportsTo after containerId leaves :=
  ⟨same ▸ exports.mmr, same ▸ exports.found⟩

theorem ExportsTo.advance {containers after : List ExportContainer} {containerId : Nat}
    {leaves : List Buf32} {log : AsmLogEntry} (exports : ExportsTo containers containerId leaves)
    (h : advanceExportContainers containers log = .ok after) :
    ExportsTo after containerId (leaves ++ exportLeaves [log] containerId) := by
  cases log with
  | newExportEntry id entryData =>
    obtain ⟨⟨changed, isChanged, found⟩, others⟩ :=
      containerMut_ok (fun container changed isChanged => by
      split at isChanged
      · cases isChanged
      · cases isChanged
        rfl) h
    by_cases here : id = containerId
    · subst here
      have added : exportLeaves [.newExportEntry id entryData] id = [entryData] := by simp [exportLeaves]
      rw [added]
      split at isChanged
      · cases isChanged
      · rename_i grown
        cases isChanged
        rw [entries_getD] at grown
        refine ⟨?_, fun _ => by rw [found]; exact Option.some_ne_none _⟩
        rw [exportMmr_concat exports.mmr, grown, found]
        rfl
    · have none : exportLeaves [.newExportEntry id entryData] containerId = [] := by
        simp [exportLeaves, here]
      rw [none, List.append_nil]
      exact exports.of_find (others containerId (Ne.symm here))
  | exportExtraDataUpdate id extraData =>
    obtain ⟨⟨changed, isChanged, found⟩, others⟩ :=
      containerMut_ok (fun container changed isChanged => by
      cases isChanged
      rfl) h
    rw [show exportLeaves [.exportExtraDataUpdate id extraData] containerId =
      [] from rfl, List.append_nil]
    by_cases here : id = containerId
    · subst here
      cases isChanged
      refine ⟨?_, fun _ => by rw [found]; exact Option.some_ne_none _⟩
      rw [exports.mmr, found, ← entries_getD]
      rfl
    · exact exports.of_find (others containerId (Ne.symm here))
  | _ =>
    cases pure_ok h
    exact (List.append_nil leaves).symm ▸ exports

theorem ExportsTo.advanceAll {containers after : List ExportContainer} {containerId : Nat}
    {leaves : List Buf32} {logs : List AsmLogEntry}
    (exports : ExportsTo containers containerId leaves)
    (h : logs.foldlM advanceExportContainers containers = .ok after) :
    ExportsTo after containerId (leaves ++ exportLeaves logs containerId) := by
  induction logs generalizing containers leaves with
  | nil =>
    cases pure_ok h
    exact (List.append_nil leaves).symm ▸ exports
  | cons log logs ih =>
    rw [List.foldlM_cons] at h
    obtain ⟨next, first, rest⟩ := bind_ok h
    have split : exportLeaves (log :: logs) containerId =
        exportLeaves [log] containerId ++ exportLeaves logs containerId :=
      List.filterMap_append (l := [log])
    rw [split, ← List.append_assoc]
    exact ih (exports.advance first) rest

/-- The accumulators follow the logs of a block. -/
theorem ExportsTo.next {prev next : MohoState} {anchor : AnchorState} {containerId : Nat}
    {leaves : List Buf32} {logs : List AsmLogEntry}
    (exports : ExportsTo prev.exportState containerId leaves)
    (h : constructNextMohoState prev anchor logs = .ok next) :
    ExportsTo next.exportState containerId (leaves ++ exportLeaves logs containerId) := by
  obtain ⟨containers, advanced, h⟩ := bind_ok h
  cases pure_ok h
  obtain ⟨_, folded, checked⟩ := bind_ok advanced
  split at checked
  · cases checked
  · cases pure_ok checked
    exact exports.advanceAll folded

theorem exports_genesis (containerId : Nat) :
    ExportsTo [] containerId [] := ⟨rfl, fun some => absurd rfl some⟩

/-! ### Building proofs -/

section

variable [ExportProofs] {stores : MohoStores} {block : L1BlockCommitment} {id : ContainerId}
  {leaf : Buf32} {moho : MohoState} {leaves : List Buf32}

/-- A leaf of the state that is found in the stored leaves has a proof. -/
theorem buildExportEntryMmrProof_ok (correct : ExportProofs.Correct)
    (stored : stores.mohoStates.get block = some moho)
    (exports : ExportsTo moho.exportState id leaves) (same : stores.exportEntries.nodes id = leaves)
    {mmrIndex : Nat} (found : stores.exportEntries.findIndex id leaf = some mmrIndex)
    (here : leaves[mmrIndex]? = some leaf) :
    ∃ proof, buildExportEntryMmrProof stores block id leaf = .ok proof := by
  obtain ⟨container, isContainer⟩ := Option.ne_none_iff_exists'.mp
    (exports.found fun nothing => by rw [nothing] at here; cases here)
  have mmr := exports.mmr
  rw [isContainer] at mmr
  obtain ⟨count, proofs⟩ := correct leaves container.entries mmr
  obtain ⟨proof, generated, verified⟩ := proofs mmrIndex leaf here
  have inside := (List.getElem?_eq_some_iff.mp here).1
  refine ⟨proof, ?_⟩
  have isProof : stores.exportEntries.generateProof id mmrIndex leaves.length = .ok proof := by
    unfold SledExportEntriesDb.generateProof SledExportEntriesDb.numEntries
    rw [same, if_neg (by omega), List.take_length, generated]
  simp only [buildExportEntryMmrProof, stored, isContainer, found, count,
    if_neg (Nat.not_le.mpr inside), isProof, ok_bind, verified, if_true]

/-- A leaf that the index has lost fails, although the state has it. -/
theorem buildExportEntryMmrProof_lost (stored : stores.mohoStates.get block = some moho)
    (exports : ExportsTo moho.exportState id leaves) (nonempty : leaves ≠ [])
    (lost : stores.exportEntries.findIndex id leaf = none) :
    buildExportEntryMmrProof stores block id leaf = .error (.noSuchLeaf id) := by
  obtain ⟨container, isContainer⟩ := Option.ne_none_iff_exists'.mp (exports.found nonempty)
  simp only [buildExportEntryMmrProof, stored, isContainer, lost]

end

end

end Asm
