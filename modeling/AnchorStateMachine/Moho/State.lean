import AnchorStateMachine.Stf.State

/-! The Moho state: a commitment to the anchor state, the program that authorizes the next step, and
what the subprotocols export. It is folded along the chain from the anchor states and the logs of
the blocks. -/

namespace Asm
open Outcome

/-- What the fold takes from other crates: the hash of an anchor state, and the accumulators of
exported entries. -/
class MohoLibs [MerkleMountainRange] where
  anchorStateRoot : AnchorState → Buf32
  ExportMmr : Type
  emptyExportMmr : ExportMmr
  addExportEntry : ExportMmr → Buf32 → Option ExportMmr
  maxExportContainers : Nat

variable [MerkleMountainRange] [MohoLibs]

structure ExportContainer where
  containerId : Nat
  extraData : Nat
  entries : MohoLibs.ExportMmr

structure MohoState where
  inner : Buf32
  nextPredicate : PredicateKey
  exportState : List ExportContainer

def ExportContainer.new (containerId : Nat) :
    ExportContainer := ⟨containerId, 0, MohoLibs.emptyExportMmr⟩

/-- Changes the container with an id, which is created at the end if there is none. -/
def containerMut (containers : List ExportContainer) (containerId : Nat)
    (change : ExportContainer → Exec ExportContainer) : Exec (List ExportContainer) :=
  match containers with
  | [] => do
    let container ← change (.new containerId)
    pure [container]
  | container :: rest =>
    if container.containerId = containerId then do
      let container ← change container
      pure (container :: rest)
    else do
      let rest ← containerMut rest containerId change
      pure (container :: rest)

def advanceExportContainers (containers : List ExportContainer) :
    AsmLogEntry → Exec (List ExportContainer)
  | .newExportEntry containerId entryData =>
    containerMut containers containerId fun container =>
      match MohoLibs.addExportEntry container.entries entryData with
      | none => throw (.exportEntryNotAdded containerId)
      | some entries => pure { container with entries }
  | .exportExtraDataUpdate containerId extraData =>
    containerMut containers containerId fun container => pure { container with extraData }
  | _ => pure containers

def advanceExportStateWithLogs (prev : List ExportContainer) (logs : List AsmLogEntry) :
    Exec (List ExportContainer) := do
  let containers ← logs.foldlM advanceExportContainers prev
  if MohoLibs.maxExportContainers < containers.length then throw .exportCapacityExceeded
  pure containers

def computeAnchorStateCommitment (state : AnchorState) : Buf32 := MohoLibs.anchorStateRoot state

def constructGenesisMohoState (asmPredicate : PredicateKey) (genesis : AnchorState) : MohoState :=
  ⟨computeAnchorStateCommitment genesis, asmPredicate, []⟩

def constructNextMohoState (prev : MohoState) (anchorState : AnchorState) (logs : List AsmLogEntry) :
    Exec MohoState := do
  let nextPredicate := (extractNextPredicateFromLogs logs).getD prev.nextPredicate
  let exportState ← advanceExportStateWithLogs prev.exportState logs
  pure ⟨computeAnchorStateCommitment anchorState, nextPredicate, exportState⟩

/-- What a block exports does not fit: an entry its container, or the containers the state. -/
inductive Panic.ExportOverflow : Panic → Prop
  | entry (containerId : Nat) : ExportOverflow (.exportEntryNotAdded containerId)
  | capacity : ExportOverflow .exportCapacityExceeded

theorem containerMut_avoids {bad : Panic → Prop} {containerId : Nat}
    {change : ExportContainer → Exec ExportContainer} (changes : ∀ container, Avoids bad (change container))
    (containers : List ExportContainer) : Avoids bad (containerMut containers containerId change) := by
  induction containers with
  | nil => exact (changes _).bind fun _ _ => avoids_ok _
  | cons container rest ih =>
    rw [containerMut]
    split_ifs
    · exact (changes _).bind fun _ _ => avoids_ok _
    · exact ih.bind fun _ _ => avoids_ok _

theorem advanceExportContainers_avoids (containers : List ExportContainer) (log : AsmLogEntry) :
    Avoids (fun panic => ¬panic.ExportOverflow) (advanceExportContainers containers log) := by
  cases log with
  | newExportEntry containerId entryData =>
    refine containerMut_avoids (fun container => ?_) containers
    cases MohoLibs.addExportEntry container.entries entryData with
    | none => exact avoids_error (not_not.mpr (.entry containerId))
    | some entries => exact avoids_ok _
  | exportExtraDataUpdate containerId extraData =>
    exact containerMut_avoids (fun _ => avoids_ok _) containers
  | _ => exact avoids_ok _

theorem constructNextMohoState_error {prev : MohoState} {anchorState : AnchorState}
    {logs : List AsmLogEntry} {panic : Panic}
    (failed : constructNextMohoState prev anchorState logs = .error panic) : panic.ExportOverflow := by
  have fold : Avoids (fun panic => ¬panic.ExportOverflow)
      (logs.foldlM advanceExportContainers prev.exportState) :=
    foldlM_avoids (fun _ => True) (fun _ _ _ _ _ _ => trivial)
      (fun log _ containers _ => advanceExportContainers_avoids containers log) trivial
  refine not_not.mp ((fold.bind fun containers _ => ?_).bind (fun _ _ => avoids_ok _) panic failed)
  split_ifs
  · exact avoids_error (not_not.mpr .capacity)
  · exact avoids_ok _

theorem constructNextMohoState_ok {prev next : MohoState} {anchorState : AnchorState}
    {logs : List AsmLogEntry} (h : constructNextMohoState prev anchorState logs = .ok next) :
    next.nextPredicate = (extractNextPredicateFromLogs logs).getD prev.nextPredicate := by
  obtain ⟨_, _, h⟩ := bind_ok h
  cases pure_ok h
  rfl

end Asm
