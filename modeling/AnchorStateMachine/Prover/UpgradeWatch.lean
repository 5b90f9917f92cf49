import AnchorStateMachine.Governance.Provenance
import AnchorStateMachine.Prover.Context

/-! Early warning for queued ASM upgrades that the prover has no program for. The queue is checked
after every committed block, and an upgrade stays in it until it is enacted. -/

namespace Asm
open Outcome

inductive UpgradeWarning
  | readFailed (error : ProverError)
  | decodeFailed
  | unprovable (updateId activationHeight : Nat) (predicate : PredicateKey)
  deriving DecidableEq

/-- The admin queue of an anchor state. One without an admin section has an empty queue. -/
def queuedAdminUpdates [MerkleMountainRange] (anchor : AnchorState) : Option (List QueuedUpdate) :=
  match anchor.findSection adminSubprotocolId with
  | none => some []
  | some entry => entry.tryToAdmin.map AdministrationSubprotoState.queued

def unprovableAsmUpgrades (queued : List QueuedUpdate) (asm : AsmHostRegistry) :
    List (QueuedUpdate × PredicateKey) :=
  queued.filterMap fun update =>
    match update.action with
    | .asmStfVk key => if (asm.get key).isOk then none else some (update, key)
    | _ => none

def warnUnprovableAsmUpgrades [MerkleMountainRange] (asm : AsmHostRegistry)
    (anchor : Except ProverError AnchorState) : List UpgradeWarning :=
  match anchor with
  | .error error => [.readFailed error]
  | .ok anchor =>
    match queuedAdminUpdates anchor with
    | none => [.decodeFailed]
    | some queued => (unprovableAsmUpgrades queued asm).map fun flagged =>
        .unprovable flagged.1.id flagged.1.activationHeight flagged.2

theorem mem_unprovableAsmUpgrades {queued : List QueuedUpdate} {asm : AsmHostRegistry}
    {update : QueuedUpdate} {key : PredicateKey} (mem : update ∈ queued)
    (isKey : update.action = .asmStfVk key) {error : ProverError}
    (missing : asm.get key = .error error) : (update, key) ∈ unprovableAsmUpgrades queued asm := by
  refine List.mem_filterMap.mpr ⟨update, mem, ?_⟩
  simp [isKey, missing, Except.isOk, Except.toBool]

/-- The program for the next block is the first one, or one that a block enacted. -/
theorem firstKeys_source [AsmLibs] (network : Network) (predicate : PredicateKey)
    (records : List BlockRecord) :
    firstKeys network predicate records = predicate ∨
      ∃ record ∈ records, firstKeys network predicate records ∈ record.asmKeys network := by
  induction records using List.reverseRecOn with
  | nil => exact .inl rfl
  | append_singleton past record ih =>
    rw [firstKeys_concat]
    cases keys : record.asmKeys network with
    | nil =>
      rw [List.head?_nil, Option.getD_none]
      refine ih.imp_right fun ⟨earlier, mem, enacted⟩ => ?_
      exact ⟨earlier, List.mem_append_left _ mem, enacted⟩
    | cons key rest => exact .inr ⟨record, by simp, by simp [keys]⟩

section

variable [AsmLibs] {params : AsmParams} {records : List BlockRecord} {state : AnchorState}

theorem queuedAdminUpdates_loaded {states : Subprotocols}
    (loaded : state.subprotocols = some states) :
    queuedAdminUpdates state = some states.admin.queued := by
  simp only [AnchorState.subprotocols, Option.bind_eq_bind, Option.bind_eq_some_iff] at loaded
  obtain ⟨admin, ⟨entry, found, decoded⟩, checkpoint, -, bridge, -, same⟩ := loaded
  cases same
  simp [queuedAdminUpdates, found, decoded]

/-- Let the prover have the program of genesis, and updates of the program wait. If it then has none
for the next block, the one it lacks was enacted by an update that waited, and the watch reported that
update after each of the blocks it waited for. -/
theorem upgrade_watch_warns [MohoLibs] {predicate : PredicateKey} {moho : MohoState}
    (folds : Folds params predicate records state moho) {depth : Nat}
    (waits : params.admin.confirmationDepths.get .asmStfVkUpdate = some depth) {asm : AsmHostRegistry}
    {program : AsmProgramDescriptor} (provable : asm.get predicate = .ok program)
    {error : ProverError} (missing : asm.get moho.nextPredicate = .error error) :
    ∃ id activation, params.anchor.block.height + depth < activation ∧ activation ≤ state.height ∧
      ∀ past before, past <+: records → Run params past before →
        activation ≤ before.height + depth → before.height < activation →
        .unprovable id activation moho.nextPredicate ∈ warnUnprovableAsmUpgrades asm (.ok before) := by
  have next := folds.nextPredicate
  rcases firstKeys_source params.anchor.network predicate records with same | ⟨record, mem, enacted⟩
  · rw [next, same, provable] at missing
    cases missing
  rw [← next] at enacted
  obtain ⟨event, listed, id, enacts⟩ := BlockRecord.asmKeys_enacts enacted
  have happened : (record.manifest.height, event) ∈ adminHistory params.anchor.network records :=
    List.mem_flatMap.mpr ⟨record, mem, List.mem_map_of_mem listed⟩
  obtain ⟨above, reached, queued⟩ := folds.run.queued_until happened enacts waits
  refine ⟨id, record.manifest.height, above, reached, fun past before isPrefix earlier since pending => ?_⟩
  obtain ⟨states, loaded, waiting⟩ := queued past before isPrefix earlier since pending
  have flagged := mem_unprovableAsmUpgrades waiting rfl missing
  simp only [warnUnprovableAsmUpgrades, queuedAdminUpdates_loaded loaded]
  exact List.mem_map_of_mem flagged

end

/-! ### A concrete run -/

/-- A prover that knows the first program only. -/
def sampleFirstProgram : AsmHostRegistry := ⟨[⟨1, ⟨1, [0]⟩⟩]⟩

section

attribute [local instance] sampleUpdateLibs sampleMohoLibs

set_option maxRecDepth 8000 in
theorem sampleDelay_folds : ∃ genesis first firstManifest second secondManifest third thirdManifest
      firstMoho secondMoho thirdMoho,
    genesisState sampleDelayParams = .ok genesis ∧
    computeAsmTransition (asmSpec .v1) genesis (sampleUpdateBlock [sampleRekeyTx 1 5]) ⟨[], []⟩
      (some ⟨0, [.fill 5]⟩) = .ok (.ok ⟨first, firstManifest⟩) ∧
    computeAsmTransition (asmSpec .v1) first (sampleQuietBlock 1 2) ⟨[], []⟩ none =
      .ok (.ok ⟨second, secondManifest⟩) ∧
    computeAsmTransition (asmSpec .v1) second (sampleQuietBlock 2 3) ⟨[], []⟩ none =
      .ok (.ok ⟨third, thirdManifest⟩) ∧
    constructNextMohoState (constructGenesisMohoState ⟨1, [0]⟩ genesis) first firstManifest.logs =
      .ok firstMoho ∧
    constructNextMohoState firstMoho second secondManifest.logs = .ok secondMoho ∧
    constructNextMohoState secondMoho third thirdManifest.logs = .ok thirdMoho ∧
    first.height = 2 ∧ second.height = 3 ∧ third.height = 4 ∧
    thirdMoho.nextPredicate = ⟨1, [5]⟩ :=
  ⟨_, _, _, _, _, _, _, _, _, _, rfl, rfl, rfl, rfl, rfl, rfl, rfl, rfl, rfl, rfl, rfl⟩

theorem upgrade_watch_warns_sample : ∃ first second third firstState secondState state moho id,
    Folds sampleDelayParams ⟨1, [0]⟩ [first, second, third] state moho ∧
    Run sampleDelayParams [first] firstState ∧ Run sampleDelayParams [first, second] secondState ∧
    moho.nextPredicate = ⟨1, [5]⟩ ∧
    .unprovable id 4 ⟨1, [5]⟩ ∈ warnUnprovableAsmUpgrades sampleFirstProgram (.ok firstState) ∧
    .unprovable id 4 ⟨1, [5]⟩ ∈ warnUnprovableAsmUpgrades sampleFirstProgram (.ok secondState) := by
  obtain ⟨genesis, _, _, _, _, _, _, _, _, moho, started, firstRan, secondRan, thirdRan, firstFold,
    secondFold, thirdFold, firstHeight, secondHeight, thirdHeight, next⟩ := sampleDelay_folds
  obtain ⟨_, _, _, first⟩ := processes_of_succeeded firstRan
  obtain ⟨_, _, _, second⟩ := processes_of_succeeded secondRan
  obtain ⟨_, _, _, third⟩ := processes_of_succeeded thirdRan
  have before := Folds.block (.genesis genesis.specId started) first firstFold
  have folds := Folds.block (before.block second secondFold) third thirdFold
  have missing : sampleFirstProgram.get moho.nextPredicate = .error (.unknownArtifact ⟨1, [5]⟩) := by
    rw [next]
    rfl
  have provable : sampleFirstProgram.get ⟨1, [0]⟩ = .ok ⟨1, ⟨1, [0]⟩⟩ := rfl
  have waits : sampleDelayParams.admin.confirmationDepths.get .asmStfVkUpdate = some 2 := rfl
  obtain ⟨id, activation, above, reached, warned⟩ := upgrade_watch_warns folds waits provable missing
  obtain rfl : activation = 4 := by
    have low : 1 + 2 < activation := above
    omega
  rw [next] at warned
  refine ⟨_, _, _, _, _, _, moho, id, folds, before.run, (before.block second secondFold).run, next,
    warned _ _ ?_ before.run ?_ ?_, warned _ _ ?_ (before.block second secondFold).run ?_ ?_⟩
  · simp
  · omega
  · omega
  · simp
  · omega
  · omega

end
end Asm
