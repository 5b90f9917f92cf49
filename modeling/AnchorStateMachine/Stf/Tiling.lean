import AnchorStateMachine.Checkpoint.Tiling
import AnchorStateMachine.Common.AuxSound
import AnchorStateMachine.Stf.Predicates

/-! The history accumulator holds the manifests a run emitted, and the checkpoints the run accepts
commit to exactly the manifests of the heights they cover. -/

namespace Asm
open Outcome Checkpoint

section

variable [AsmLibs] {leaves : Mmr → List Buf32} {params : AsmParams} {records : List BlockRecord}
  {state : AnchorState}

/-! ### History -/

/-- Everything up to the anchor is prefilled, then every block adds its manifest. -/
theorem run_history (laws : MmrLaws leaves) (run : Run params records state) :
    leaves state.chainView.historyAccumulator =
      List.replicate (params.anchor.block.height + 1) AsmLibs.manifestMmrPrefillLeaf ++
        records.map fun record => AsmLibs.manifestHash record.manifest := by
  induction run with
  | genesis specId started =>
    obtain ⟨_, -, -, chainView⟩ := genesisState_ok started
    simp [chainView, HistoryAccumulator.new, laws.newRepeated]
  | block before processed ih =>
    rw [laws.addLeaf _ _ _ processed.transitions.exported.history, ih, List.map_append,
      List.append_assoc]
    rfl

theorem Reached.record_height {states : Subprotocols} (reached : Reached params records state states)
    {i : Nat} {record : BlockRecord} (found : records[i]? = some record) :
    record.manifest.height = params.anchor.block.height + 1 + i := by
  have inside : i < records.length := (List.getElem?_eq_some_iff.mp found).1
  have numbered := congrArg (·[i]?) reached.numbered
  simp only [List.getElem?_map, found, Option.map_some, List.getElem?_range' inside] at numbered
  simpa using numbered

theorem run_leaf (laws : MmrLaws leaves) (run : Run params records state) {record : BlockRecord}
    (mem : record ∈ records) :
    (leaves state.chainView.historyAccumulator)[record.manifest.height]? =
      some (AsmLibs.manifestHash record.manifest) := by
  obtain ⟨states, reached⟩ := run_reached run
  obtain ⟨i, found⟩ := List.mem_iff_getElem?.mp mem
  have index : record.manifest.height - (params.anchor.block.height + 1) = i := by
    have height := reached.record_height found
    omega
  rw [run_history laws run, List.getElem?_append_right (by
    rw [List.length_replicate, reached.record_height found]; omega), List.length_replicate, index,
    List.getElem?_map, found, Option.map_some]

theorem run_leaf_record (laws : MmrLaws leaves) (run : Run params records state) {height : Nat}
    {hash : Buf32} (above : params.anchor.block.height < height)
    (leaf : (leaves state.chainView.historyAccumulator)[height]? = some hash) :
    ∃ record ∈ records, record.manifest.height = height ∧
      hash = AsmLibs.manifestHash record.manifest := by
  obtain ⟨states, reached⟩ := run_reached run
  rw [run_history laws run, List.getElem?_append_right (by rw [List.length_replicate]; omega),
    List.length_replicate, List.getElem?_map] at leaf
  obtain ⟨record, found, rfl⟩ := Option.map_eq_some_iff.mp leaf
  refine ⟨record, List.mem_of_getElem? found, ?_, rfl⟩
  have height := reached.record_height found
  omega

theorem run_aux (laws : MmrLaws leaves) (run : Run params records state) {record : BlockRecord}
    (mem : record ∈ records) {height : Nat} {hash : Buf32} (above : params.anchor.block.height < height)
    (found : record.aux.manifestHashes height = some hash) :
    ∃ earlier ∈ records, earlier.manifest.height = height ∧
      hash = AsmLibs.manifestHash earlier.manifest := by
  induction run with
  | genesis => cases mem
  | block before processed ih =>
    rcases List.mem_append.mp mem with old | new
    · obtain ⟨earlier, inPast, emitted⟩ := ih old
      exact ⟨earlier, List.mem_append_left _ inPast, emitted⟩
    · cases List.mem_singleton.mp new
      have leaf := VerifiedAuxData.tryNew_manifestHashes laws.sound processed.transitions.verified found
      obtain ⟨earlier, inPast, emitted⟩ := run_leaf_record laws before above leaf
      exact ⟨earlier, List.mem_append_left _ inPast, emitted⟩

theorem run_history_height (laws : MmrLaws leaves) (run : Run params records state)
    {claim : ClaimVersion} {block : Block} {auxData : AuxData}
    {inclusionProof : Option TxidInclusionProof} {inserted height : Nat} :
    computeAsmTransition (asmSpec claim) state block auxData inclusionProof ≠
      .error (.historyHeightMismatch inserted height) := by
  intro stopped
  obtain ⟨states, reached⟩ := run_reached run
  rcases computeAsmTransition_error reached.loaded stopped with
    mismatch | overflow | ⟨powState, header, ⟨aux, -, halted⟩ | ⟨hash, history, added, wrong, -⟩⟩
  · cases mismatch
  · cases overflow
  · simpa [IsBlockPanic, IsTxPanic, IsMsgPanic, IsMembershipPanic, IsStepPanic] using
      processBlock_panics reached.bridge halted
  · have extended := (HeaderVerificationState.checkAndUpdate_ok header).1
    have next : powState.lastVerifiedBlock.height = state.height + 1 :=
      congrArg L1BlockCommitment.height extended
    refine wrong ?_
    rw [laws.numEntries, laws.addLeaf _ _ _ added, run_history laws run, next, reached.height]
    simp only [List.length_append, List.length_replicate, List.length_map, List.length_singleton]
    omega

/-! ### Manifests of a checkpoint -/

theorem acceptance_record {tile : Acceptance}
    (mem : tile ∈ acceptances (checkpointVisits params records)) :
    ∃ record ∈ records, record.aux = tile.aux ∧ record.manifest.height = tile.height := by
  obtain ⟨visit, visited, found⟩ := List.mem_filterMap.mp mem
  obtain ⟨inRun, -⟩ := visits_step visited
  obtain ⟨record, inRecords, here⟩ := List.mem_flatMap.mp inRun
  refine ⟨record, inRecords, ?_⟩
  unfold acceptanceOf at found
  split at found
  · rename_i isTx _
    cases found
    rw [isTx] at here
    rcases List.mem_append.mp here with txs | msgs
    · obtain ⟨tx, -, same⟩ := List.mem_map.mp txs
      cases same
      exact ⟨rfl, rfl⟩
    · obtain ⟨msg, -, same⟩ := List.mem_map.mp msgs
      cases same
  · cases found

theorem manifests_of_hashes {emitted : List AsmManifest} {index : Nat → Option Buf32}
    {heights : List Nat} {hashes : List Buf32} (found : heights.map index = hashes.map some)
    (known : ∀ height ∈ heights, ∀ hash, index height = some hash →
      ∃ manifest ∈ emitted, manifest.height = height ∧ hash = AsmLibs.manifestHash manifest) :
    ∃ manifests : List AsmManifest, (∀ manifest ∈ manifests, manifest ∈ emitted) ∧
      manifests.map (·.height) = heights ∧ hashes = manifests.map AsmLibs.manifestHash := by
  induction heights generalizing hashes with
  | nil =>
    cases hashes with
    | nil => exact ⟨[], nofun, rfl, rfl⟩
    | cons hash hashes => cases found
  | cons height heights ih =>
    cases hashes with
    | nil => cases found
    | cons hash hashes =>
      obtain ⟨first, rest⟩ := List.cons.inj found
      obtain ⟨manifest, mem, rfl, rfl⟩ := known height (.head _) hash first
      obtain ⟨manifests, all, rfl, rfl⟩ := ih rest fun height mem => known height (.tail _ mem)
      refine ⟨manifest :: manifests, ?_, rfl, rfl⟩
      intro other inList
      rcases List.mem_cons.mp inList with rfl | later
      · exact mem
      · exact all other later

theorem acceptance_manifests (laws : MmrLaws leaves) (run : Run params records state)
    {tile : Acceptance} (mem : tile ∈ acceptances (checkpointVisits params records))
    (checked : tile.Checked) (above : ∀ height ∈ tile.heights, params.anchor.block.height < height) :
    ∃ manifests : List AsmManifest, (∀ manifest ∈ manifests, manifest ∈ records.map (·.manifest)) ∧
      manifests.map (·.height) = tile.heights ∧
      tile.checkpoint.asmManifestsHash =
        @computeAsmManifestsHashFromLeaves CheckpointLibs.toSha256 (manifests.map AsmLibs.manifestHash) := by
  obtain ⟨hashes, hash, found⟩ := coveredManifestsHash_ok checked.manifests
  obtain ⟨record, inRecords, sameAux, -⟩ := acceptance_record mem
  have known : ∀ height ∈ tile.heights, ∀ hash, tile.aux.manifestHashes height = some hash →
      ∃ manifest ∈ records.map (·.manifest), manifest.height = height ∧
        hash = AsmLibs.manifestHash manifest := by
    intro height covered hash present
    rw [← sameAux] at present
    obtain ⟨earlier, emitted, here, same⟩ := run_aux laws run inRecords (above height covered) present
    exact ⟨earlier.manifest, List.mem_map_of_mem emitted, here, same⟩
  obtain ⟨manifests, all, heights, rfl⟩ := manifests_of_hashes found known
  exact ⟨manifests, all, heights, hash⟩

/-- In every run the accepted checkpoints tile the L1 chain from the genesis height on: their epochs
count up from one, their slots ascend, each covers the heights after the tip before it up to its own
tip, which is below its block, and its proof is verified for the range hash of the manifests this run
emitted at those heights. The history holds the manifest of each height, and the check of its height
never fails. -/
theorem checkpoints_tile (leaves : Mmr → List Buf32) (laws : MmrLaws leaves) (params : AsmParams)
    (genesis : params.checkpoint.genesisL1Height = params.anchor.block.height)
    (records : List BlockRecord) (state : AnchorState) (run : Run params records state) :
    (∃ states, state.subprotocols = some states ∧
      Tiles ⟨0, params.anchor.block.height, ⟨0, params.checkpoint.genesisOlBlkid⟩⟩
        (acceptances (checkpointVisits params records)) states.checkpoint.verifiedTip) ∧
    (∀ tile ∈ acceptances (checkpointVisits params records),
      (∃ record ∈ records, record.manifest.height = tile.height) ∧
      ∃ manifests : List AsmManifest, (∀ manifest ∈ manifests, manifest ∈ records.map (·.manifest)) ∧
        manifests.map (·.height) = tile.heights ∧
        tile.checkpoint.asmManifestsHash =
          @computeAsmManifestsHashFromLeaves CheckpointLibs.toSha256
            (manifests.map AsmLibs.manifestHash)) ∧
    records.map (·.manifest.height) = List.range' (params.anchor.block.height + 1) records.length ∧
    (∀ record ∈ records, (leaves state.chainView.historyAccumulator)[record.manifest.height]? =
      some (AsmLibs.manifestHash record.manifest)) ∧
    ∀ claim block auxData inclusionProof inserted height,
      computeAsmTransition (asmSpec claim) state block auxData inclusionProof ≠
        .error (.historyHeightMismatch inserted height) := by
  obtain ⟨states, reached⟩ := run_reached run
  have tiles := events_tile reached.events
  refine ⟨⟨states, reached.loaded, by rw [← genesis]; exact tiles⟩, fun tile mem => ⟨?_, ?_⟩,
    reached.numbered, fun record mem => run_leaf laws run mem,
    fun _ _ _ _ _ _ => run_history_height laws run⟩
  · obtain ⟨record, inRecords, -, here⟩ := acceptance_record mem
    exact ⟨record, inRecords, here⟩
  · refine acceptance_manifests laws run mem (tiles.checked tile mem) fun height covered => ?_
    -- Nothing below the first tile is covered.
    have inRange : height ∈ List.range' _ _ := tiles.covered ▸ List.mem_flatMap.mpr ⟨tile, mem, covered⟩
    have low := (List.mem_range'_1.mp inRange).1
    have start : (CheckpointState.init params.checkpoint).verifiedTip.l1Height =
      params.anchor.block.height := genesis
    omega

end

section

attribute [local instance] sampleAsmLibs

theorem sample_laws : MmrLaws (fun leaves : List Buf32 => leaves) where
  sound _ _ _ verified := of_decide_eq_true verified
  newRepeated _ _ := rfl
  numEntries _ := rfl
  addLeaf _ _ _ added := (Option.some.inj added).symm

theorem checkpoints_tile_sample : ∃ first second state, Run sampleParams [first, second] state ∧
    ∃ states, state.subprotocols = some states ∧
      Tiles ⟨0, 1, ⟨0, .zero⟩⟩ (acceptances (checkpointVisits sampleParams [first, second]))
        states.checkpoint.verifiedTip := by
  obtain ⟨first, second, state, run, -, -⟩ := sample_run
  exact ⟨first, second, state, run, (checkpoints_tile _ sample_laws sampleParams rfl _ _ run).1⟩

end
end Asm
