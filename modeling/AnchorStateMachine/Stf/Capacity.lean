import AnchorStateMachine.Btc.Binding
import AnchorStateMachine.Checkpoint.Queue
import AnchorStateMachine.Stf.Requests

/-! The bounded containers that a block's results have to fit: the bytes of a log, the list of logs
in a manifest, the bytes of a section and the leaves of the history. -/

namespace Asm
open Outcome

/-! ### Logs -/

def maxLogDataBytes : Nat := 2 ^ 12

/-- The bytes of a log that its type does not fix. -/
def AsmLogEntry.contentLen : AsmLogEntry → Nat
  | .deposit destination _ => destination.length
  | .checkpointPredicateEnacted key | .asmStfUpdate key | .eePredicateKeyUpdate _ key =>
    key.condition.length
  | .checkpointTipUpdate _ | .newExportEntry _ _ | .exportExtraDataUpdate _ _ => 0

structure MsgRelayer.LogsWithin (count : Nat) (relayer : MsgRelayer) : Prop where
  length : relayer.logs.length ≤ count
  content : ∀ log ∈ relayer.logs, log.contentLen ≤ Wire.maxConditionLen

namespace MsgRelayer.LogsWithin

variable {count : Nat} {relayer relayed : MsgRelayer}

theorem new : LogsWithin 0 .new := ⟨Nat.le_refl 0, nofun⟩

theorem mono {more : Nat} (within : LogsWithin count relayer) (le : count ≤ more) :
    LogsWithin more relayer :=
  ⟨within.length.trans le, within.content⟩

theorem emit {log : AsmLogEntry} (within : LogsWithin count relayer)
    (short : log.contentLen ≤ Wire.maxConditionLen) (logs : relayed.logs = relayer.logs ++ [log]) :
    LogsWithin (count + 1) relayed := by
  refine ⟨?_, ?_⟩
  · rw [logs, List.length_append]
    exact Nat.add_le_add_right within.length 1
  · intro other mem
    rw [logs, List.mem_append, List.mem_singleton] at mem
    rcases mem with old | rfl
    · exact within.content other old
    · exact short

end MsgRelayer.LogsWithin

namespace Checkpoint

variable [CheckpointLibs]

theorem processTxs_logs {state after : CheckpointState} {txs : List TxInput} {height : Nat}
    {aux : VerifiedAuxData} {relayer : MsgRelayer}
    (h : processTxs state txs height aux .new = .ok (after, relayer)) :
    relayer.LogsWithin txs.length := by
  have within := foldlM_counts (fun count current => current.2.LogsWithin count) ?_
    MsgRelayer.LogsWithin.new h
  · rwa [Nat.zero_add] at within
  · rintro tx - count ⟨state, relayer⟩ after within step
    have same : relayer.LogsWithin (count + 1) := within.mono (Nat.le_succ count)
    rw [processTx] at step
    split at step
    · obtain ⟨outcome, _, step⟩ := bind_ok step
      cases outcome with
      | none =>
        cases pure_ok step
        exact same
      | some accepted =>
        cases pure_ok step
        exact within.emit (Nat.zero_le _) (relayWithdrawals_logs _ _)
    · cases pure_ok step
      exact same

end Checkpoint

namespace Bridge

variable [BridgeLibs]

theorem processTxs_logs {claim : ClaimVersion} {state after : BridgeStateV1} {txs : List TxInput}
    {l1Block : L1BlockCommitment} {accumulatedPow : Nat} {aux : VerifiedAuxData} {relayer : MsgRelayer}
    (h : processTxs claim state txs l1Block accumulatedPow aux .new = .ok (after, relayer)) :
    relayer.LogsWithin (txs.length + 1) := by
  obtain ⟨processed, ran, h⟩ := bind_ok h
  obtain ⟨_, _, h⟩ := bind_ok h
  cases pure_ok h
  have within := foldlM_counts (fun count current => current.2.LogsWithin count) ?_
    MsgRelayer.LogsWithin.new ran
  · rw [Nat.zero_add] at within
    exact within.emit (Nat.zero_le _) rfl
  · rintro tx - count ⟨state, relayer⟩ ⟨after, relayed⟩ within step
    rcases processTx_cases step with ⟨-, rfl⟩ | ⟨_, _, -, -, short, rfl⟩ | ⟨_, _, _, -, -, -, rfl⟩ |
      ⟨_, -, rfl⟩
    · exact within.mono (Nat.le_succ count)
    · exact within.emit (short.trans (by decide)) rfl
    · exact within.emit (Nat.zero_le _) rfl
    · exact within.mono (Nat.le_succ count)

end Bridge

/-! ### Administration -/

section

variable [AdminLibs]

def UpdateAction.Bounded (update : UpdateAction) : Prop :=
  ∀ log ∈ update.logs, log.contentLen ≤ Wire.maxConditionLen

def AdministrationSubprotoState.Bounded (state : AdministrationSubprotoState) : Prop :=
  ∀ queued ∈ state.queued, queued.action.Bounded

/-- A predicate key is read with a condition of bounded length. -/
theorem Wire.decodeSignedPayload_bounded {adminTxType : AdminTxType} {bytes : Bytes}
    {payload : EnvelopePayload} {update : UpdateAction}
    (read : decodeSignedPayload adminTxType bytes = some payload)
    (isUpdate : payload.action = .update update) : update.Bounded := by
  have tagged := decodeSignedPayload_txType read
  rw [isUpdate] at tagged
  subst tagged
  cases update with
  | olStfVk key | asmStfVk key | eeStfVk key =>
    obtain ⟨found, short, same⟩ := decodeUpdate_accepts stfVkUpdate_accepts read
    cases isUpdate.symm.trans same
    intro log mem
    rw [List.mem_singleton.mp mem]
    exact short
  | _ => exact List.forall_mem_nil _

theorem UpdateAction.length_logs_le (updates : List UpdateAction) :
    (updates.flatMap logs).length ≤ updates.length := by
  induction updates with
  | nil => exact Nat.le_refl 0
  | cons update updates ih =>
    have single : update.logs.length ≤ 1 := by cases update <;> simp [logs]
    rw [List.flatMap_cons, List.length_append, List.length_cons]
    omega

theorem MsgRelayer.Enacted.logsWithin {relayer : MsgRelayer} {updates : List UpdateAction}
    (enacted : relayer.Enacted updates) (bounded : ∀ update ∈ updates, update.Bounded) :
    relayer.LogsWithin updates.length := by
  refine ⟨?_, ?_⟩
  · rw [enacted.logs]
    exact UpdateAction.length_logs_le updates
  · intro log mem
    rw [enacted.logs] at mem
    obtain ⟨update, isIn, mem⟩ := List.mem_flatMap.mp mem
    exact bounded update isIn log mem

/-- So far at most `count` updates were enacted, and none has a long key; neither has one that
waits. -/
structure ActionContext.Charged (count : Nat) (context : ActionContext) : Prop where
  queued : context.state.Bounded
  enacted : ∃ updates, context.relayer.Enacted updates ∧ updates.length ≤ count ∧
    ∀ update ∈ updates, update.Bounded

namespace ActionContext.Charged

variable {context after : ActionContext} {count height : Nat}

theorem mono {more : Nat} (charged : Charged count context) (le : count ≤ more)
    (queue : ∀ queued ∈ after.state.queued, queued ∈ context.state.queued)
    (relayer : after.relayer = context.relayer) : Charged more after := by
  obtain ⟨updates, enacted, few, bounded⟩ := charged.enacted
  exact ⟨fun queued mem => charged.queued queued (queue queued mem), updates, relayer ▸ enacted,
    few.trans le, bounded⟩

theorem offers {update : UpdateAction} {outcome : Except AdministrationError Unit}
    (charged : Charged count context) (bounded : update.Bounded)
    (h : Offers context update height outcome after) : Charged (count + 1) after := by
  cases h with
  | limited error => exact charged.mono (Nat.le_succ count) (fun _ mem => mem) rfl
  | overflown error admitted => exact charged.mono (Nat.le_succ count) (fun _ mem => mem) rfl
  | queued admitted waits =>
    obtain ⟨updates, enacted, few, short⟩ := charged.enacted
    refine ⟨fun queued mem => ?_, updates, enacted, few.trans (Nat.le_succ count), short⟩
    rcases List.mem_append.mp mem with old | new
    · exact charged.queued queued old
    · rw [List.mem_singleton.mp new]
      exact bounded
  | applied admitted immediate taken =>
    obtain ⟨updates, enacted, few, short⟩ := charged.enacted
    have enacted := enactUpdate_enacted context.state update enacted
    obtain ⟨authorities, same, -⟩ := enactUpdate_reconfigured context.state context.relayer update
    rw [taken] at enacted same
    subst same
    refine ⟨charged.queued, _, enacted, ?_, ?_⟩
    · rw [List.length_append]
      exact Nat.add_le_add_right few 1
    · intro other mem
      rcases List.mem_append.mp mem with old | new
      · exact short other old
      · rw [List.mem_singleton.mp new]
        exact bounded

theorem processTx {network : Network} {tx : TxInput}
    (charged : Charged count context) (h : Admin.processTx height network context tx = .ok after) :
    Charged (count + 1) after := by
  unfold Admin.processTx at h
  split at h
  · cases pure_ok h
    exact charged.mono (Nat.le_succ count) (fun _ mem => mem) rfl
  · rename_i envelope parsed
    obtain ⟨⟨outcome, handledTo⟩, handled, h⟩ := bind_ok h
    cases pure_ok h
    cases handleAction_ok handled with
    | unverified error fails => exact charged.mono (Nat.le_succ count) (fun _ mem => mem) rfl
    | cancelled verified isCancel =>
      exact charged.mono (Nat.le_succ count) (fun _ mem => List.mem_of_mem_eraseP mem) rfl
    | @offered payload authority update _ _ verified isUpdate offers =>
      have burnt : Charged count { context with state := context.state.burn payload authority } :=
        charged.mono (Nat.le_refl count) (fun _ mem => mem) rfl
      refine burnt.offers ?_ offers
      obtain ⟨_, _, decoded⟩ := Admin.parseTx_decoded parsed
      exact Wire.decodeSignedPayload_bounded decoded (verified.update isUpdate)

end ActionContext.Charged

namespace Admin

theorem handlePendingUpdates_charged {state : AdministrationSubprotoState} (bounded : state.Bounded)
    (height : Nat) : ActionContext.Charged (state.processQueued height).1.length
      ⟨(handlePendingUpdates state .new height).1, ⟨[]⟩,
        (handlePendingUpdates state .new height).2⟩ := by
  have enacted := handlePendingUpdates_enacted state height
  obtain ⟨authorities, drained, -⟩ := handlePendingUpdates_reconfigured state .new height
  rw [drained, processQueued_eq] at *
  refine ⟨fun queued mem => bounded queued (List.mem_filter.mp mem).1, _, enacted, ?_, ?_⟩
  · rw [List.length_map]
  · intro update mem
    obtain ⟨queued, isDue, rfl⟩ := List.mem_map.mp mem
    exact bounded queued (List.mem_filter.mp isDue).1

theorem processTxs_charged {state after : AdministrationSubprotoState} {txs : List TxInput}
    {height : Nat} {network : Network} {relayer : MsgRelayer} (bounded : state.Bounded)
    (h : processTxs state txs height network .new = .ok (after, relayer)) :
    after.Bounded ∧ ∃ updates, relayer.Enacted updates ∧
      updates.length ≤ (state.processQueued height).1.length + txs.length ∧
      ∀ update ∈ updates, update.Bounded := by
  obtain ⟨context, processed, h⟩ := bind_ok h
  cases pure_ok h
  have charged := foldlM_counts ActionContext.Charged
    (fun _ _ _ _ _ charged step => charged.processTx step)
    (handlePendingUpdates_charged bounded height) processed
  exact ⟨charged.queued, charged.enacted⟩

end Admin
end

/-! ### Checkpoints -/

namespace Checkpoint

/-- A step keeps the keys short and the transitions few, if the keys it is told of are short. -/
theorem step_bounded [CheckpointLibs] {state post : CheckpointState} {event : Event}
    (bounded : state.Bounded) (short : ∀ l1ref predicate,
      event = .msg l1ref (.updateCheckpointPredicate predicate) →
      predicate.condition.length ≤ Wire.maxConditionLen)
    (h : step state event = .ok post) : post.Bounded := by
  rcases step_cases h with ⟨-, rfl, -⟩ | ⟨_, _, _, accepted, -, -, accepts, rfl⟩ |
    ⟨l1ref, msg, rfl, -, processed⟩
  · exact bounded
  · obtain ⟨remaining, -, advanced⟩ := accepts.covered
    rw [advanced]
    rcases CheckpointState.promoteElapsedTransition_cases { state with
        deposits := state.deposits.applyWithdrawals remaining
        verifiedTip := accepted.payload.newTip } with ⟨same, -⟩ | ⟨next, rest, pending, -, promoted⟩
    · rw [same]
      exact { bounded with }
    · dsimp only at pending
      have few := bounded.few
      rw [pending, List.length_cons] at few
      rw [promoted]
      exact ⟨bounded.pending next (pending ▸ .head _),
        fun transition mem => bounded.pending transition (pending ▸ .tail _ mem), Nat.le_of_succ_le few⟩
  · cases msg with
    | depositProcessed amount =>
      obtain ⟨_, _, processed⟩ := bind_ok processed
      cases pure_ok processed
      exact { bounded with }
    | updateSequencerKey key =>
      cases pure_ok processed
      exact { bounded with }
    | updateCheckpointPredicate predicate =>
      rw [CheckpointState.queuePredicateTransition_ok processed]
      refine ⟨bounded.active, fun transition mem => ?_, ?_⟩
      · rcases List.mem_append.mp mem with old | new
        · refine bounded.pending transition ?_
          rw [CheckpointState.pending_eq_evicted_room]
          exact List.mem_append_right _ old
        · rw [List.mem_singleton.mp new]
          exact short _ _ rfl
      · rw [List.length_append]
        exact CheckpointState.room_length bounded.few

end Checkpoint

/-! ### Blocks -/

section

variable [AsmLibs]

theorem BlockTrace.checkpoint_bounded {claim : ClaimVersion} {powState : HeaderVerificationState}
    {txs : Nat → List TxInput} {aux : VerifiedAuxData} {states : Subprotocols} {trace : BlockTrace}
    {updates : List UpdateAction} (bounded : states.checkpoint.Bounded)
    (enacted : trace.adminRelayer.Enacted updates) (short : ∀ update ∈ updates, update.Bounded)
    (ran : Ran claim powState txs aux states trace) : trace.post.checkpoint.Bounded := by
  have mid : trace.checkpointMid.Bounded := by
    have events := Checkpoint.processTxs_events states.checkpoint (txs checkpointSubprotocolId)
      powState.lastVerifiedBlock.height aux .new
    rw [ran.checkpointTxs] at events
    refine foldlM_preserves CheckpointState.Bounded ?_ bounded events.symm
    intro event mem before after bounded taken
    obtain ⟨tx, -, rfl⟩ := List.mem_map.mp mem
    exact Checkpoint.step_bounded bounded (fun _ _ isMsg => by cases isMsg) taken
  have msgs := ran.checkpointMsgs
  rw [Checkpoint.processMsgs_events] at msgs
  refine foldlM_preserves CheckpointState.Bounded ?_ mid msgs
  intro event mem before after bounded taken
  obtain ⟨msg, delivered, rfl⟩ := List.mem_map.mp mem
  refine Checkpoint.step_bounded bounded ?_ taken
  rintro l1ref predicate ⟨⟩
  obtain ⟨count, reports⟩ := Bridge.processTxs_reports ran.bridgeTxs
  have announced : predicate ∈ predicateUpdates trace.checkpointInbox :=
    List.mem_filterMap.mpr ⟨_, delivered, rfl⟩
  rw [BlockTrace.checkpointInbox, predicateUpdates_inbox enacted reports] at announced
  obtain ⟨update, isIn, isKey⟩ := List.mem_filterMap.mp announced
  cases update with
  | olStfVk key =>
    cases isKey
    exact short _ isIn _ (.head _)
  | _ => cases isKey

theorem run_bounded {params : AsmParams} {records : List BlockRecord} {state : AnchorState}
    (predicate : params.checkpoint.checkpointPredicate.condition.length ≤ Wire.maxConditionLen)
    (run : Run params records state) :
    ∃ states, state.subprotocols = some states ∧ states.admin.Bounded ∧ states.checkpoint.Bounded := by
  induction run with
  | genesis specId started =>
    obtain ⟨bridge, -, loaded, -⟩ := genesisState_ok started
    exact ⟨_, loaded, List.forall_mem_nil _, predicate, List.forall_mem_nil _, Nat.zero_le _⟩
  | block before processed ih =>
    obtain ⟨states, loaded, admin, checkpoint⟩ := ih
    have transitions := processed.transitions
    cases loaded.symm.trans transitions.loaded
    obtain ⟨queued, updates, enacted, -, short⟩ := Admin.processTxs_charged admin processed.ran.admin
    exact ⟨_, transitions.exported.states, queued,
      BlockTrace.checkpoint_bounded checkpoint enacted short processed.ran⟩

theorem BlockTrace.logs_within {claim : ClaimVersion} {powState : HeaderVerificationState}
    {txs : Nat → List TxInput} {aux : VerifiedAuxData} {states : Subprotocols} {trace : BlockTrace}
    (bounded : states.admin.Bounded) (ran : Ran claim powState txs aux states trace) :
    trace.logs.length ≤ (states.admin.processQueued powState.lastVerifiedBlock.height).1.length +
      (txs adminSubprotocolId).length + (txs checkpointSubprotocolId).length +
      (txs bridgeSubprotocolId).length + 1 ∧
    ∀ log ∈ trace.logs, log.contentLen ≤ Wire.maxConditionLen := by
  obtain ⟨-, updates, enacted, few, short⟩ := Admin.processTxs_charged bounded ran.admin
  have admin := (enacted.logsWithin short).mono few
  have checkpoint := Checkpoint.processTxs_logs ran.checkpointTxs
  have bridge := Bridge.processTxs_logs ran.bridgeTxs
  refine ⟨?_, ?_⟩
  · rw [logs, List.length_append, List.length_append]
    have := admin.length
    have := checkpoint.length
    have := bridge.length
    omega
  · intro log mem
    rw [logs, List.mem_append, List.mem_append] at mem
    rcases mem with (mem | mem) | mem
    · exact admin.content log mem
    · exact checkpoint.content log mem
    · exact bridge.content log mem

/-- The subprotocols share the tagged transactions of a block, and the coinbase is not one of them. -/
theorem groupTxs_length (magic : Bytes) (block : Block) :
    (groupTxsBySubprotocol magic block adminSubprotocolId).length +
      (groupTxsBySubprotocol magic block checkpointSubprotocolId).length +
      (groupTxsBySubprotocol magic block bridgeSubprotocolId).length ≤ block.txdata.length - 1 := by
  have tagged : (taggedTxs magic block).length ≤ block.txdata.length - 1 := by
    rw [← List.length_drop]
    exact List.length_filterMap_le _ _
  refine le_trans ?_ tagged
  unfold groupTxsBySubprotocol
  generalize taggedTxs magic block = txs
  induction txs with
  | nil => exact Nat.le_refl 0
  | cons tx txs ih =>
    have admin : adminSubprotocolId = 0 := rfl
    have checkpoint : checkpointSubprotocolId = 1 := rfl
    have bridge : bridgeSubprotocolId = 2 := rfl
    simp only [List.filter_cons, decide_eq_true_eq, apply_ite List.length, List.length_cons]
    split_ifs <;> omega

/-! ### Packing -/

/-- What a block has to fit: its logs the manifest, and two of the states their sections. -/
structure BlockTrace.Fits (trace : BlockTrace) : Prop where
  logs : trace.logs.length ≤ maxLogsPerManifest
  admin : (Stored.administrationState.encode trace.post.admin).length ≤ maxSectionStateBytes
  bridge : (Stored.bridgeState.encode trace.post.bridge).length ≤ maxSectionStateBytes

def AsmError.IsCapacity : AsmError → Prop
  | .tooManyLogs | .sectionTooLarge _ => True
  | _ => False

/-- Any number of leaves that a chain of 32-bit heights has can be appended. -/
structure HistoryGrows : Prop where
  prefilled : ∀ leaf count,
    MerkleMountainRange.numEntries (MerkleMountainRange.newRepeated leaf count) = count
  addLeaf : ∀ mmr leaf, MerkleMountainRange.numEntries mmr ≤ u32Bound →
    ∃ next, MerkleMountainRange.addLeaf mmr leaf = some next ∧
      MerkleMountainRange.numEntries next = MerkleMountainRange.numEntries mmr + 1

theorem fromState_eq (id : Nat) (data : SectionData) : SectionState.fromState id data =
    if data.asSszBytes.length ≤ maxSectionStateBytes then .ok ⟨id, sectionStateVersion, data⟩
    else .error (.sectionTooLarge id) := rfl

/-- The sections are packed one after another, and the first that is too large is reported. -/
theorem exportSections_fits (trace : BlockTrace)
    (checkpoint : (Stored.checkpointState.encode trace.post.checkpoint).length ≤ maxSectionStateBytes) :
    (∃ sections, trace.manager.exportSections = .ok sections ∧ sections.length = 3 ∧
      (Stored.administrationState.encode trace.post.admin).length ≤ maxSectionStateBytes ∧
      (Stored.bridgeState.encode trace.post.bridge).length ≤ maxSectionStateBytes) ∨
    ¬ ((Stored.administrationState.encode trace.post.admin).length ≤ maxSectionStateBytes ∧
      (Stored.bridgeState.encode trace.post.bridge).length ≤ maxSectionStateBytes) ∧
      ∃ id, trace.manager.exportSections = .error (.sectionTooLarge id) := by
  simp only [SubprotoManager.exportSections, BlockTrace.manager, Option.toList_some, List.mapM_cons,
    List.mapM_nil, bind_assoc, pure_bind, fromState_eq]
  replace checkpoint : (SectionData.checkpoint trace.post.checkpoint).asSszBytes.length ≤
    maxSectionStateBytes := checkpoint
  by_cases admin : (SectionData.admin trace.post.admin).asSszBytes.length ≤ maxSectionStateBytes
  · by_cases bridge : (SectionData.bridge trace.post.bridge).asSszBytes.length ≤ maxSectionStateBytes
    · rw [if_pos admin, if_pos checkpoint, if_pos bridge]
      exact .inl ⟨_, rfl, rfl, admin, bridge⟩
    · rw [if_pos admin, if_pos checkpoint, if_neg bridge]
      exact .inr ⟨fun fits => bridge fits.2, _, rfl⟩
  · rw [if_neg admin]
    exact .inr ⟨fun fits => admin fits.1, _, rfl⟩

theorem exportSections_admin {trace : BlockTrace}
    (large : maxSectionStateBytes < (Stored.administrationState.encode trace.post.admin).length) :
    trace.manager.exportSections = .error (.sectionTooLarge adminSubprotocolId) := by
  simp only [SubprotoManager.exportSections, BlockTrace.manager, Option.toList_some, List.mapM_cons,
    List.mapM_nil, bind_assoc, pure_bind, fromState_eq]
  have refused : ¬ (SectionData.admin trace.post.admin).asSszBytes.length ≤ maxSectionStateBytes :=
    Nat.not_le.mpr large
  rw [if_neg refused]
  rfl

theorem exportOutput_tooManyLogs {spec : AsmSpec} {pre : AnchorState}
    {powState : HeaderVerificationState} {wtxidsRoot : Buf32} {trace : BlockTrace}
    {sections : List SectionState} (exported : trace.manager.exportSections = .ok sections)
    (many : ¬ trace.logs.length ≤ maxLogsPerManifest) :
    exportOutput spec pre powState wtxidsRoot trace.manager = .ok (.error .tooManyLogs) := by
  have refused : AsmManifest.new powState.lastVerifiedBlock.height
    powState.lastVerifiedBlock.blkid wtxidsRoot
      trace.manager.logs = .error .tooManyLogs := if_neg many
  unfold exportOutput
  rw [exported, ok_bind, refused]
  rfl

theorem exportOutput_fits (spec : AsmSpec) (pre : AnchorState) (wtxidsRoot : Buf32)
    {powState : HeaderVerificationState} {trace : BlockTrace}
    (checkpoint : (Stored.checkpointState.encode trace.post.checkpoint).length ≤ maxSectionStateBytes)
    (grows : ∀ hash, ∃ history, MerkleMountainRange.addLeaf pre.chainView.historyAccumulator hash =
      some history ∧
      MerkleMountainRange.numEntries history = powState.lastVerifiedBlock.height + 1) :
    (trace.Fits ∧ ∃ output, exportOutput spec pre powState wtxidsRoot trace.manager = .ok (.ok output)) ∨
    (¬ trace.Fits ∧ ∃ error, error.IsCapacity ∧
      exportOutput spec pre powState wtxidsRoot trace.manager = .ok (.error error)) := by
  rcases exportSections_fits trace checkpoint with ⟨sections, exported, three, admin, bridge⟩ |
    ⟨large, id, failed⟩
  · by_cases few : trace.logs.length ≤ maxLogsPerManifest
    · unfold exportOutput
      rw [exported, ok_bind]
      obtain ⟨history, added, entries⟩ := grows (AsmLibs.manifestHash
        ⟨powState.lastVerifiedBlock.height, powState.lastVerifiedBlock.blkid, wtxidsRoot, trace.logs⟩)
      have named : AsmManifest.new powState.lastVerifiedBlock.height powState.lastVerifiedBlock.blkid
          wtxidsRoot trace.manager.logs = .ok ⟨_, _, wtxidsRoot, trace.logs⟩ := if_pos few
      have inserted : HistoryAccumulator.lastInsertedHeight history =
          .ok powState.lastVerifiedBlock.height := by
        rw [HistoryAccumulator.lastInsertedHeight, entries]
        rfl
      have room : ¬ maxSections < sections.length := by
        rw [three]
        decide
      refine .inl ⟨⟨few, admin, bridge⟩, ?_⟩
      simp only [named, HistoryAccumulator.addManifest, ok_bind, added, pure_eq_ok, inserted, ne_eq,
        not_true_eq_false, if_false, room]
      exact ⟨_, rfl⟩
    · exact .inr ⟨fun fits => few fits.logs, .tooManyLogs, trivial,
        exportOutput_tooManyLogs exported few⟩
  · unfold exportOutput
    rw [failed]
    exact .inr ⟨fun fits => large ⟨fits.admin, fits.bridge⟩, .sectionTooLarge id, trivial, rfl⟩

theorem computeAsmTransition_eq {claim : ClaimVersion} {state prepared : AnchorState}
    {states : Subprotocols} {block : Block} {auxData : AuxData}
    {inclusionProof : Option TxidInclusionProof} {wtxidsRoot : Buf32}
    {powState : HeaderVerificationState} {aux : VerifiedAuxData} {trace : BlockTrace}
    (loaded : state.subprotocols = some states)
    (takes : (asmSpec claim).prepare state = .ok prepared)
    (checked : checkBlock state block auxData inclusionProof = .ok (.ok (wtxidsRoot, powState, aux)))
    (ran : processBlock claim powState (groupTxsBySubprotocol state.magic block) aux states =
      .ok trace) :
    computeAsmTransition (asmSpec claim) state block auxData inclusionProof =
      exportOutput (asmSpec claim) prepared powState wtxidsRoot trace.manager := by
  obtain ⟨specId, rfl⟩ := asmSpec_prepare_ok takes
  unfold computeAsmTransition
  rw [takes, ok_bind, show checkBlock { state with specId } block auxData inclusionProof =
    .ok (.ok (wtxidsRoot, powState, aux)) from checked, ok_bind]
  dsimp only
  rw [loadSubprotocols_of claim { state with specId } loaded, ok_bind,
    runSubprotocols_eq (asmSpec_subprotocols claim), ran]
  rfl

/-- The accumulator of a run takes the manifest of one more block. -/
theorem HistoryGrows.next {params : AsmParams} {records : List BlockRecord} {state : AnchorState}
    (history : HistoryGrows) (run : Run params records state) (below : state.height + 1 < u32Bound)
    (hash : Buf32) :
    ∃ next, MerkleMountainRange.addLeaf state.chainView.historyAccumulator hash = some next ∧
      MerkleMountainRange.numEntries next = state.height + 1 + 1 := by
  have inserted := run_lastInsertedHeight run history.prefilled
  unfold HistoryAccumulator.lastInsertedHeight at inserted
  split at inserted
  · cases inserted
  · have last := pure_ok inserted
    obtain ⟨next, added, entries⟩ := history.addLeaf state.chainView.historyAccumulator hash (by omega)
    exact ⟨next, added, by omega⟩

theorem checkBlockIntegrity_pos {block : Block} {proof : Option TxidInclusionProof} {root : Buf32}
    (intact : checkBlockIntegrity block proof = .ok root) : 0 < block.txdata.length := by
  unfold checkBlockIntegrity at intact
  split at intact
  · cases intact
  · rename_i some
    rw [some]
    exact Nat.succ_pos _

/-- From every state of a run, a block that passes its checks and is processed without a panic
yields an output exactly if its logs fit one manifest and the administration and bridge states fit
their sections; otherwise the error says which does not. There are no more logs than transactions and
updates that were due, and each fits its bytes: a log takes up to 64 bytes besides the content whose
length varies. The checkpoint state always fits its section, as an amount takes eight bytes. -/
theorem transition_capacity (params : AsmParams) (history : HistoryGrows)
    (amounts : ∀ amount, (StateLibs.amount.encode amount).length ≤ 8)
    (predicate : params.checkpoint.checkpointPredicate.condition.length ≤ Wire.maxConditionLen)
    (logSize : AsmLogEntry → Nat)
    (sizes : ∀ log, logSize log ≤ log.contentLen + 64) (records : List BlockRecord)
    (state : AnchorState) (run : Run params records state) (states : Subprotocols)
    (loaded : state.subprotocols = some states) (claim : ClaimVersion) (prepared : AnchorState)
    (takes : (asmSpec claim).prepare state = .ok prepared) (block : Block) (auxData : AuxData)
    (inclusionProof : Option TxidInclusionProof) (wtxidsRoot : Buf32)
    (powState : HeaderVerificationState) (aux : VerifiedAuxData)
    (checked : checkBlock state block auxData inclusionProof = .ok (.ok (wtxidsRoot, powState, aux)))
    (trace : BlockTrace)
    (ran : processBlock claim powState (groupTxsBySubprotocol state.magic block) aux states =
      .ok trace) :
    (∀ log ∈ trace.logs, logSize log ≤ maxLogDataBytes) ∧
    trace.logs.length ≤ (states.admin.processQueued (state.height + 1)).1.length + block.txdata.length ∧
    (Stored.checkpointState.encode trace.post.checkpoint).length ≤ maxSectionStateBytes ∧
    ((∃ output, computeAsmTransition (asmSpec claim) state block auxData inclusionProof =
      .ok (.ok output)) ↔
      trace.Fits) ∧
    (¬ trace.Fits → ∃ error, error.IsCapacity ∧
      computeAsmTransition (asmSpec claim) state block auxData inclusionProof = .ok (.error error)) := by
  obtain ⟨found, same, bounded, checkpointBounded⟩ := run_bounded predicate run
  cases loaded.symm.trans same
  obtain ⟨intact, header, -⟩ := checkBlock_ok checked
  obtain ⟨next, -, below⟩ := HeaderVerificationState.checkAndUpdate_ok header
  have height : powState.lastVerifiedBlock.height = state.height + 1 :=
    congrArg L1BlockCommitment.height next
  have within := BlockTrace.logs_within bounded (processBlock_ok ran)
  have checkpoint : (Stored.checkpointState.encode trace.post.checkpoint).length ≤
      maxSectionStateBytes := by
    obtain ⟨-, updates, enacted, -, short⟩ := Admin.processTxs_charged bounded (processBlock_ok ran).admin
    have size := Stored.checkpointState_size_lt amounts
      (BlockTrace.checkpoint_bounded checkpointBounded enacted short (processBlock_ok ran))
    exact size.le.trans (by decide)
  rw [computeAsmTransition_eq loaded takes checked ran]
  obtain ⟨specId, rfl⟩ := asmSpec_prepare_ok takes
  rw [height] at below
  have outcome := exportOutput_fits (asmSpec claim) { state with specId } wtxidsRoot checkpoint
    (height ▸ history.next run below)
  refine ⟨?_, ?_, checkpoint, ?_, ?_⟩
  · intro log mem
    have short := within.2 log mem
    have size := sizes log
    show logSize log ≤ 4096
    have bound : Wire.maxConditionLen = 1024 := rfl
    omega
  · have length := within.1
    rw [height] at length
    have shared := groupTxs_length state.magic block
    have notEmpty := checkBlockIntegrity_pos intact
    omega
  · constructor
    · rintro ⟨output, succeeded⟩
      rcases outcome with ⟨fits, -⟩ | ⟨-, error, -, failed⟩
      · exact fits
      · cases succeeded.symm.trans failed
    · intro fits
      rcases outcome with ⟨-, output⟩ | ⟨large, -⟩
      · exact output
      · exact absurd fits large
  · intro large
    rcases outcome with ⟨fits, -⟩ | ⟨-, error⟩
    · exact absurd fits large
    · exact error

end

section

attribute [local instance] sampleAsmLibs

theorem sample_historyGrows : HistoryGrows where
  prefilled _ _ := List.length_replicate
  addLeaf (mmr : List Buf32) leaf _ := ⟨mmr ++ [leaf], rfl, List.length_append⟩

set_option maxRecDepth 8000 in
theorem transition_capacity_sample : ∃ genesis states powState aux trace,
    Run sampleParams [] genesis ∧ genesis.subprotocols = some states ∧
    processBlock .v1 powState (groupTxsBySubprotocol [] sampleFirstBlock) aux states = .ok trace ∧
      trace.Fits ∧
    ∃ output, computeAsmTransition (asmSpec .v1) genesis sampleFirstBlock sampleFirstAux
      (some ⟨0, [.fill 3, .fill 5]⟩) = .ok (.ok output) := by
  obtain ⟨genesis, prepared, states, wtxidsRoot, powState, aux, trace, started, loaded, takes,
    checked, ran, few, admin, bridge⟩ :
      ∃ genesis prepared states wtxidsRoot powState aux trace,
        genesisState sampleParams = .ok genesis ∧ genesis.subprotocols = some states ∧
        (asmSpec .v1).prepare genesis = .ok prepared ∧
        checkBlock genesis sampleFirstBlock sampleFirstAux (some ⟨0, [.fill 3, .fill 5]⟩) =
          .ok (.ok (wtxidsRoot, powState, aux)) ∧
        processBlock .v1 powState (groupTxsBySubprotocol genesis.magic sampleFirstBlock) aux states =
          .ok trace ∧
        trace.logs.length = 3 ∧
        (Stored.administrationState.encode trace.post.admin).length ≤ maxSectionStateBytes ∧
        (Stored.bridgeState.encode trace.post.bridge).length ≤ maxSectionStateBytes :=
    ⟨_, _, _, _, _, _, _, rfl, rfl, rfl, rfl, rfl, rfl, Nat.le_of_ble_eq_true rfl,
      Nat.le_of_ble_eq_true rfl⟩
  have start : Run sampleParams [] genesis := .genesis genesis.specId started
  have fits : trace.Fits := ⟨by rw [few]; decide, admin, bridge⟩
  obtain ⟨-, -, -, returns, -⟩ := transition_capacity sampleParams sample_historyGrows
    (fun _ => Nat.le_of_eq (Ssz.Codec.uint_size 8 _)) (by decide) AsmLogEntry.contentLen (fun _ => Nat.le_add_right _ _) [] genesis start states loaded .v1
      prepared takes
    sampleFirstBlock sampleFirstAux _ wtxidsRoot powState aux checked trace ran
  have magic : genesis.magic = [] := by cases started; rfl
  rw [magic] at ran
  exact ⟨genesis, states, powState, aux, trace, start, loaded, ran, fits, returns.mpr fits⟩

end

/-! ### Blocks that do not fit -/

/-- After genesis the block passes all checks and is processed without a panic, but is refused. -/
def Refused [AsmLibs] (params : AsmParams) (block : Block) (error : AsmError)
    (processed : BlockTrace → Prop) : Prop :=
  ∃ genesis states inclusionProof wtxidsRoot powState aux trace,
    Run params [] genesis ∧ genesis.subprotocols = some states ∧
    preProcessAsm (asmSpec .v1) genesis block = .ok (.ok ⟨[], []⟩) ∧
    checkBlock genesis block ⟨[], []⟩ inclusionProof = .ok (.ok (wtxidsRoot, powState, aux)) ∧
    processBlock .v1 powState (groupTxsBySubprotocol genesis.magic block) aux states = .ok trace ∧
    processed trace ∧
    computeAsmTransition (asmSpec .v1) genesis block ⟨[], []⟩ inclusionProof = .ok (.error error)

section

variable [AdminLibs]

theorem Admin.processTx_update {context after : ActionContext} {payload : SignedPayload}
    {authority : MultisigAuthority} {update : UpdateAction} {tx : TxInput} {height : Nat}
    {network : Network} {outcome : Except AdministrationError Unit}
    (parsed : parseTx tx = some payload.toEnvelope) (isUpdate : payload.action = .update update)
    (found : context.state.authority update.requiredRole = some authority)
    (verified : authority.verifyActionSignature payload context.state.maxSeqnoGap network =
      .ok (.ok payload.seqno))
    (accepted : acceptUpdate { context with state := context.state.burn payload authority } update
      height = .ok (outcome, after)) :
    processTx height network context tx = .ok after := by
  obtain ⟨seqno, action, signatures⟩ := payload
  cases isUpdate
  have handled : handleAction context ⟨seqno, .update update, signatures⟩ height network =
      .ok (outcome, after) := by
    simp only [handleAction, EnvelopePayload.resolve, MultisigAction.requiredRole, found]
    rw [verified, ok_bind]
    exact accepted
  unfold processTx
  rw [parsed]
  show (handleAction context ⟨seqno, .update update, signatures⟩ height network >>= _) = _
  rw [handled]
  rfl

end

/-- Pads short inputs, and forgets long ones. -/
def samplePaddedHash (bytes : Bytes) : Buf32 :=
  (Buf32.ofSlice (bytes ++ List.replicate (32 - bytes.length) 0)).getD .zero

@[reducible] def sampleCrowdedLibs : AsmLibs :=
  { sampleUpdateLibs with
    sha256 := samplePaddedHash
    encodeTx := fun tx => [.ofNat (tx.lockTime / 256), .ofNat tx.lockTime] }

/-- Changes of the operator set wait for two blocks, and all else applies at once. -/
def sampleCrowdedParams : AsmParams :=
  { sampleParams with
    admin := { sampleParams.admin with confirmationDepths := ⟨0, 0, 0, 0, 2, 0, 0, 0, 0, 0, 0⟩ } }

def sampleSignedUpdate (seqno : Nat) (update : UpdateAction) : SignedPayload :=
  ⟨seqno, .update update, [sampleSignature 0]⟩

def sampleCrowdedTx (txType : UInt8) (update : UpdateAction) (i : Nat) : Transaction :=
  sampleUpdateTx (i + 1) txType (sampleSignedUpdate (i + 1) update).toEnvelope

/-- A block in which an update is made again and again, with consecutive sequence numbers. -/
def sampleCrowdedBlock (txType : UInt8) (update : UpdateAction) (count : Nat) : Block where
  header := ⟨2, .zero, .zero, 1, 0, 0⟩
  txdata := sampleCommittingCoinbase :: (List.range count).map (sampleCrowdedTx txType update)

def sampleCrowdedInput (txType : UInt8) (update : UpdateAction) (i : Nat) : TxInput :=
  ⟨sampleCrowdedTx txType update i, ⟨adminSubprotocolId, txType.toNat, []⟩⟩

section

attribute [local instance] sampleCrowdedLibs

/-! #### Actions -/

/-- The administration state after actions of the administrator. -/
def sampleCrowdedState (lastSeqno nextUpdateId : Nat) (queued : List QueuedUpdate) :
    AdministrationSubprotoState :=
  { AdministrationSubprotoState.new sampleCrowdedParams.admin with
    authorities := [⟨.strataAdministrator, sampleThreshold, lastSeqno⟩,
      ⟨.strataSequencerManager, sampleThreshold, 0⟩, ⟨.alpenAdministrator, sampleThreshold, 0⟩,
      ⟨.strataSecurityCouncil, sampleThreshold, 0⟩]
    queued
    nextUpdateId }

theorem sampleCrowded_accepted {txType : UInt8} {update : UpdateAction} {count height : Nat}
    {queued : List QueuedUpdate} {guard : BlockUpdateGuard} {relayer : MsgRelayer}
    {outcome : Except AdministrationError Unit} {after : ActionContext} (small : count < 65535)
    (tagged : AdminTxType.ofByte txType.toNat = some (.update update.updateTxType))
    (role : update.requiredRole = .strataAdministrator) (typed : update.Typed)
    (fits : (sampleSignedUpdate (count + 1) update).intoEnvelopeBytes.length < Ssz.offsetBound)
    (accepted : acceptUpdate ⟨sampleCrowdedState (count + 1) count queued, guard, relayer⟩ update
      height = .ok (outcome, after)) :
    Admin.processTx height .regtest ⟨sampleCrowdedState count count queued, guard, relayer⟩
      (sampleCrowdedInput txType update count) = .ok after := by
  have payload : (sampleSignedUpdate (count + 1) update).Typed :=
    ⟨show count + 1 < 256 ^ 8 by omega, typed, List.forall_mem_singleton.mpr (by decide),
      show 1 ≤ maxSigners by decide⟩
  have parsed := Admin.parseTx_signed sampleWireLibs_lawful payload fits tagged
    (show (sampleCrowdedInput txType update count).Reveals _ from ⟨_, rfl, rfl⟩)
  have signed : verifyThresholdSignatures sampleThreshold [sampleSignature 0] .zero = .ok () := by
    decide +kernel
  have verified : MultisigAuthority.verifyActionSignature ⟨.strataAdministrator, sampleThreshold, count⟩
      (sampleSignedUpdate (count + 1) update) sampleCrowdedParams.admin.maxSeqnoGap .regtest =
        .ok (.ok (count + 1)) :=
    verifyActionSignature_of (Nat.lt_succ_self count) (show count + 1 ≤ count + 10 by omega)
      (show count + 10 < 2 ^ 64 by omega) signed
  have found : (sampleCrowdedState count count queued).authority update.requiredRole =
      some ⟨.strataAdministrator, sampleThreshold, count⟩ := by
    rw [role]
    rfl
  have burnt : (sampleCrowdedState count count queued).burn (sampleSignedUpdate (count + 1) update)
      ⟨.strataAdministrator, sampleThreshold, count⟩ = sampleCrowdedState (count + 1) count queued := by
    rw [AdministrationSubprotoState.burn,
      show (sampleSignedUpdate (count + 1) update).action.requiredRole = .strataAdministrator from role]
    rfl
  rw [← burnt] at accepted
  exact Admin.processTx_update parsed rfl found verified accepted

def sampleVk : UpdateAction := .asmStfVk ⟨1, [6]⟩

def sampleVkContext (count : Nat) : ActionContext :=
  ⟨sampleCrowdedState count count [], ⟨[]⟩, ⟨[], List.replicate count (.asmStfUpdate ⟨1, [6]⟩)⟩⟩

theorem sampleVks_accepted (height : Nat) {count : Nat} (few : count ≤ 65535) :
    ((List.range count).map (sampleCrowdedInput 12 sampleVk)).foldlM (Admin.processTx height .regtest)
      (sampleVkContext 0) = .ok (sampleVkContext count) := by
  induction count with
  | zero => rfl
  | succ count ih =>
    rw [List.range_succ, List.map_append, List.foldlM_append, ih (by omega), ok_bind, List.map_singleton,
      List.foldlM_cons]
    have fits : (sampleSignedUpdate (count + 1) sampleVk).intoEnvelopeBytes.length < Ssz.offsetBound := by
      show (Wire.encodeWire Wire.predicateKey (count + 1) ⟨1, [6]⟩ [sampleSignature 0]).length < _
      rw [Wire.encodeWire_size]
      decide
    have counted : addU32 count 1 = .ok (count + 1) := if_pos (by unfold u32Bound; omega)
    have emitted : sampleVkContext (count + 1) = { sampleVkContext (count + 1) with
        relayer := (sampleVkContext count).relayer.emitLog (.asmStfUpdate ⟨1, [6]⟩) } := by
      rw [sampleVkContext, List.replicate_succ']
      rfl
    have typed : sampleVk.Typed := ⟨by decide, by decide⟩
    rw [sampleVkContext, sampleCrowded_accepted (by omega) rfl rfl typed fits]
    · rfl
    · show ((addU32 count 1 >>= fun _ => _) >>= _) = _
      rw [counted, ok_bind, emitted]
      rfl

def sampleSetContext (keys : List Buf32) : ActionContext :=
  ⟨sampleCrowdedState 1 1 [⟨0, .operatorSet keys [], 4⟩], ⟨[]⟩, .new⟩

/-- However many operators are added, the update is queued. -/
theorem sampleSet_accepted {keys : List Buf32} (valid : ∀ key ∈ keys, WireLibs.validKey key)
    (few : keys.length ≤ 100000) :
    [sampleCrowdedInput 13 (.operatorSet keys []) 0].foldlM (Admin.processTx 2 .regtest)
      ⟨sampleCrowdedState 0 0 [], ⟨[]⟩, .new⟩ = .ok (sampleSetContext keys) := by
  have fits : (sampleSignedUpdate 1 (.operatorSet keys [])).intoEnvelopeBytes.length <
      Ssz.offsetBound := by
    show (Wire.encodeWire Wire.operatorSetUpdate 1 (keys, []) [sampleSignature 0]).length < 2 ^ 32
    have variableSize : Wire.operatorSetUpdate.fixedLen = none := rfl
    rw [Wire.encodeWire_size, variableSize, Ssz.fieldSize_none, Wire.operatorSetUpdate_size]
    simp only [List.length_nil, List.length_singleton, Ssz.offsetLen]
    omega
  have typed : (UpdateAction.operatorSet keys []).Typed := ⟨valid, List.forall_mem_nil _⟩
  rw [List.foldlM_cons, sampleCrowded_accepted (by decide) rfl rfl typed fits]
  · rfl
  · rfl

/-! #### Integrity -/

def sampleLeaf (i : Nat) : Buf32 := samplePaddedHash [.ofNat (i / 256), .ofNat i]

theorem sampleLeaf_inj {i j : Nat} (small : i < 65536) (small' : j < 65536)
    (same : sampleLeaf i = sampleLeaf j) : i = j := by
  have bytes : (UInt8.ofNat (i / 256) :: UInt8.ofNat i :: List.replicate 30 0 : Bytes) =
      UInt8.ofNat (j / 256) :: UInt8.ofNat j :: List.replicate 30 0 := congrArg Buf32.bytes same
  simp only [List.cons.injEq, and_true] at bytes
  have high := congrArg UInt8.toNat bytes.1
  have low := congrArg UInt8.toNat bytes.2
  rw [UInt8.toNat_ofNat', UInt8.toNat_ofNat'] at high low
  omega

theorem sampleLeaves_eq (txType : UInt8) (update : UpdateAction) (count : Nat) :
    witnessLeaves (sampleCrowdedBlock txType update count).txdata =
      (List.range (count + 1)).map sampleLeaf := by
  apply List.ext_getElem
  · simp [witnessLeaves, sampleCrowdedBlock]
  · intro i _ _
    simp only [witnessLeaves, List.getElem_mapIdx, List.getElem_map, List.getElem_range]
    cases i with
    | zero => rfl
    | succ i =>
      simp [sampleCrowdedBlock]
      rfl

theorem rooted_const {hash : Buf32 → Buf32 → Buf32} {level : List Buf32} {depth : Nat}
    {root value : Buf32} (rooted : MerkleTree.Rooted hash level depth root)
    (const : ∀ left right, hash left right = value)
    (hashed : 1 < level.length ∨ ∀ node ∈ level, node = value) : root = value := by
  induction rooted with
  | leaf node => exact hashed.elim (fun many => absurd many (by simp)) fun all => all node (.head _)
  | up many above ih =>
    refine ih (.inr fun node mem => ?_)
    obtain ⟨pair, -, rfl⟩ := List.mem_map.mp mem
    exact const _ _

theorem sampleHashPair_zero (left right : Buf32) :
    @hashPair TxEncoding.toSha256 left right = .zero := by
  have long : (left.bytes ++ right.bytes ++
      List.replicate (32 - (left.bytes ++ right.bytes).length) 0).length ≠ 32 := by
    simp [left.size, right.size]
  have forgotten : samplePaddedHash (left.bytes ++ right.bytes) = .zero := by
    rw [samplePaddedHash, Buf32.ofSlice, dif_neg long]
    rfl
  show samplePaddedHash (samplePaddedHash (left.bytes ++ right.bytes)).bytes = .zero
  rw [forgotten]
  rfl

section

variable {txType : UInt8} {update : UpdateAction} {count : Nat} {proof : TxidInclusionProof}

theorem sampleCrowded_intact (positive : count ≠ 0) (few : count ≤ 65535)
    (included : proof.verify sampleCommittingCoinbase .zero (count + 1) = true) :
    checkBlockIntegrity (sampleCrowdedBlock txType update count) (some proof) = .ok .zero := by
  have carries : witnessCommitmentFromCoinbase sampleCommittingCoinbase =
      some (List.replicate 32 0) := by
    decide +kernel
  have length : (sampleCrowdedBlock txType update count).txdata.length = count + 1 := by
    simp [sampleCrowdedBlock]
  obtain ⟨depth, root, isRoot, rooted⟩ :=
    calculateRoot_rooted (show (List.range (count + 1)).map sampleLeaf ≠ [] by simp)
  have many : 1 < ((List.range (count + 1)).map sampleLeaf).length := by
    rw [List.length_map, List.length_range]
    omega
  rw [rooted_const rooted sampleHashPair_zero (.inl many), ← sampleLeaves_eq txType update] at isRoot
  have nodup : (witnessLeaves (sampleCrowdedBlock txType update count).txdata).Nodup := by
    rw [sampleLeaves_eq]
    refine List.nodup_range.map_on fun i mem j mem' => ?_
    rw [List.mem_range] at mem mem'
    exact sampleLeaf_inj (by omega) (by omega)
  rw [← length] at included
  exact (checkBlockIntegrity_witness carries).mpr ⟨by decide +kernel, _, List.replicate 32 0, rfl,
    ⟨rfl, rfl⟩, ⟨isRoot, nodup⟩, by decide +kernel, included⟩

/-! #### Blocks -/

theorem sampleCrowded_grouped (id : Nat) :
    groupTxsBySubprotocol [] (sampleCrowdedBlock txType update count) id =
      if id = adminSubprotocolId then (List.range count).map (sampleCrowdedInput txType update)
      else [] := by
  have tagged : taggedTxs [] (sampleCrowdedBlock txType update count) =
      (List.range count).map (sampleCrowdedInput txType update) := by
    show ((List.range count).map (sampleCrowdedTx txType update)).filterMap _ = _
    rw [List.filterMap_map, ← List.filterMap_eq_map]
    rfl
  rw [groupTxsBySubprotocol, tagged]
  split_ifs with isAdmin
  · rw [List.filter_eq_self]
    simp [isAdmin, sampleCrowdedInput]
  · rw [List.filter_eq_nil_iff]
    simp [Ne.symm isAdmin, sampleCrowdedInput]

set_option maxRecDepth 8000 in
/-- Genesis, and what the header of the block and a block without bridge transactions make of it. -/
theorem sampleCrowded_genesis :
    ∃ genesis prepared bridge bridgeMid relayer powState aux,
      genesisState sampleCrowdedParams = .ok genesis ∧
      genesis.subprotocols =
        some ⟨sampleCrowdedState 0 0 [], .init sampleCrowdedParams.checkpoint, bridge⟩ ∧
      (asmSpec .v1).prepare genesis = .ok prepared ∧ genesis.magic = [] ∧
      genesis.chainView.powState.checkAndUpdate ⟨2, .zero, .zero, 1, 0, 0⟩ = .ok (.ok powState) ∧
      powState.lastVerifiedBlock.height = 2 ∧ powState.network = .regtest ∧
      VerifiedAuxData.tryNew ⟨[], []⟩ genesis.chainView.historyAccumulator = .ok aux ∧
      HistoryAccumulator.lastInsertedHeight genesis.chainView.historyAccumulator = .ok 1 ∧
      relayer.msgs = [] ∧ relayer.logs.length = 1 ∧
      Bridge.processTxs .v1 bridge [] powState.lastVerifiedBlock powState.totalAccumulatedPow aux .new =
        .ok (bridgeMid, relayer) ∧
      (Stored.bridgeState.encode bridgeMid).length ≤ maxSectionStateBytes :=
  ⟨_, _, _, _, _, _, _, rfl, rfl, rfl, rfl, rfl, rfl, rfl, rfl, rfl, rfl, rfl, rfl,
    Nat.le_of_ble_eq_true rfl⟩

/-- If the updates are accepted and tell the other subprotocols nothing, the block passes all checks
and is processed. -/
theorem sampleCrowded_ran {context : ActionContext} (positive : count ≠ 0) (few : count ≤ 65535)
    (included : proof.verify sampleCommittingCoinbase .zero (count + 1) = true)
    (accepted : ((List.range count).map (sampleCrowdedInput txType update)).foldlM
      (Admin.processTx 2 .regtest) ⟨sampleCrowdedState 0 0 [], ⟨[]⟩, .new⟩ = .ok context)
    (silent : context.relayer.msgs = []) :
    ∃ genesis states wtxidsRoot powState aux trace,
      Run sampleCrowdedParams [] genesis ∧ genesis.subprotocols = some states ∧
      preProcessAsm (asmSpec .v1) genesis (sampleCrowdedBlock txType update count) =
        .ok (.ok ⟨[], []⟩) ∧
      checkBlock genesis (sampleCrowdedBlock txType update count) ⟨[], []⟩ (some proof) =
        .ok (.ok (wtxidsRoot, powState, aux)) ∧
      processBlock .v1 powState
        (groupTxsBySubprotocol genesis.magic (sampleCrowdedBlock txType update count)) aux states =
        .ok trace ∧
      trace.post.admin = context.state ∧ trace.post.checkpoint = .init sampleCrowdedParams.checkpoint ∧
      (Stored.bridgeState.encode trace.post.bridge).length ≤ maxSectionStateBytes ∧
      trace.logs.length = context.relayer.logs.length + 1 ∧
      ∃ prepared, computeAsmTransition (asmSpec .v1) genesis (sampleCrowdedBlock txType update count)
        ⟨[], []⟩ (some proof) =
          exportOutput (asmSpec .v1) prepared powState wtxidsRoot trace.manager := by
  obtain ⟨genesis, prepared, bridge, bridgeMid, relayer, powState, aux, started, loaded, takes,
    magic, header, height, network, verified, inserted, quiet, single, idle, size⟩ :=
      sampleCrowded_genesis
  have checked : checkBlock genesis (sampleCrowdedBlock txType update count) ⟨[], []⟩ (some proof) =
      .ok (.ok (.zero, powState, aux)) := by
    unfold checkBlock
    rw [sampleCrowded_intact positive few included]
    show (genesis.chainView.powState.checkAndUpdate ⟨2, .zero, .zero, 1, 0, 0⟩ >>= _) = _
    rw [header, ok_bind]
    dsimp only
    rw [verified]
    rfl
  have others : ∀ id ≠ adminSubprotocolId,
      groupTxsBySubprotocol genesis.magic (sampleCrowdedBlock txType update count) id = [] := by
    intro id isOther
    rw [magic, sampleCrowded_grouped, if_neg isOther]
  have checkpointTxs := others checkpointSubprotocolId (by decide)
  have bridgeTxs := others bridgeSubprotocolId (by decide)
  have ran : processBlock .v1 powState
      (groupTxsBySubprotocol genesis.magic (sampleCrowdedBlock txType update count)) aux
      ⟨sampleCrowdedState 0 0 [], .init sampleCrowdedParams.checkpoint, bridge⟩ =
      .ok ⟨context.relayer, .new, relayer, .init sampleCrowdedParams.checkpoint, bridgeMid,
        context.state, .init sampleCrowdedParams.checkpoint, bridgeMid⟩ := by
    have admin : Admin.processTxs (sampleCrowdedState 0 0 [])
        (groupTxsBySubprotocol genesis.magic (sampleCrowdedBlock txType update count) adminSubprotocolId)
        powState.lastVerifiedBlock.height powState.network .new = .ok (context.state, context.relayer) := by
      rw [magic, sampleCrowded_grouped, if_pos rfl, height, network]
      show (List.foldlM _ (⟨sampleCrowdedState 0 0 [], ⟨[]⟩, .new⟩ : ActionContext) _ >>= _) = _
      rw [accepted]
      rfl
    unfold processBlock
    simp only [admin, checkpointTxs, bridgeTxs, ok_bind, idle, quiet, silent]
    rfl
  have start : Run sampleCrowdedParams [] genesis := .genesis genesis.specId started
  refine ⟨genesis, _, .zero, powState, aux, _, start, loaded, ?_, checked, ran, rfl, rfl, size, ?_,
    prepared, computeAsmTransition_eq loaded takes checked ran⟩
  · obtain ⟨specId, rfl⟩ := asmSpec_prepare_ok takes
    unfold preProcessAsm
    rw [takes, ok_bind, show genesis.chainView.powState.checkAndUpdate
      (sampleCrowdedBlock txType update count).header = _ from header, ok_bind]
    dsimp only
    rw [loadSubprotocols_of .v1 { genesis with specId } loaded, ok_bind, inserted, ok_bind,
      asmSpec_subprotocols]
    simp only [List.foldlM_cons, List.foldlM_nil, SubprotoManager.preProcessTxs, Subprotocols.manager,
      checkpointTxs, bridgeTxs]
    rfl
  · simp [BlockTrace.logs, MsgRelayer.new, single]

theorem sampleVks_overflow (many : maxLogsPerManifest ≤ count) (few : count ≤ 65535)
    (included : proof.verify sampleCommittingCoinbase .zero (count + 1) = true)
    (fits : (Stored.administrationState.encode (sampleCrowdedState count count [])).length ≤
      maxSectionStateBytes) :
    Refused sampleCrowdedParams (sampleCrowdedBlock 12 sampleVk count) .tooManyLogs
      fun trace => trace.logs.length = count + 1 := by
  have bound : maxLogsPerManifest = 1024 := rfl
  obtain ⟨genesis, states, wtxidsRoot, powState, aux, trace, start, loaded, requested, checked, ran,
    admin, checkpoint, bridge, logs, prepared, exported⟩ :=
      sampleCrowded_ran (by omega) few included (sampleVks_accepted 2 few) rfl
  have length : trace.logs.length = count + 1 := by
    rw [logs, sampleVkContext, List.length_replicate]
  have tip : (Stored.checkpointState.encode trace.post.checkpoint).length ≤ maxSectionStateBytes := by
    rw [checkpoint]
    decide +kernel
  refine ⟨genesis, states, _, wtxidsRoot, powState, aux, trace, start, loaded, requested, checked, ran,
    length, ?_⟩
  rw [exported]
  rcases exportSections_fits trace tip with ⟨sections, packed, -⟩ | ⟨large, -⟩
  · exact exportOutput_tooManyLogs packed (by omega)
  · rw [admin] at large
    exact absurd ⟨fits, bridge⟩ large

theorem sampleSet_overflow {keys : List Buf32} (valid : ∀ key ∈ keys, WireLibs.validKey key)
    (few : keys.length ≤ 100000) (many : maxSectionStateBytes ≤ 32 * keys.length)
    (included : proof.verify sampleCommittingCoinbase .zero (1 + 1) = true) :
    Refused sampleCrowdedParams (sampleCrowdedBlock 13 (.operatorSet keys []) 1)
      (.sectionTooLarge adminSubprotocolId) fun trace =>
        maxSectionStateBytes < (Stored.administrationState.encode trace.post.admin).length := by
  obtain ⟨genesis, states, wtxidsRoot, powState, aux, trace, start, loaded, requested, checked, ran,
    admin, -, -, -, prepared, exported⟩ :=
      sampleCrowded_ran (by decide) (by decide) included (sampleSet_accepted valid few) rfl
  have large : maxSectionStateBytes < (Stored.administrationState.encode trace.post.admin).length := by
    have queued : ⟨0, .operatorSet keys [], 4⟩ ∈ trace.post.admin.queued := by
      rw [admin]
      exact .head _
    exact many.trans_lt (Stored.queued_operators_lt queued rfl)
  refine ⟨genesis, states, _, wtxidsRoot, powState, aux, trace, start, loaded, requested, checked, ran,
    large, ?_⟩
  rw [exported, exportOutput, exportSections_admin large]
  rfl

end

/-- Two blocks after genesis. All checks pass and nothing panics, but one emits more logs than fit the
manifest, and the other queues an update that does not fit the section. -/
theorem capacity_exceeded :
    Refused sampleCrowdedParams (sampleCrowdedBlock 12 sampleVk 1024) .tooManyLogs
      (fun trace => trace.logs.length = 1025) ∧
    Refused sampleCrowdedParams
      (sampleCrowdedBlock 13 (.operatorSet (List.replicate 32768 (.fill 1)) []) 1)
      (.sectionTooLarge adminSubprotocolId) fun trace =>
        maxSectionStateBytes < (Stored.administrationState.encode trace.post.admin).length := by
  refine ⟨?_, ?_⟩
  · have included : TxidInclusionProof.verify ⟨0, List.replicate 11 .zero⟩ sampleCommittingCoinbase
        .zero (1024 + 1) = true := by decide +kernel
    exact sampleVks_overflow (Nat.le_refl 1024) (by decide) included (by decide +kernel)
  · have included : TxidInclusionProof.verify ⟨0, [.zero]⟩ sampleCommittingCoinbase .zero (1 + 1) =
        true := by decide +kernel
    have count : (List.replicate 32768 (Buf32.fill 1)).length = 32768 := List.length_replicate
    have valid : ∀ key ∈ List.replicate 32768 (Buf32.fill 1), WireLibs.validKey key := by
      intro key mem
      rw [List.eq_of_mem_replicate mem]
      decide
    exact sampleSet_overflow valid (by rw [count]; decide) (by rw [count]; decide) included

end
end Asm
