import AnchorStateMachine.Admin.Transitions

/-! The delay queue of OL verifying keys. Every such update waits for the same number of blocks and a
block accepts at most one of them, so that a block enacts at most one. -/

namespace Asm
open Outcome

/-! ### Enacting -/

namespace UpdateAction

def msgs : UpdateAction → List InterprotoMsg
  | .operatorSet addMembers removeMembers =>
    [.bridge (.updateOperatorSet ⟨addMembers, removeMembers⟩)]
  | .sequencer pubKey => [.checkpoint (.updateSequencerKey pubKey)]
  | .olStfVk key => [.checkpoint (.updateCheckpointPredicate key)]
  | .defcon1 | .defcon3 => [.bridge .defcon]
  | .safeHarborAddress address => [.bridge (.updateSafeHarborAddress address)]
  | _ => []

def logs [AdminLibs] : UpdateAction → List AsmLogEntry
  | .olStfVk key => [.checkpointPredicateEnacted key]
  | .asmStfVk key => [.asmStfUpdate key]
  | .eeStfVk key => [.eePredicateKeyUpdate AdminLibs.systemReservedAccts key]
  | _ => []

def olKey : UpdateAction → Option PredicateKey
  | .olStfVk key => some key
  | _ => none

theorem olKey_isSome (update : UpdateAction) :
    update.olKey.isSome ↔ update.updateTxType = .olStfVkUpdate := by
  cases update <;> simp [olKey, updateTxType]

end UpdateAction

def olKeys (updates : List UpdateAction) : List PredicateKey := updates.filterMap UpdateAction.olKey

theorem olKeys_append (updates more : List UpdateAction) :
    olKeys (updates ++ more) = olKeys updates ++ olKeys more :=
  List.filterMap_append

theorem predicateUpdates_enacted (updates : List UpdateAction) :
    predicateUpdates (checkpointMsgs (updates.flatMap UpdateAction.msgs)) = olKeys updates := by
  induction updates with
  | nil => rfl
  | cons update updates ih =>
    rw [List.flatMap_cons, checkpointMsgs_append, predicateUpdates, List.filterMap_append,
      ← predicateUpdates, ← predicateUpdates, ih]
    cases update <;> rfl

/-- What was relayed and logged comes from enacting the updates, in this order. -/
structure MsgRelayer.Enacted [AdminLibs] (relayer : MsgRelayer)
    (updates : List UpdateAction) : Prop where
  msgs : relayer.msgs = updates.flatMap UpdateAction.msgs
  logs : relayer.logs = updates.flatMap UpdateAction.logs

section

variable [AdminLibs] {state after : AdministrationSubprotoState} {relayer relayed : MsgRelayer}
  {updates : List UpdateAction}

theorem handleUpdate_enacted {update : UpdateAction} (enacted : relayer.Enacted updates)
    (h : handleUpdate state relayer update = .ok (after, relayed)) :
    relayed.Enacted (updates ++ [update]) := by
  obtain ⟨msgs, logs⟩ := enacted
  cases update with
  | strataAdminMultisig config | strataSeqManagerMultisig config | alpenAdminMultisig config
  | strataSecurityCouncilMultisig config =>
    obtain ⟨_, applied, h⟩ := bind_ok h
    cases pure_ok h
    exact ⟨by simp [msgs, UpdateAction.msgs], by simp [logs, UpdateAction.logs]⟩
  | _ =>
    cases pure_ok h
    exact ⟨by simp [msgs, UpdateAction.msgs], by simp [logs, UpdateAction.logs]⟩

theorem enactUpdate_enacted (state : AdministrationSubprotoState) (update : UpdateAction)
    (enacted : relayer.Enacted updates) :
    (enactUpdate state relayer update).2.Enacted (updates ++ [update]) := by
  unfold enactUpdate
  split
  · rename_i handled
    exact handleUpdate_enacted enacted handled
  · rename_i failed
    -- Only a change of an authority can fail, and it says nothing.
    obtain ⟨msgs, logs⟩ := enacted
    cases update with
    | strataAdminMultisig config | strataSeqManagerMultisig config | alpenAdminMultisig config
    | strataSecurityCouncilMultisig config =>
      exact ⟨by simp [msgs, UpdateAction.msgs], by simp [logs, UpdateAction.logs]⟩
    | _ => cases failed

theorem handlePendingUpdates_enacted (state : AdministrationSubprotoState) (height : Nat) :
    (handlePendingUpdates state .new height).2.Enacted
      ((state.processQueued height).1.map QueuedUpdate.action) := by
  suffices drained : ∀ (ready : List QueuedUpdate) state relayer updates,
      MsgRelayer.Enacted relayer updates → (ready.foldl
        (fun acc queued => enactUpdate acc.1 acc.2 queued.action)
        (state, relayer)).2.Enacted (updates ++ ready.map QueuedUpdate.action) from
    drained _ _ _ [] ⟨rfl, rfl⟩
  intro ready
  induction ready with
  | nil =>
    intro state relayer updates enacted
    simpa using enacted
  | cons queued ready ih =>
    intro state relayer updates enacted
    have rest := ih (enactUpdate state relayer queued.action).1 _ _
      (enactUpdate_enacted state queued.action enacted)
    rwa [List.append_assoc] at rest

end

/-! ### Pacing -/

def QueuedUpdate.IsOl (update : QueuedUpdate) : Prop := update.action.updateTxType = .olStfVkUpdate

instance (update : QueuedUpdate) : Decidable update.IsOl :=
  inferInstanceAs (Decidable (update.action.updateTxType = .olStfVkUpdate))

namespace AdministrationSubprotoState

def olQueue (state : AdministrationSubprotoState) : List QueuedUpdate :=
  state.queued.filter fun update => decide update.IsOl

/-- The number of blocks an OL update waits; it is enacted at once if this is zero. -/
def olDepth (state : AdministrationSubprotoState) : Nat := state.confirmationDepths.olStfVkUpdate

theorem confirmationDepth_ol (state : AdministrationSubprotoState) :
    state.confirmationDepth .olStfVkUpdate =
      if state.olDepth ≠ 0 then some state.olDepth else none := rfl

/-- The OL queue once block `height` is processed: no two updates are due in one block, and all of
them within the delay. -/
structure Staggered (height : Nat) (state : AdministrationSubprotoState) : Prop where
  ordered : state.olQueue.Pairwise (·.activationHeight < ·.activationHeight)
  ahead : ∀ update ∈ state.olQueue, height < update.activationHeight
  within : ∀ update ∈ state.olQueue, update.activationHeight ≤ height + state.olDepth

theorem new_staggered (config : AdministrationInitConfig) (height : Nat) :
    Staggered height (new config) := by
  refine ⟨.nil, ?_, ?_⟩ <;> simp [olQueue, new]

end AdministrationSubprotoState

structure ActionContext.Paced [AdminLibs] (height : Nat) (context : ActionContext) : Prop where
  ordered : context.state.olQueue.Pairwise (·.activationHeight < ·.activationHeight)
  ahead : ∀ update ∈ context.state.olQueue, height < update.activationHeight
  within : ∀ update ∈ context.state.olQueue,
    update.activationHeight < height + context.state.olDepth ∨
    (.olStfVkUpdate ∈ context.guard.accepted ∧ update.activationHeight = height + context.state.olDepth)
  enacted : ∃ updates, context.relayer.Enacted updates ∧ (olKeys updates).length ≤ 1 ∧
    (context.state.olDepth = 0 → .olStfVkUpdate ∉ context.guard.accepted → olKeys updates = [])

/-! ### The drain -/

theorem olKeys_length (updates : List QueuedUpdate) :
    (olKeys (updates.map QueuedUpdate.action)).length =
      (updates.filter fun update => decide update.IsOl).length := by
  rw [olKeys, List.filterMap_map, List.length_filterMap_eq_countP, List.countP_eq_length_filter]
  congr 2
  funext update
  rw [Bool.eq_iff_iff, Function.comp_apply, UpdateAction.olKey_isSome, decide_eq_true_iff]
  rfl

theorem due_length_le_one {updates : List QueuedUpdate} (height : Nat)
    (ordered : updates.Pairwise (·.activationHeight < ·.activationHeight))
    (due : ∀ update ∈ updates, update.activationHeight = height) : updates.length ≤ 1 := by
  match updates with
  | [] => exact Nat.zero_le 1
  | [_] => exact Nat.le_refl 1
  | first :: second :: rest =>
    have later := (List.pairwise_cons.mp ordered).1 second (.head _)
    have dueFirst := due first (.head _)
    have dueSecond := due second (.tail _ (.head _))
    omega

theorem processQueued_ready (state : AdministrationSubprotoState) (height : Nat) :
    (state.processQueued height).1.filter (fun update => decide update.IsOl) =
      state.olQueue.filter fun update => decide (update.activationHeight ≤ height) := by
  simp only [AdministrationSubprotoState.processQueued, AdministrationSubprotoState.olQueue,
    List.partition_eq_filter_filter, List.filter_filter]
  exact List.filter_congr fun update _ => Bool.and_comm _ _

theorem processQueued_olQueue (state : AdministrationSubprotoState) (height : Nat) :
    (state.processQueued height).2.olQueue =
      state.olQueue.filter fun update => decide (height < update.activationHeight) := by
  simp only [AdministrationSubprotoState.processQueued, AdministrationSubprotoState.olQueue,
    List.partition_eq_filter_filter, List.filter_filter]
  refine List.filter_congr fun update _ => ?_
  rw [Function.comp_apply, ← decide_not, Bool.and_comm]
  simp only [Nat.not_le]

section

variable [AdminLibs] {state after : AdministrationSubprotoState} {relayed : MsgRelayer} {height : Nat}

theorem handlePendingUpdates_paced (staggered : state.Staggered height)
    (h : handlePendingUpdates state .new (height + 1) = (after, relayed)) :
    ActionContext.Paced (height + 1) ⟨after, ⟨[]⟩, relayed⟩ ∧ after.olDepth = state.olDepth := by
  obtain ⟨ordered, ahead, within⟩ := staggered
  have enacted := handlePendingUpdates_enacted state (height + 1)
  obtain ⟨authorities, drained, -⟩ := handlePendingUpdates_reconfigured state .new (height + 1)
  rw [h] at enacted drained
  obtain rfl : after = { (state.processQueued (height + 1)).2 with authorities } := drained
  have queue := processQueued_olQueue state (height + 1)
  have ready := processQueued_ready state (height + 1)
  have kept : ∀ update ∈ (state.processQueued (height + 1)).2.olQueue,
      update ∈ state.olQueue ∧ height + 1 < update.activationHeight := by
    intro update mem
    rw [queue, List.mem_filter] at mem
    simpa using mem
  have due : ∀ update ∈ (state.processQueued (height + 1)).1.filter (fun update => decide update.IsOl),
      update ∈ state.olQueue ∧ update.activationHeight ≤ height + 1 := by
    intro update mem
    rw [ready, List.mem_filter] at mem
    simpa using mem
  refine ⟨⟨?_, fun update mem => (kept update mem).2, ?_, _, enacted, ?_, ?_⟩, rfl⟩
  · have sub := ordered.filter fun update => decide (height + 1 < update.activationHeight)
    rwa [← queue] at sub
  · intro update mem
    have bound : update.activationHeight ≤ height + state.olDepth := within update (kept update mem).1
    exact .inl (show update.activationHeight < height + 1 + state.olDepth by omega)
  · rw [olKeys_length]
    have sub := ordered.filter fun update => decide (update.activationHeight ≤ height + 1)
    rw [← ready] at sub
    refine due_length_le_one (height + 1) sub fun update mem => ?_
    have early := ahead update (due update mem).1
    have late := (due update mem).2
    exact Nat.le_antisymm late early
  · intro immediate _
    -- An update that waits for no block is not in the queue.
    rw [← List.length_eq_zero_iff, olKeys_length, List.length_eq_zero_iff,
      List.eq_nil_iff_forall_not_mem]
    intro update mem
    have early := ahead update (due update mem).1
    have late := within update (due update mem).1
    have zero : state.olDepth = 0 := immediate
    omega

end

/-! ### Actions -/

theorem BlockUpdateGuard.admitUpdate_ok {guard next : BlockUpdateGuard} {txType : UpdateTxType}
    (h : guard.admitUpdate txType = .ok next) :
    (∀ accepted ∈ guard.accepted, accepted ∈ next.accepted) ∧
      (txType = .olStfVkUpdate → .olStfVkUpdate ∉ guard.accepted ∧ .olStfVkUpdate ∈ next.accepted) := by
  unfold admitUpdate at h
  split at h
  · split at h
    · cases h
    · rename_i fresh
      cases h
      exact ⟨fun _ mem => List.mem_append_left _ mem, fun _ => ⟨by simpa using fresh, by simp⟩⟩
  · split at h
    · cases h
    · cases h
      exact ⟨fun _ mem => List.mem_append_left _ mem, nofun⟩
  · rename_i other _
    cases h
    exact ⟨fun _ mem => mem, fun isOl => absurd isOl other⟩

namespace ActionContext.Paced

variable [AdminLibs] {context after : ActionContext} {height : Nat}

theorem mono (paced : Paced height context) (queue : after.state.olQueue.Sublist context.state.olQueue)
    (depth : after.state.olDepth = context.state.olDepth)
    (guard : ∀ accepted ∈ context.guard.accepted, accepted ∈ after.guard.accepted)
    (relayer : after.relayer = context.relayer) : Paced height after := by
  obtain ⟨ordered, ahead, within, updates, enacted, single, none⟩ := paced
  refine ⟨ordered.sublist queue, fun update mem => ahead update (queue.subset mem), ?_,
    updates, relayer ▸ enacted, single, ?_⟩
  · intro update mem
    rw [depth]
    exact (within update (queue.subset mem)).imp_right fun due => ⟨guard _ due.1, due.2⟩
  · intro immediate closed
    exact none (depth ▸ immediate) fun mem => closed (guard _ mem)

theorem enqueue (paced : Paced height context) (update : QueuedUpdate)
    (queue : after.state.olQueue = context.state.olQueue ++ [update])
    (depth : after.state.olDepth = context.state.olDepth) (waits : context.state.olDepth ≠ 0)
    (due : update.activationHeight = height + context.state.olDepth)
    (first : .olStfVkUpdate ∉ context.guard.accepted) (closed : .olStfVkUpdate ∈ after.guard.accepted)
    (relayer : after.relayer = context.relayer) : Paced height after := by
  obtain ⟨ordered, ahead, within, updates, enacted, single, none⟩ := paced
  have earlier : ∀ other ∈ context.state.olQueue,
      other.activationHeight < height + context.state.olDepth := fun other mem =>
    (within other mem).resolve_right fun taken => first taken.1
  refine ⟨?_, ?_, ?_, updates, relayer ▸ enacted, single, fun _ open' => absurd closed open'⟩
  · rw [queue, List.pairwise_append]
    refine ⟨ordered, List.pairwise_singleton _ _, fun other mem new isNew => ?_⟩
    rw [List.mem_singleton.mp isNew, due]
    exact earlier other mem
  · intro other mem
    rw [queue] at mem
    rcases List.mem_append.mp mem with old | new
    · exact ahead other old
    · rw [List.mem_singleton.mp new]
      omega
  · intro other mem
    rw [queue] at mem
    rw [depth]
    rcases List.mem_append.mp mem with old | new
    · exact .inl (earlier other old)
    · exact .inr ⟨closed, by rw [List.mem_singleton.mp new, due]⟩

theorem offers {update : UpdateAction} {outcome : Except AdministrationError Unit}
    (paced : Paced height context) (h : Offers context update height outcome after) :
    Paced height after ∧ after.state.olDepth = context.state.olDepth := by
  cases h with
  | limited error => exact ⟨paced, rfl⟩
  | overflown error admitted =>
    exact ⟨paced.mono (List.Sublist.refl _) rfl (BlockUpdateGuard.admitUpdate_ok admitted).1 rfl, rfl⟩
  | queued admitted waits =>
    obtain ⟨more, once⟩ := BlockUpdateGuard.admitUpdate_ok admitted
    refine ⟨?_, rfl⟩
    by_cases isOl : update.updateTxType = .olStfVkUpdate
    · obtain ⟨first, closed⟩ := once isOl
      rw [isOl, AdministrationSubprotoState.confirmationDepth_ol] at waits
      split at waits
      · rename_i positive
        cases waits
        refine paced.enqueue ⟨context.state.nextUpdateId, update, _⟩ ?_ rfl positive rfl first closed rfl
        simp [AdministrationSubprotoState.olQueue, AdministrationSubprotoState.enqueue,
          QueuedUpdate.IsOl, isOl]
      · cases waits
    · refine paced.mono ?_ rfl more rfl
      simp [AdministrationSubprotoState.olQueue, AdministrationSubprotoState.enqueue,
        QueuedUpdate.IsOl, isOl]
  | applied admitted immediate taken =>
    obtain ⟨more, once⟩ := BlockUpdateGuard.admitUpdate_ok admitted
    obtain ⟨ordered, ahead, within, updates, enacted, single, none⟩ := paced
    have enacted := enactUpdate_enacted context.state update enacted
    obtain ⟨authorities, same, -⟩ := enactUpdate_reconfigured context.state context.relayer update
    rw [taken] at enacted same
    subst same
    refine ⟨⟨ordered, ahead, fun update mem => (within update mem).imp_right fun due =>
      ⟨more _ due.1, due.2⟩, _, enacted, ?_, ?_⟩, rfl⟩
    · rw [olKeys_append]
      cases key : update.olKey with
      | none => simpa [olKeys, key] using single
      | some key =>
        have isOl := (UpdateAction.olKey_isSome update).mp (by rw [key]; rfl)
        have zero : context.state.olDepth = 0 := by
          rw [isOl, AdministrationSubprotoState.confirmationDepth_ol] at immediate
          split at immediate
          · cases immediate
          · rename_i zero
            exact Decidable.not_not.mp zero
        rw [none zero (once isOl).1]
        simp [olKeys, key]
    · intro zero open'
      rw [olKeys_append]
      cases key : update.olKey with
      | none => simpa [olKeys, key] using none zero fun mem => open' (more _ mem)
      | some key =>
        exact absurd (once ((UpdateAction.olKey_isSome update).mp (by rw [key]; rfl))).2 open'

theorem handleAction {payload : EnvelopePayload} {network : Network}
    {outcome : Except AdministrationError Unit} (paced : Paced height context)
    (h : handleAction context payload height network = .ok (outcome, after)) :
    Paced height after ∧ after.state.olDepth = context.state.olDepth := by
  cases handleAction_ok h with
  | unverified error fails => exact ⟨paced, rfl⟩
  | cancelled verified isCancel =>
    refine ⟨paced.mono ?_ rfl (fun _ mem => mem) rfl, rfl⟩
    exact List.Sublist.filter _ List.eraseP_sublist
  | @offered payload authority update _ _ verified isUpdate offers =>
    have burnt : Paced height { context with state := context.state.burn payload authority } :=
      paced.mono (List.Sublist.refl _) rfl (fun _ mem => mem) rfl
    exact burnt.offers offers

end ActionContext.Paced

/-! ### Blocks -/

namespace Admin

variable [AdminLibs] {state after : AdministrationSubprotoState} {txs : List TxInput} {height : Nat}
  {network : Network} {relayer : MsgRelayer}

/-- A block enacts at most one OL verifying key, and leaves at most one due in each block to come. -/
theorem processTxs_staggered (staggered : state.Staggered height)
    (h : processTxs state txs (height + 1) network .new = .ok (after, relayer)) :
    after.Staggered (height + 1) ∧ after.olDepth = state.olDepth ∧
      ∃ updates, relayer.Enacted updates ∧ (olKeys updates).length ≤ 1 := by
  obtain ⟨context, processed, h⟩ := bind_ok h
  cases pure_ok h
  obtain ⟨drained, depth⟩ := handlePendingUpdates_paced staggered rfl
  have paced := foldlM_preserves
    (fun context => ActionContext.Paced (height + 1) context ∧ context.state.olDepth = state.olDepth) ?_
    ⟨drained, depth⟩ processed
  · obtain ⟨⟨ordered, ahead, within, updates, enacted, single, -⟩, same⟩ := paced
    refine ⟨⟨ordered, ahead, fun update mem => ?_⟩, same, updates, enacted, single⟩
    rcases within update mem with early | ⟨-, late⟩ <;> omega
  · intro tx _ before next paced step
    rcases processTx_cases step with rfl | ⟨payload, outcome, handled⟩
    · exact paced
    · obtain ⟨kept, same⟩ := paced.1.handleAction handled
      exact ⟨kept, same.trans paced.2⟩

end Admin
end Asm
