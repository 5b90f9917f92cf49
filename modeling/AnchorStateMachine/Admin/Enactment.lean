import AnchorStateMachine.Admin.Handover
import AnchorStateMachine.Library.SortedVec

/-! What becomes of an accepted update. One without a confirmation depth is applied at once; any other
waits, and is either cancelled while it waits or applied when it is due. -/

namespace Asm
open Outcome SortedVec

namespace AdminEvent

def settles (id : Nat) : AdminEvent → Bool
  | drained update => update.id = id
  | applied other _ => other = id
  | cancelled other => other = id
  | verified _ _ | accepted _ _ => false

def acceptedId : AdminEvent → Option Nat
  | accepted id _ => some id
  | _ => none

def drainedUpdate : AdminEvent → Option QueuedUpdate
  | drained update => some update
  | _ => none

end AdminEvent

/-- Queued ids strictly increase and are below the next id. -/
structure AdministrationSubprotoState.QueueOrdered (state : AdministrationSubprotoState) : Prop where
  ascending : StrictlySorted QueuedUpdate.id state.queued
  below : ∀ update ∈ state.queued, update.id < state.nextUpdateId

theorem ConfirmationDepths.get_pos {depths : ConfirmationDepths} {txType : UpdateTxType} {depth : Nat}
    (h : depths.get txType = some depth) : 0 < depth := by
  cases txType <;> simp only [get, ne_eq, not_true, if_false, reduceCtorEq,
    Option.ite_none_right_eq_some,
    Option.some.injEq] at h <;> omega

namespace Admin

def fate (history : List (Nat × AdminEvent)) (id : Nat) : List (Nat × AdminEvent) :=
  history.filter fun event => event.2.settles id

def acceptedIds (history : List (Nat × AdminEvent)) : List Nat :=
  history.filterMap fun event => event.2.acceptedId

def drainedIn (history : List (Nat × AdminEvent)) (block : Nat) : List QueuedUpdate :=
  (history.filter (·.1 = block)).filterMap fun event => event.2.drainedUpdate

/-- What has become of an update that a block accepted: exactly one event settles it, or it waits. -/
def Fated (depths : ConfirmationDepths) (history : List (Nat × AdminEvent)) (tip : Tip) (block id : Nat)
    (update : UpdateAction) : Prop :=
  match depths.get update.updateTxType with
  | none => fate history id = [(block, .applied id update)]
  | some depth =>
    (∃ cancelBlock, block ≤ cancelBlock ∧ cancelBlock < block + depth ∧
      fate history id = [(cancelBlock, .cancelled id)]) ∨
    (block + depth ≤ tip.height ∧
      fate history id = [(block + depth, .drained ⟨id, update, block + depth⟩)]) ∨
    (tip.height < block + depth ∧ fate history id = [] ∧ ⟨id, update, block + depth⟩ ∈ tip.state.queued)

/-- The invariant: every accepted id is accounted for, by its fate or by the queue. -/
structure Tracked (depths : ConfirmationDepths) (history : List (Nat × AdminEvent)) (height : Nat)
    (state : AdministrationSubprotoState) : Prop where
  ordered : state.QueueOrdered
  waits : state.confirmationDepths = depths
  ahead : ∀ update ∈ state.queued, height < update.activationHeight
  unsettled : ∀ update ∈ state.queued, fate history update.id = []
  known : ∀ id, state.nextUpdateId ≤ id → fate history id = []
  times : ∀ event ∈ history, event.1 ≤ height
  issued : (acceptedIds history).Pairwise (· < ·)
  issuedBelow : ∀ id ∈ acceptedIds history, id < state.nextUpdateId
  fates : ∀ block id update, (block, .accepted id update) ∈ history →
    Fated depths history ⟨height, state⟩ block id update
  drains : ∀ block, StrictlySorted QueuedUpdate.id (drainedIn history block)

/-! ### Histories -/

section

variable (history more : List (Nat × AdminEvent))

theorem fate_append (id : Nat) : fate (history ++ more) id = fate history id ++ fate more id :=
  List.filter_append ..

theorem acceptedIds_append : acceptedIds (history ++ more) = acceptedIds history ++ acceptedIds more :=
  List.filterMap_append

theorem drainedIn_append (block : Nat) :
    drainedIn (history ++ more) block = drainedIn history block ++ drainedIn more block := by
  rw [drainedIn, List.filter_append, List.filterMap_append, ← drainedIn, ← drainedIn]

end

theorem fate_map {updates : List QueuedUpdate} {event : QueuedUpdate → AdminEvent} (block id : Nat)
    (settles : ∀ update ∈ updates, (event update).settles id = decide (update.id = id)) :
    fate (updates.map fun update => (block, event update)) id =
      (updates.filter (·.id = id)).map fun update => (block, event update) := by
  rw [fate, List.filter_map]
  congr 1
  exact List.filter_congr settles

theorem drainedIn_map (updates : List QueuedUpdate) (height block : Nat) :
    drainedIn (updates.map fun update => (height, .drained update)) block =
      if height = block then updates else [] := by
  induction updates with
  | nil => simp [drainedIn]
  | cons update updates ih =>
    rw [drainedIn] at ih ⊢
    split <;> simp_all [AdminEvent.drainedUpdate]

theorem drainedIn_later {history : List (Nat × AdminEvent)} {height block : Nat}
    (times : ∀ event ∈ history, event.1 ≤ height) (later : height < block) :
    drainedIn history block = [] := by
  rw [drainedIn, List.filter_eq_nil_iff.mpr, List.filterMap_nil]
  intro event mem
  have bound := times event mem
  simp only [decide_eq_true_eq]
  omega

/-- Nothing that happens later changes the fate of a settled update. -/
theorem Fated.settled {depths : ConfirmationDepths} {history : List (Nat × AdminEvent)} {tip : Tip}
    {block id : Nat} {update : UpdateAction} (fated : Fated depths history tip block id update)
    (settled : fate history id ≠ []) {later : List (Nat × AdminEvent)} {next : Tip}
    (same : fate later id = fate history id) (height : tip.height ≤ next.height) :
    Fated depths later next block id update := by
  unfold Fated at fated ⊢
  rw [same]
  split at fated
  · exact fated
  · rcases fated with cancelled | ⟨due, drained⟩ | ⟨_, waiting, _⟩
    · exact .inl cancelled
    · exact .inr (.inl ⟨Nat.le_trans due height, drained⟩)
    · exact absurd waiting settled

theorem Fated.waiting {depths : ConfirmationDepths} {history : List (Nat × AdminEvent)} {tip : Tip}
    {block id : Nat} {update : UpdateAction} (fated : Fated depths history tip block id update)
    (waiting : fate history id = []) :
    ∃ depth, depths.get update.updateTxType = some depth ∧ tip.height < block + depth ∧
      ⟨id, update, block + depth⟩ ∈ tip.state.queued := by
  unfold Fated at fated
  rw [waiting] at fated
  split at fated
  · cases fated
  · rename_i depth waits
    rcases fated with ⟨_, _, _, cancelled⟩ | ⟨_, drained⟩ | ⟨early, _, queued⟩
    · cases cancelled
    · cases drained
    · exact ⟨depth, waits, early, queued⟩

/-! ### Steps -/

namespace Tracked

variable {depths : ConfirmationDepths} {history : List (Nat × AdminEvent)} {height : Nat}
  {state : AdministrationSubprotoState}

theorem genesis (config : AdministrationInitConfig) (height : Nat) :
    Tracked config.confirmationDepths [] height (.new config) where
  ordered := ⟨.nil, List.forall_mem_nil _⟩
  waits := rfl
  ahead := List.forall_mem_nil _
  unsettled := List.forall_mem_nil _
  known _ _ := rfl
  times := List.forall_mem_nil _
  issued := .nil
  issuedBelow := List.forall_mem_nil _
  fates _ _ _ none := absurd none List.not_mem_nil
  drains _ := .nil

theorem authorities (tracked : Tracked depths history height state)
    (authorities : List MultisigAuthority) : Tracked depths history height { state with authorities } :=
  ⟨⟨tracked.ordered.ascending, tracked.ordered.below⟩, tracked.waits, tracked.ahead, tracked.unsettled,
    tracked.known, tracked.times, tracked.issued, tracked.issuedBelow, tracked.fates, tracked.drains⟩

theorem leave (tracked : Tracked depths history height state) (leaves : QueuedUpdate → Bool)
    (event : QueuedUpdate → AdminEvent) {later : Nat} (passed : height ≤ later)
    (stay : ∀ update ∈ state.queued, leaves update = false → later < update.activationHeight)
    (settle : ∀ update ∈ state.queued, leaves update = true →
      event update = .cancelled update.id ∧ later = height ∨
      event update = .drained update ∧ update.activationHeight = later)
    (drains : ∀ block, StrictlySorted QueuedUpdate.id
      (drainedIn (history ++ (state.queued.filter leaves).map fun update =>
        (later, event update)) block)) :
    Tracked depths (history ++ (state.queued.filter leaves).map fun update =>
      (later, event update)) later
      { state with queued := state.queued.filter fun update => !leaves update } := by
  obtain ⟨⟨ascending, below⟩, waits, ahead, unsettled, known, times, issued, issuedBelow, fates,
    -⟩ := tracked
  have left : ∀ update ∈ state.queued.filter leaves, update ∈ state.queued ∧ leaves update = true :=
    fun update mem => List.mem_filter.mp mem
  have stayed : ∀ update ∈ state.queued.filter (fun update => !leaves update),
      update ∈ state.queued ∧ leaves update = false := by
    intro update mem
    simpa using List.mem_filter.mp mem
  have fate_more : ∀ id, fate ((state.queued.filter leaves).map fun update => (later, event update)) id =
      ((state.queued.filter leaves).filter (·.id = id)).map fun update => (later, event update) := by
    refine fun id => fate_map later id fun update mem => ?_
    rcases settle update (left update mem).1 (left update mem).2 with ⟨isEvent, -⟩ | ⟨isEvent, -⟩ <;>
      rw [isEvent] <;> rfl
  have none_left : ∀ id, (∀ update ∈ state.queued.filter leaves, update.id ≠ id) →
      fate ((state.queued.filter leaves).map fun update => (later, event update)) id = [] := by
    intro id absent
    rw [fate_more, List.filter_eq_nil_iff.mpr, List.map_nil]
    simpa using absent
  have silent : acceptedIds ((state.queued.filter leaves).map fun update => (later, event update)) =
      [] := by
    rw [acceptedIds, List.filterMap_map, List.filterMap_eq_nil_iff]
    intro update mem
    rcases settle update (left update mem).1 (left update mem).2 with ⟨isEvent, -⟩ | ⟨isEvent, -⟩ <;>
      simp [isEvent, AdminEvent.acceptedId]
  refine ⟨⟨ascending.sublist List.filter_sublist, fun update mem => below update (stayed update mem).1⟩,
    waits, fun update mem => stay update (stayed update mem).1 (stayed update mem).2, ?_, ?_, ?_,
    ?_, ?_, ?_,
    drains⟩
  · intro update mem
    obtain ⟨queued, stays⟩ := stayed update mem
    rw [fate_append, unsettled update queued, List.nil_append]
    refine none_left _ fun other otherMem same => ?_
    cases eq_of_key_eq ascending queued (left other otherMem).1 same.symm
    rw [(left update otherMem).2] at stays
    cases stays
  · intro id fresh
    rw [fate_append, known id fresh, List.nil_append]
    refine none_left _ fun update mem same => ?_
    have older := below update (left update mem).1
    have fresh' : state.nextUpdateId ≤ id := fresh
    omega
  · intro past mem
    rcases List.mem_append.mp mem with old | new
    · exact Nat.le_trans (times past old) passed
    · obtain ⟨update, -, rfl⟩ := List.mem_map.mp new
      exact Nat.le_refl later
  · rw [acceptedIds_append, silent, List.append_nil]
    exact issued
  · rw [acceptedIds_append, silent, List.append_nil]
    exact issuedBelow
  · intro block id update mem
    have accepted : (block, AdminEvent.accepted id update) ∈ history := by
      refine (List.mem_append.mp mem).resolve_right fun new => ?_
      have listed : id ∈ acceptedIds ((state.queued.filter leaves).map fun update =>
          (later, event update)) :=
        List.mem_filterMap.mpr ⟨_, new, rfl⟩
      rw [silent] at listed
      cases listed
    have fated := fates block id update accepted
    by_cases waiting : fate history id = []
    · obtain ⟨depth, waits, early, queued⟩ := fated.waiting waiting
      unfold Fated
      rw [waits, fate_append, waiting, List.nil_append]
      cases leaving : leaves ⟨id, update, block + depth⟩ with
      | true =>
        have gone : ⟨id, update, block + depth⟩ ∈ state.queued.filter leaves :=
          List.mem_filter.mpr ⟨queued, leaving⟩
        have only := filter_key_of_mem (ascending.sublist List.filter_sublist) gone
        rw [fate_more, only]
        rcases settle _ queued leaving with ⟨isEvent, rfl⟩ | ⟨isEvent, due⟩
        · exact .inl ⟨later, times _ accepted, early, by rw [List.map_singleton, isEvent]⟩
        · refine .inr (.inl ⟨Nat.le_of_eq due, ?_⟩)
          rw [List.map_singleton, isEvent, ← show block + depth = later from due]
      | false =>
        refine .inr (.inr ⟨stay _ queued leaving, none_left id fun other mem same => ?_,
          List.mem_filter.mpr ⟨queued, by simp [leaving]⟩⟩)
        cases eq_of_key_eq ascending (left other mem).1 queued same
        rw [(left _ mem).2] at leaving
        cases leaving
    · refine fated.settled waiting ?_ passed
      rw [fate_append, none_left, List.append_nil]
      intro other gone same
      exact waiting (same ▸ unsettled other (left other gone).1)

theorem drain {tip : Tip} [AdminLibs] (tracked : Tracked depths history tip.height tip.state) :
    Tracked depths (history ++ (drainEvents tip).map (tip.height + 1, ·)) (tip.height + 1)
      (openBlock tip.state (tip.height + 1)).state := by
  let due : QueuedUpdate → Bool := fun update => update.activationHeight ≤ tip.height + 1
  have split : tip.state.processQueued (tip.height + 1) = (tip.state.queued.filter due,
      { tip.state with queued := tip.state.queued.filter fun update => !due update }) :=
    processQueued_eq tip.state (tip.height + 1)
  obtain ⟨authorities, drained, -⟩ :=
    handlePendingUpdates_reconfigured tip.state .new (tip.height + 1)
  have opened : (openBlock tip.state (tip.height + 1)).state =
      { (tip.state.processQueued (tip.height + 1)).2 with authorities } := drained
  have events : (drainEvents tip).map (tip.height + 1, ·) =
      (tip.state.queued.filter due).map fun update => (tip.height + 1, .drained update) := by
    rw [drainEvents, split, List.map_map]
    rfl
  rw [opened, split, events]
  refine (tracked.leave due .drained (Nat.le_succ _) ?_ ?_ ?_).authorities authorities
  · intro update _ stays
    simpa [due] using stays
  · intro update mem leaves
    have early := tracked.ahead update mem
    have late : update.activationHeight ≤ tip.height + 1 := by simpa [due] using leaves
    exact .inr ⟨rfl, by omega⟩
  · intro block
    rw [drainedIn_append, drainedIn_map]
    split_ifs with now
    · rw [drainedIn_later tracked.times (by omega), List.nil_append]
      exact tracked.ordered.ascending.sublist List.filter_sublist
    · rw [List.append_nil]
      exact tracked.drains block

theorem cancel (tracked : Tracked depths history height state) {id : Nat} {update : QueuedUpdate}
    (found : state.findQueued id = some update) :
    Tracked depths (history ++ [(height, .cancelled id)]) height (state.removeQueued id) := by
  have mem := List.mem_of_find?_eq_some found
  obtain rfl : update.id = id := by simpa using List.find?_some found
  have only := filter_key_of_mem tracked.ordered.ascending mem
  have left := tracked.leave (fun other => other.id = update.id) (fun other => .cancelled other.id)
    (Nat.le_refl height) (fun other queued _ => tracked.ahead other queued)
    (fun _ _ _ => .inl ⟨rfl, rfl⟩)
  rw [only] at left
  rw [AdministrationSubprotoState.removeQueued, eraseP_key tracked.ordered.ascending]
  have drains : ∀ block, StrictlySorted QueuedUpdate.id
      (drainedIn (history ++ [(height, .cancelled update.id)]) block) := by
    intro block
    have undrained : drainedIn [(height, .cancelled update.id)] block = [] := by
      by_cases now : height = block <;> simp [drainedIn, now, AdminEvent.drainedUpdate]
    rw [drainedIn_append, undrained, List.append_nil]
    exact tracked.drains block
  simpa using left drains

theorem issue (tracked : Tracked depths history height state) {update : UpdateAction}
    {settling : List AdminEvent} {added : List QueuedUpdate}
    (offered : depths.get update.updateTxType = none ∧
        settling = [.applied state.nextUpdateId update] ∧ added = [] ∨
      ∃ depth, depths.get update.updateTxType = some depth ∧ settling = [] ∧
        added = [⟨state.nextUpdateId, update, height + depth⟩]) :
    Tracked depths
      (history ++ (.accepted state.nextUpdateId update :: settling).map (height, ·)) height
      { state with queued := state.queued ++ added, nextUpdateId := state.nextUpdateId + 1 } := by
  obtain ⟨⟨ascending, below⟩, waits, ahead, unsettled, known, times, issued, issuedBelow,
    fates, drains⟩ :=
    tracked
  have others : ∀ id, id ≠ state.nextUpdateId →
      fate ((.accepted state.nextUpdateId update :: settling).map (height, ·)) id = [] := by
    intro id other
    rcases offered with ⟨-, rfl, -⟩ | ⟨_, -, rfl, -⟩ <;> simp [fate, AdminEvent.settles, other.symm]
  have ids : acceptedIds ((.accepted state.nextUpdateId update :: settling).map (height, ·)) =
      [state.nextUpdateId] := by
    rcases offered with ⟨-, rfl, -⟩ | ⟨_, -, rfl, -⟩ <;> rfl
  have undrained : ∀ block,
      drainedIn ((.accepted state.nextUpdateId update :: settling).map (height, ·)) block = [] := by
    intro block
    rcases offered with ⟨-, rfl, -⟩ | ⟨_, -, rfl, -⟩ <;> by_cases now : height = block <;>
      simp [drainedIn, now, AdminEvent.drainedUpdate]
  have new : ∀ queued ∈ added, queued.id = state.nextUpdateId ∧ height < queued.activationHeight ∧
      settling = [] := by
    intro queued mem
    rcases offered with ⟨-, -, rfl⟩ | ⟨depth, isDepth, rfl, rfl⟩
    · cases mem
    · rw [List.mem_singleton.mp mem]
      exact ⟨rfl, Nat.lt_add_of_pos_right (ConfirmationDepths.get_pos isDepth), rfl⟩
  refine ⟨⟨?_, ?_⟩, waits, ?_, ?_, ?_, ?_, ?_, ?_, ?_, ?_⟩
  · refine List.pairwise_append.mpr ⟨ascending, ?_, fun old mem queued isNew => ?_⟩
    · rcases offered with ⟨-, -, rfl⟩ | ⟨_, -, -, rfl⟩
      · exact .nil
      · exact List.pairwise_singleton _ _
    · rw [(new queued isNew).1]
      exact below old mem
  · intro queued mem
    rcases List.mem_append.mp mem with old | isNew
    · exact Nat.lt_succ_of_lt (below queued old)
    · exact Nat.lt_succ_of_le (Nat.le_of_eq (new queued isNew).1)
  · intro queued mem
    rcases List.mem_append.mp mem with old | isNew
    · exact ahead queued old
    · exact (new queued isNew).2.1
  · intro queued mem
    rw [fate_append]
    rcases List.mem_append.mp mem with old | isNew
    · rw [unsettled queued old, others _ (Nat.ne_of_lt (below queued old)), List.nil_append]
    · obtain ⟨isId, -, rfl⟩ := new queued isNew
      rw [isId, known _ (Nat.le_refl _)]
      rfl
  · intro id fresh
    have later : state.nextUpdateId < id := fresh
    rw [fate_append, known id (Nat.le_of_lt later), others id (Nat.ne_of_gt later), List.nil_append]
  · intro event mem
    rcases List.mem_append.mp mem with old | isNew
    · exact times event old
    · obtain ⟨_, -, rfl⟩ := List.mem_map.mp isNew
      exact Nat.le_refl height
  · rw [acceptedIds_append, ids, List.pairwise_append]
    refine ⟨issued, List.pairwise_singleton _ _, fun old mem id isNew => ?_⟩
    rw [List.mem_singleton.mp isNew]
    exact issuedBelow old mem
  · intro id mem
    rw [acceptedIds_append, ids] at mem
    rcases List.mem_append.mp mem with old | isNew
    · exact Nat.lt_succ_of_lt (issuedBelow id old)
    · exact Nat.lt_succ_of_le (Nat.le_of_eq (List.mem_singleton.mp isNew))
  · intro block id action mem
    rcases List.mem_append.mp mem with old | isNew
    · have older : id < state.nextUpdateId := issuedBelow id (List.mem_filterMap.mpr ⟨_, old, rfl⟩)
      have fated := fates block id action old
      unfold Fated at fated ⊢
      rw [fate_append, others id (Nat.ne_of_lt older), List.append_nil]
      split at fated
      · exact fated
      · exact fated.imp_right (Or.imp_right fun ⟨early, waiting, queued⟩ =>
          ⟨early, waiting, List.mem_append_left _ queued⟩)
    · have listed : id ∈ acceptedIds ((.accepted state.nextUpdateId update :: settling).map
        (height, ·)) :=
        List.mem_filterMap.mpr ⟨_, isNew, rfl⟩
      rw [ids, List.mem_singleton] at listed
      subst listed
      rcases offered with ⟨immediate, rfl, rfl⟩ | ⟨depth, isDepth, rfl, rfl⟩
      · have isUpdate : block = height ∧ action = update := by simpa using isNew
        obtain ⟨rfl, rfl⟩ := isUpdate
        unfold Fated
        rw [immediate, fate_append, known _ (Nat.le_refl _)]
        simp [fate, AdminEvent.settles]
      · have isUpdate : block = height ∧ action = update := by simpa using isNew
        obtain ⟨rfl, rfl⟩ := isUpdate
        unfold Fated
        rw [isDepth, fate_append, known _ (Nat.le_refl _)]
        exact .inr (.inr ⟨Nat.lt_add_of_pos_right (ConfirmationDepths.get_pos isDepth), rfl, by simp⟩)
  · intro block
    rw [drainedIn_append, undrained, List.append_nil]
    exact drains block

theorem verified (tracked : Tracked depths history height state) (envelope : EnvelopePayload)
    (payload : SignedPayload) :
    Tracked depths (history ++ [(height, .verified envelope payload)]) height state := by
  have sameFate : ∀ id, fate (history ++ [(height, .verified envelope payload)]) id =
      fate history id := by
    intro id
    simp [fate, AdminEvent.settles]
  have sameIds : acceptedIds (history ++ [(height, .verified envelope payload)]) =
      acceptedIds history := by
    simp [acceptedIds, AdminEvent.acceptedId]
  have sameDrains : ∀ block,
      drainedIn (history ++ [(height, .verified envelope payload)]) block = drainedIn history block := by
    intro block
    by_cases now : height = block <;> simp [drainedIn, now, AdminEvent.drainedUpdate]
  obtain ⟨ordered, waits, ahead, unsettled, known, times, issued, issuedBelow, fates, drains⟩ := tracked
  refine ⟨ordered, waits, ahead, ?_, ?_, ?_, by rwa [sameIds], by rwa [sameIds], ?_, ?_⟩
  · intro update mem
    rw [sameFate]
    exact unsettled update mem
  · intro id fresh
    rw [sameFate]
    exact known id fresh
  · intro event mem
    rcases List.mem_append.mp mem with old | new
    · exact times event old
    · rw [List.mem_singleton.mp new]
  · intro block id update mem
    have accepted : (block, AdminEvent.accepted id update) ∈ history := by simpa using mem
    have fated := fates block id update accepted
    unfold Fated at fated ⊢
    rwa [sameFate]
  · intro block
    rw [sameDrains]
    exact drains block

end Tracked

section

variable [AdminLibs]

theorem tracked_keeps (network : Network) (depths : ConfirmationDepths) :
    Keeps network (Tracked depths) := by
  refine ⟨fun past tip tracked => tracked.drain, ?_⟩
  intro past height context envelope events after tracked traced
  cases traced with
  | unverified => simpa using tracked
  | @cancelled payload authority targetId target verified isCancel =>
    obtain ⟨-, queued, found, -⟩ := verified.target isCancel
    have burnt := (tracked.verified envelope payload).authorities
      (context.state.burn payload authority).authorities
    have gone := burnt.cancel found
    rw [List.append_assoc] at gone
    exact gone
  | @rejected payload authority update guard verified isUpdate =>
    exact (tracked.verified envelope payload).authorities _
  | @queued payload authority update delay guard verified isUpdate waits =>
    have burnt := (tracked.verified envelope payload).authorities
      (context.state.burn payload authority).authorities
    have depth : depths.get update.updateTxType = some delay := by
      rw [← tracked.waits]
      exact waits
    have waiting := burnt.issue (.inr ⟨delay, depth, rfl, rfl⟩)
    rw [List.append_assoc] at waiting
    exact waiting
  | @applied payload authority update state relayer guard verified isUpdate immediate enacted =>
    have burnt := (tracked.verified envelope payload).authorities
      (context.state.burn payload authority).authorities
    have depth : depths.get update.updateTxType = none := by
      rw [← tracked.waits]
      exact immediate
    obtain ⟨authorities, same, -⟩ :=
      enactUpdate_reconfigured (context.state.burn payload authority) context.relayer update
    rw [enacted] at same
    subst same
    have done := (burnt.issue (.inl ⟨depth, rfl, rfl⟩)).authorities authorities
    rw [List.append_assoc, List.append_nil] at done
    exact done

/-- Over any run, every accepted update has its own id and its fate is as its confirmation depth says,
updates that are due together are applied in the order of their ids, and the queue is in that order at
any time. What each block relays and logs, and how it changes the signers, comes from the updates that
are drained and applied in it, in this order. -/
theorem enacts_exactly_once {network : Network} {config : AdministrationInitConfig}
    {genesisHeight : Nat} {blocks : List (List TxInput)} {tip : Tip}
    (ran : blocks.foldlM (processBlock network) ⟨genesisHeight, .new config⟩ = .ok tip) :
    (acceptedIds (history network ⟨genesisHeight, .new config⟩ blocks)).Pairwise (· < ·) ∧
    (∀ block id update,
      (block, .accepted id update) ∈ history network ⟨genesisHeight, .new config⟩ blocks →
      Fated config.confirmationDepths (history network ⟨genesisHeight, .new config⟩ blocks) tip block id
        update) ∧
    (∀ block, (drainedIn (history network ⟨genesisHeight, .new config⟩ blocks) block).Pairwise
      (·.id < ·.id)) ∧
    tip.state.QueueOrdered ∧
    (∀ txs context, processPart network tip txs = .ok context → context.state.QueueOrdered) ∧
    (∀ visit ∈ visits (processBlock network) ⟨genesisHeight, .new config⟩ blocks,
      HandsOver network visit.pre visit.input visit.post) ∧
    tip.state.SignedBy
      (signersAfter config.signers (history network ⟨genesisHeight, .new config⟩ blocks)) := by
  have keeps := tracked_keeps network config.confirmationDepths
  have tracked := keeps.run (Tracked.genesis config genesisHeight) ran
  refine ⟨tracked.issued, tracked.fates, tracked.drains, tracked.ordered,
    fun txs context part => (keeps.part tracked part).ordered, fun visit mem => ?_, ?_⟩
  · exact processBlock_handsOver (visits_step mem).2
  · exact (signers_keeps network config.signers).run (AdministrationSubprotoState.new_signedBy config) ran

end

section

attribute [local instance] sampleAdminLibs

theorem enacts_exactly_once_sample :
    let start : Tip := ⟨1, .new sampleAdminConfig⟩
    let events := history .regtest start sampleAdminBlocks
    sampleAdminBlocks.foldlM (processBlock .regtest) start = .ok sampleAdminTip ∧
      acceptedIds events = [0, 1] ∧ fate events 0 = [(3, .cancelled 0)] ∧
      fate events 1 = [(4, .drained ⟨1, .asmStfVk ⟨1, [6]⟩, 4⟩)] ∧
      (∀ block id update, (block, .accepted id update) ∈ events →
        Fated sampleAdminConfig.confirmationDepths events sampleAdminTip block id update) ∧
      ∀ visit ∈ visits (processBlock .regtest) start sampleAdminBlocks,
        HandsOver .regtest visit.pre visit.input visit.post := by
  intro start events
  obtain ⟨ran, isHistory⟩ := sampleAdmin_trace
  have isEvents : events = sampleAdminHistory := isHistory
  obtain ⟨-, fated, -, -, -, handed, -⟩ := enacts_exactly_once ran
  refine ⟨ran, ?_, ?_, ?_, fated, handed⟩
  all_goals rw [isEvents]; rfl

end
end Admin
end Asm
