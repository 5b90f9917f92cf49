import Mathlib.Data.Nat.Basic
import AnchorStateMachine.Checkpoint.Transitions
import AnchorStateMachine.Library.Schedule

/-! The queue of predicate transitions along a run: its boundaries ascend, all of them lie ahead of
the verified tip, and a transition delivered later than all of them is never refused. -/

namespace Asm
open Outcome

namespace CheckpointState

/-- The queue of a state in which blocks up to a height have been processed. -/
structure Ordered (height : Nat) (state : CheckpointState) : Prop where
  sorted : state.pendingTransition.Pairwise (·.boundary < ·.boundary)
  bounded : state.pendingTransition.length ≤ maxPendingPredicateTransitions
  ahead : ∀ transition ∈ state.pendingTransition,
    state.verifiedTip.l1Height < transition.boundary
  recent : ∀ transition ∈ state.pendingTransition, transition.boundary ≤ height
  tip : state.verifiedTip.l1Height ≤ height

variable {state post : CheckpointState} {height : Nat}

theorem init_ordered {config : CheckpointInitConfig} (h : config.genesisL1Height ≤ height) :
    Ordered height (init config) :=
  ⟨.nil, Nat.zero_le _, by simp [init], by simp [init], h⟩

theorem Ordered.mono {later : Nat} (ordered : Ordered height state) (h : height ≤ later) :
    Ordered later state where
  sorted := ordered.sorted
  bounded := ordered.bounded
  ahead := ordered.ahead
  recent transition mem := Nat.le_trans (ordered.recent transition mem) h
  tip := Nat.le_trans ordered.tip h

theorem Ordered.congr (ordered : Ordered height state)
    (pending : post.pendingTransition = state.pendingTransition)
    (tip : post.verifiedTip = state.verifiedTip) : Ordered height post := by
  obtain ⟨sorted, bounded, ahead, recent, low⟩ := ordered
  rw [← pending] at sorted bounded ahead recent
  rw [← tip] at ahead low
  exact ⟨sorted, bounded, ahead, recent, low⟩

/-- An accepted checkpoint activates at most one transition, and none that has elapsed stays behind.
-/
theorem accepts_ordered [CheckpointLibs] {aux : VerifiedAuxData} {accepted : AcceptedCheckpoint}
    (ordered : Ordered height state) (accepts : Accepts state (height + 1) aux accepted) :
    Ordered height accepted.post ∧
      ((accepted.post.pendingTransition = state.pendingTransition ∧
        accepted.post.checkpointPredicate = state.checkpointPredicate) ∨
      ∃ next, state.pendingTransition = next :: accepted.post.pendingTransition ∧
        accepted.post.checkpointPredicate = next.predicate ∧
        next.boundary = accepted.payload.newTip.l1Height) := by
  have progress := verifyProgression_ok accepts.progression
  obtain ⟨remaining, -, advanced⟩ := accepts.covered
  have below := progress.below
  have ascends := progress.ascends
  rw [advanced]
  rcases promoteElapsedTransition_cases { state with
      deposits := state.deposits.applyWithdrawals remaining
      verifiedTip := accepted.payload.newTip } with ⟨same, early⟩ |
        ⟨next, rest, pending, elapsed, promoted⟩
  · rw [same]
    refine ⟨⟨ordered.sorted, ordered.bounded, ?_,
      ordered.recent, by simpa using Nat.lt_succ_iff.mp below⟩,
      .inl ⟨rfl, rfl⟩⟩
    intro transition mem
    cases pending : state.pendingTransition with
    | nil => simp [pending] at mem
    | cons first rest =>
      have firstAhead := early first (by simp [pending])
      rw [pending] at mem
      rcases List.mem_cons.mp mem with rfl | later
      · exact firstAhead
      · have sorted := ordered.sorted
        rw [pending] at sorted
        exact Nat.lt_trans firstAhead ((List.pairwise_cons.mp sorted).1 transition later)
  · have sorted := ordered.sorted
    have ahead := ordered.ahead next (by simp_all)
    have reached : next.boundary = accepted.payload.newTip.l1Height := by
      have within := progress.withinBoundary (by dsimp only at elapsed; omega) next
        (by simp_all [nextTransition])
      dsimp only at elapsed
      omega
    dsimp only at pending
    rw [pending] at sorted
    rw [promoted]
    refine ⟨⟨(List.pairwise_cons.mp sorted).2, ?_, ?_, ?_, by simpa using Nat.lt_succ_iff.mp below⟩,
      .inr ⟨next, pending, rfl, reached⟩⟩
    · have bounded := ordered.bounded
      rw [pending, List.length_cons] at bounded
      dsimp only
      omega
    · intro transition mem
      have later := (List.pairwise_cons.mp sorted).1 transition mem
      dsimp only
      omega
    · intro transition mem
      exact ordered.recent transition (by rw [pending]; exact .tail _ mem)

theorem room_length (bounded : state.pendingTransition.length ≤ maxPendingPredicateTransitions) :
    state.room.length < maxPendingPredicateTransitions := by
  unfold room
  split
  · rename_i full
    rw [List.length_tail, full]
    decide
  · omega

theorem mem_pending_of_evicted {transition : PendingPredicateTransition}
    (h : state.evicted = some transition) : transition ∈ state.pendingTransition := by
  rw [pending_eq_evicted_room, h]
  exact .head _

theorem evicted_ne_of_room {transition : PendingPredicateTransition} (ordered : Ordered height state)
    (mem : transition ∈ state.room) : state.evicted ≠ some transition := by
  intro dropped
  have sorted := ordered.sorted
  rw [pending_eq_evicted_room, dropped] at sorted
  exact Nat.lt_irrefl _ ((List.pairwise_cons.mp sorted).1 transition mem)

theorem queue_ordered {transition : PendingPredicateTransition} (ordered : Ordered height state)
    (later : height < transition.boundary)
    (h : state.queuePredicateTransition transition = .ok post) : Ordered transition.boundary post := by
  rw [queuePredicateTransition_ok h]
  have sub : ∀ pending ∈ state.room, pending ∈ state.pendingTransition := by
    intro pending mem
    rw [pending_eq_evicted_room]
    exact List.mem_append_right _ mem
  have sorted := ordered.sorted
  rw [pending_eq_evicted_room] at sorted
  have tip := ordered.tip
  refine ⟨?_, ?_, ?_, ?_, by dsimp only; omega⟩
  · refine List.pairwise_append.mpr ⟨(List.pairwise_append.mp sorted).2.1,
      List.pairwise_singleton _ _, ?_⟩
    intro pending mem other isNew
    have recent := ordered.recent pending (sub pending mem)
    rw [List.mem_singleton.mp isNew]
    omega
  · have short := room_length ordered.bounded
    simp only [List.length_append, List.length_singleton]
    omega
  · intro pending mem
    rcases List.mem_append.mp mem with mem | isNew
    · exact ordered.ahead pending (sub pending mem)
    · rw [List.mem_singleton.mp isNew]
      exact Nat.lt_of_le_of_lt tip later
  · intro pending mem
    rcases List.mem_append.mp mem with mem | isNew
    · have recent := ordered.recent pending (sub pending mem)
      omega
    · exact Nat.le_of_eq (congrArg _ (List.mem_singleton.mp isNew))

theorem queue_total {transition : PendingPredicateTransition} (ordered : Ordered height state)
    (later : height < transition.boundary) :
    ∃ post, state.queuePredicateTransition transition = .ok post := by
  cases queued : state.queuePredicateTransition transition with
  | ok post => exact ⟨post, rfl⟩
  | error panic =>
    obtain ⟨last, mem, late⟩ := queuePredicateTransition_error queued
    have recent := ordered.recent last mem
    omega

end CheckpointState

/-! ### Schedules -/

namespace Checkpoint
open CheckpointState

/-- The order in which the queue expects events. The clock is the last block whose messages may have
arrived: a transaction belongs to a later block, and so does each predicate. -/
inductive Event.Ticks : Nat → Event → Nat → Prop
  | tx {now height : Nat} {aux : VerifiedAuxData} {tx : TxInput} (later : now < height) :
      Ticks now (.tx height aux tx) (height - 1)
  | update {now : Nat} {l1ref : L1BlockCommitment} {predicate : PredicateKey}
      (later : now < l1ref.height) :
      Ticks now (.msg l1ref (.updateCheckpointPredicate predicate)) l1ref.height
  | other {now : Nat} {l1ref : L1BlockCommitment} {msg : CheckpointIncomingMsg}
      (other : predicateUpdates [msg] = []) : Ticks now (.msg l1ref msg) now

theorem Event.Ticks.le {now next : Nat} {event : Event} (tick : event.Ticks now next) : now ≤ next := by
  cases tick with
  | tx later => omega
  | update later => exact Nat.le_of_lt later
  | other => exact Nat.le_refl now

theorem scheduled_txs (height : Nat) (aux : VerifiedAuxData) (txs : List TxInput) :
    Scheduled Event.Ticks height (txs.map (.tx (height + 1) aux)) height := by
  refine Scheduled.still fun event mem => ?_
  obtain ⟨tx, -, rfl⟩ := List.mem_map.mp mem
  exact .tx (Nat.lt_succ_self height)

theorem scheduled_msgs {height : Nat} {l1ref : L1BlockCommitment} {msgs : List CheckpointIncomingMsg}
    (next : l1ref.height = height + 1) (single : (predicateUpdates msgs).length ≤ 1) :
    Scheduled Event.Ticks height (msgs.map (.msg l1ref)) (height + 1) := by
  induction msgs with
  | nil => exact .nil (Nat.le_succ height)
  | cons msg msgs ih =>
    rw [predicateUpdates_cons, List.length_append] at single
    by_cases other : predicateUpdates [msg] = []
    · exact .cons le_rfl (.other other) (ih (by omega))
    · -- After the update there is none left.
      have one : 0 < (predicateUpdates [msg]).length := List.length_pos_iff.mpr other
      have noMore : predicateUpdates msgs = [] := List.length_eq_zero_iff.mp (by omega)
      have rest : Scheduled Event.Ticks (height + 1) (msgs.map (Event.msg l1ref)) (height + 1) := by
        refine Scheduled.still fun event mem => ?_
        obtain ⟨msg, inMsgs, rfl⟩ := List.mem_map.mp mem
        exact .other (mem_predicateUpdates_nil noMore inMsgs)
      cases msg with
      | updateCheckpointPredicate predicate =>
        rw [← next] at rest ⊢
        exact .cons le_rfl (.update (by omega)) rest
      | depositProcessed amount => cases other rfl
      | updateSequencerKey key => cases other rfl

def queuedTransitions (events : List Event) : List PendingPredicateTransition :=
  events.filterMap fun
    | .msg l1ref (.updateCheckpointPredicate predicate) => some ⟨predicate, l1ref.height⟩
    | _ => none

theorem queuedTransitions_ordered {events : List Event} {now later : Nat}
    (schedule : Scheduled Event.Ticks now events later) :
    (queuedTransitions events).Pairwise (·.boundary < ·.boundary) ∧
      ∀ transition ∈ queuedTransitions events, now < transition.boundary := by
  induction schedule with
  | nil _ => exact ⟨.nil, by simp [queuedTransitions]⟩
  | cons wait tick _ ih =>
    obtain ⟨sorted, after⟩ := ih
    have le := tick.le
    cases tick with
    | tx later =>
      refine ⟨sorted, fun transition mem => ?_⟩
      have bound := after transition mem
      omega
    | @other _ msg other =>
      cases msg with
      | updateCheckpointPredicate predicate => cases other
      | _ => exact ⟨sorted, fun transition mem => Nat.lt_of_le_of_lt wait (after transition mem)⟩
    | update later =>
      refine ⟨List.pairwise_cons.mpr ⟨after, sorted⟩, fun transition mem => ?_⟩
      rcases List.mem_cons.mp mem with rfl | mem
      · exact Nat.lt_of_le_of_lt wait later
      · have bound := after transition mem
        omega

/-! ### Runs -/

variable {state post : CheckpointState} {l1ref : L1BlockCommitment} {now next : Nat}

theorem processMsg_other {msg : CheckpointIncomingMsg} (other : predicateUpdates [msg] = [])
    (h : processMsg l1ref state msg = .ok post) :
    post.pendingTransition = state.pendingTransition ∧ post.verifiedTip = state.verifiedTip ∧
      post.checkpointPredicate = state.checkpointPredicate := by
  cases msg with
  | depositProcessed amount =>
    obtain ⟨deposits, _, h⟩ := bind_ok h
    cases pure_ok h
    exact ⟨rfl, rfl, rfl⟩
  | updateSequencerKey key =>
    cases pure_ok h
    exact ⟨rfl, rfl, rfl⟩
  | updateCheckpointPredicate predicate => cases other

theorem recordDeposit_error {amount : Nat} {panic : Panic}
    (h : state.recordDeposit amount = .error panic) : panic = .arithmeticOverflow := by
  rcases bind_error h with stopped | ⟨_, _, h⟩
  · unfold DepositPool.record at stopped
    split at stopped
    · rcases bind_error stopped with counted | ⟨_, _, stopped⟩
      · exact addU32_error counted
      · cases stopped
    · split at stopped
      · cases stopped
      · rcases bind_error stopped with counted | ⟨_, _, stopped⟩
        · exact addU32_error counted
        · cases stopped
  · cases h

def IsStepPanic : Panic → Prop
  | .envelopeSpentOutputNotProvided _ => True
  | .manifestHashesNotProvided _ _ => True
  | .depositTotalTooLarge => True
  | .predicateBoundaryNotIncreasing _ _ => True
  | .arithmeticOverflow => True
  | _ => False

theorem processMsg_error {msg : CheckpointIncomingMsg} {panic : Panic}
    (h : processMsg l1ref state msg = .error panic) : IsStepPanic panic := by
  cases msg with
  | depositProcessed amount =>
    cases recordDeposit_error h
    trivial
  | updateSequencerKey key => cases h
  | updateCheckpointPredicate predicate =>
    obtain ⟨last, next, rfl⟩ := queuePredicateTransition_panic h
    trivial

def IsOrderPanic (panic : Panic) : Prop := ∃ last next, panic = .predicateBoundaryNotIncreasing last next

variable [CheckpointLibs] {event : Event}

theorem events_error {events : List Event} {panic : Panic}
    (h : events.foldlM step state = .error panic) : IsStepPanic panic := by
  obtain ⟨event, -, current, -, stopped⟩ :=
    foldlM_error (f := step) (fun _ => True) (fun _ _ _ _ _ _ => trivial) trivial h
  rcases step_error stopped with ⟨_, _, _, rfl, -, stops⟩ | ⟨l1ref, msg, rfl, halted⟩
  · cases stops <;> trivial
  · exact processMsg_error halted

theorem step_ordered (tick : event.Ticks now next) (ordered : Ordered now state)
    (h : step state event = .ok post) : Ordered next post := by
  cases tick with
  | tx later =>
    rename_i height aux tx
    rcases step_cases h with ⟨-, rfl, -⟩ | ⟨_, _, _, accepted, same, -, accepts, rfl⟩ | ⟨_, _, same, -⟩
    · exact ordered.mono (by omega)
    · cases same
      have below : height - 1 + 1 = height := by omega
      rw [← below] at accepts
      exact (accepts_ordered (ordered.mono (by omega)) accepts).1
    · cases same
  | update later => exact queue_ordered ordered later h
  | other other =>
    obtain ⟨pending, tip, -⟩ := processMsg_other other h
    exact ordered.congr pending tip

theorem step_avoids (tick : event.Ticks now next) (ordered : Ordered now state) :
    Avoids IsOrderPanic (step state event) := by
  intro panic stopped isOrder
  obtain ⟨last, first, rfl⟩ := isOrder
  rcases step_error stopped with ⟨_, _, _, rfl, -, stops⟩ | ⟨l1ref, msg, rfl, halted⟩
  · cases stops
  · cases msg with
    | depositProcessed amount => cases recordDeposit_error halted
    | updateSequencerKey key => cases halted
    | updateCheckpointPredicate predicate =>
      cases tick with
      | update later =>
        have accepted : ∃ post, state.queuePredicateTransition ⟨predicate, l1ref.height⟩ = .ok post :=
          queue_total ordered later
        obtain ⟨post, queued⟩ := accepted
        cases halted.symm.trans queued
      | other other => cases other

variable {events : List Event} {later : Nat}

theorem events_ordered (schedule : Scheduled Event.Ticks now events later) (ordered : Ordered now state)
    (h : events.foldlM step state = .ok post) : Ordered later post :=
  schedule.preserves (f := step) Ordered (fun _ _ _ wait ordered => ordered.mono wait)
    (fun _ _ _ _ _ tick ordered stepped => step_ordered tick ordered stepped) ordered h

theorem events_avoid (schedule : Scheduled Event.Ticks now events later) (ordered : Ordered now state) :
    Avoids IsOrderPanic (events.foldlM step state) :=
  schedule.avoids (f := step) Ordered (fun _ _ _ wait ordered => ordered.mono wait)
    (fun _ _ _ _ _ tick ordered stepped => step_ordered tick ordered stepped)
    (fun _ _ _ _ tick ordered => step_avoids tick ordered) ordered

/-- An accepted checkpoint takes at most one transition from the front of the queue, and none that its
tip has reached stays behind. -/
def Promotes (visit : Visit CheckpointState Event) : Prop :=
  ∀ accepted, accepts visit.pre visit.input = .ok (some accepted) →
    ((visit.post.pendingTransition = visit.pre.pendingTransition ∧
      visit.post.checkpointPredicate = visit.pre.checkpointPredicate) ∨
    ∃ next, visit.pre.pendingTransition = next :: visit.post.pendingTransition ∧
      visit.post.checkpointPredicate = next.predicate ∧
      next.boundary = visit.post.verifiedTip.l1Height) ∧
    ∀ transition ∈ visit.post.pendingTransition,
      visit.post.verifiedTip.l1Height < transition.boundary

theorem step_promotes (tick : event.Ticks now next) (ordered : Ordered now state)
    (h : step state event = .ok post) : Promotes ⟨state, event, post⟩ := by
  intro accepted accepting
  have ahead := (step_ordered tick ordered h).ahead
  dsimp only at accepting ⊢
  rcases step_cases h with ⟨refused, -⟩ | ⟨height, aux, tx, _, rfl, decided, accepts, rfl⟩ |
    ⟨_, _, -, refused, -⟩
  · cases accepting.symm.trans refused
  · cases accepting.symm.trans decided
    cases tick with
    | tx later =>
      have below : height - 1 + 1 = height := by omega
      rw [accepts.tip] at ahead ⊢
      rw [← below] at accepts
      exact ⟨(accepts_ordered (ordered.mono (by omega)) accepts).2, ahead⟩
  · cases accepting.symm.trans refused

theorem events_promote (schedule : Scheduled Event.Ticks now events later) (ordered : Ordered now state)
    (h : events.foldlM step state = .ok post) : ∀ visit ∈ visits step state events, Promotes visit := by
  have history := schedule.history (f := step)
    (fun now past state => Ordered now state ∧ ∀ visit ∈ past, Promotes visit) []
    (fun _ _ _ _ wait inv => ⟨inv.1.mono wait, inv.2⟩) ?_ ⟨ordered, nofun⟩ h
  · exact history.2
  · intro now event next past before after tick inv stepped
    refine ⟨step_ordered tick inv.1 stepped, fun visit mem => ?_⟩
    rcases List.mem_append.mp mem with old | new
    · exact inv.2 visit old
    · rw [List.mem_singleton.mp new]
      exact step_promotes tick inv.1 stepped

end Checkpoint
end Asm
