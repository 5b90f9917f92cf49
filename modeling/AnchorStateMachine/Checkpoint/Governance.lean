import AnchorStateMachine.Checkpoint.Queue
import AnchorStateMachine.Library.SortedVec

/-! The predicate that governs an L1 height. The code keeps one active predicate and promotes the
queued ones lazily; here a height has the predicate of the last surviving transition before it, and
the two are shown to agree along every run of events. -/

namespace Asm
open Outcome

/-- `key` is that of the surviving transition with the largest boundary below the height, or the
genesis predicate if there is none. -/
def Governs (genesis : PredicateKey) (surviving : PendingPredicateTransition → Prop) (height : Nat)
    (key : PredicateKey) : Prop :=
  (∃ last, surviving last ∧ last.boundary < height ∧ key = last.predicate ∧
    ∀ other, surviving other → other.boundary < height → other.boundary ≤ last.boundary) ∨
  (key = genesis ∧ ∀ other, surviving other → height ≤ other.boundary)

theorem Governs.congr {genesis key : PredicateKey} {surviving kept : PendingPredicateTransition → Prop}
    {height level : Nat} (governs : Governs genesis surviving height key)
    (same : ∀ transition, surviving transition ∧ transition.boundary < height ↔
      kept transition ∧ transition.boundary < level) : Governs genesis kept level key := by
  rcases governs with ⟨last, survives, below, rfl, largest⟩ | ⟨rfl, none⟩
  · obtain ⟨isKept, low⟩ := (same last).mp ⟨survives, below⟩
    refine .inl ⟨last, isKept, low, rfl, fun other keptOther lowOther => ?_⟩
    obtain ⟨survivesOther, belowOther⟩ := (same other).mpr ⟨keptOther, lowOther⟩
    exact largest other survivesOther belowOther
  · refine .inr ⟨rfl, fun other keptOther => Nat.le_of_not_lt fun low => ?_⟩
    obtain ⟨survivesOther, belowOther⟩ := (same other).mpr ⟨keptOther, low⟩
    exact Nat.not_lt.mpr (none other survivesOther) belowOther

theorem Governs.unique {genesis key other : PredicateKey} {surviving : PendingPredicateTransition → Prop}
    {height : Nat} (distinct : ∀ first second, surviving first → surviving second →
      first.boundary = second.boundary → first = second)
    (governs : Governs genesis surviving height key) (also : Governs genesis surviving height other) :
    key = other := by
  rcases governs with ⟨last, survives, below, rfl, largest⟩ | ⟨rfl, none⟩
  · rcases also with ⟨last', survives', below', rfl, largest'⟩ | ⟨_, none⟩
    · have le := largest last' survives' below'
      have ge := largest' last survives below
      rw [distinct last last' survives survives' (Nat.le_antisymm ge le)]
    · exact absurd below (Nat.not_lt.mpr (none last survives))
  · rcases also with ⟨last, survives, below, -, -⟩ | ⟨rfl, -⟩
    · exact absurd below (Nat.not_lt.mpr (none last survives))
    · rfl

/-- What happens beyond the tip does not change the keys up to the next height. -/
theorem Governs.stable {genesis : PredicateKey} {surviving kept : PendingPredicateTransition → Prop}
    {tip height : Nat} {key : PredicateKey} (governs : Governs genesis surviving height key)
    (low : height ≤ tip + 1)
    (same : ∀ transition, transition.boundary ≤ tip → (surviving transition ↔ kept transition)) :
    Governs genesis kept height key := by
  refine governs.congr fun transition => ?_
  constructor
  · rintro ⟨survives, below⟩
    exact ⟨(same transition (by omega)).mp survives, below⟩
  · rintro ⟨isKept, below⟩
    exact ⟨(same transition (by omega)).mpr isKept, below⟩

namespace Checkpoint
open CheckpointState

abbrev StepVisit := Visit CheckpointState Event

def evictedBy (visit : StepVisit) : Option PendingPredicateTransition :=
  match visit.input with
  | .msg _ (.updateCheckpointPredicate _) => visit.pre.evicted
  | _ => none

/-- Queued, and never dropped from a full queue. -/
def Survives (history : List StepVisit) (transition : PendingPredicateTransition) : Prop :=
  transition ∈ queuedTransitions (history.map (·.input)) ∧ transition ∉ history.filterMap evictedBy

variable {past : List StepVisit} {transition : PendingPredicateTransition}

theorem survives_other {visit : StepVisit} (queued : queuedTransitions [visit.input] = [])
    (evicted : evictedBy visit = none) : Survives (past ++ [visit]) = Survives past := by
  unfold queuedTransitions at queued
  funext transition
  simp [Survives, queuedTransitions, List.filterMap_append, queued, evicted]

theorem survives_update {state post : CheckpointState} {l1ref : L1BlockCommitment}
    {predicate : PredicateKey} :
    Survives (past ++ [⟨state, .msg l1ref (.updateCheckpointPredicate predicate), post⟩]) transition ↔
      (transition ∈ queuedTransitions (past.map (·.input)) ∨ transition = ⟨predicate, l1ref.height⟩) ∧
      transition ∉ past.filterMap evictedBy ∧ state.evicted ≠ some transition := by
  have last : evictedBy ⟨state, .msg l1ref (.updateCheckpointPredicate predicate), post⟩ =
    state.evicted := rfl
  cases dropped : state.evicted <;>
    simp [Survives, queuedTransitions, List.filterMap_append, last, dropped, eq_comm]

theorem survives_distinct {history : List StepVisit}
    (sorted : (queuedTransitions (history.map (·.input))).Pairwise (·.boundary < ·.boundary))
    {first second : PendingPredicateTransition} (survives : Survives history first)
    (other : Survives history second) (same : first.boundary = second.boundary) : first = second := by
  have strict : SortedVec.StrictlySorted PendingPredicateTransition.boundary
    (queuedTransitions (history.map (·.input))) := sorted
  exact SortedVec.eq_of_key_eq strict survives.1 other.1 same

/-! ### The invariant -/

variable [CheckpointLibs] {genesis : PredicateKey} {now next : Nat} {state post : CheckpointState}
  {event : Event}

/-- What the keys of a step are: a checkpoint that covers the heights above `a` up to `b` is verified
under the key of each of them, one that covers none under the key of the next height, and the active
predicate is that of the height after the tip. -/
def GovernedVisit (genesis : PredicateKey) (surviving : PendingPredicateTransition → Prop)
    (visit : StepVisit) : Prop :=
  (∀ accepted, accepts visit.pre visit.input = .ok (some accepted) →
    verifyProof visit.pre.checkpointPredicate visit.pre.verifiedTip accepted.payload
      accepted.asmManifestsHash = .ok () ∧
    (∀ height, visit.pre.verifiedTip.l1Height < height → height ≤ accepted.payload.newTip.l1Height →
      Governs genesis surviving height visit.pre.checkpointPredicate) ∧
    (visit.pre.verifiedTip.l1Height = accepted.payload.newTip.l1Height →
      Governs genesis surviving (visit.pre.verifiedTip.l1Height + 1) visit.pre.checkpointPredicate)) ∧
  Governs genesis surviving (visit.post.verifiedTip.l1Height + 1) visit.post.checkpointPredicate

def TipsWithin (tip : Nat) (visit : StepVisit) : Prop :=
  visit.pre.verifiedTip.l1Height ≤ tip ∧ visit.post.verifiedTip.l1Height ≤ tip ∧
    ∀ accepted, accepts visit.pre visit.input = .ok (some accepted) →
      accepted.payload.newTip.l1Height ≤ tip

theorem TipsWithin.mono {tip higher : Nat} {visit : StepVisit} (within : TipsWithin tip visit)
    (h : tip ≤ higher) : TipsWithin higher visit :=
  ⟨within.1.trans h, within.2.1.trans h, fun accepted accepting =>
    (within.2.2 accepted accepting).trans h⟩

structure Governed (genesis : PredicateKey) (now : Nat) (past : List StepVisit)
    (state : CheckpointState) : Prop where
  ordered : Ordered now state
  queued : ∀ transition ∈ queuedTransitions (past.map (·.input)), transition.boundary ≤ now
  evicted : ∀ transition ∈ past.filterMap evictedBy, transition.boundary ≤ now
  pending : ∀ transition ∈ state.pendingTransition, Survives past transition
  settled : ∀ transition, Survives past transition →
    transition ∈ state.pendingTransition ∨ transition.boundary ≤ state.verifiedTip.l1Height
  active : Governs genesis (Survives past) (state.verifiedTip.l1Height + 1) state.checkpointPredicate
  tips : ∀ visit ∈ past, TipsWithin state.verifiedTip.l1Height visit
  visits : ∀ visit ∈ past, GovernedVisit genesis (Survives past) visit

theorem init_governed {config : CheckpointInitConfig} (h : config.genesisL1Height ≤ now) :
    Governed config.checkpointPredicate now [] (.init config) where
  ordered := init_ordered h
  queued := nofun
  evicted := nofun
  pending := nofun
  settled := nofun
  active := .inr ⟨rfl, nofun⟩
  tips := nofun
  visits := nofun

theorem Governed.wait {later : Nat} (governed : Governed genesis now past state) (h : now ≤ later) :
    Governed genesis later past state := by
  obtain ⟨ordered, queued, evicted, pending, settled, active, tips, visits⟩ := governed
  exact ⟨ordered.mono h, fun transition mem => (queued transition mem).trans h,
    fun transition mem => (evicted transition mem).trans h, pending, settled, active, tips, visits⟩

theorem GovernedVisit.stable {surviving kept : PendingPredicateTransition → Prop} {visit : StepVisit}
    {tip : Nat} (governed : GovernedVisit genesis surviving visit) (within : TipsWithin tip visit)
    (same : ∀ transition, transition.boundary ≤ tip → (surviving transition ↔ kept transition)) :
    GovernedVisit genesis kept visit := by
  obtain ⟨before, after, accepting⟩ := within
  refine ⟨fun accepted accepts => ?_, governed.2.stable (by omega) same⟩
  obtain ⟨proven, covered, empty⟩ := governed.1 accepted accepts
  have newTip := accepting accepted accepts
  exact ⟨proven, fun height above below => (covered height above below).stable (by omega) same,
    fun noRange => (empty noRange).stable (by omega) same⟩

/-! ### Steps -/

theorem Governed.extend (governed : Governed genesis now past state) (ordered : Ordered next post)
    (later : now ≤ next)
    (queued : ∀ transition ∈ queuedTransitions [event], transition.boundary ≤ next)
    (evicted : ∀ transition, evictedBy ⟨state, event, post⟩ = some transition →
      transition.boundary ≤ next)
    (pending : ∀ transition ∈ post.pendingTransition,
      Survives (past ++ [⟨state, event, post⟩]) transition)
    (settled : ∀ transition, Survives (past ++ [⟨state, event, post⟩]) transition →
      transition ∈ post.pendingTransition ∨ transition.boundary ≤ post.verifiedTip.l1Height)
    (within : TipsWithin post.verifiedTip.l1Height ⟨state, event, post⟩)
    (same : ∀ transition, transition.boundary ≤ state.verifiedTip.l1Height →
      (Survives past transition ↔ Survives (past ++ [⟨state, event, post⟩]) transition))
    (visit : GovernedVisit genesis (Survives (past ++ [⟨state, event, post⟩])) ⟨state, event, post⟩) :
    Governed genesis next (past ++ [⟨state, event, post⟩]) post where
  ordered := ordered
  queued transition mem := by
    rw [List.map_append, queuedTransitions, List.filterMap_append] at mem
    rcases List.mem_append.mp mem with old | new
    · exact (governed.queued transition old).trans later
    · exact queued transition new
  evicted transition mem := by
    rw [List.filterMap_append] at mem
    rcases List.mem_append.mp mem with old | new
    · exact (governed.evicted transition old).trans later
    · exact evicted transition (by simpa using new)
  pending := pending
  settled := settled
  active := visit.2
  tips other mem := by
    rcases List.mem_append.mp mem with old | new
    · exact (governed.tips other old).mono within.1
    · rw [List.mem_singleton.mp new]
      exact within
  visits other mem := by
    rcases List.mem_append.mp mem with old | new
    · exact (governed.visits other old).stable (governed.tips other old) same
    · rw [List.mem_singleton.mp new]
      exact visit

theorem Governed.idle (governed : Governed genesis now past state)
    (queued : queuedTransitions [event] = []) (evicted : evictedBy ⟨state, event, post⟩ = none)
    (rejected : accepts state event = .ok none)
    (pending : post.pendingTransition = state.pendingTransition)
    (tip : post.verifiedTip = state.verifiedTip)
    (predicate : post.checkpointPredicate = state.checkpointPredicate) :
    Governed genesis now (past ++ [⟨state, event, post⟩]) post := by
  have same : Survives (past ++ [⟨state, event, post⟩]) = Survives past := survives_other queued evicted
  have none : ∀ accepted, accepts state event ≠ .ok (some accepted) := by
    intro accepted accepting
    cases accepting.symm.trans rejected
  refine governed.extend (governed.ordered.congr pending tip) le_rfl (by simp [queued])
    (by simp [evicted]) ?_ ?_ ⟨by rw [tip], le_rfl, fun accepted accepting => absurd accepting (none _)⟩
    (fun transition _ => by rw [same]) ⟨fun accepted accepting => absurd accepting (none _), ?_⟩
  · rw [same, pending]
    exact governed.pending
  · rw [same, pending, tip]
    exact governed.settled
  · dsimp only
    rw [same, tip, predicate]
    exact governed.active

theorem Governed.update {l1ref : L1BlockCommitment} {predicate : PredicateKey}
    (governed : Governed genesis now past state) (later : now < l1ref.height)
    (h : processMsg l1ref state (.updateCheckpointPredicate predicate) = .ok post) :
    Governed genesis l1ref.height
      (past ++ [⟨state, .msg l1ref (.updateCheckpointPredicate predicate), post⟩]) post := by
  have ordered := queue_ordered governed.ordered later h
  have tip := governed.ordered.tip
  have split := pending_eq_evicted_room state
  -- Below the tip nothing changes: the new transition and the dropped one lie beyond it.
  have same : ∀ transition, transition.boundary ≤ state.verifiedTip.l1Height →
    (Survives past transition ↔
      Survives (past ++ [⟨state, .msg l1ref (.updateCheckpointPredicate predicate), post⟩])
        transition) := by
    intro transition low
    rw [survives_update]
    refine ⟨fun ⟨queued, kept⟩ => ⟨.inl queued, kept, fun dropped => ?_⟩, ?_⟩
    · have ahead := governed.ordered.ahead transition (mem_pending_of_evicted dropped)
      omega
    · rintro ⟨queued | rfl, kept, -⟩
      · exact ⟨queued, kept⟩
      · dsimp only at low
        omega
  rw [queuePredicateTransition_ok h] at ordered same ⊢
  refine governed.extend ordered (Nat.le_of_lt later) ?_ ?_ ?_ ?_ ⟨le_rfl, le_rfl, nofun⟩ same
    ⟨nofun, governed.active.stable le_rfl same⟩
  · intro transition mem
    have isNew : transition ∈ [⟨predicate, l1ref.height⟩] := mem
    rw [List.mem_singleton.mp isNew]
  · intro transition dropped
    have recent := governed.ordered.recent transition (mem_pending_of_evicted dropped)
    omega
  · intro transition mem
    rw [survives_update]
    rcases List.mem_append.mp mem with old | new
    · obtain ⟨queued, kept⟩ := governed.pending transition
        (by rw [split]; exact List.mem_append_right _ old)
      exact ⟨.inl queued, kept, evicted_ne_of_room governed.ordered old⟩
    · obtain rfl := List.mem_singleton.mp new
      refine ⟨.inr rfl, fun dropped => ?_, fun dropped => ?_⟩
      · have before := governed.evicted _ dropped
        dsimp only at before
        omega
      · have recent := governed.ordered.recent _ (mem_pending_of_evicted dropped)
        dsimp only at recent
        omega
  · intro transition survives
    obtain ⟨queued | rfl, kept, stays⟩ := survives_update.mp survives
    · rcases governed.settled transition ⟨queued, kept⟩ with pending | low
      · rw [split] at pending
        rcases List.mem_append.mp pending with dropped | room
        · exact absurd (by simpa using dropped) stays
        · exact .inl (List.mem_append_left _ room)
      · exact .inr low
    · exact .inl (List.mem_append_right _ (List.mem_singleton_self _))

/-- The active predicate governs every height beyond the tip that no pending boundary lies before. -/
theorem Governed.upTo (governed : Governed genesis now past state) {height : Nat}
    (above : state.verifiedTip.l1Height < height)
    (low : ∀ transition ∈ state.pendingTransition, height ≤ transition.boundary) :
    Governs genesis (Survives past) height state.checkpointPredicate := by
  refine governed.active.congr fun transition => ?_
  constructor
  · rintro ⟨survives, below⟩
    exact ⟨survives, by omega⟩
  · rintro ⟨survives, below⟩
    refine ⟨survives, ?_⟩
    rcases governed.settled transition survives with pending | settled
    · have far := low transition pending
      omega
    · omega

theorem pending_beyond {height : Nat} {aux : VerifiedAuxData} {accepted : AcceptedCheckpoint}
    (ordered : Ordered now state) (accepts : Accepts state height aux accepted)
    (moves : state.verifiedTip.l1Height < accepted.payload.newTip.l1Height)
    (mem : transition ∈ state.pendingTransition) :
    accepted.payload.newTip.l1Height ≤ transition.boundary := by
  have within := (verifyProgression_ok accepts.progression).withinBoundary moves
  have sorted := ordered.sorted
  cases pending : state.pendingTransition with
  | nil => simp [pending] at mem
  | cons first rest =>
    have head := within first (by rw [nextTransition, pending]; rfl)
    rw [pending] at mem sorted
    rcases List.mem_cons.mp mem with rfl | later
    · exact head
    · exact head.trans (Nat.le_of_lt ((List.pairwise_cons.mp sorted).1 transition later))

theorem Governed.accept {height : Nat} {aux : VerifiedAuxData} {tx : TxInput}
    {accepted : AcceptedCheckpoint} (governed : Governed genesis now past state) (later : now < height)
    (accepting : accepts state (.tx height aux tx) = .ok (some accepted))
    (accepts : Accepts state height aux accepted) :
    Governed genesis (height - 1) (past ++ [⟨state, .tx height aux tx, accepted.post⟩])
      accepted.post := by
  have progress := verifyProgression_ok accepts.progression
  have ascends := progress.ascends
  have tip := accepts.tip
  have block : height - 1 + 1 = height := by omega
  obtain ⟨ordered, queue⟩ := accepts_ordered (governed.ordered.mono (by omega)) (block ▸ accepts)
  have same : Survives (past ++ [⟨state, .tx height aux tx, accepted.post⟩]) = Survives past :=
    survives_other rfl rfl
  refine governed.extend ordered (by omega) nofun nofun ?_ ?_ ?_
    (fun transition _ => by rw [same]) ⟨?_, ?_⟩
  · rw [same]
    rcases queue with ⟨pending, -⟩ | ⟨next, pending, -⟩
    · rw [pending]
      exact governed.pending
    · intro transition mem
      exact governed.pending transition (by rw [pending]; exact .tail _ mem)
  · rw [same, tip]
    intro transition survives
    rcases governed.settled transition survives with waiting | settled
    · rcases queue with ⟨pending, -⟩ | ⟨next, pending, -, reached⟩
      · exact .inl (pending ▸ waiting)
      · rw [pending] at waiting
        rcases List.mem_cons.mp waiting with rfl | behind
        · exact .inr (Nat.le_of_eq reached)
        · exact .inl behind
    · exact .inr (settled.trans ascends)
  · refine ⟨by rw [tip]; exact ascends, le_rfl, fun other deciding => ?_⟩
    cases deciding.symm.trans accepting
    rw [tip]
  · intro other deciding
    cases deciding.symm.trans accepting
    rw [same]
    refine ⟨accepts.proven, fun level above below => governed.upTo above fun transition mem => ?_,
      fun _ => governed.active⟩
    exact below.trans (pending_beyond governed.ordered accepts (by dsimp only at above; omega) mem)
  · rw [same]
    dsimp only
    rcases queue with ⟨pending, predicate⟩ | ⟨next, pending, predicate, reached⟩
    · rw [predicate]
      refine governed.upTo (by rw [tip]; omega) fun transition mem => ?_
      exact ordered.ahead transition (pending ▸ mem)
    · -- The promoted transition is the last one below the next height.
      have survives := governed.pending next (by rw [pending]; exact .head _)
      refine .inl ⟨next, survives, by rw [tip]; omega, predicate, fun other _ below => ?_⟩
      rw [tip] at below
      omega

/-! ### Runs -/

theorem step_governed (tick : event.Ticks now next) (governed : Governed genesis now past state)
    (h : step state event = .ok post) :
    Governed genesis next (past ++ [⟨state, event, post⟩]) post := by
  cases tick with
  | tx later =>
    rcases step_cases h with ⟨rejected, rfl, -⟩ | ⟨_, _, _, accepted, same, decided, accepts, rfl⟩ |
      ⟨_, _, same, -⟩
    · exact (governed.idle rfl rfl rejected rfl rfl rfl).wait (by omega)
    · cases same
      exact governed.accept later decided accepts
    · cases same
  | update later => exact governed.update later h
  | @other _ msg other =>
    obtain ⟨pending, tip, predicate⟩ := processMsg_other other h
    cases msg with
    | updateCheckpointPredicate predicate => cases other
    | depositProcessed amount => exact governed.idle rfl rfl rfl pending tip predicate
    | updateSequencerKey key => exact governed.idle rfl rfl rfl pending tip predicate

/-- Along a run of events every step uses the keys that the survivors of the whole run give. -/
theorem events_governed {events : List Event} {later : Nat} {config : CheckpointInitConfig}
    (start : config.genesisL1Height ≤ now) (schedule : Scheduled Event.Ticks now events later)
    (h : events.foldlM step (.init config) = .ok post) :
    Governed config.checkpointPredicate later (visits step (.init config) events) post :=
  schedule.history (f := step) (Governed config.checkpointPredicate) []
    (fun _ _ _ _ wait governed => governed.wait wait)
    (fun _ _ _ _ _ _ tick governed stepped => step_governed tick governed stepped)
    (init_governed start) h

end Checkpoint
end Asm
