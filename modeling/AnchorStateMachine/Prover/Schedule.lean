import AnchorStateMachine.Library.Effect
import AnchorStateMachine.Library.Loop
import AnchorStateMachine.Prover.Types
import Mathlib.Data.Finset.Card
import Mathlib.Data.Prod.Lex

/-! The scheduling loop. It takes proofs from the queue and tries to submit them until its capacity
is spent or the queue is empty. A proof that has to wait is parked together with those that failed,
and what it waits for is put in the queue. -/

namespace Asm
open PendingProofQueue

inductive SkipReason
  | alreadySubmitted
  | proofExists
  deriving DecidableEq

inductive SubmitOutcome
  | submitted (remoteId : RemoteProofId)
  | skipped (reason : SkipReason)
  | deferred (missing : List ProofId)
  deriving DecidableEq

/-- A line of the log of the loop: a proof that was tried and what came of it. -/
structure Attempt where
  proofId : ProofId
  outcome : Except ProverError SubmitOutcome
  deriving DecidableEq

namespace Attempt

def isSubmitted (attempt : Attempt) : Bool :=
  match attempt.outcome with
  | .ok (.submitted _) => true
  | _ => false

/-- The proof needs no further try. -/
def settles (attempt : Attempt) : Bool :=
  match attempt.outcome with
  | .ok (.submitted _) | .ok (.skipped _) => true
  | _ => false

/-- The proof waits for others, or its submission failed for the time being. -/
def parks (attempt : Attempt) : Bool :=
  match attempt.outcome with
  | .ok (.deferred _) => true
  | .error error => !error.isTerminal
  | _ => false

def missing (attempt : Attempt) : List ProofId :=
  match attempt.outcome with
  | .ok (.deferred missing) => missing
  | _ => []

end Attempt

section

variable {σ : Type}

/-- The loop between two turns. The submitter may remember all that it was asked. -/
structure Cycle (σ : Type) where
  queue : PendingProofQueue
  submitter : σ
  capacity : Nat
  deferred : List ProofId
  log : List Attempt

namespace Cycle

def start (queue : PendingProofQueue) (submitter : σ) (capacity : Nat) :
    Cycle σ := ⟨queue, submitter, capacity, [], []⟩

/-- What was parked goes back into the queue. -/
def requeue (cycle : Cycle σ) :
    Cycle σ := { cycle with queue := cycle.deferred.foldl enqueue cycle.queue }

/-- A prerequisite that is parked does not come back in the same cycle. -/
def enqueueMissing (deferred missing : List ProofId) (queue : PendingProofQueue) : PendingProofQueue :=
  missing.foldl (fun queue id => if id ∈ deferred then queue else queue.enqueue id) queue

def next (trySubmit : ProofId → EStateM ProverError σ SubmitOutcome) (cycle : Cycle σ) :
    Loop.Step (Cycle σ) (Except ProverError Unit × Cycle σ) :=
  if cycle.capacity = 0 then .done (.ok (), cycle.requeue)
  else
    match cycle.queue.dequeueOne with
    | none => .done (.ok (), cycle.requeue)
    | some (proofId, queue) =>
      match (trySubmit proofId).run cycle.submitter with
      | .ok outcome submitter =>
        let cycle : Cycle σ :=
          { cycle with queue, submitter, log := cycle.log ++ [⟨proofId, .ok outcome⟩] }
        match outcome with
        | .submitted _ => .again { cycle with capacity := cycle.capacity - 1 }
        | .skipped _ => .again cycle
        | .deferred missing =>
          .again { cycle with
            queue := enqueueMissing cycle.deferred missing queue
            deferred := cycle.deferred ++ [proofId] }
      | .error error submitter =>
        let cycle : Cycle σ :=
          { cycle with queue, submitter, log := cycle.log ++ [⟨proofId, .error error⟩] }
        if error.isTerminal then .done (.error error,
          requeue { cycle with queue := queue.enqueue proofId })
        else .again { cycle with deferred := cycle.deferred ++ [proofId] }

end Cycle

/-- There is no result if the loop does not end within the fuel. -/
def scheduleWith (trySubmit : ProofId → EStateM ProverError σ SubmitOutcome) (fuel : Nat)
    (queue : PendingProofQueue) (submitter : σ) (capacity : Nat) :
    Option (Except ProverError Unit × Cycle σ) :=
  Loop.run (Cycle.next trySubmit) fuel (.start queue submitter capacity)

namespace Cycle

variable {trySubmit : ProofId → EStateM ProverError σ SubmitOutcome} {cycle after : Cycle σ}
  {attempt : Attempt} {rest : PendingProofQueue} {submitter : σ}

theorem mem_enqueueMissing {deferred missing : List ProofId} {queue : PendingProofQueue} {id : ProofId} :
    id ∈ (enqueueMissing deferred missing queue).pending ↔ id ∈ queue.pending ∨ id ∈ missing ∧
      id ∉ deferred := by
  induction missing generalizing queue with
  | nil => simp [enqueueMissing]
  | cons first missing ih =>
    rw [enqueueMissing, List.foldl_cons, ← enqueueMissing, ih, List.mem_cons]
    by_cases parked : first ∈ deferred
    · rw [if_pos parked]
      have other : id ∉ deferred → id ≠ first := fun free same => free (same ▸ parked)
      tauto
    · rw [if_neg parked, mem_enqueue]
      have free : id = first → id ∉ deferred := fun same => same ▸ parked
      tauto

@[simp] theorem mem_requeue {id : ProofId} :
    id ∈ cycle.requeue.queue.pending ↔ id ∈ cycle.deferred ∨ id ∈ cycle.queue.pending := mem_enqueueAll

/-! ### What a turn does -/

/-- The first proof of the queue was tried, and this came of it. -/
structure Tried (trySubmit : ProofId → EStateM ProverError σ SubmitOutcome) (cycle : Cycle σ)
    (attempt : Attempt) (rest : PendingProofQueue) (submitter : σ) : Prop where
  free : cycle.capacity ≠ 0
  taken : Dequeued cycle.queue attempt.proofId rest
  ran : (trySubmit attempt.proofId).run cycle.submitter =
    match attempt.outcome with
    | .ok outcome => .ok outcome submitter
    | .error error => .error error submitter

/-- The turns. Submissions and skips are alike but for the capacity, and so are deferrals and
failures but for what is missing. -/
inductive Turn (trySubmit : ProofId → EStateM ProverError σ SubmitOutcome) (cycle : Cycle σ) :
    Loop.Step (Cycle σ) (Except ProverError Unit × Cycle σ) → Prop
  | finish (idle : cycle.capacity = 0 ∨ cycle.queue.pending = ∅) :
      Turn trySubmit cycle (.done (.ok (), cycle.requeue))
  | settle {attempt : Attempt} {rest : PendingProofQueue} {submitter : σ}
      (tried : Tried trySubmit cycle attempt rest submitter) (settles : attempt.settles = true) :
      Turn trySubmit cycle (.again ⟨rest, submitter, cycle.capacity - attempt.isSubmitted.toNat,
        cycle.deferred, cycle.log ++ [attempt]⟩)
  | park {attempt : Attempt} {rest : PendingProofQueue} {submitter : σ}
      (tried : Tried trySubmit cycle attempt rest submitter) (parks : attempt.parks = true) :
      Turn trySubmit cycle (.again ⟨enqueueMissing cycle.deferred attempt.missing rest, submitter,
        cycle.capacity, cycle.deferred ++ [attempt.proofId], cycle.log ++ [attempt]⟩)
  | stop {id : ProofId} {error : ProverError} {rest : PendingProofQueue} {submitter : σ}
      (tried : Tried trySubmit cycle ⟨id, .error error⟩ rest submitter)
      (terminal : error.isTerminal = true) :
      Turn trySubmit cycle (.done (.error error,
        requeue ⟨rest.enqueue id, submitter, cycle.capacity, cycle.deferred,
        cycle.log ++ [⟨id, .error error⟩]⟩))

theorem next_turn (trySubmit : ProofId → EStateM ProverError σ SubmitOutcome) (cycle : Cycle σ) :
    Turn trySubmit cycle (cycle.next trySubmit) := by
  unfold next
  split
  · rename_i spent
    exact .finish (.inl spent)
  · rename_i free
    split
    · rename_i empty
      exact .finish (.inr (dequeueOne_none empty))
    · rename_i id rest taken
      have taken := dequeueOne_some taken
      cases ran : (trySubmit id).run cycle.submitter with
      | ok outcome submitter =>
        have tried : Tried trySubmit cycle ⟨id, .ok outcome⟩ rest submitter := ⟨free, taken, ran⟩
        cases outcome with
        | submitted remoteId => exact .settle tried rfl
        | skipped reason => exact .settle tried rfl
        | deferred missing => exact .park tried rfl
      | error error submitter =>
        have tried : Tried trySubmit cycle ⟨id, .error error⟩ rest submitter := ⟨free, taken, ran⟩
        dsimp only
        split
        · rename_i terminal
          exact .stop tried terminal
        · rename_i passing
          exact .park tried (by simpa [Attempt.parks] using passing)

theorem turn_of_again (h : cycle.next trySubmit = .again after) :
    Turn trySubmit cycle (.again after) := h ▸ next_turn _ _

theorem turn_of_done {result : Except ProverError Unit}
    (h : cycle.next trySubmit = .done (result, after)) :
    Turn trySubmit cycle (.done (result, after)) := h ▸ next_turn _ _

/-! ### Termination

A settled proof leaves the queue for good or comes back as a prerequisite, and only a parked proof
has prerequisites. So the proofs that were never parked get fewer, and between two parkings the
queue gets shorter. -/

/-- The ids that can enter the queue. What a proof waits for is among them, and it never waits for
itself. -/
def Closed (trySubmit : ProofId → EStateM ProverError σ SubmitOutcome) (ids : Finset ProofId) : Prop :=
  ∀ id ∈ ids, ∀ submitter missing after, (trySubmit id).run submitter = .ok (.deferred missing) after →
    ∀ other ∈ missing, other ∈ ids ∧ other ≠ id

structure Within (ids : Finset ProofId) (cycle : Cycle σ) : Prop where
  queued : cycle.queue.pending ⊆ ids
  parked : ∀ id ∈ cycle.deferred, id ∈ ids ∧ id ∉ cycle.queue.pending
  distinct : cycle.deferred.Nodup

theorem within_start {ids : Finset ProofId} {queue : PendingProofQueue}
    (queued : queue.pending ⊆ ids) (submitter : σ) (capacity : Nat) :
    Within ids (start queue submitter capacity) := ⟨queued, nofun, .nil⟩

theorem Tried.missing_mem {ids : Finset ProofId} (closed : Closed trySubmit ids)
    (within : Within ids cycle) (tried : Tried trySubmit cycle attempt rest submitter)
    {id : ProofId} (mem : id ∈ attempt.missing) :
    id ∈ ids ∧ id ≠ attempt.proofId := by
  obtain ⟨proofId, outcome⟩ := attempt
  match outcome with
  | .ok (.deferred missing) => exact closed _ (within.queued tried.taken.mem) _ _ _ tried.ran id mem
  | .ok (.submitted _) | .ok (.skipped _) | .error _ => cases mem

theorem Tried.fresh {ids : Finset ProofId} (within : Within ids cycle)
    (tried : Tried trySubmit cycle attempt rest submitter) : attempt.proofId ∉ cycle.deferred :=
  fun parked => (within.parked _ parked).2 tried.taken.mem

theorem within_next {ids : Finset ProofId} (closed : Closed trySubmit ids) (within : Within ids cycle)
    (h : cycle.next trySubmit = .again after) : Within ids after := by
  cases turn_of_again h with
  | settle tried settles =>
    refine ⟨fun id mem => within.queued (tried.taken.mem_iff.mp mem).2,
      fun id mem => ?_, within.distinct⟩
    obtain ⟨inIds, notQueued⟩ := within.parked id mem
    exact ⟨inIds, fun again => notQueued (tried.taken.mem_iff.mp again).2⟩
  | park tried parks =>
    refine ⟨fun id mem => ?_, fun id mem => ?_, ?_⟩
    · rcases mem_enqueueMissing.mp mem with old | ⟨isMissing, -⟩
      · exact within.queued (tried.taken.mem_iff.mp old).2
      · exact (tried.missing_mem closed within isMissing).1
    · -- what is parked now was in the queue until now, and what was parked before is not put back
      rcases List.mem_append.mp mem with old | new
      · obtain ⟨inIds, notQueued⟩ := within.parked id old
        refine ⟨inIds, fun again => ?_⟩
        rcases mem_enqueueMissing.mp again with kept | ⟨-, free⟩
        · exact notQueued (tried.taken.mem_iff.mp kept).2
        · exact free old
      · cases List.mem_singleton.mp new
        refine ⟨within.queued tried.taken.mem, fun again => ?_⟩
        rcases mem_enqueueMissing.mp again with kept | ⟨isMissing, -⟩
        · exact (tried.taken.mem_iff.mp kept).1 rfl
        · exact (tried.missing_mem closed within isMissing).2 rfl
    · apply List.Nodup.append within.distinct (List.nodup_singleton _)
      rw [List.disjoint_singleton]
      exact tried.fresh within

/-- The proofs that were not parked yet, and those in the queue. -/
def measure (ids : Finset ProofId) (cycle : Cycle σ) : Nat ×ₗ Nat :=
  toLex ((ids \ cycle.deferred.toFinset).card, cycle.queue.pending.card)

theorem measure_next {ids : Finset ProofId} (within : Within ids cycle)
    (h : cycle.next trySubmit = .again after) :
    measure ids after < measure ids cycle := by
  rw [measure, measure, Prod.Lex.toLex_lt_toLex]
  cases turn_of_again h with
  | settle tried settles => exact .inr ⟨rfl, tried.taken.card_lt⟩
  | @park attempt rest submitter tried parks =>
    apply Or.inl
    apply Finset.card_lt_card
    refine Finset.ssubset_iff_of_subset ?_ |>.mpr ⟨attempt.proofId, ?_, ?_⟩
    · exact Finset.sdiff_subset_sdiff subset_rfl (by simp)
    · simpa using ⟨within.queued tried.taken.mem, tried.fresh within⟩
    · simp

theorem returns {ids : Finset ProofId} (closed : Closed trySubmit ids) (within : Within ids cycle) :
    ∃ fuel result, Loop.run (next trySubmit) fuel cycle = some result :=
  Loop.run_returns wellFounded_lt (measure ids) (Within ids)
    (fun _ _ within h => within_next closed within h) (fun _ _ within h => measure_next within h) within

/-! ### What becomes of the proofs -/

/-- The bookkeeping of a cycle that started with a queue and a capacity. -/
structure Accounts (queue : PendingProofQueue) (capacity : Nat) (cycle : Cycle σ) : Prop where
  spent : cycle.log.countP Attempt.isSubmitted + cycle.capacity = capacity
  parked : ∀ attempt ∈ cycle.log, attempt.parks = true → attempt.proofId ∈ cycle.deferred
  deferred : ∀ id ∈ cycle.deferred, ∃ attempt ∈ cycle.log, attempt.proofId = id ∧ attempt.parks = true
  once : cycle.log.Pairwise fun earlier later => earlier.parks = true → later.proofId ≠ earlier.proofId
  covered : ∀ id, (id ∈ queue.pending ∨ ∃ attempt ∈ cycle.log, id ∈ attempt.missing) →
    id ∈ cycle.queue.pending ∨ id ∈ cycle.deferred ∨ ∃ attempt ∈ cycle.log, attempt.proofId = id ∧
      attempt.settles = true
  running : ∀ attempt ∈ cycle.log, attempt.settles = true ∨ attempt.parks = true

variable {queue : PendingProofQueue} {capacity : Nat}

theorem accounts_start : Accounts queue capacity (start queue submitter capacity) where
  spent := Nat.zero_add _
  parked := nofun
  deferred := nofun
  once := .nil
  covered id seen := by
    rcases seen with queued | ⟨_, mem, -⟩
    · exact .inl queued
    · cases mem
  running := nofun

theorem settles_missing (settles : attempt.settles = true) : attempt.missing = [] := by
  obtain ⟨id, outcome⟩ := attempt
  match outcome with
  | .ok (.submitted _) | .ok (.skipped _) => rfl
  | .ok (.deferred _) | .error _ => cases settles

theorem parks_of_missing {id : ProofId} (mem : id ∈ attempt.missing) : attempt.parks = true := by
  obtain ⟨proofId, outcome⟩ := attempt
  match outcome with
  | .ok (.deferred _) => rfl
  | .ok (.submitted _) | .ok (.skipped _) | .error _ => cases mem

theorem settles_not_parks (settles : attempt.settles = true) : attempt.parks = false := by
  obtain ⟨id, outcome⟩ := attempt
  match outcome with
  | .ok (.submitted _) | .ok (.skipped _) => rfl
  | .ok (.deferred _) | .error _ => cases settles

theorem parks_not_submitted (parks : attempt.parks = true) : attempt.isSubmitted = false := by
  obtain ⟨id, outcome⟩ := attempt
  match outcome with
  | .ok (.deferred _) | .error _ => rfl
  | .ok (.submitted _) | .ok (.skipped _) => cases parks

/-- A try of the first proof in the queue is the first one since that proof was parked. -/
theorem Accounts.once_next {ids : Finset ProofId} (accounts : Accounts queue capacity cycle)
    (within : Within ids cycle) (tried : Tried trySubmit cycle attempt rest submitter) :
    (cycle.log ++ [attempt]).Pairwise fun earlier later => earlier.parks = true →
      later.proofId ≠ earlier.proofId := by
  refine List.pairwise_append.mpr ⟨accounts.once, List.pairwise_singleton _ _,
    fun earlier mem later isNew parks same => ?_⟩
  cases List.mem_singleton.mp isNew
  exact tried.fresh within (same ▸ accounts.parked earlier mem parks)

theorem countP_concat (cycle : Cycle σ) (attempt : Attempt) :
    (cycle.log ++ [attempt]).countP Attempt.isSubmitted =
    cycle.log.countP Attempt.isSubmitted + attempt.isSubmitted.toNat := by
  rw [List.countP_append, List.countP_singleton]
  cases attempt.isSubmitted <;> rfl

theorem accounts_next {ids : Finset ProofId} (accounts : Accounts queue capacity cycle)
    (within : Within ids cycle) (h : cycle.next trySubmit = .again after) :
    Accounts queue capacity after := by
  have seenBefore : ∀ attempt id, (∃ earlier ∈ cycle.log ++ [attempt], id ∈ earlier.missing) →
      (∃ earlier ∈ cycle.log, id ∈ earlier.missing) ∨ id ∈ attempt.missing := by
    rintro attempt id ⟨earlier, mem, isMissing⟩
    rcases List.mem_append.mp mem with old | new
    · exact .inl ⟨earlier, old, isMissing⟩
    · cases List.mem_singleton.mp new
      exact .inr isMissing
  have kept : ∀ {P : Attempt → Prop} (attempt : Attempt), (∃ earlier ∈ cycle.log, P earlier) →
      ∃ earlier ∈ cycle.log ++ [attempt], P earlier :=
    fun attempt ⟨earlier, mem, holds⟩ => ⟨earlier, List.mem_append_left _ mem, holds⟩
  cases turn_of_again h with
  | @settle attempt rest submitter tried settles =>
    refine {
      spent := ?_
      parked := List.forall_mem_append.mpr
        ⟨accounts.parked, List.forall_mem_singleton.mpr fun parks => ?_⟩
      deferred := fun id mem => kept attempt (accounts.deferred id mem)
      once := accounts.once_next within tried
      covered := fun id seen => ?_
      running := List.forall_mem_append.mpr
        ⟨accounts.running, List.forall_mem_singleton.mpr (.inl settles)⟩ }
    · have spent := accounts.spent
      have free := tried.free
      have atMostOne := attempt.isSubmitted.toNat_le
      show (cycle.log ++ [attempt]).countP Attempt.isSubmitted +
        (cycle.capacity - attempt.isSubmitted.toNat) = capacity
      rw [countP_concat]
      omega
    · rw [settles_not_parks settles] at parks
      cases parks
    · have before : id ∈ queue.pending ∨ ∃ earlier ∈ cycle.log, id ∈ earlier.missing := by
        refine seen.imp_right fun later => (seenBefore attempt id later).resolve_right ?_
        rw [settles_missing settles]
        exact List.not_mem_nil
      rcases accounts.covered id before with queued | parked | ⟨earlier, mem, same, done⟩
      · rcases tried.taken.cases queued with rfl | kept
        · exact .inr (.inr ⟨attempt, by simp, rfl, settles⟩)
        · exact .inl kept
      · exact .inr (.inl parked)
      · exact .inr (.inr ⟨earlier, List.mem_append_left _ mem, same, done⟩)
  | @park attempt rest submitter tried parks =>
    have stays : ∀ id ∈ cycle.deferred, id ∈ cycle.deferred ++ [attempt.proofId] :=
      fun _ => List.mem_append_left _
    have added : attempt.proofId ∈ cycle.deferred ++ [attempt.proofId] := by simp
    refine {
      spent := ?_
      parked := List.forall_mem_append.mpr
        ⟨fun earlier mem parks => stays _ (accounts.parked earlier mem parks),
          List.forall_mem_singleton.mpr fun _ => added⟩
      deferred := List.forall_mem_append.mpr ⟨fun id mem => kept attempt (accounts.deferred id mem),
        List.forall_mem_singleton.mpr ⟨attempt, by simp, rfl, parks⟩⟩
      once := accounts.once_next within tried
      covered := fun id seen => ?_
      running := List.forall_mem_append.mpr
        ⟨accounts.running, List.forall_mem_singleton.mpr (.inr parks)⟩ }
    · show (cycle.log ++ [attempt]).countP Attempt.isSubmitted + cycle.capacity = capacity
      rw [countP_concat, parks_not_submitted parks]
      exact accounts.spent
    · rcases or_assoc.mpr (seen.imp_right (seenBefore attempt id)) with before | isMissing
      · rcases accounts.covered id before with queued | parked | ⟨earlier, mem, same, done⟩
        · rcases tried.taken.cases queued with rfl | left
          · exact .inr (.inl added)
          · exact .inl (mem_enqueueMissing.mpr (.inl left))
        · exact .inr (.inl (stays id parked))
        · exact .inr (.inr ⟨earlier, List.mem_append_left _ mem, same, done⟩)
      · -- a prerequisite that is not put in the queue is parked already
        by_cases parked : id ∈ cycle.deferred
        · exact .inr (.inl (stays id parked))
        · exact .inl (mem_enqueueMissing.mpr (.inr ⟨isMissing, parked⟩))

/-! ### Where the loop ends -/

/-- How a cycle that started with a queue and a capacity ends. Only the last try can be the one that
stopped it. -/
structure Ended (queue : PendingProofQueue) (capacity : Nat) (result : Except ProverError Unit)
    (done : Cycle σ) :
    Prop where
  spent : done.log.countP Attempt.isSubmitted + done.capacity = capacity
  drained : result = .ok () → done.capacity ≠ 0 →
    ∀ id ∈ done.queue.pending, ∃ attempt ∈ done.log, attempt.proofId = id ∧ attempt.parks = true
  requeued : ∀ attempt ∈ done.log, attempt.settles = true ∨ attempt.proofId ∈ done.queue.pending
  once : done.log.Pairwise fun earlier later => earlier.parks = true → later.proofId ≠ earlier.proofId
  covered : ∀ id, (id ∈ queue.pending ∨ ∃ attempt ∈ done.log, id ∈ attempt.missing) →
    id ∈ done.queue.pending ∨ ∃ attempt ∈ done.log, attempt.proofId = id ∧ attempt.settles = true
  stopped : (result = .ok () ∧ ∀ attempt ∈ done.log, attempt.settles = true ∨ attempt.parks = true) ∨
    ∃ earlier id error, done.log = earlier ++ [⟨id, .error error⟩] ∧ error.isTerminal = true ∧
      result = .error error ∧
      ∀ attempt ∈ earlier, attempt.settles = true ∨ attempt.parks = true

theorem Accounts.requeue_covered (accounts : Accounts queue capacity cycle) {id : ProofId}
    (seen : id ∈ queue.pending ∨ ∃ attempt ∈ cycle.log, id ∈ attempt.missing) :
    id ∈ cycle.requeue.queue.pending ∨ ∃ attempt ∈ cycle.log, attempt.proofId = id ∧
      attempt.settles = true := by
  rcases accounts.covered id seen with queued | parked | settled
  · exact .inl (mem_requeue.mpr (.inr queued))
  · exact .inl (mem_requeue.mpr (.inl parked))
  · exact .inr settled

theorem ended_of_done {ids : Finset ProofId} {result : Except ProverError Unit}
    (accounts : Accounts queue capacity cycle) (within : Within ids cycle)
    (h : cycle.next trySubmit = .done (result, after)) :
    Ended queue capacity result after := by
  cases turn_of_done h with
  | finish idle =>
    refine {
      spent := accounts.spent
      drained := fun _ free id mem => ?_
      requeued := fun attempt mem => ?_
      once := accounts.once
      covered := fun id seen => accounts.requeue_covered seen
      stopped := .inl ⟨rfl, accounts.running⟩ }
    · -- with capacity left the queue was empty, so that only what was parked is put back
      have empty := idle.resolve_left free
      rcases mem_requeue.mp mem with parked | queued
      · exact accounts.deferred id parked
      · rw [empty] at queued
        cases queued
    · exact (accounts.running attempt mem).imp_right fun parks =>
        mem_requeue.mpr (.inl (accounts.parked attempt mem parks))
  | @stop id error rest submitter tried terminal =>
    have first : id ∈ (requeue ⟨rest.enqueue id, submitter, cycle.capacity, cycle.deferred,
        cycle.log ++ [⟨id, .error error⟩]⟩).queue.pending := by simp
    have keep : ∀ other ∈ cycle.requeue.queue.pending,
      other ∈ (requeue ⟨rest.enqueue id, submitter, cycle.capacity,
        cycle.deferred, cycle.log ++ [⟨id, .error error⟩]⟩).queue.pending := by
      intro other mem
      rw [mem_requeue] at mem ⊢
      refine mem.imp_right fun queued => mem_enqueue.mpr ?_
      exact tried.taken.cases queued
    refine {
      spent := (congrArg (· + cycle.capacity) (countP_concat cycle ⟨id, .error error⟩)).trans
        accounts.spent
      drained := nofun
      requeued := List.forall_mem_append.mpr
        ⟨fun attempt mem => ?_, List.forall_mem_singleton.mpr (.inr first)⟩
      once := accounts.once_next within tried
      covered := fun other seen => ?_
      stopped := .inr ⟨cycle.log, id, error, rfl, terminal, rfl, accounts.running⟩ }
    · exact (accounts.running attempt mem).imp_right fun parks =>
        keep _ (mem_requeue.mpr (.inl (accounts.parked attempt mem parks)))
    · have before : other ∈ queue.pending ∨ ∃ attempt ∈ cycle.log, other ∈ attempt.missing := by
        refine seen.imp_right ?_
        rintro ⟨attempt, mem, isMissing⟩
        rcases List.mem_append.mp mem with old | new
        · exact ⟨attempt, old, isMissing⟩
        · cases List.mem_singleton.mp new
          cases isMissing
      rcases accounts.requeue_covered before with queued | ⟨attempt, mem, settled⟩
      · exact .inl (keep other queued)
      · exact .inr ⟨attempt, List.mem_append_left _ mem, settled⟩

theorem Ended.few {result : Except ProverError Unit} {done : Cycle σ}
    (ended : Ended queue capacity result done) :
    done.log.countP Attempt.isSubmitted ≤ capacity := by
  have spent := ended.spent
  omega

end Cycle

open Asm.Cycle

variable {trySubmit : ProofId → EStateM ProverError σ SubmitOutcome} {queue : PendingProofQueue}
  {submitter : σ} {capacity : Nat}

theorem scheduleWith_ended {ids : Finset ProofId} (closed : Closed trySubmit ids)
    (queued : queue.pending ⊆ ids) {fuel : Nat} {result : Except ProverError Unit} {done : Cycle σ}
    (h : scheduleWith trySubmit fuel queue submitter capacity = some (result, done)) :
    Ended queue capacity result done := by
  obtain ⟨last, ⟨accounts, within⟩, isLast⟩ := Loop.run_invariant
    (fun cycle => Accounts queue capacity cycle ∧ Within ids cycle)
    (fun _ _ ⟨accounts, within⟩ again =>
      ⟨accounts_next accounts within again, within_next closed within again⟩)
    ⟨accounts_start, within_start queued submitter capacity⟩ h
  exact ended_of_done accounts within isLast

theorem scheduleWith_returns {ids : Finset ProofId} (closed : Closed trySubmit ids)
    (queued : queue.pending ⊆ ids) (submitter : σ) (capacity : Nat) :
    ∃ enough result done, ∀ fuel, enough ≤ fuel →
      scheduleWith trySubmit fuel queue submitter capacity = some (result, done) := by
  obtain ⟨enough, ⟨result, done⟩, returned⟩ := returns closed (within_start queued submitter capacity)
  exact ⟨enough, result, done, fun fuel more => Loop.run_mono returned more⟩

/-- The invariant rule: what every try keeps of the log and the submitter, the loop keeps. -/
theorem scheduleWith_invariant (inv : List Attempt → σ → Prop)
    (step : ∀ log submitter id, inv log submitter → Effect.Meets (trySubmit id) submitter
      (fun outcome after => inv (log ++ [⟨id, .ok outcome⟩]) after)
      fun error after => inv (log ++ [⟨id, .error error⟩]) after)
    (start : inv [] submitter) {fuel : Nat} {result : Except ProverError Unit} {done : Cycle σ}
    (h : scheduleWith trySubmit fuel queue submitter capacity = some (result, done)) :
    inv done.log done.submitter := by
  have tried : ∀ {cycle : Cycle σ} {attempt rest submitter}, inv cycle.log cycle.submitter →
      Tried trySubmit cycle attempt rest submitter → inv (cycle.log ++ [attempt]) submitter := by
    rintro cycle ⟨id, outcome⟩ rest submitter before tried
    have after := step cycle.log cycle.submitter id before
    cases outcome with
    | ok outcome => exact after.ok tried.ran
    | error error => exact after.error tried.ran
  obtain ⟨last, holds, isLast⟩ := Loop.run_invariant (fun cycle => inv cycle.log cycle.submitter)
    (fun cycle next before again => by
      cases turn_of_again again with
      | settle ran settles => exact tried before ran
      | park ran parks => exact tried before ran) start h
  cases turn_of_done isLast with
  | finish idle => exact holds
  | stop ran terminal => exact tried holds ran

theorem scheduleWith_keeps (inv : σ → Prop)
    (keeps : ∀ id, Effect.Keeps inv (trySubmit id) fun _ => True) (start : inv submitter)
    {fuel : Nat} {result : Except ProverError Unit} {done : Cycle σ}
    (h : scheduleWith trySubmit fuel queue submitter capacity = some (result, done)) :
    inv done.submitter :=
  scheduleWith_invariant (fun _ => inv)
    (fun _ submitter id before => (keeps id submitter before).mono (fun _ _ ended => ended.1)
      fun _ _ ended => ended)
    start h

/-- The proofs that are tried come from the queue and from what other tries report missing. -/
theorem scheduleWith_tried (P : ProofId → Prop) (queued : ∀ id ∈ queue.pending, P id) {fuel : Nat}
    {result : Except ProverError Unit} {done : Cycle σ}
    (h : scheduleWith trySubmit fuel queue submitter capacity = some (result, done))
    (missing : ∀ attempt ∈ done.log, P attempt.proofId → ∀ id ∈ attempt.missing, P id) :
    ∀ attempt ∈ done.log, P attempt.proofId := by
  let closed (cycle : Cycle σ) : Prop := ∀ attempt ∈ cycle.log, P attempt.proofId →
    ∀ id ∈ attempt.missing, P id
  have tried : ∀ {cycle : Cycle σ} {attempt rest submitter}, (∀ id ∈ cycle.queue.pending, P id) →
      (∀ earlier ∈ cycle.log, P earlier.proofId) → Tried trySubmit cycle attempt rest submitter →
      ∀ earlier ∈ cycle.log ++ [attempt], P earlier.proofId := by
    intro cycle attempt rest submitter inQueue inLog tried
    exact List.forall_mem_append.mpr ⟨inLog, List.forall_mem_singleton.mpr (inQueue _ tried.taken.mem)⟩
  -- the log only grows, so that what is assumed of the final one holds of all earlier ones
  obtain ⟨last, holds, isLast⟩ := Loop.run_invariant
    (fun cycle : Cycle σ => closed cycle →
      (∀ id ∈ cycle.queue.pending, P id) ∧ ∀ attempt ∈ cycle.log, P attempt.proofId)
    (fun cycle next before again => by
      cases turn_of_again again with
      | @settle attempt rest submitter ran settles =>
        intro closed
        obtain ⟨inQueue, inLog⟩ := before fun earlier mem => closed earlier (List.mem_append_left _ mem)
        exact ⟨fun id mem => inQueue id (ran.taken.mem_iff.mp mem).2, tried inQueue inLog ran⟩
      | @park attempt rest submitter ran parks =>
        intro closed
        obtain ⟨inQueue, inLog⟩ := before fun earlier mem => closed earlier (List.mem_append_left _ mem)
        refine ⟨fun id mem => ?_, tried inQueue inLog ran⟩
        rcases mem_enqueueMissing.mp mem with old | ⟨isMissing, -⟩
        · exact inQueue id (ran.taken.mem_iff.mp old).2
        · exact closed attempt (by simp) (inQueue _ ran.taken.mem) id isMissing)
    (fun _ => ⟨queued, fun _ mem => absurd mem List.not_mem_nil⟩) h
  cases turn_of_done isLast with
  | finish idle => exact (holds missing).2
  | stop ran terminal =>
    obtain ⟨inQueue, inLog⟩ := holds fun earlier mem => missing earlier (List.mem_append_left _ mem)
    exact tried inQueue inLog ran

/-- Whatever the submitter does, the loop ends and loses no proof. -/
theorem scheduleWith_conserves (trySubmit : ProofId → EStateM ProverError σ SubmitOutcome)
    (reported : Finset ProofId)
    (bounded : ∀ id submitter missing after, (trySubmit id).run submitter =
      .ok (.deferred missing) after →
      ∀ other ∈ missing, other ∈ reported ∧ other ≠ id)
    (queue : PendingProofQueue) (submitter : σ) (capacity : Nat) :
    ∃ enough result done,
      (∀ fuel, enough ≤ fuel → scheduleWith trySubmit fuel queue submitter capacity =
        some (result, done)) ∧
      done.log.countP Attempt.isSubmitted ≤ capacity ∧
      (∀ before attempt later, done.log = before ++ attempt :: later → attempt.parks = true →
        attempt.proofId ∈ done.queue.pending ∧ ∀ other ∈ later, other.proofId ≠ attempt.proofId) ∧
      (∀ id, (id ∈ queue.pending ∨ ∃ attempt ∈ done.log, id ∈ attempt.missing) →
        id ∈ done.queue.pending ∨ ∃ attempt ∈ done.log, attempt.proofId = id ∧ attempt.settles = true) ∧
      (∀ (before later : List Attempt) id error, done.log = before ++ ⟨id, .error error⟩ :: later →
        error.isTerminal = true →
        later = [] ∧ result = .error error ∧ id ∈ done.queue.pending ∧
          ∀ attempt ∈ before, attempt.parks = true → attempt.proofId ∈ done.queue.pending) ∧
      ∀ error, result = .error error → ∃ id, ⟨id, .error error⟩ ∈ done.log ∧
        error.isTerminal = true := by
  have closed : Closed trySubmit (queue.pending ∪ reported) := by
    intro id _ submitter missing after ran other mem
    obtain ⟨isReported, different⟩ := bounded id submitter missing after ran other mem
    exact ⟨Finset.mem_union_right _ isReported, different⟩
  obtain ⟨enough, result, done, returned⟩ :=
    scheduleWith_returns closed Finset.subset_union_left submitter capacity
  have ended := scheduleWith_ended closed Finset.subset_union_left (returned enough le_rfl)
  have requeued : ∀ attempt ∈ done.log, attempt.parks = true → attempt.proofId ∈ done.queue.pending := by
    intro attempt mem parks
    refine (ended.requeued attempt mem).resolve_left fun settles => ?_
    rw [settles_not_parks settles] at parks
    cases parks
  refine ⟨enough, result, done, returned, ended.few, ?_, ended.covered, ?_, ?_⟩
  · intro before attempt later split parks
    have once := ended.once
    rw [split, List.pairwise_append, List.pairwise_cons] at once
    refine ⟨requeued attempt (by rw [split]; simp) parks, fun other mem => ?_⟩
    exact once.2.1.1 other mem parks
  · intro before later id error split terminal
    have notGoing : ¬ ((⟨id, .error error⟩ : Attempt).settles = true ∨
        (⟨id, .error error⟩ : Attempt).parks = true) := by
      simp [Attempt.settles, Attempt.parks, terminal]
    have mem : (⟨id, .error error⟩ : Attempt) ∈ done.log := by
      rw [split]
      simp
    rcases ended.stopped with ⟨-, running⟩ | ⟨earlier, stopper, cause, isLog, -, isResult, running⟩
    · exact absurd (running _ mem) notGoing
    · -- a terminal error before the last try would be among the tries that went on
      rcases List.eq_nil_or_concat later with rfl | ⟨front, final, rfl⟩
      · rw [split] at isLog
        obtain ⟨rfl, same⟩ := List.append_inj' isLog rfl
        cases same
        refine ⟨rfl, isResult, ?_, fun attempt inBefore =>
          requeued attempt (by rw [split]; simp [inBefore])⟩
        exact (ended.requeued _ mem).resolve_left nofun
      · have inEarlier : (⟨id, .error error⟩ : Attempt) ∈ earlier := by
          have same : before ++ ⟨id, .error error⟩ :: front ++ [final] =
              earlier ++ [⟨stopper, .error cause⟩] := by
            rw [← isLog, split]
            simp
          rw [← (List.append_inj' same rfl).1]
          simp
        exact absurd (running _ inEarlier) notGoing
  · intro error isError
    rcases ended.stopped with ⟨isOk, -⟩ | ⟨earlier, id, cause, isLog, terminal, isResult, -⟩
    · cases isOk.symm.trans isError
    · cases isResult.symm.trans isError
      exact ⟨id, by rw [isLog]; simp, terminal⟩

end

/-- Numbers its jobs. The recursion at height 2 waits for both proofs of height 1, and the recursion
there fails. -/
def sampleSubmit : ProofId → EStateM ProverError Nat SubmitOutcome
  | .asm _ => modifyGet fun jobs => (.submitted ⟨[.ofNat jobs]⟩, jobs + 1)
  | .moho block =>
    if block.height = 2 then pure (.deferred [.asm (.single ⟨1, .zero⟩), .moho ⟨1, .zero⟩]) else
      throw .remoteSubmit

theorem scheduleWith_conserves_sample :
    ∃ enough result done,
      (∀ fuel, enough ≤ fuel → scheduleWith sampleSubmit fuel ⟨{.moho ⟨2, .zero⟩}⟩ 0 3 =
        some (result, done)) ∧
      done.log.countP Attempt.isSubmitted ≤ 3 ∧
      (ProofId.moho ⟨2, .zero⟩ ∈ done.queue.pending ∨
        ∃ attempt ∈ done.log, attempt.proofId = ProofId.moho ⟨2, .zero⟩ ∧ attempt.settles = true) := by
  have bounded : ∀ id submitter missing after, (sampleSubmit id).run submitter =
    .ok (.deferred missing) after →
      ∀ other ∈ missing,
        other ∈ ({.asm (.single ⟨1, .zero⟩), .moho ⟨1, .zero⟩} : Finset ProofId) ∧ other ≠ id := by
    intro id submitter missing after ran other mem
    cases id with
    | asm range => cases ran
    | moho block =>
      by_cases second : block.height = 2
      · rw [sampleSubmit, if_pos second] at ran
        cases ran
        refine ⟨by simpa using mem, ?_⟩
        rintro rfl
        rcases List.mem_pair.mp mem with same | same
        · cases same
        · cases same
          exact absurd second (by decide)
      · rw [sampleSubmit, if_neg second] at ran
        cases ran
  obtain ⟨enough, result, done, returned, few, -, covered, -⟩ :=
    scheduleWith_conserves sampleSubmit _ bounded ⟨{.moho ⟨2, .zero⟩}⟩ 0 3
  exact ⟨enough, result, done, returned, few, covered _ (.inl (Finset.mem_singleton_self _))⟩

/-- The loop walks down to height 1, submits the step there and leaves both recursions for later. -/
example : (scheduleWith sampleSubmit 5 ⟨{.moho ⟨2, .zero⟩}⟩ 0 3).map
  (fun ended => ended.2.queue.pending) =
    some {.moho ⟨1, .zero⟩, .moho ⟨2, .zero⟩} := by
  decide +kernel

end Asm
