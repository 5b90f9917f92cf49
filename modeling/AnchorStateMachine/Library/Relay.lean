import AnchorStateMachine.Library.Ancestry
import Mathlib.Data.List.Nodup
import Mathlib.Data.Set.Insert

/-!
# A relay between two stages

A first stage commits the nodes of a tree, each after its parent, and announces them in a queue. A
second stage takes them from the queue, and derives each from what it derived for the parent. The
queue does not outlive the stages; a second stage that starts anew can catch up on its own. A node is
lost if it is committed, and neither derived nor announced.
-/

universe u

namespace Relay

variable {κ : Type u}

structure State (κ : Type u) where
  committed : Set κ
  derived : Set κ
  queue : List κ

namespace State

def lost (s : State κ) : Set κ := {b | b ∈ s.committed ∧ b ∉ s.derived ∧ b ∉ s.queue}

/-- Both stages are started again. -/
def forget (s : State κ) : State κ := { s with queue := [] }

end State

inductive Step (parent : κ → Option κ) : State κ → State κ → Prop
  | commit {s : State κ} {b p : κ} (isParent : parent b = some p) (on : p ∈ s.committed)
      (new : b ∉ s.committed) :
      Step parent s ⟨insert b s.committed, s.derived, s.queue ++ [b]⟩
  | derive {s : State κ} {b p : κ} {rest : List κ} (head : s.queue = b :: rest)
      (isParent : parent b = some p) (on : p ∈ s.derived) :
      Step parent s ⟨s.committed, insert b s.derived, rest⟩
  | catchUp {s : State κ} {b p : κ} (idle : s.queue = []) (known : b ∈ s.committed)
      (isParent : parent b = some p) (on : p ∈ s.derived) :
      Step parent s ⟨s.committed, insert b s.derived, []⟩

variable {parent : κ → Option κ} {root : κ} {s t : State κ} {b p : κ} {rest : List κ}

/-- Only a new start loses nodes. -/
theorem Step.lost_subset (step : Step parent s t) : t.lost ⊆ s.lost := by
  intro b
  cases step with
  | commit isParent on new =>
    simp only [State.lost, Set.mem_ofPred_eq, Set.mem_insert_iff, List.mem_append, List.mem_singleton]
    tauto
  | derive head isParent on =>
    simp only [State.lost, head, Set.mem_ofPred_eq, Set.mem_insert_iff, List.mem_cons]
    tauto
  | catchUp idle known isParent on =>
    simp only [State.lost, idle, Set.mem_ofPred_eq, Set.mem_insert_iff]
    tauto

/-- What two stages keep up: whatever waits in the queue has its parent derived, or before it in the
queue, or lost. -/
structure Sound (parent : κ → Option κ) (root : κ) (s : State κ) : Prop where
  seeded : root ∈ s.derived
  within : s.derived ⊆ s.committed
  grounded : ∀ b ∈ s.committed, b ≠ root → ∃ p, parent b = some p ∧ p ∈ s.committed
  closed : ∀ b ∈ s.derived, b ≠ root → ∃ p, parent b = some p ∧ p ∈ s.derived
  nodup : s.queue.Nodup
  waiting : ∀ b ∈ s.queue, b ∈ s.committed ∧ b ∉ s.derived
  order : ∀ before b after, s.queue = before ++ b :: after → ∀ p, parent b = some p →
    p ∈ s.derived ∨ p ∈ before ∨ p ∈ s.lost

namespace Sound

/-- Only the root is known. -/
theorem start : Sound parent root ⟨{root}, {root}, []⟩ where
  seeded := rfl
  within := subset_rfl
  grounded b known other := absurd known other
  closed b known other := absurd known other
  nodup := .nil
  waiting := List.forall_mem_nil _
  order before b after split := by simp at split

theorem forget (sound : Sound parent root s) : Sound parent root s.forget where
  seeded := sound.seeded
  within := sound.within
  grounded := sound.grounded
  closed := sound.closed
  nodup := .nil
  waiting := List.forall_mem_nil _
  order before b after split := by simp [State.forget] at split

/-- A parent that is committed is derived, announced or lost. -/
theorem placed (p : κ) (known : p ∈ s.committed) : p ∈ s.derived ∨ p ∈ s.queue ∨ p ∈ s.lost := by
  by_cases isDerived : p ∈ s.derived
  · exact .inl isDerived
  · by_cases isQueued : p ∈ s.queue
    · exact .inr (.inl isQueued)
    · exact .inr (.inr ⟨known, isDerived, isQueued⟩)

theorem insert_closed (sound : Sound parent root s) (isParent : parent b = some p)
    (on : p ∈ s.derived) :
    ∀ c ∈ insert b s.derived, c ≠ root → ∃ p, parent c = some p ∧ p ∈ insert b s.derived := by
  rintro c (rfl | old) other
  · exact ⟨p, isParent, .inr on⟩
  · obtain ⟨q, isParent, on⟩ := sound.closed c old other
    exact ⟨q, isParent, .inr on⟩

theorem commit (sound : Sound parent root s) (isParent : parent b = some p) (on : p ∈ s.committed)
    (new : b ∉ s.committed) :
    Sound parent root ⟨insert b s.committed, s.derived, s.queue ++ [b]⟩ where
  seeded := sound.seeded
  within := sound.within.trans (Set.subset_insert _ _)
  grounded := by
    rintro c (rfl | old) other
    · exact ⟨p, isParent, .inr on⟩
    · obtain ⟨q, isParent, on⟩ := sound.grounded c old other
      exact ⟨q, isParent, .inr on⟩
  closed := sound.closed
  nodup := by
    rw [List.nodup_append]
    refine ⟨sound.nodup, List.nodup_singleton _, ?_⟩
    rintro c queued d isNew rfl
    rw [List.mem_singleton.mp isNew] at queued
    exact new (sound.waiting b queued).1
  waiting := by
    intro c queued
    rcases List.mem_append.mp queued with old | isNew
    · exact ⟨.inr (sound.waiting c old).1, (sound.waiting c old).2⟩
    · rw [List.mem_singleton.mp isNew]
      exact ⟨.inl rfl, fun isDerived => new (sound.within isDerived)⟩
  order before c after split q isParent' := by
    have stays : q ∈ s.lost → q ∈ State.lost ⟨insert b s.committed, s.derived, s.queue ++ [b]⟩ := by
      rintro ⟨known, underived, unqueued⟩
      refine ⟨.inr known, underived, fun queued => ?_⟩
      rcases List.mem_append.mp queued with old | isNew
      · exact unqueued old
      · exact new (List.mem_singleton.mp isNew ▸ known)
    -- the new node is the last of the queue, so that everything announced stands before it
    rcases List.eq_nil_or_concat after with rfl | ⟨front, last, rfl⟩
    · obtain ⟨rfl, isLast⟩ := List.append_inj' split rfl
      cases isLast
      cases isParent.symm.trans isParent'
      exact (placed p on).imp_right (Or.imp_right stays)
    · rw [List.concat_eq_append, ← List.cons_append, ← List.append_assoc] at split
      obtain ⟨isQueue, -⟩ := List.append_inj' split rfl
      exact (sound.order before c front isQueue q isParent').imp_right (Or.imp_right stays)

theorem derive (sound : Sound parent root s) (head : s.queue = b :: rest) (isParent : parent b = some p)
    (on : p ∈ s.derived) : Sound parent root ⟨s.committed, insert b s.derived, rest⟩ where
  seeded := .inr sound.seeded
  within := Set.insert_subset (sound.waiting b (head ▸ .head _)).1 sound.within
  grounded := sound.grounded
  closed := sound.insert_closed isParent on
  nodup := (List.nodup_cons.mp (head ▸ sound.nodup)).2
  waiting := by
    intro c queued
    obtain ⟨known, underived⟩ := sound.waiting c (head ▸ .tail _ queued)
    refine ⟨known, ?_⟩
    rintro (rfl | old)
    · exact (List.nodup_cons.mp (head ▸ sound.nodup)).1 queued
    · exact underived old
  order before c after split q isParent' := by
    have isQueue : s.queue = (b :: before) ++ c :: after := head.trans (congrArg (b :: ·) split)
    rcases sound.order _ _ _ isQueue q isParent' with isDerived | earlier | isLost
    · exact .inl (.inr isDerived)
    · rcases List.mem_cons.mp earlier with rfl | earlier
      · exact .inl (.inl rfl)
      · exact .inr (.inl earlier)
    · refine .inr (.inr ⟨isLost.1, ?_, fun queued => isLost.2.2 (head ▸ .tail _ queued)⟩)
      rintro (rfl | old)
      · exact isLost.2.2 (head ▸ .head _)
      · exact isLost.2.1 old

theorem catchUp (sound : Sound parent root s) (known : b ∈ s.committed) (isParent : parent b = some p)
    (on : p ∈ s.derived) : Sound parent root ⟨s.committed, insert b s.derived, []⟩ where
  seeded := .inr sound.seeded
  within := Set.insert_subset known sound.within
  grounded := sound.grounded
  closed := sound.insert_closed isParent on
  nodup := .nil
  waiting := List.forall_mem_nil _
  order before c after split := by simp at split

theorem step (sound : Sound parent root s) (step : Step parent s t) : Sound parent root t := by
  cases step with
  | commit isParent on new => exact sound.commit isParent on new
  | derive head isParent on => exact sound.derive head isParent on
  | catchUp idle known isParent on => exact sound.catchUp known isParent on

/-- The next node can be derived exactly if its parent is not lost. -/
theorem head_derivable_iff (sound : Sound parent root s) (head : s.queue = b :: rest)
    (isParent : parent b = some p) : p ∈ s.derived ↔ p ∉ s.lost := by
  constructor
  · exact fun isDerived isLost => isLost.2.1 isDerived
  · intro kept
    rcases sound.order [] b rest head p isParent with isDerived | earlier | isLost
    · exact isDerived
    · cases earlier
    · exact absurd isLost kept

/-- Everything on the way from the root to a derived node is derived. -/
theorem derived_of_line {height : κ → Nat} (sound : Sound parent root s)
    (graded : Ancestry.Graded parent height) {line : List κ} (isLine : Ancestry.Line parent root line b)
    (isDerived : b ∈ s.derived) : ∀ c ∈ line, c ∈ s.derived := by
  induction isLine with
  | root => exact List.forall_mem_nil _
  | @child past q b below isParent ih =>
    have above := (below.child isParent).height_eq graded
    have other : b ≠ root := by
      rintro rfl
      rw [List.length_append, List.length_singleton] at above
      omega
    obtain ⟨q', isParent', on⟩ := sound.closed b isDerived other
    cases isParent.symm.trans isParent'
    exact List.forall_mem_append.mpr ⟨ih on, List.forall_mem_singleton.mpr isDerived⟩

/-- Every committed node stands on a way from the root. -/
theorem exists_line {height : κ → Nat} (sound : Sound parent root s)
    (graded : Ancestry.Graded parent height) (known : b ∈ s.committed) :
    ∃ line, Ancestry.Line parent root line b := by
  generalize isHeight : height b = n
  induction n using Nat.strong_induction_on generalizing b with
  | h n ih =>
    by_cases isRoot : b = root
    · exact ⟨[], isRoot ▸ .root⟩
    · obtain ⟨p, isParent, on⟩ := sound.grounded b known isRoot
      have lower : height p < n := by
        rw [← isHeight, graded b p isParent]
        exact Nat.lt_succ_self _
      obtain ⟨line, isLine⟩ := ih (height p) lower on rfl
      exact ⟨line ++ [b], isLine.child isParent⟩

end Sound
end Relay
