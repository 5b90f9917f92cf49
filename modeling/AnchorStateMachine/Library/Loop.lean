import Mathlib.Data.Nat.Basic
import Mathlib.Order.WellFounded

/-!
# Loops

A loop turns a state until its body says that it is done. Nothing says that it is ever done, so a
loop runs on fuel and has no result when the fuel is used up. A result does not depend on how much
fuel was left over. What every turn preserves holds where the loop is done, and a loop whose turns
go down in a well-founded order is done with enough fuel.
-/

universe u v w

namespace Loop

variable {α : Type u} {β : Type v}

/-- What a turn of the loop comes to. -/
inductive Step (α : Type u) (β : Type v)
  | again (state : α)
  | done (result : β)

def run (body : α → Step α β) : Nat → α → Option β
  | 0, _ => none
  | fuel + 1, a =>
    match body a with
    | .again next => run body fuel next
    | .done result => some result

variable {body : α → Step α β} {a next : α} {result : β} {fuel : Nat}

theorem run_done (h : body a = .done result) (fuel : Nat) : run body (fuel + 1) a = some result := by
  rw [run, h]

theorem run_again (h : body a = .again next) (fuel : Nat) :
    run body (fuel + 1) a = run body fuel next := by
  rw [run, h]

theorem run_mono {more : Nat} (h : run body fuel a = some result) (le : fuel ≤ more) :
    run body more a = some result := by
  induction fuel generalizing a more with
  | zero => cases h
  | succ fuel ih =>
    obtain ⟨more, rfl⟩ : ∃ less, more = less + 1 := ⟨more - 1, by omega⟩
    cases turn : body a with
    | again next =>
      rw [run_again turn] at h ⊢
      exact ih h (by omega)
    | done result =>
      rw [run_done turn] at h ⊢
      exact h

/-- The invariant rule: where the loop is done, what its turns preserve still holds. -/
theorem run_invariant (inv : α → Prop) (keep : ∀ a next, inv a → body a = .again next → inv next)
    (start : inv a) (h : run body fuel a = some result) :
    ∃ last, inv last ∧ body last = .done result := by
  induction fuel generalizing a with
  | zero => cases h
  | succ fuel ih =>
    cases turn : body a with
    | again next =>
      rw [run_again turn] at h
      exact ih (keep a next start turn) h
    | done final =>
      rw [run_done turn] at h
      cases h
      exact ⟨a, start, turn⟩

/-- The termination rule: turns that go down in a well-founded order come to an end. -/
theorem run_returns {μ : Type w} {below : μ → μ → Prop} (wellFounded : WellFounded below)
    (measure : α → μ) (inv : α → Prop) (keep : ∀ a next, inv a → body a = .again next → inv next)
    (down : ∀ a next, inv a → body a = .again next → below (measure next) (measure a))
    (start : inv a) :
    ∃ fuel result, run body fuel a = some result := by
  suffices ends : ∀ m a, measure a = m → inv a → ∃ fuel result, run body fuel a = some result from
    ends (measure a) a rfl start
  intro m
  induction m using wellFounded.induction with
  | _ m ih =>
    intro a isMeasure holds
    cases turn : body a with
    | again next =>
      obtain ⟨fuel, result, returned⟩ :=
        ih (measure next) (isMeasure ▸ down a next holds turn) next rfl (keep a next holds turn)
      exact ⟨fuel + 1, result, (run_again turn fuel).trans returned⟩
    | done result => exact ⟨1, result, run_done turn 0⟩

end Loop
