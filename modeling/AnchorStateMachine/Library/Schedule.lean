import Mathlib.Order.Basic
import AnchorStateMachine.Library.Outcome

/-!
# Loops under a clock

The inputs of a loop often arrive in an order that the loop body does not check: what it may rely on
at one input is a bound that earlier inputs respect. Here a clock carries that bound. `Scheduled
ticks now xs later` says that the inputs `xs` move the clock from `now` to `later`, and an invariant
that depends on the clock is proved from what one input does.
-/

universe u v w

namespace Outcome

variable {τ : Type w} [Preorder τ] {ι : Type w}

/-- The inputs come in an order the clock permits. Time may also pass without an input. -/
inductive Scheduled (ticks : τ → ι → τ → Prop) : τ → List ι → τ → Prop
  | nil {now later : τ} (wait : now ≤ later) : Scheduled ticks now [] later
  | cons {now start next later : τ} {x : ι} {xs : List ι} (wait : now ≤ start)
      (tick : ticks start x next) (rest : Scheduled ticks next xs later) :
      Scheduled ticks now (x :: xs) later

variable {ticks : τ → ι → τ → Prop} {now start next later : τ} {x : ι} {xs ys : List ι}

theorem Scheduled.earlier (wait : now ≤ start) (schedule : Scheduled ticks start xs later) :
    Scheduled ticks now xs later := by
  cases schedule with
  | nil more => exact .nil (wait.trans more)
  | cons more tick rest => exact .cons (wait.trans more) tick rest

theorem Scheduled.append (first : Scheduled ticks now xs start) (rest : Scheduled ticks start ys later) :
    Scheduled ticks now (xs ++ ys) later := by
  induction first with
  | nil wait => exact rest.earlier wait
  | cons wait tick _ ih => exact .cons wait tick (ih rest)

theorem Scheduled.still (tick : ∀ x ∈ xs, ticks now x now) : Scheduled ticks now xs now := by
  induction xs with
  | nil => exact .nil le_rfl
  | cons x xs ih => exact .cons le_rfl (tick x (.head _)) (ih fun y mem => tick y (.tail _ mem))

variable {ε : Type u} {σ : Type v} {f : σ → ι → Except ε σ}

/-- The history rule under a clock. -/
theorem Scheduled.history (inv : τ → List (Visit σ ι) → σ → Prop) (past : List (Visit σ ι)) {s t : σ}
    (wait : ∀ now later past s, now ≤ later → inv now past s → inv later past s)
    (step : ∀ now x next past s t, ticks now x next → inv now past s → f s x = .ok t →
      inv next (past ++ [⟨s, x, t⟩]) t)
    (schedule : Scheduled ticks now xs later) (start : inv now past s)
    (h : xs.foldlM f s = .ok t) : inv later (past ++ visits f s xs) t := by
  induction schedule generalizing past s with
  | nil more =>
    cases pure_ok h
    simpa using wait _ _ _ _ more start
  | cons more tick _ ih =>
    rw [List.foldlM_cons] at h
    obtain ⟨m, first, rest⟩ := bind_ok h
    have next := ih _ (step _ _ _ past s m tick (wait _ _ _ _ more start) first) rest
    simpa [visits_cons first] using next

theorem Scheduled.preserves (inv : τ → σ → Prop) {s t : σ}
    (wait : ∀ now later s, now ≤ later → inv now s → inv later s)
    (step : ∀ now x next s t, ticks now x next → inv now s → f s x = .ok t → inv next t)
    (schedule : Scheduled ticks now xs later) (start : inv now s)
    (h : xs.foldlM f s = .ok t) : inv later t :=
  schedule.history (fun clock _ s => inv clock s) [] (fun now later _ => wait now later)
    (fun now x next _ => step now x next) start h

/-- A loop whose steps keep an invariant and avoid an error from it, under a clock. -/
theorem Scheduled.avoids {bad : ε → Prop} (inv : τ → σ → Prop) {s : σ}
    (wait : ∀ now later s, now ≤ later → inv now s → inv later s)
    (step : ∀ now x next s t, ticks now x next → inv now s → f s x = .ok t → inv next t)
    (safe : ∀ now x next s, ticks now x next → inv now s → Avoids bad (f s x))
    (schedule : Scheduled ticks now xs later) (start : inv now s) : Avoids bad (xs.foldlM f s) := by
  induction schedule generalizing s with
  | nil _ => exact avoids_ok s
  | cons more tick _ ih =>
    rw [List.foldlM_cons]
    have current := wait _ _ _ more start
    exact (safe _ _ _ s tick current).bind fun m first => ih (step _ _ _ s m tick current first)

end Outcome
