import Mathlib.Data.List.Induction

/-! Histories in which every event has its reasons in the events before it. -/

namespace History

variable {α : Type*}

/-- Every event of the history is justified by the events before it. -/
inductive Justified (reason : List α → α → Prop) : List α → Prop
  | nil : Justified reason []
  | concat {past : List α} {event : α} (justified : Justified reason past)
      (holds : reason past event) : Justified reason (past ++ [event])

namespace Justified

variable {reason : List α → α → Prop} {past : List α}

theorem append (justified : Justified reason past) {more : List α}
    (holds : ∀ front event back, more = front ++ event :: back → reason (past ++ front) event) :
    Justified reason (past ++ more) := by
  induction more using List.reverseRecOn with
  | nil => simpa using justified
  | append_singleton more event ih =>
    rw [← List.append_assoc]
    refine .concat (ih fun front other back split => ?_) (holds more event [] rfl)
    exact holds front other (back ++ [event]) (by simp [split])

/-- Elimination: wherever the history is cut, the event at the cut has its reasons in what precedes. -/
theorem reason_of_split (justified : Justified reason past) {before later : List α} {event : α}
    (split : past = before ++ event :: later) : reason before event := by
  induction justified generalizing later with
  | nil => simp at split
  | @concat past last justified holds ih =>
    rcases List.eq_nil_or_concat later with rfl | ⟨rest, other, rfl⟩
    · obtain ⟨rfl, same⟩ := List.append_inj' split rfl
      cases same
      exact holds
    · have cut : past ++ [last] = (before ++ event :: rest) ++ [other] := by simpa using split
      exact ih (List.append_inj' cut rfl).1

end Justified
end History
