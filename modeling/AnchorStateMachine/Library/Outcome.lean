import Mathlib.Data.List.Basic

/-!
# Computations that may stop

A computation in `Except ε` either returns a value or stops with an error `ε`. This file peels such
computations apart, says when one cannot stop with a given class of errors (`Avoids`) and when two
cannot return different values (`Agree`), and packages the induction over a loop `xs.foldlM f s`:
once for what one step preserves, once for what the sequence of visited transitions satisfies.
-/

universe u v w

namespace Outcome

variable {ε : Type u} {α β : Type v}

theorem bind_ok {x : Except ε α} {f : α → Except ε β} {b : β} (h : (x >>= f) = .ok b) :
    ∃ a, x = .ok a ∧ f a = .ok b := by
  cases x with
  | error e => cases h
  | ok a => exact ⟨a, rfl, h⟩

theorem bind_error {x : Except ε α} {f : α → Except ε β} {e : ε} (h : (x >>= f) = .error e) :
    x = .error e ∨ ∃ a, x = .ok a ∧ f a = .error e := by
  cases x with
  | error e' => exact .inl (by cases h; rfl)
  | ok a => exact .inr ⟨a, rfl, h⟩

theorem map_ok {x : Except ε α} {f : α → β} {b : β} (h : f <$> x = .ok b) :
    ∃ a, x = .ok a ∧ f a = b := by
  cases x with
  | error e => cases h
  | ok a => exact ⟨a, rfl, by cases h; rfl⟩

theorem map_error {x : Except ε α} {f : α → β} {e : ε} (h : f <$> x = .error e) : x = .error e := by
  cases x with
  | error e' =>
    cases h
    rfl
  | ok a => cases h

theorem pure_ok {a b : α} (h : (pure a : Except ε α) = .ok b) : a = b := by
  cases h
  rfl

theorem mapError_ok_iff {ε' : Type u} {f : ε → ε'} {x : Except ε α} {a : α} :
    x.mapError f = .ok a ↔ x = .ok a := by
  cases x with
  | error e => exact iff_of_false nofun nofun
  | ok b => rw [Except.mapError, Except.ok.injEq, Except.ok.injEq]

theorem toOption_some {x : Except ε α} {a : α} (h : x.toOption = some a) : x = .ok a := by
  cases x with
  | error e => cases h
  | ok b =>
    cases h
    rfl

@[simp] theorem ok_bind (a : α) (f : α → Except ε β) : ((Except.ok a : Except ε α) >>= f) = f a := rfl

@[simp] theorem error_bind (e : ε) (f : α → Except ε β) :
    ((Except.error e : Except ε α) >>= f) = .error e := rfl

@[simp] theorem pure_eq_ok (a : α) : (pure a : Except ε α) = .ok a := rfl

@[simp] theorem throw_eq_error (e : ε) : (throw e : Except ε α) = .error e := rfl

theorem forM_ok {ι : Type w} {f : ι → Except ε PUnit} {xs : List ι} :
    xs.forM f = .ok () ↔ ∀ x ∈ xs, f x = .ok () := by
  induction xs with
  | nil => simp
  | cons x xs ih =>
    rw [List.forall_mem_cons, ← ih]
    show (f x >>= fun _ => xs.forM f) = .ok () ↔ _
    constructor
    · intro h
      obtain ⟨_, first, rest⟩ := bind_ok h
      exact ⟨first, rest⟩
    · rintro ⟨first, rest⟩
      rw [first]
      exact rest

/-! ### Errors a computation cannot stop with -/

/-- The computation does not stop with a `bad` error: it returns, or stops for another reason. -/
def Avoids (bad : ε → Prop) (x : Except ε α) : Prop := ∀ e, x = .error e → ¬ bad e

theorem avoids_ok {bad : ε → Prop} (a : α) : Avoids bad (.ok a : Except ε α) := by
  intro e h
  cases h

theorem avoids_error {bad : ε → Prop} {e : ε} (good : ¬ bad e) :
    Avoids bad (.error e : Except ε α) := by
  intro e' h
  cases h
  exact good

theorem Avoids.bind {bad : ε → Prop} {x : Except ε α} {f : α → Except ε β}
    (first : Avoids bad x) (rest : ∀ a, x = .ok a → Avoids bad (f a)) : Avoids bad (x >>= f) := by
  intro e h
  rcases bind_error h with stopped | ⟨a, returned, stopped⟩
  · exact first e stopped
  · exact rest a returned e stopped

theorem Avoids.mono {bad worse : ε → Prop} {x : Except ε α} (h : Avoids worse x)
    (sub : ∀ e, bad e → worse e) : Avoids bad x :=
  fun e stopped isBad => h e stopped (sub e isBad)

/-! ### Two computations that agree -/

/-- If both computations return, they return the same. -/
def Agree (x y : Except ε α) : Prop := ∀ a b, x = .ok a → y = .ok b → a = b

theorem agree_refl (x : Except ε α) : Agree x x :=
  fun _ _ first second => Except.ok.inj (first.symm.trans second)

theorem agree_error {y : Except ε α} (e : ε) : Agree (.error e) y := nofun

theorem agree_error_right {x : Except ε α} (e : ε) : Agree x (.error e) := nofun

theorem Agree.bind {x y : Except ε α} {f g : α → Except ε β} (first : Agree x y)
    (rest : ∀ a, Agree (f a) (g a)) : Agree (x >>= f) (y >>= g) := by
  intro b c left right
  obtain ⟨a, returned, left⟩ := bind_ok left
  obtain ⟨a', returned', right⟩ := bind_ok right
  cases first a a' returned returned'
  exact rest a b c left right

/-! ### Loops -/

variable {σ : Type v} {ι : Type w} {f : σ → ι → Except ε σ}

/-- What every step preserves, the loop preserves. The step may use that its input is in the list. -/
theorem foldlM_preserves (inv : σ → Prop) {xs : List ι} {s t : σ}
    (step : ∀ x ∈ xs, ∀ s t, inv s → f s x = .ok t → inv t)
    (start : inv s) (h : xs.foldlM f s = .ok t) : inv t := by
  induction xs generalizing s with
  | nil =>
    cases pure_ok h
    exact start
  | cons x xs ih =>
    rw [List.foldlM_cons] at h
    obtain ⟨m, first, rest⟩ := bind_ok h
    exact ih (fun y mem => step y (.tail _ mem)) (step x (.head _) s m start first) rest

/-- An invariant that counts the inputs taken so far. -/
theorem foldlM_counts (inv : Nat → σ → Prop) {xs : List ι} {s t : σ} {n : Nat}
    (step : ∀ x ∈ xs, ∀ n s t, inv n s → f s x = .ok t → inv (n + 1) t)
    (start : inv n s) (h : xs.foldlM f s = .ok t) : inv (n + xs.length) t := by
  induction xs generalizing n s with
  | nil =>
    cases pure_ok h
    exact start
  | cons x xs ih =>
    rw [List.foldlM_cons] at h
    obtain ⟨m, first, rest⟩ := bind_ok h
    have counted := ih (fun y mem => step y (.tail _ mem)) (step x (.head _) n s m start first) rest
    rwa [List.length_cons, Nat.add_comm xs.length, ← Nat.add_assoc]

/-- A loop stops in one of its steps, from a state that still has what the steps before preserve. -/
theorem foldlM_error (inv : σ → Prop) {xs : List ι} {s : σ} {e : ε}
    (keep : ∀ x ∈ xs, ∀ s t, inv s → f s x = .ok t → inv t)
    (start : inv s) (h : xs.foldlM f s = .error e) : ∃ x ∈ xs, ∃ t, inv t ∧ f t x = .error e := by
  induction xs generalizing s with
  | nil => cases h
  | cons x xs ih =>
    rw [List.foldlM_cons] at h
    rcases bind_error h with stopped | ⟨m, first, rest⟩
    · exact ⟨x, .head _, s, start, stopped⟩
    · obtain ⟨y, mem, t, holds, stopped⟩ :=
        ih (fun y mem => keep y (.tail _ mem)) (keep x (.head _) s m start first) rest
      exact ⟨y, .tail _ mem, t, holds, stopped⟩

/-- A loop whose steps keep an invariant and avoid an error from it avoids that error. -/
theorem foldlM_avoids {bad : ε → Prop} (inv : σ → Prop) {xs : List ι} {s : σ}
    (keep : ∀ x ∈ xs, ∀ s t, inv s → f s x = .ok t → inv t)
    (safe : ∀ x ∈ xs, ∀ s, inv s → Avoids bad (f s x))
    (start : inv s) : Avoids bad (xs.foldlM f s) := by
  intro e h
  obtain ⟨x, mem, t, holds, stopped⟩ := foldlM_error inv keep start h
  exact safe x mem t holds e stopped

theorem foldlM_agree {f g : σ → ι → Except ε σ} (body : ∀ s x, Agree (f s x) (g s x)) (xs : List ι)
    (s : σ) : Agree (xs.foldlM f s) (xs.foldlM g s) := by
  induction xs generalizing s with
  | nil => exact agree_refl _
  | cons x xs ih =>
    rw [List.foldlM_cons, List.foldlM_cons]
    exact (body s x).bind ih

theorem mapM_agree {f g : ι → Except ε α} (body : ∀ x, Agree (f x) (g x)) (xs : List ι) :
    Agree (xs.mapM f) (xs.mapM g) := by
  induction xs with
  | nil => exact agree_refl _
  | cons x xs ih =>
    rw [List.mapM_cons, List.mapM_cons]
    exact (body x).bind fun _ => ih.bind fun _ => agree_refl _

theorem mapM_mono {f g : ι → Except ε α} (body : ∀ x y, f x = .ok y → g x = .ok y) {xs : List ι}
    {ys : List α} (h : xs.mapM f = .ok ys) : xs.mapM g = .ok ys := by
  induction xs generalizing ys with
  | nil => exact h
  | cons x xs ih =>
    rw [List.mapM_cons] at h ⊢
    obtain ⟨first, isFirst, h⟩ := bind_ok h
    obtain ⟨rest, isRest, h⟩ := bind_ok h
    rw [body x first isFirst, ok_bind, ih isRest, ok_bind]
    exact h

theorem mapM_mem {f : ι → Except ε α} {xs : List ι} {ys : List α} (h : xs.mapM f = .ok ys) {y : α}
    (mem : y ∈ ys) :
    ∃ x ∈ xs, f x = .ok y := by
  induction xs generalizing ys with
  | nil =>
    cases pure_ok h
    cases mem
  | cons x xs ih =>
    rw [List.mapM_cons] at h
    obtain ⟨first, isFirst, h⟩ := bind_ok h
    obtain ⟨rest, isRest, h⟩ := bind_ok h
    cases pure_ok h
    rcases List.mem_cons.mp mem with rfl | mem
    · exact ⟨x, .head _, isFirst⟩
    · obtain ⟨other, inRest, isOther⟩ := ih isRest mem
      exact ⟨other, .tail _ inRest, isOther⟩

theorem foldlM_append_ok {xs ys : List ι} {s t : σ} (h : (xs ++ ys).foldlM f s = .ok t) :
    ∃ m, xs.foldlM f s = .ok m ∧ ys.foldlM f m = .ok t := by
  rw [List.foldlM_append] at h
  exact bind_ok h

/-- One transition a loop made: the state before, the input, the state after. -/
structure Visit (σ : Type v) (ι : Type w) where
  pre : σ
  input : ι
  post : σ
  deriving DecidableEq

/-- The transitions of a loop in order, up to the step that stopped it, if one did. -/
def visits (f : σ → ι → Except ε σ) : σ → List ι → List (Visit σ ι)
  | _, [] => []
  | s, x :: xs =>
    match f s x with
    | .ok t => ⟨s, x, t⟩ :: visits f t xs
    | .error _ => []

@[simp] theorem visits_nil (s : σ) : visits f s [] = [] := rfl

theorem visits_cons {s t : σ} {x : ι} (h : f s x = .ok t) (xs : List ι) :
    visits f s (x :: xs) = ⟨s, x, t⟩ :: visits f t xs := by
  simp [visits, h]

theorem visits_input {xs : List ι} {s t : σ} (h : xs.foldlM f s = .ok t) :
    (visits f s xs).map Visit.input = xs := by
  induction xs generalizing s with
  | nil => rfl
  | cons x xs ih =>
    rw [List.foldlM_cons] at h
    obtain ⟨m, first, rest⟩ := bind_ok h
    rw [visits_cons first, List.map_cons, ih rest]

theorem visits_step {xs : List ι} {s : σ} {visit : Visit σ ι} (mem : visit ∈ visits f s xs) :
    visit.input ∈ xs ∧ f visit.pre visit.input = .ok visit.post := by
  induction xs generalizing s with
  | nil => cases mem
  | cons x xs ih =>
    unfold visits at mem
    split at mem
    · rename_i t first
      rcases List.mem_cons.mp mem with rfl | mem
      · exact ⟨.head _, first⟩
      · obtain ⟨inList, step⟩ := ih mem
        exact ⟨.tail _ inList, step⟩
    · cases mem

/-- The history rule: an invariant of the state and of the transitions so far, kept by every step,
holds of the final state and of the whole sequence of transitions. -/
theorem foldlM_history (inv : List (Visit σ ι) → σ → Prop) (past : List (Visit σ ι)) {xs : List ι}
    {s t : σ}
    (step : ∀ x ∈ xs, ∀ past s t, inv past s → f s x = .ok t → inv (past ++ [⟨s, x, t⟩]) t)
    (start : inv past s) (h : xs.foldlM f s = .ok t) : inv (past ++ visits f s xs) t := by
  induction xs generalizing past s with
  | nil =>
    cases pure_ok h
    simpa using start
  | cons x xs ih =>
    rw [List.foldlM_cons] at h
    obtain ⟨m, first, rest⟩ := bind_ok h
    have next := ih _ (fun y mem => step y (.tail _ mem)) (step x (.head _) past s m start first) rest
    simpa [visits_cons first] using next

end Outcome
