import Mathlib.Data.List.Infix

/-!
# Programs that write to a store

A program reads a store and writes to it, one write at a time; it is given by the writes it does
from each store. A crash leaves the store after some first part of them. In a store of independent
parts, each part is then as before or as an aborted pass over that part alone leaves it.
-/

universe u v w

namespace Journal

variable {σ : Type u} {ω : Type v} {ι : Type w} (write : σ → ω → σ)

/-- The store after some writes. -/
def after (s : σ) (writes : List ω) : σ := writes.foldl write s

def run (p : σ → List ω) (s : σ) : σ := after write s (p s)

/-- Two programs in a row: the second reads what the first has written. -/
def andThen (p q : σ → List ω) (s : σ) : List ω := p s ++ q (run write p s)

def forEach (p : ι → σ → List ω) : List ι → σ → List ω
  | [], _ => []
  | i :: is, s => andThen write (p i) (forEach p is) s

/-- A run of the program from `s` that is aborted leaves `t`. -/
def Aborts (p : σ → List ω) (s t : σ) : Prop := ∃ done, done <+: p s ∧ after write s done = t

variable {write} {p q : σ → List ω} {s t : σ}

@[simp] theorem after_nil : after write s [] = s := rfl

@[simp] theorem after_cons {x : ω} {xs : List ω} :
    after write s (x :: xs) = after write (write s x) xs := rfl

theorem after_append {xs ys : List ω} : after write s (xs ++ ys) = after write (after write s xs) ys :=
  List.foldl_append

theorem run_andThen : run write (andThen write p q) s = run write q (run write p s) := after_append

@[simp] theorem run_forEach_nil {p : ι → σ → List ω} : run write (forEach write p []) s = s := rfl

@[simp] theorem run_forEach_cons {p : ι → σ → List ω} {i : ι} {is : List ι} :
    run write (forEach write p (i :: is)) s = run write (forEach write p is) (run write (p i) s) :=
      run_andThen

/-! ### Aborted runs -/

theorem Aborts.done (p : σ → List ω) (s : σ) :
    Aborts write p s (run write p s) := ⟨p s, List.prefix_rfl, rfl⟩

/-- What an aborted run leaves satisfies every property of `s` that the single writes keep. -/
theorem Aborts.induction {motive : σ → Prop} (aborts : Aborts write p s t) (start : motive s)
    (step : ∀ x ∈ p s, ∀ s, motive s → motive (write s x)) : motive t := by
  obtain ⟨done, isPrefix, rfl⟩ := aborts
  have within : ∀ x ∈ done, x ∈ p s := fun x mem => isPrefix.subset mem
  clear isPrefix
  generalize p s = writes at step within
  induction done generalizing s with
  | nil => exact start
  | cons x done ih =>
    exact ih (step x (within x (.head _)) s start) fun y mem => within y (.tail _ mem)

theorem prefix_append_cases {xs ys done : List ω} (h : done <+: xs ++ ys) :
    done <+: xs ∨ ∃ more, done = xs ++ more ∧ more <+: ys := by
  rcases List.prefix_or_prefix_of_prefix h (List.prefix_append xs ys) with first | ⟨more, rfl⟩
  · exact .inl first
  · exact .inr ⟨more, rfl, (List.prefix_append_right_inj _).mp h⟩

theorem aborts_andThen_iff :
    Aborts write (andThen write p q) s t ↔ Aborts write p s t ∨ Aborts write q (run write p s) t := by
  constructor
  · rintro ⟨done, isPrefix, rfl⟩
    rcases prefix_append_cases isPrefix with first | ⟨more, rfl, second⟩
    · exact .inl ⟨done, first, rfl⟩
    · exact .inr ⟨more, second, after_append.symm⟩
  · rintro (⟨done, isPrefix, rfl⟩ | ⟨done, isPrefix, rfl⟩)
    · exact ⟨done, isPrefix.trans (List.prefix_append _ _), rfl⟩
    · exact ⟨p s ++ done, (List.prefix_append_right_inj _).mpr isPrefix, after_append⟩

/-! ### Parts of a store

A store of independent parts, where every write belongs to one part and is seen in that part alone. -/

section

variable {κ : Type*} {ν : Type*} {owner : ω → ι} {view : σ → ι → ν} {i : ι} {p : κ → σ → List ω}
  {g : κ → ι} {ks : List κ}
  (isolated : ∀ s x i, owner x ≠ i → view (write s x) i = view s i)

include isolated

theorem view_after {xs : List ω} (foreign : ∀ x ∈ xs, owner x ≠ i) :
    view (after write s xs) i = view s i := by
  induction xs generalizing s with
  | nil => rfl
  | cons x xs ih =>
    rw [after_cons, ih fun y mem => foreign y (.tail _ mem), isolated s x i (foreign x (.head _))]

variable (owned : ∀ k s, ∀ x ∈ p k s, owner x = g k)

include owned

theorem view_run_of_ne {k : κ} (other : g k ≠ i) : view (run write (p k) s) i = view s i :=
  view_after isolated fun x mem same => other (owned k s x mem ▸ same)

theorem view_forEach_of_notMem (other : i ∉ ks.map g) :
    view (run write (forEach write p ks) s) i = view s i := by
  induction ks generalizing s with
  | nil => rfl
  | cons k ks ih =>
    rw [List.map_cons, List.mem_cons, not_or] at other
    rw [run_forEach_cons, ih other.2, view_run_of_ne isolated owned (Ne.symm other.1)]

/-- What a pass does to its part is what the loop does to it. -/
theorem view_forEach {k : κ} {R : ν → ν → Prop}
    (does : ∀ s, R (view s (g k)) (view (run write (p k) s) (g k))) (nodup : (ks.map g).Nodup)
    (mem : k ∈ ks) : R (view s (g k)) (view (run write (forEach write p ks) s) (g k)) := by
  induction ks generalizing s with
  | nil => cases mem
  | cons l ks ih =>
    rw [List.map_cons, List.nodup_cons] at nodup
    rw [run_forEach_cons]
    rcases List.mem_cons.mp mem with rfl | mem
    · rw [view_forEach_of_notMem isolated owned nodup.1]
      exact does s
    · have other : g l ≠ g k := fun same => nodup.1 (same ▸ List.mem_map_of_mem mem)
      rw [← view_run_of_ne (s := s) isolated owned other]
      exact ih nodup.2 mem

/-- After an aborted loop a part is as before, or as an aborted run of its pass leaves it. -/
theorem Aborts.view_forEach (aborts : Aborts write (Journal.forEach write p ks) s t)
    (nodup : (ks.map g).Nodup) (i : ι) :
    view t i = view s i ∨ ∃ k ∈ ks, g k = i ∧ ∃ s' t', view s' i = view s i ∧ Aborts write (p k) s' t' ∧
      view t i = view t' i := by
  induction ks generalizing s with
  | nil =>
    obtain ⟨done, isPrefix, rfl⟩ := aborts
    rw [List.prefix_nil.mp isPrefix]
    exact .inl rfl
  | cons k ks ih =>
    rw [List.map_cons, List.nodup_cons] at nodup
    rcases aborts_andThen_iff.mp aborts with first | later
    · by_cases here : g k = i
      · exact .inr ⟨k, .head _, here, s, t, rfl, first, rfl⟩
      · obtain ⟨done, isPrefix, rfl⟩ := first
        exact .inl (view_after isolated fun x mem same =>
          here (owned k s x (isPrefix.subset mem) ▸ same))
    · by_cases here : g k = i
      · subst here
        refine .inr ⟨k, .head _, rfl, s, run write (p k) s, rfl, .done _ _, ?_⟩
        rcases ih later nodup.2 with same | ⟨l, mem, isPart, -⟩
        · exact same
        · exact absurd (isPart ▸ List.mem_map_of_mem mem) nodup.1
      · have kept := view_run_of_ne (s := s) isolated owned here
        rcases ih later nodup.2 with same | ⟨l, mem, isPart, s', t', before, stopped, left⟩
        · exact .inl (same.trans kept)
        · exact .inr ⟨l, .tail _ mem, isPart, s', t', before.trans kept, stopped, left⟩

end

end Journal
