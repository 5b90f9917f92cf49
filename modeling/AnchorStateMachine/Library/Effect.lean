import Mathlib.Data.List.Basic

/-!
# Computations with a state that may stop

A computation in `EStateM ε σ` returns a value or stops with an error `ε`, and what it did to the
state stays in both cases. This file peels computations that returned apart, and says how a
computation ends (`Meets`) and which invariants of the state it keeps however it ends (`Keeps`).
-/

universe u

namespace Effect

variable {ε σ α β : Type u} {s t : σ}

theorem bind_ok {x : EStateM ε σ α} {f : α → EStateM ε σ β} {b : β} (h : (x >>= f).run s = .ok b t) :
    ∃ a m, x.run s = .ok a m ∧ (f a).run m = .ok b t := by
  rw [EStateM.run_bind] at h
  cases first : x.run s with
  | ok a m =>
    rw [first] at h
    exact ⟨a, m, rfl, h⟩
  | error e m =>
    rw [first] at h
    cases h

theorem pure_ok {a b : α} (h : (pure a : EStateM ε σ α).run s = .ok b t) : b = a ∧ t = s := by
  cases h
  exact ⟨rfl, rfl⟩

def lift (x : Except ε α) : EStateM ε σ α :=
  match x with
  | .ok a => pure a
  | .error e => throw e

/-! Reading, changing and checking come first in a computation: what is left runs on the state they
leave. -/

theorem get_bind_ok {f : σ → EStateM ε σ β} {b : β} (h : (get >>= f).run s = .ok b t) :
    (f s).run s = .ok b t := h

theorem modify_bind_ok {g : σ → σ} {f : PUnit → EStateM ε σ β} {b : β}
    (h : (modify g >>= f).run s = .ok b t) :
    (f ⟨⟩).run (g s) = .ok b t := h

theorem lift_bind_ok {x : Except ε α} {f : α → EStateM ε σ β} {b : β}
    (h : (lift x >>= f).run s = .ok b t) :
    ∃ a, x = .ok a ∧ (f a).run s = .ok b t := by
  cases x with
  | ok a => exact ⟨a, rfl, h⟩
  | error e => cases h

theorem lift_bind_of_ok {x : Except ε α} {a : α} (h : x = .ok a) (f : α → EStateM ε σ β) :
    (lift x >>= f).run s = (f a).run s := by
  rw [h]
  rfl

theorem bind_of_ok {x : EStateM ε σ α} {f : α → EStateM ε σ β} {a : α} (first : x.run s = .ok a t) :
    (x >>= f).run s = (f a).run t := by
  rw [EStateM.run_bind, first]

theorem forM_cons_run {ι : Type u} {f : ι → EStateM ε σ PUnit} {i : ι} {is : List ι} :
    ((i :: is).forM f).run s = (f i >>= fun _ => is.forM f).run s := rfl

/-- A loop over a list ends with its last element. -/
theorem forM_concat_ok {ι : Type u} {f : ι → EStateM ε σ PUnit} {xs : List ι} {x : ι}
    (h : ((xs ++ [x]).forM f).run s = .ok ⟨⟩ t) :
    ∃ m, (xs.forM f).run s = .ok ⟨⟩ m ∧ (f x).run m = .ok ⟨⟩ t := by
  induction xs generalizing s with
  | nil =>
    obtain ⟨_, m, first, done⟩ := bind_ok h
    cases done
    exact ⟨s, rfl, first⟩
  | cons y ys ih =>
    obtain ⟨_, n, first, rest⟩ := bind_ok h
    obtain ⟨m, earlier, last⟩ := ih rest
    refine ⟨m, ?_, last⟩
    rw [forM_cons_run, bind_of_ok first]
    exact earlier

/-- A computation on a part of the state. -/
def focus {τ : Type u} (part : σ → τ) (put : σ → τ → σ) (x : EStateM ε τ α) : EStateM ε σ α := fun s =>
  match x.run (part s) with
  | .ok a t => .ok a (put s t)
  | .error e t => .error e (put s t)

/-! ### Ends

How a computation ends, and what is seen of the state that it leaves. -/

section

variable {τ : Type*} (view : σ → τ)

def ends : EStateM.Result ε σ α → Option ε × τ
  | .ok _ s => (none, view s)
  | .error e s => (some e, view s)

variable {view}

/-- A loop does not tell states apart if its body does not. -/
theorem forM_ends {ι : Type u} {f : ι → EStateM ε σ PUnit}
    (body : ∀ i s t, view s = view t → ends view ((f i).run s) = ends view ((f i).run t)) (is : List ι)
    (same : view s = view t) : ends view ((is.forM f).run s) = ends view ((is.forM f).run t) := by
  induction is generalizing s t with
  | nil => exact congrArg (Prod.mk none) same
  | cons i is ih =>
    have first := body i s t same
    rw [forM_cons_run, forM_cons_run, EStateM.run_bind, EStateM.run_bind]
    cases left : (f i).run s with
    | ok a m =>
      cases right : (f i).run t with
      | ok b n =>
        rw [left, right] at first
        exact ih (congrArg Prod.snd first)
      | error e n =>
        rw [left, right] at first
        cases congrArg Prod.fst first
    | error e m =>
      cases right : (f i).run t with
      | ok b n =>
        rw [left, right] at first
        cases congrArg Prod.fst first
      | error e' n =>
        rw [left, right] at first
        exact first

end

/-! ### How a run ends -/

/-- From the state the computation returns with the first property or stops with the second. -/
def Meets (x : EStateM ε σ α) (s : σ) (returns : α → σ → Prop) (stops : ε → σ → Prop) : Prop :=
  match x.run s with
  | .ok a t => returns a t
  | .error e t => stops e t

section

variable {x : EStateM ε σ α} {f : α → EStateM ε σ β} {returns weaker : α → σ → Prop}
  {stops loose : ε → σ → Prop} {after : β → σ → Prop}

theorem Meets.ok {a : α} (meets : Meets x s returns stops) (ran : x.run s = .ok a t) : returns a t := by
  rw [Meets, ran] at meets
  exact meets

theorem Meets.error {e : ε} (meets : Meets x s returns stops)
    (ran : x.run s = .error e t) : stops e t := by
  rw [Meets, ran] at meets
  exact meets

theorem Meets.intro (ok : ∀ a t, x.run s = .ok a t → returns a t)
    (error : ∀ e t, x.run s = .error e t → stops e t) :
    Meets x s returns stops := by
  unfold Meets
  cases ran : x.run s with
  | ok a t => exact ok a t ran
  | error e t => exact error e t ran

theorem Meets.mono (meets : Meets x s returns stops) (ok : ∀ a t, returns a t → weaker a t)
    (error : ∀ e t, stops e t → loose e t) : Meets x s weaker loose :=
  .intro (fun _ _ ran => ok _ _ (meets.ok ran)) fun _ _ ran => error _ _ (meets.error ran)

theorem Meets.bind (first : Meets x s returns stops)
    (rest : ∀ a t, returns a t → Meets (f a) t after stops) :
    Meets (x >>= f) s after stops := by
  unfold Meets
  rw [EStateM.run_bind]
  cases ran : x.run s with
  | ok a t => exact rest a t (first.ok ran)
  | error e t => exact first.error ran

theorem meets_lift {y : Except ε α} (ok : ∀ a, y = .ok a → returns a s)
    (error : ∀ e, y = .error e → stops e s) :
    Meets (lift y) s returns stops := by
  cases y with
  | ok a => exact ok a rfl
  | error e => exact error e rfl

theorem Meets.focus {τ : Type u} {part : σ → τ} {put : σ → τ → σ} {x : EStateM ε τ α}
    {returns : α → τ → Prop} {stops : ε → τ → Prop} {got : α → σ → Prop} {stopped : ε → σ → Prop}
    (meets : Meets x (part s) returns stops) (ok : ∀ a t, returns a t → got a (put s t))
    (error : ∀ e t, stops e t → stopped e (put s t)) :
    Meets (Effect.focus part put x) s got stopped := by
  unfold Meets EStateM.run Effect.focus
  cases ran : x.run (part s) with
  | ok a t => exact ok a t (meets.ok ran)
  | error e t => exact error e t (meets.error ran)

end

/-! ### Invariants -/

/-- From a state with the invariant the computation ends in one, and what it returns has the
property. -/
def Keeps (inv : σ → Prop) (x : EStateM ε σ α) (returns : α → Prop) : Prop :=
  ∀ s, inv s → Meets x s (fun a t => inv t ∧ returns a) fun _ t => inv t

section

variable {inv : σ → Prop} {x : EStateM ε σ α} {f : α → EStateM ε σ β} {returns weaker : α → Prop}
  {after : β → Prop}

theorem keeps_pure {a : α} (holds : returns a) : Keeps inv (pure a : EStateM ε σ α) returns :=
  fun _ start => ⟨start, holds⟩

theorem keeps_throw {e : ε} : Keeps inv (throw e : EStateM ε σ α) returns := fun _ start => start

theorem keeps_lift {y : Except ε α} (holds : ∀ a, y = .ok a → returns a) : Keeps inv (lift y) returns :=
  fun _ start => meets_lift (fun a got => ⟨start, holds a got⟩) fun _ _ => start

theorem Keeps.mono (keeps : Keeps inv x returns)
    (sub : ∀ a, returns a → weaker a) : Keeps inv x weaker :=
  fun s start => (keeps s start).mono (fun a _ ended => ⟨ended.1, sub a ended.2⟩) fun _ _ ended => ended

theorem Keeps.bind (first : Keeps inv x returns) (rest : ∀ a, returns a → Keeps inv (f a) after) :
    Keeps inv (x >>= f) after :=
  fun s start => (first s start).bind fun a t ended => rest a ended.2 t ended.1

end

/-- A first part that keeps an invariant leaves the rest to be run where it holds. -/
theorem Keeps.bind_meets {inv : σ → Prop} {x : EStateM ε σ α} {f : α → EStateM ε σ β}
    {returns : α → Prop} {after : β → σ → Prop} {stops : ε → σ → Prop} (keeps : Keeps inv x returns)
    (start : inv s) (stop : ∀ e t, inv t → stops e t)
    (rest : ∀ a t, inv t → returns a → Meets (f a) t after stops) :
    Meets (x >>= f) s after stops :=
  ((keeps s start).mono (fun _ _ ended => ended) stop).bind fun a t ended => rest a t ended.1 ended.2

/-- A computation on a part keeps what it keeps of that part, and what does not depend on it. -/
theorem Keeps.focus {τ : Type u} {part : σ → τ} {put : σ → τ → σ} {inv : τ → Prop} {x : EStateM ε τ α}
    {returns : α → Prop} (keeps : Keeps inv x returns) (got : ∀ s t, part (put s t) = t) :
    Keeps (fun s => inv (part s)) (Effect.focus part put x) returns := by
  intro s start
  have back : ∀ t, inv t → inv (part (put s t)) := fun t holds => (got s t).symm ▸ holds
  exact (keeps (part s) start).focus (fun a t ended => ⟨back t ended.1, ended.2⟩) fun e t => back t

theorem keeps_modify {g : σ → σ} {inv : σ → Prop} {returns : PUnit → Prop}
    (keep : ∀ s, inv s → inv (g s)) (holds : returns ⟨⟩) :
    Keeps inv (modify g : EStateM ε σ PUnit) returns :=
  fun s start => ⟨keep s start, holds⟩

/-- A loop over a list keeps what its body keeps. -/
theorem keeps_forM {ι : Type u} {inv : σ → Prop} {f : ι → EStateM ε σ PUnit} {is : List ι}
    (body : ∀ i ∈ is, Keeps inv (f i) fun _ => True) : Keeps inv (is.forM f) fun _ => True := by
  induction is with
  | nil => exact keeps_pure trivial
  | cons i is ih =>
    exact (body i (.head _)).bind fun _ _ => ih fun j mem => body j (.tail _ mem)

def returned : EStateM.Result ε σ α → Option α
  | .ok a _ => some a
  | .error _ _ => none

theorem returned_some {result : EStateM.Result ε σ α} {a : α} (h : returned result = some a) :
    ∃ s, result = .ok a s := by
  cases result with
  | ok a s =>
    cases h
    exact ⟨s, rfl⟩
  | error e s => cases h

def left : EStateM.Result ε σ α → Option σ
  | .ok _ s => some s
  | .error _ _ => none

theorem left_some {result : EStateM.Result ε σ α} {s : σ} (h : left result = some s) :
    ∃ a, result = .ok a s := by
  cases result with
  | ok a s =>
    cases h
    exact ⟨a, rfl⟩
  | error e s => cases h

theorem ok_left_get {ε σ : Type} {result : EStateM.Result ε σ Unit} (isSome : (left result).isSome) :
    result = .ok () ((left result).get isSome) := by
  cases result with
  | ok a s => rfl
  | error e s => cases isSome

end Effect
