import Mathlib.Data.List.Nodup
import Mathlib.Data.List.Perm.Subperm

/-!
Drawing from a pool without replacement. The pool is refilled when it is used up, so what is drawn
falls into rounds, each of which is a permutation of the pool.
-/

namespace Rounds

variable {α : Type*} {pool round drawn : List α}

/-- What was drawn, and the part of it since the pool was last full. -/
inductive Drawn (pool : List α) : List α → List α → Prop
  | first {a : α} (mem : a ∈ pool) : Drawn pool [a] [a]
  | next {round drawn : List α} {a : α} (before : Drawn pool round drawn) (mem : a ∈ pool)
      (fresh : a ∉ round) : Drawn pool (round ++ [a]) (drawn ++ [a])
  | refill {round drawn : List α} {a : α} (before : Drawn pool round drawn) (used : pool ⊆ round)
      (mem : a ∈ pool) : Drawn pool [a] (drawn ++ [a])

structure Partial (pool round : List α) : Prop where
  distinct : round.Nodup
  within : round ⊆ pool

theorem Partial.perm (isPartial : Partial pool round)
    (long : pool.length ≤ round.length) : round.Perm pool :=
  (List.subperm_of_subset isPartial.distinct isPartial.within).perm_of_length_le long

theorem Drawn.isPartial (h : Drawn pool round drawn) : Partial pool round := by
  induction h with
  | first mem => exact ⟨List.nodup_singleton _, by simpa using mem⟩
  | next before mem fresh ih =>
    refine ⟨List.nodup_append.mpr ⟨ih.distinct, List.nodup_singleton _, ?_⟩,
      List.append_subset.mpr ⟨ih.within, by simpa using mem⟩⟩
    intro a inRound b isNew same
    rw [List.mem_singleton] at isNew
    exact fresh (isNew ▸ same ▸ inRound)
  | refill before used mem ih => exact ⟨List.nodup_singleton _, by simpa using mem⟩

theorem Drawn.rounds (h : Drawn pool round drawn) (distinct : pool.Nodup) :
    ∃ full : List (List α), drawn = full.flatten ++ round ∧ ∀ part ∈ full, part.Perm pool := by
  induction h with
  | first mem => exact ⟨[], rfl, nofun⟩
  | next before mem fresh ih =>
    obtain ⟨full, same, perms⟩ := ih
    exact ⟨full, by rw [same, List.append_assoc], perms⟩
  | refill before used mem ih =>
    obtain ⟨full, same, perms⟩ := ih
    refine ⟨full ++ [_], by rw [List.flatten_concat, ← same], fun part inFull => ?_⟩
    rcases List.mem_append.mp inFull with old | new
    · exact perms part old
    · rw [List.mem_singleton.mp new]
      exact before.isPartial.perm (List.subperm_of_subset distinct used).length_le

theorem drop_rounds {full : List (List α)} {size : Nat} (sizes : ∀ part ∈ full, part.length = size)
    {k : Nat} (last : List α) (inside : (k + 1) * size ≤ (full.flatten ++ last).length)
    (short : last.length ≤ size) :
    ((full.flatten ++ last).drop (k * size)).take size ∈ full ∨
      ((full.flatten ++ last).drop (k * size)).take size = last ∧ size ≤ last.length := by
  induction full generalizing k with
  | nil =>
    rw [List.flatten_nil, List.nil_append] at inside ⊢
    rw [Nat.succ_mul] at inside
    have start : k * size = 0 ∨ size = 0 := by
      rcases Nat.eq_zero_or_pos k with rfl | positive
      · exact .inl (Nat.zero_mul size)
      · have grows : size ≤ k * size := Nat.le_mul_of_pos_left size positive
        omega
    refine .inr ⟨?_, by omega⟩
    rcases start with zero | rfl
    · rw [zero, List.drop_zero, List.take_of_length_le short]
    · rw [List.take_zero, List.length_eq_zero_iff.mp (Nat.le_zero.mp short)]
  | cons part full ih =>
    have length := sizes part (.head _)
    rw [List.flatten_cons, List.append_assoc] at inside ⊢
    cases k with
    | zero =>
      rw [Nat.zero_mul, List.drop_zero, List.take_left' length]
      exact .inl (.head _)
    | succ k =>
      have skip : (part ++ (full.flatten ++ last)).drop ((k + 1) * size) =
          (full.flatten ++ last).drop (k * size) := by
        rw [Nat.succ_mul, Nat.add_comm, ← List.drop_drop, List.drop_left' length]
      rw [skip]
      rw [List.length_append, length, Nat.succ_mul] at inside
      rcases ih (fun other mem => sizes other (.tail _ mem)) (k := k) (by omega) with mem | same
      · exact .inl (.tail _ mem)
      · exact .inr same

/-- Every block of as many draws as the pool holds, counted from the first draw, is a permutation of
it. -/
theorem Drawn.block_perm (h : Drawn pool round drawn) (distinct : pool.Nodup) {k : Nat}
    (inside : (k + 1) * pool.length ≤ drawn.length) :
    ((drawn.drop (k * pool.length)).take pool.length).Perm pool := by
  obtain ⟨full, rfl, perms⟩ := h.rounds distinct
  have isPartial := h.isPartial
  have short := (List.subperm_of_subset isPartial.distinct isPartial.within).length_le
  rcases drop_rounds (fun part mem => (perms part mem).length_eq) round inside short with mem |
    ⟨same, long⟩
  · exact perms _ mem
  · rw [same]
    exact isPartial.perm long

end Rounds
