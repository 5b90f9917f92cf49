import AnchorStateMachine.Bridge.Types
import Mathlib.Data.List.GetD
import Mathlib.Data.List.Nodup

/-! What the bitmap operations compute, in terms of `len` and `isActive`. -/

namespace Asm.OperatorBitmap

theorem isActive_lt {bitmap : OperatorBitmap} {idx : Nat} (active : bitmap.isActive idx) :
    idx < bitmap.len := PackedBits.get_lt active

@[simp] theorem newWithSize_len (size : Nat) (state : Bool) : (newWithSize size state).len = size := rfl

@[simp] theorem newWithSize_isActive_false (size idx : Nat) :
    (newWithSize size false).isActive idx = false := PackedBits.ofValue_false_get size idx

@[simp] theorem newEmpty_len : newEmpty.len = 0 := rfl

@[simp] theorem newEmpty_isActive (idx : Nat) : newEmpty.isActive idx = false := rfl

/-! ### Setting a bit -/

/-- The bits that one is set in: the bitmap itself, or one longer. -/
theorem trySet_cases {bitmap result : OperatorBitmap} {idx : Nat} {active : Bool}
    (h : bitmap.trySet idx active = .ok result) :
    (idx < bitmap.len ∧ result = ⟨bitmap.bits.set idx active⟩) ∨
    (idx = bitmap.len ∧ result = ⟨(bitmap.bits.resize (idx + 1) false).set idx active⟩) := by
  unfold trySet at h
  split at h
  · cases h
  · rename_i inBounds
    cases h
    by_cases grows : idx = bitmap.len
    · exact .inr ⟨grows, by rw [if_pos grows]⟩
    · exact .inl ⟨by omega, by rw [if_neg grows]⟩

theorem trySet_ok {bitmap result : OperatorBitmap} {idx : Nat} {active : Bool}
    (h : bitmap.trySet idx active = .ok result) :
    idx ≤ bitmap.len ∧ result.len = max bitmap.len (idx + 1) ∧
      ∀ i, result.isActive i = if i = idx then active else bitmap.isActive i := by
  rcases trySet_cases h with ⟨inside, rfl⟩ | ⟨rfl, rfl⟩
  · refine ⟨inside.le, ?_, fun i => ?_⟩
    · show bitmap.len = _
      omega
    · exact PackedBits.set_get inside active i
  · have longer : bitmap.bits.len < bitmap.len + 1 := Nat.lt_succ_self _
    have len := PackedBits.resize_len longer false
    refine ⟨Nat.le_refl _, ?_, fun i => ?_⟩
    · show (bitmap.bits.resize (bitmap.len + 1) false).len = _
      rw [len]
      omega
    · rw [isActive, PackedBits.set_get (by rw [len]; omega), PackedBits.resize_get longer]
      by_cases new : i = bitmap.len
      · rw [if_pos new, if_pos new]
      · have outside : ¬ (bitmap.bits.len ≤ i ∧ i < bitmap.len + 1) := fun within =>
          new (Nat.le_antisymm (Nat.le_of_lt_succ within.2) within.1)
        rw [if_neg new, if_neg new, if_neg outside]
        rfl

theorem trySet_total {bitmap : OperatorBitmap} {idx : Nat} (active : Bool)
    (bound : idx ≤ bitmap.len) : ∃ result, bitmap.trySet idx active = .ok result := by
  unfold trySet
  rw [if_neg (Nat.not_lt.mpr bound)]
  exact ⟨_, rfl⟩

/-! ### Set positions -/

theorem activeIndices_eq {bitmap : OperatorBitmap} (bound : bitmap.len ≤ u32Bound) :
    bitmap.activeIndices = (List.range bitmap.len).filter bitmap.isActive := by
  unfold activeIndices
  apply List.map_congr_left (g := id) _ |>.trans (List.map_id _)
  intro i mem
  have inside : i < bitmap.len := List.mem_range.mp (List.mem_of_mem_filter mem)
  exact Nat.mod_eq_of_lt (Nat.lt_of_lt_of_le inside bound)

theorem mem_activeIndices {bitmap : OperatorBitmap} (bound : bitmap.len ≤ u32Bound) {idx : Nat} :
    idx ∈ bitmap.activeIndices ↔ bitmap.isActive idx := by
  rw [activeIndices_eq bound, List.mem_filter, List.mem_range]
  exact ⟨fun h => h.2, fun h => ⟨isActive_lt h, h⟩⟩

theorem length_activeIndices (bitmap : OperatorBitmap) :
    bitmap.activeIndices.length = bitmap.activeCount := by
  unfold activeIndices activeCount
  rw [List.length_map, ← List.countP_eq_length_filter, PackedBits.bits_eq, List.count,
    List.countP_map]
  congr 1
  funext i
  simp [isActive]

theorem activeCount_pos_iff {bitmap : OperatorBitmap} :
    0 < bitmap.activeCount ↔ ∃ idx, bitmap.isActive idx := by
  unfold activeCount
  rw [List.count_pos_iff, PackedBits.bits_eq, List.mem_map]
  constructor
  · rintro ⟨i, -, set⟩
    exact ⟨i, set⟩
  · rintro ⟨i, set⟩
    exact ⟨i, List.mem_range.mpr (isActive_lt set), set⟩

/-! ### Eligible operators -/

/-- On bitmaps of fitting lengths the filter succeeds and keeps exactly the operators of the notary
set that are in the multisig and were not tried. -/
theorem filterEligibleOperators_ok {notary previous current : OperatorBitmap}
    (sameLen : notary.len = previous.len) (fits : notary.len ≤ current.len) :
    ∃ eligible, filterEligibleOperators notary previous current = .ok eligible ∧
      eligible.len = notary.len ∧
      ∀ i, eligible.isActive i = (current.isActive i && notary.isActive i && !previous.isActive i) := by
  have len : (current.bits.truncate notary.len).len = notary.len := PackedBits.truncate_len fits
  unfold filterEligibleOperators
  rw [if_neg (by simpa using sameLen), if_neg (Nat.not_lt.mpr fits)]
  refine ⟨_, rfl, len, fun i => ?_⟩
  have twice : ((current.bits.truncate notary.len).and notary.bits).len = previous.bits.not.len :=
    len.trans sameLen
  show (((current.bits.truncate notary.len).and notary.bits).and previous.bits.not).get i = _
  rw [PackedBits.and_get i twice, PackedBits.and_get i len]
  by_cases inside : i < notary.len
  · rw [PackedBits.truncate_get inside, PackedBits.not_get (inside.trans_eq sameLen)]
    rfl
  · have outside : notary.isActive i = false := PackedBits.get_of_le (Nat.le_of_not_lt inside)
    have cut : (current.bits.truncate notary.len).get i = false := PackedBits.get_of_le (by omega)
    rw [cut, outside]
    simp

end Asm.OperatorBitmap
