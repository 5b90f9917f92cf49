import Mathlib.Data.List.GetD
import Mathlib.Data.Nat.Bitwise

/-!
# Bits in bytes

A vector of bits kept in bytes, the least significant bit first. The last byte can have bits past
the end of the vector. No operation reads them, but they are stored with the rest.
-/

structure PackedBits where
  len : Nat
  bytes : List UInt8
  size : bytes.length = (len + 7) / 8
  deriving DecidableEq

namespace PackedBits

/-! ### Bytes -/

def bitAt (bytes : List UInt8) (i : Nat) : Bool := (bytes.getD (i / 8) 0).toBitVec.getLsbD (i % 8)

def setBit (byte : UInt8) (i : Nat) (value : Bool) : UInt8 :=
  let mask : UInt8 := UInt8.ofBitVec (BitVec.twoPow 8 i)
  if value then byte ||| mask else byte &&& ~~~mask

def setAt (bytes : List UInt8) (i : Nat) (value : Bool) : List UInt8 :=
  bytes.modify (i / 8) (setBit · (i % 8) value)

theorem setBit_getLsbD {i j : Nat} (small : j < 8) (byte : UInt8) (value : Bool) :
    (setBit byte i value).toBitVec.getLsbD j = if i = j then value else byte.toBitVec.getLsbD j := by
  unfold setBit
  have mask : (BitVec.twoPow 8 i).getLsbD j = decide (i = j) := by
    rw [BitVec.getLsbD_twoPow]
    by_cases same : i = j
    · simp [same, small]
    · simp [same]
  generalize BitVec.twoPow 8 i = bit at mask ⊢
  cases value with
  | false =>
    rw [if_neg (by decide), UInt8.toBitVec_and, UInt8.toBitVec_not, BitVec.getLsbD_and,
      BitVec.getLsbD_not, mask]
    by_cases same : i = j <;> simp [same, small]
  | true =>
    rw [if_pos rfl, UInt8.toBitVec_or, BitVec.getLsbD_or, mask]
    by_cases same : i = j <;> simp [same]

@[simp] theorem setAt_length (bytes : List UInt8) (i : Nat) (value : Bool) :
    (setAt bytes i value).length = bytes.length := List.length_modify ..

theorem bitAt_setAt {bytes : List UInt8} {i : Nat} (inside : i / 8 < bytes.length) (value : Bool)
    (j : Nat) :
    bitAt (setAt bytes i value) j = if i = j then value else bitAt bytes j := by
  simp only [bitAt, setAt, List.getD_eq_getElem?_getD, List.getElem?_modify]
  by_cases sameByte : i / 8 = j / 8
  · rw [sameByte] at inside
    have sameBit : i = j ↔ i % 8 = j % 8 := by omega
    simp only [sameByte, List.getElem?_eq_getElem inside, if_true, Option.map_eq_map, Option.map_some,
      Option.getD_some, sameBit]
    exact setBit_getLsbD (Nat.mod_lt _ (by decide)) _ _
  · have different : i ≠ j := fun same => sameByte (congrArg (· / 8) same)
    simp [sameByte, different]

theorem bitAt_of_le {bytes : List UInt8} {i : Nat} (outside : bytes.length * 8 ≤ i) :
    bitAt bytes i = false := by
  rw [bitAt, List.getD_eq_default _ _ (by omega)]
  exact BitVec.getLsbD_zero

theorem bitAt_append_zeros (bytes : List UInt8) (count i : Nat) :
    bitAt (bytes ++ List.replicate count 0) i = bitAt bytes i := by
  have padded : (bytes ++ List.replicate count 0).getD (i / 8) 0 = bytes.getD (i / 8) 0 := by
    by_cases inside : i / 8 < bytes.length
    · rw [List.getD_append _ _ _ _ inside]
    · rw [List.getD_append_right _ _ _ _ (by omega), List.getD_eq_default bytes _ (by omega),
        List.getD_eq_getElem?_getD, List.getElem?_replicate]
      split <;> rfl
  rw [bitAt, bitAt, padded]

theorem bitAt_zeros (count i : Nat) : bitAt (List.replicate count 0) i = false :=
  (bitAt_append_zeros [] count i).trans (bitAt_of_le (Nat.zero_le i))

/-- Bytes are told apart by their bits. -/
theorem eq_of_bitAt {bytes others : List UInt8} (length : bytes.length = others.length)
    (same : ∀ i, bitAt bytes i = bitAt others i) : bytes = others := by
  apply List.ext_getElem length
  intro i inside otherInside
  rw [← UInt8.toBitVec_inj]
  apply BitVec.eq_of_getLsbD_eq
  intro j small
  have bit := same (8 * i + j)
  have byte : (8 * i + j) / 8 = i := by omega
  have rest : (8 * i + j) % 8 = j := by omega
  rw [bitAt, bitAt, byte, rest, List.getD_eq_getElem _ _ inside,
    List.getD_eq_getElem _ _ otherInside] at bit
  exact bit

/-- A run of bits set to one value. -/
def setRun (value : Bool) (start : Nat) : Nat → List UInt8 → List UInt8
  | 0, bytes => bytes
  | count + 1, bytes => setRun value (start + 1) count (setAt bytes start value)

@[simp] theorem setRun_length (value : Bool) (start count : Nat) (bytes : List UInt8) :
    (setRun value start count bytes).length = bytes.length := by
  induction count generalizing start bytes with
  | zero => rfl
  | succ count ih => rw [setRun, ih, setAt_length]

theorem bitAt_setRun {value : Bool} {start count : Nat} {bytes : List UInt8}
    (inside : start + count ≤ bytes.length * 8) (j : Nat) :
    bitAt (setRun value start count bytes) j =
      if start ≤ j ∧ j < start + count then value else bitAt bytes j := by
  induction count generalizing start bytes with
  | zero => rw [if_neg (by omega), setRun]
  | succ count ih =>
    rw [setRun, ih (by rw [setAt_length]; omega), bitAt_setAt (by omega)]
    by_cases first : start = j
    · rw [if_neg (by omega), if_pos first, if_pos (by omega)]
    · rw [if_neg first]
      by_cases within : start + 1 ≤ j ∧ j < start + 1 + count
      · rw [if_pos within, if_pos (by omega)]
      · rw [if_neg within, if_neg (by omega)]

/-! ### Vectors -/

def empty : PackedBits := ⟨0, [], rfl⟩

def ofBytes (bytes : List UInt8) : PackedBits := ⟨bytes.length * 8, bytes, by omega⟩

/-- The whole bytes are filled, bits past the end included. -/
def ofValue (value : Bool) (len : Nat) : PackedBits :=
  ⟨len, List.replicate ((len + 7) / 8) (if value then 255 else 0), List.length_replicate⟩

def truncate (v : PackedBits) (len : Nat) : PackedBits :=
  if shorter : len < v.len then
    ⟨len, v.bytes.take ((len + 7) / 8), by rw [List.length_take, v.size]; omega⟩
  else v

def set (v : PackedBits) (i : Nat) (value : Bool) : PackedBits :=
  ⟨v.len, setAt v.bytes i value, by rw [setAt_length, v.size]⟩

/-- New bytes are zero before the new bits are set, and bits that fall away stay in the last byte. -/
def resize (v : PackedBits) (len : Nat) (value : Bool) : PackedBits :=
  if longer : v.len < len then
    ⟨len, setRun value v.len (len - v.len)
      (v.bytes ++ List.replicate ((len + 7) / 8 - v.bytes.length) 0), by
      rw [setRun_length, List.length_append, List.length_replicate, v.size]
      omega⟩
  else v.truncate len

/-- The bit at a position, cleared past the end. -/
def get (v : PackedBits) (i : Nat) : Bool := decide (i < v.len) && bitAt v.bytes i

/-- Whole bytes are flipped, bits past the end included. -/
def not (v : PackedBits) : PackedBits :=
  ⟨v.len, v.bytes.map (~~~ ·), by rw [List.length_map, v.size]⟩

/-- The other vector counts as cleared past its end. -/
def and (v other : PackedBits) : PackedBits :=
  ⟨v.len, v.bytes.mapIdx fun i byte => byte &&& other.bytes.getD i 0, by
    rw [List.length_mapIdx, v.size]⟩

def bits (v : PackedBits) : List Bool := (List.range v.len).map (bitAt v.bytes)

@[simp] theorem bits_length (v : PackedBits) : v.bits.length = v.len := by simp [bits]

theorem bits_getElem? (v : PackedBits) (i : Nat) :
    v.bits[i]? = if i < v.len then some (bitAt v.bytes i) else none := by
  rw [bits, List.getElem?_map]
  by_cases inside : i < v.len
  · rw [List.getElem?_range inside, if_pos inside]
    rfl
  · rw [List.getElem?_eq_none (by simpa using inside), if_neg inside]
    rfl

theorem get_lt {v : PackedBits} {i : Nat} (set : v.get i) : i < v.len := by
  rw [get, Bool.and_eq_true, decide_eq_true_eq] at set
  exact set.1

theorem get_of_le {v : PackedBits} {i : Nat} (outside : v.len ≤ i) : v.get i = false := by
  rw [get, decide_eq_false (Nat.not_lt.mpr outside), Bool.false_and]

theorem get_of_lt {v : PackedBits} {i : Nat} (inside : i < v.len) : v.get i = bitAt v.bytes i := by
  rw [get, decide_eq_true inside, Bool.true_and]

theorem ofValue_false_get (len i : Nat) : (ofValue false len).get i = false := by
  show (_ && bitAt (List.replicate _ 0) i) = false
  rw [bitAt_zeros, Bool.and_false]

theorem bits_eq (v : PackedBits) : v.bits = (List.range v.len).map v.get :=
  List.map_congr_left fun _ mem => (get_of_lt (List.mem_range.mp mem)).symm

theorem set_get {v : PackedBits} {i : Nat} (inside : i < v.len) (value : Bool) (j : Nat) :
    (v.set i value).get j = if j = i then value else v.get j := by
  have byte : i / 8 < v.bytes.length := by
    rw [v.size]
    omega
  show (decide (j < v.len) && bitAt (setAt v.bytes i value) j) = _
  rw [bitAt_setAt byte]
  by_cases same : j = i
  · subst same
    simp [inside]
  · simp [same, Ne.symm same, get]

theorem resize_len {v : PackedBits} {len : Nat} (longer : v.len < len) (value : Bool) :
    (v.resize len value).len = len := by
  rw [resize, dif_pos longer]

theorem resize_get {v : PackedBits} {len : Nat} (longer : v.len < len) (value : Bool) (j : Nat) :
    (v.resize len value).get j = if v.len ≤ j ∧ j < len then value else v.get j := by
  have room : v.len + (len - v.len) ≤
      (v.bytes ++ List.replicate ((len + 7) / 8 - v.bytes.length) (0 : UInt8)).length * 8 := by
    rw [List.length_append, List.length_replicate, v.size]
    omega
  have total : v.len + (len - v.len) = len := by omega
  rw [resize, dif_pos longer, get, get, bitAt_setRun room, bitAt_append_zeros, total]
  by_cases old : j < v.len
  · simp [old, Nat.lt_trans old longer, Nat.not_le.mpr old]
  · by_cases new : j < len <;> simp [old, new, Nat.le_of_not_lt old]

theorem truncate_len {v : PackedBits} {len : Nat} (fits : len ≤ v.len) : (v.truncate len).len = len := by
  unfold truncate
  split
  · rfl
  · omega

theorem truncate_get {v : PackedBits} {len i : Nat} (inside : i < len) :
    (v.truncate len).get i = v.get i := by
  unfold truncate
  split
  · have kept : (v.bytes.take ((len + 7) / 8)).getD (i / 8) 0 = v.bytes.getD (i / 8) 0 := by
      rw [List.getD_eq_getElem?_getD, List.getElem?_take_of_lt (by omega), ← List.getD_eq_getElem?_getD]
    rw [get_of_lt inside, get_of_lt (by omega), bitAt, bitAt, kept]
  · rfl

theorem not_get {v : PackedBits} {i : Nat} (inside : i < v.len) : v.not.get i = !v.get i := by
  have byte : i / 8 < v.bytes.length := by
    rw [v.size]
    omega
  have small : i % 8 < 8 := Nat.mod_lt i (by decide)
  rw [get_of_lt (v := v.not) inside, get_of_lt inside, bitAt, bitAt, List.getD_eq_getElem _ _ byte,
    List.getD_eq_getElem _ _ (by rw [not, List.length_map]; exact byte)]
  simp [not, small]

theorem and_get {v other : PackedBits} (i : Nat) (sameLen : v.len = other.len) :
    (v.and other).get i = (v.get i && other.get i) := by
  have both : bitAt (v.and other).bytes i = (bitAt v.bytes i && bitAt other.bytes i) := by
    simp only [and, bitAt, List.getD_eq_getElem?_getD, List.getElem?_mapIdx]
    cases v.bytes[i / 8]? <;> simp
  rw [get, both, get, get, ← sameLen]
  show (decide (i < v.len) && _) = _
  cases decide (i < v.len) <;> simp

/-- Reading back the bytes of a vector and its length gives the vector. -/
theorem ofBytes_truncate (v : PackedBits) : (ofBytes v.bytes).truncate v.len = v := by
  obtain ⟨len, bytes, size⟩ := v
  unfold truncate ofBytes
  split
  · rename_i shorter
    congr
    exact List.take_of_length_le (by dsimp only at *; omega)
  · rename_i full
    dsimp only at full
    have same : bytes.length * 8 = len := by omega
    subst same
    rfl

/-! ### Clean vectors -/

/-- The bits past the end are zero. -/
def Clean (v : PackedBits) : Prop := ∀ i, v.len ≤ i → bitAt v.bytes i = false

theorem Clean.eq_of_bits {v w : PackedBits} (clean : v.Clean) (other : w.Clean)
    (same : v.bits = w.bits) :
    v = w := by
  have len : v.len = w.len := by rw [← v.bits_length, same, w.bits_length]
  have bytes : v.bytes = w.bytes := by
    apply eq_of_bitAt
    · rw [v.size, w.size, len]
    · intro i
      by_cases inside : i < v.len
      · have bit := v.bits_getElem? i
        rw [same, w.bits_getElem?, if_pos inside, if_pos (len ▸ inside)] at bit
        exact (Option.some.inj bit).symm
      · rw [clean i (by omega), other i (by omega)]
  obtain ⟨_, _, _⟩ := v
  obtain ⟨_, _, _⟩ := w
  cases len
  cases bytes
  rfl

theorem empty_clean : empty.Clean := fun _ _ => bitAt_of_le (Nat.zero_le _)

theorem ofValue_false_clean (len : Nat) : (ofValue false len).Clean :=
  fun i _ => bitAt_zeros ((len + 7) / 8) i

theorem Clean.set {v : PackedBits} (clean : v.Clean) {i : Nat} (inside : i < v.len) (value : Bool) :
    (v.set i value).Clean := by
  intro j outside
  have past : v.len ≤ j := outside
  show bitAt (setAt v.bytes i value) j = false
  rw [bitAt_setAt (by rw [v.size]; omega), if_neg (by omega), clean j past]

theorem Clean.resize {v : PackedBits} (clean : v.Clean) {len : Nat} (longer : v.len < len)
    (value : Bool) :
    (v.resize len value).Clean := by
  have room : v.len + (len - v.len) ≤
      (v.bytes ++ List.replicate ((len + 7) / 8 - v.bytes.length) (0 : UInt8)).length * 8 := by
    rw [List.length_append, List.length_replicate, v.size]
    omega
  rw [PackedBits.resize, dif_pos longer]
  intro j outside
  dsimp only at outside ⊢
  rw [bitAt_setRun room, if_neg (by omega), bitAt_append_zeros, clean j (by omega)]

end PackedBits
