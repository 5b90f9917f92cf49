import Mathlib.Algebra.GroupWithZero.Nat
import Mathlib.Algebra.Order.BigOperators.Group.List
import Mathlib.Algebra.Order.Group.Nat
import Mathlib.Data.List.Basic

/-!
# Simple serialize

A container is laid out as its fixed part, where a field of variable length leaves a four-byte offset,
followed by the variable fields. An offset holds 32 bits, so a value is read back from its encoding if
that is shorter than `offsetBound`.
-/

namespace Ssz

abbrev ByteList := List UInt8

/-! ### Integers -/

def uintBytes : Nat → Nat → ByteList
  | 0, _ => []
  | width + 1, value => UInt8.ofNat value :: uintBytes width (value / 256)

def readUint : ByteList → Nat
  | [] => 0
  | byte :: rest => byte.toNat + 256 * readUint rest

@[simp] theorem uintBytes_length (width value : Nat) : (uintBytes width value).length = width := by
  induction width generalizing value with
  | zero => rfl
  | succ width ih => rw [uintBytes, List.length_cons, ih]

theorem readUint_uintBytes {width value : Nat} (bound : value < 256 ^ width) :
    readUint (uintBytes width value) = value := by
  induction width generalizing value with
  | zero =>
    rw [Nat.pow_zero] at bound
    show 0 = value
    omega
  | succ width ih =>
    rw [Nat.pow_succ] at bound
    rw [uintBytes, readUint, ih (by omega), UInt8.toNat_ofNat']
    omega

/-! ### Offsets -/

def offsetLen : Nat := 4

def offsetBound : Nat := 256 ^ offsetLen

/-- The length of each field, `none` where it varies. -/
abbrev Shape := List (Option Nat)

def headLen (shape : Shape) : Nat := (shape.map (·.getD offsetLen)).sum

/-- The fixed part of some fields, whose variable parts go from `next` on. -/
def heads : Nat → List (Option Nat × ByteList) → ByteList
  | _, [] => []
  | next, (some _, part) :: rest => part ++ heads next rest
  | next, (none, part) :: rest => uintBytes offsetLen next ++ heads (next + part.length) rest

def bodies : List (Option Nat × ByteList) → ByteList
  | [] => []
  | (some _, _) :: rest => bodies rest
  | (none, part) :: rest => part ++ bodies rest

def join (fields : List (Option Nat × ByteList)) : ByteList :=
  heads (headLen (fields.map Prod.fst)) fields ++ bodies fields

/-- What the fixed part holds for a field: its bytes, or where they start. -/
inductive Slot
  | inline (part : ByteList)
  | body (start : Nat)

def readSlots : Shape → ByteList → Option (List Slot)
  | [], _ => some []
  | some len :: shape, bytes =>
    if bytes.length < len then none
    else (readSlots shape (bytes.drop len)).map (Slot.inline (bytes.take len) :: ·)
  | none :: shape, bytes =>
    if bytes.length < offsetLen then none
    else (readSlots shape (bytes.drop offsetLen)).map (Slot.body (readUint (bytes.take offsetLen)) :: ·)

def starts : List Slot → List Nat
  | [] => []
  | .inline _ :: rest => starts rest
  | .body start :: rest => start :: starts rest

/-- The first variable part follows the fixed part, and none starts before its predecessor or past the
end. Without variable parts nothing may follow. -/
def WellPlaced (head total : Nat) : List Nat → Prop
  | [] => head = total
  | first :: rest => first = head ∧ (first :: rest).IsChain (· ≤ ·) ∧
      ∀ start ∈ first :: rest, start ≤ total

instance (head total : Nat) : (starts : List Nat) → Decidable (WellPlaced head total starts)
  | [] => inferInstanceAs (Decidable (head = total))
  | first :: rest => inferInstanceAs (Decidable (first = head ∧ (first :: rest).IsChain (· ≤ ·) ∧
      ∀ start ∈ first :: rest, start ≤ total))

/-- Each variable part ends where the next one starts. -/
def cut (bytes : ByteList) : List Slot → List ByteList
  | [] => []
  | .inline part :: rest => part :: cut bytes rest
  | .body start :: rest => (bytes.take ((starts rest).headD bytes.length)).drop start :: cut bytes rest

def split (shape : Shape) (bytes : ByteList) : Option (List ByteList) :=
  (readSlots shape bytes).bind fun slots =>
    if WellPlaced (headLen shape) bytes.length (starts slots) then some (cut bytes slots) else none

/-! ### Reading back what was laid out -/

/-- A part of a field of fixed length has that length. -/
def Sized (fields : List (Option Nat × ByteList)) : Prop :=
  ∀ field ∈ fields, ∀ len, field.1 = some len → field.2.length = len

theorem Sized.tail {field : Option Nat × ByteList} {fields : List (Option Nat × ByteList)}
    (sized : Sized (field :: fields)) : Sized fields :=
  fun other mem => sized other (.tail _ mem)

theorem heads_length {fields : List (Option Nat × ByteList)} (sized : Sized fields) (next : Nat) :
    (heads next fields).length = headLen (fields.map Prod.fst) := by
  induction fields generalizing next with
  | nil => rfl
  | cons field fields ih =>
    obtain ⟨_ | len, part⟩ := field
    · rw [heads, List.length_append, ih sized.tail, uintBytes_length]
      rfl
    · rw [heads, List.length_append, ih sized.tail, sized (some len, part) (.head _) len rfl]
      rfl

theorem join_length {fields : List (Option Nat × ByteList)} (sized : Sized fields) :
    (join fields).length = headLen (fields.map Prod.fst) + (bodies fields).length := by
  rw [join, List.length_append, heads_length sized]

/-- The slots that the fixed part of some fields is read as. -/
def placed : Nat → List (Option Nat × ByteList) → List Slot
  | _, [] => []
  | next, (some _, part) :: rest => .inline part :: placed next rest
  | next, (none, part) :: rest => .body next :: placed (next + part.length) rest

theorem readSlots_heads {fields : List (Option Nat × ByteList)} (sized : Sized fields) {next : Nat}
    (fits : next + (bodies fields).length < offsetBound) (rest : ByteList) :
    readSlots (fields.map Prod.fst) (heads next fields ++ rest) = some (placed next fields) := by
  induction fields generalizing next with
  | nil => rfl
  | cons field fields ih =>
    obtain ⟨_ | len, part⟩ := field
    · rw [bodies, List.length_append] at fits
      have offset := uintBytes_length offsetLen next
      have read : readUint (uintBytes offsetLen next) = next := readUint_uintBytes (by
        rw [← offsetBound]
        omega)
      rw [List.map_cons, heads, readSlots, List.append_assoc, List.drop_left' offset,
        List.take_left' offset, read, ih sized.tail (by omega), if_neg]
      · rfl
      · rw [List.length_append, offset]
        omega
    · have inline := sized (some len, part) (.head _) len rfl
      rw [List.map_cons, heads, readSlots, List.append_assoc, List.drop_left' inline,
        List.take_left' inline, ih sized.tail fits, if_neg]
      · rfl
      · rw [List.length_append, inline]
        omega

theorem starts_placed_headD (fields : List (Option Nat × ByteList)) (next : Nat) :
    (starts (placed next fields)).headD (next + (bodies fields).length) = next := by
  induction fields generalizing next with
  | nil => rfl
  | cons field fields ih =>
    obtain ⟨_ | len, part⟩ := field
    · rfl
    · exact ih next

theorem starts_placed_bounds (fields : List (Option Nat × ByteList)) (next : Nat) :
    (next :: starts (placed next fields)).IsChain (· ≤ ·) ∧
      ∀ start ∈ starts (placed next fields), start ≤ next + (bodies fields).length := by
  induction fields generalizing next with
  | nil => exact ⟨.singleton next, nofun⟩
  | cons field fields ih =>
    obtain ⟨_ | len, part⟩ := field
    · obtain ⟨chain, bounded⟩ := ih (next + part.length)
      rw [placed, starts, bodies, List.length_append]
      refine ⟨.cons_cons (Nat.le_refl next) ?_, ?_⟩
      · cases later : starts (placed (next + part.length) fields) with
        | nil => exact .singleton next
        | cons start rest =>
          rw [later] at chain
          rw [List.isChain_cons_cons] at chain ⊢
          exact ⟨by omega, chain.2⟩
      · intro start mem
        rcases List.mem_cons.mp mem with rfl | mem
        · omega
        · have := bounded start mem
          omega
    · exact ih next

theorem wellPlaced_placed (fields : List (Option Nat × ByteList)) (next : Nat) :
    WellPlaced next (next + (bodies fields).length) (starts (placed next fields)) := by
  have first := starts_placed_headD fields next
  obtain ⟨chain, bounded⟩ := starts_placed_bounds fields next
  cases found : starts (placed next fields) with
  | nil =>
    rw [found] at first
    exact first.symm
  | cons start rest =>
    rw [found] at first chain bounded
    exact ⟨first, (List.isChain_cons_cons.mp chain).2, bounded⟩

theorem cut_placed {fields : List (Option Nat × ByteList)} {next : Nat} {before : ByteList}
    (length : before.length = next) :
    cut (before ++ bodies fields) (placed next fields) = fields.map Prod.snd := by
  induction fields generalizing next before with
  | nil => rfl
  | cons field fields ih =>
    obtain ⟨_ | len, part⟩ := field
    · have later : (before ++ part).length = next + part.length := by rw [List.length_append, length]
      have total : (before ++ part ++ bodies fields).length =
          next + part.length + (bodies fields).length := by
        rw [List.length_append, later]
      rw [placed, cut, bodies, ← List.append_assoc, ih later, total, starts_placed_headD,
        List.take_left' later, List.drop_left' length, List.map_cons]
    · rw [placed, cut, bodies, ih length, List.map_cons]

theorem split_join {fields : List (Option Nat × ByteList)} (sized : Sized fields)
    (fits : (join fields).length < offsetBound) :
    split (fields.map Prod.fst) (join fields) = some (fields.map Prod.snd) := by
  have total := join_length sized
  have slots : readSlots (fields.map Prod.fst) (join fields) = _ :=
    readSlots_heads sized (total ▸ fits) (bodies fields)
  have wellPlaced := wellPlaced_placed fields (headLen (fields.map Prod.fst))
  rw [← total] at wellPlaced
  rw [split, slots, Option.bind_some, if_pos wellPlaced, join, cut_placed (heads_length sized _)]

theorem bodies_eq_nil {fields : List (Option Nat × ByteList)}
    (fixed : (fields.map Prod.fst).all Option.isSome) : bodies fields = [] := by
  induction fields with
  | nil => rfl
  | cons field fields ih =>
    obtain ⟨_ | len, part⟩ := field
    · cases fixed
    · exact ih fixed

/-! ### Sizes -/

/-- What a field takes: its bytes, and an offset if their number varies. -/
def fieldSize (field : Option Nat × ByteList) : Nat :=
  field.2.length + if field.1.isNone then offsetLen else 0

@[simp] theorem fieldSize_some (len : Nat) (bytes : ByteList) :
    fieldSize (some len, bytes) = bytes.length := rfl

@[simp] theorem fieldSize_none (bytes : ByteList) : fieldSize (none, bytes) = bytes.length + offsetLen := rfl

theorem length_le_fieldSize (field : Option Nat × ByteList) : field.2.length ≤ fieldSize field :=
  Nat.le_add_right _ _

theorem fieldSize_le (field : Option Nat × ByteList) : fieldSize field ≤ field.2.length + offsetLen := by
  unfold fieldSize
  split <;> omega

theorem join_size (fields : List (Option Nat × ByteList)) :
    (join fields).length = (fields.map fieldSize).sum := by
  have laid : ∀ next, (heads next fields ++ bodies fields).length = (fields.map fieldSize).sum := by
    induction fields with
    | nil => exact fun _ => rfl
    | cons field fields ih =>
      intro next
      rw [List.map_cons, List.sum_cons]
      obtain ⟨_ | len, part⟩ := field
      · rw [← ih (next + part.length), heads, bodies]
        simp only [fieldSize, List.length_append, uintBytes_length, Option.isNone_none, if_true]
        omega
      · rw [← ih next, heads, bodies]
        simp [fieldSize]
  exact laid _

theorem length_le_join {fields : List (Option Nat × ByteList)} {field : Option Nat × ByteList}
    (mem : field ∈ fields) : field.2.length ≤ (join fields).length := by
  rw [join_size]
  exact Nat.le_trans (Nat.le_add_right _ _) (List.le_sum_of_mem (List.mem_map_of_mem mem))

/-! ### Codecs -/

structure Codec (α : Type) where
  fixedLen : Option Nat
  encode : α → ByteList
  decode : ByteList → Option α

/-- The values that a codec is for are read back, and those of a fixed length have it. -/
structure Codec.Lawful {α : Type} (codec : Codec α) (valid : α → Prop) : Prop where
  length : ∀ {len}, codec.fixedLen = some len → ∀ {value}, valid value →
    (codec.encode value).length = len
  decode_encode : ∀ {value}, valid value → (codec.encode value).length < offsetBound →
    codec.decode (codec.encode value) = some value

namespace Codec

variable {α β : Type}

def uint (width : Nat) : Codec Nat where
  fixedLen := some width
  encode := uintBytes width
  decode bytes := if bytes.length = width then some (readUint bytes) else none

@[simp] theorem uint_fixedLen (width : Nat) : (uint width).fixedLen = some width := rfl

@[simp] theorem uint_size (width value : Nat) : ((uint width).encode value).length = width :=
  uintBytes_length width value

theorem uint_lawful (width : Nat) : (uint width).Lawful (· < 256 ^ width) where
  length := by
    rintro len ⟨⟩ value -
    exact uintBytes_length width value
  decode_encode := by
    intro value bound _
    have read : readUint (uintBytes width value) = value := readUint_uintBytes bound
    exact (if_pos (uintBytes_length width value)).trans (congrArg some read)

/-- A byte vector of one length. -/
def byteVector (len : Nat) : Codec ByteList where
  fixedLen := some len
  encode := id
  decode bytes := if bytes.length = len then some bytes else none

@[simp] theorem byteVector_fixedLen (len : Nat) : (byteVector len).fixedLen = some len := rfl

@[simp] theorem byteVector_encode (len : Nat) (bytes : ByteList) :
    (byteVector len).encode bytes = bytes := rfl

theorem byteVector_lawful (len : Nat) : (byteVector len).Lawful (·.length = len) where
  length := by
    rintro _ ⟨⟩ value size
    exact size
  decode_encode := fun size _ => if_pos size

def byteString : Codec ByteList where
  fixedLen := none
  encode := id
  decode := some

theorem byteString_lawful : byteString.Lawful fun _ => True where
  length := nofun
  decode_encode := fun _ _ => rfl

def bool : Codec Bool where
  fixedLen := some 1
  encode value := [if value then 1 else 0]
  decode
    | [0] => some false
    | [1] => some true
    | _ => none

theorem bool_lawful : bool.Lawful fun _ => True where
  length := by
    rintro _ ⟨⟩ value -
    rfl
  decode_encode := by
    rintro (_ | _) - - <;> rfl

/-- A type that is encoded as another one and checked when it is read. -/
def via (codec : Codec α) (into : β → α) (tryFrom : α → Option β) : Codec β where
  fixedLen := codec.fixedLen
  encode value := codec.encode (into value)
  decode bytes := (codec.decode bytes).bind tryFrom

@[simp] theorem via_fixedLen (codec : Codec α) (into : β → α) (tryFrom : α → Option β) :
    (codec.via into tryFrom).fixedLen = codec.fixedLen := rfl

@[simp] theorem via_encode (codec : Codec α) (into : β → α) (tryFrom : α → Option β) (value : β) :
    (codec.via into tryFrom).encode value = codec.encode (into value) := rfl

theorem Lawful.via {codec : Codec α} {valid : α → Prop} (lawful : codec.Lawful valid) {into : β → α}
    {tryFrom : α → Option β} {good : β → Prop} (into_valid : ∀ value, good value → valid (into value))
    (back : ∀ value, good value → tryFrom (into value) = some value) :
    (codec.via into tryFrom).Lawful good where
  length := fun fixed _ isGood => lawful.length fixed (into_valid _ isGood)
  decode_encode := by
    intro value isGood fits
    show (codec.decode (codec.encode (into value))).bind tryFrom = some value
    rw [lawful.decode_encode (into_valid value isGood) fits, Option.bind_some, back value isGood]

/-- What bytes are read as. -/
def Accepts (codec : Codec α) (valid : α → Prop) : Prop :=
  ∀ bytes value, codec.decode bytes = some value → valid value

theorem accepts_any (codec : Codec α) : codec.Accepts fun _ => True := fun _ _ _ => trivial

theorem Accepts.via {codec : Codec α} {valid : α → Prop} (accepts : codec.Accepts valid) (into : β → α)
    {tryFrom : α → Option β} {good : β → Prop}
    (checked : ∀ {value read}, valid value → tryFrom value = some read → good read) :
    (codec.via into tryFrom).Accepts good := by
  intro bytes value decoded
  obtain ⟨inner, read, tried⟩ := Option.bind_eq_some_iff.mp decoded
  exact checked (accepts _ _ read) tried

/-- A string of at most `bound` bytes. -/
def byteList (bound : Nat) : Codec ByteList :=
  byteString.via id fun bytes => if bytes.length ≤ bound then some bytes else none

@[simp] theorem byteList_fixedLen (bound : Nat) : (byteList bound).fixedLen = none := rfl

@[simp] theorem byteList_encode (bound : Nat) (bytes : ByteList) :
    (byteList bound).encode bytes = bytes := rfl

theorem byteList_lawful (bound : Nat) : (byteList bound).Lawful (·.length ≤ bound) :=
  byteString_lawful.via (fun _ _ => trivial) fun _ bounded => if_pos bounded

theorem byteList_accepts (bound : Nat) : (byteList bound).Accepts (·.length ≤ bound) := by
  intro bytes value decoded
  obtain ⟨bounded, kept⟩ := Option.ite_none_right_eq_some.mp decoded
  cases kept
  exact bounded

/-- One byte selects how the others are read. -/
def union (encode : α → UInt8 × ByteList) (decode : UInt8 → ByteList → Option α) : Codec α where
  fixedLen := none
  encode value := (encode value).1 :: (encode value).2
  decode
    | [] => none
    | selector :: bytes => decode selector bytes

end Codec

/-! ### Containers -/

/-- The fields of a container, with a value for each in `α`. -/
structure Fields (α : Type) where
  shape : Shape
  parts : α → List ByteList
  build : List ByteList → Option α

structure Fields.Lawful {α : Type} (fields : Fields α) (valid : α → Prop) : Prop where
  count : ∀ value, (fields.parts value).length = fields.shape.length
  sized : ∀ {value}, valid value → Sized (fields.shape.zip (fields.parts value))
  build_parts : ∀ {value}, valid value → (∀ part ∈ fields.parts value, part.length < offsetBound) →
    fields.build (fields.parts value) = some value

namespace Fields

variable {α β : Type}

def nil : Fields Unit where
  shape := []
  parts _ := []
  build
    | [] => some ()
    | _ => none

theorem nil_lawful : nil.Lawful fun _ => True where
  count _ := rfl
  sized _ := nofun
  build_parts _ _ := rfl

def cons (codec : Codec α) (fields : Fields β) : Fields (α × β) where
  shape := codec.fixedLen :: fields.shape
  parts value := codec.encode value.1 :: fields.parts value.2
  build
    | [] => none
    | part :: rest => (codec.decode part).bind fun value => (fields.build rest).map (value, ·)

theorem Lawful.cons {codec : Codec α} {fields : Fields β} {valid : α → Prop} {others : β → Prop}
    (rest : fields.Lawful others) (lawful : codec.Lawful valid) :
    (Fields.cons codec fields).Lawful fun value => valid value.1 ∧ others value.2 where
  count value := congrArg (· + 1) (rest.count value.2)
  sized := by
    rintro value ⟨isValid, areValid⟩ field mem len fixed
    rcases List.mem_cons.mp mem with rfl | mem
    · exact lawful.length fixed isValid
    · exact rest.sized areValid field mem len fixed
  build_parts := by
    rintro value ⟨isValid, areValid⟩ fits
    obtain ⟨first, later⟩ := List.forall_mem_cons.mp fits
    show (codec.decode (codec.encode value.1)).bind _ = _
    rw [lawful.decode_encode isValid first, Option.bind_some, rest.build_parts areValid later]
    rfl

/-- A container is of fixed length if all its fields are. -/
def container (fields : Fields α) : Codec α where
  fixedLen := if fields.shape.all Option.isSome then some (headLen fields.shape) else none
  encode value := join (fields.shape.zip (fields.parts value))
  decode bytes := (split fields.shape bytes).bind fields.build

theorem Lawful.container {fields : Fields α} {valid : α → Prop} (lawful : fields.Lawful valid) :
    fields.container.Lawful valid where
  length := by
    intro len fixed value isValid
    have shape : (fields.shape.zip (fields.parts value)).map Prod.fst = fields.shape :=
      List.map_fst_zip (Nat.le_of_eq (lawful.count value).symm)
    simp only [Fields.container] at fixed
    split at fixed
    · rename_i allFixed
      cases fixed
      show (join _).length = _
      rw [join_length (lawful.sized isValid), shape, bodies_eq_nil (by rw [shape]; exact allFixed)]
      rfl
    · cases fixed
  decode_encode := by
    intro value isValid fits
    have shape : (fields.shape.zip (fields.parts value)).map Prod.fst = fields.shape :=
      List.map_fst_zip (Nat.le_of_eq (lawful.count value).symm)
    have parts : (fields.shape.zip (fields.parts value)).map Prod.snd = fields.parts value :=
      List.map_snd_zip (Nat.le_of_eq (lawful.count value))
    have cuts := split_join (lawful.sized isValid) fits
    rw [shape, parts] at cuts
    show (split fields.shape (join _)).bind fields.build = some value
    rw [cuts, Option.bind_some]
    apply lawful.build_parts isValid
    intro part mem
    rw [← parts] at mem
    obtain ⟨field, isField, rfl⟩ := List.mem_map.mp mem
    exact Nat.lt_of_le_of_lt (length_le_join isField) fits

@[simp] theorem nil_size (value : Unit) : (nil.container.encode value).length = 0 := rfl

@[simp] theorem cons_size (codec : Codec α) (fields : Fields β) (value : α × β) :
    ((cons codec fields).container.encode value).length =
      fieldSize (codec.fixedLen, codec.encode value.1) + (fields.container.encode value.2).length := by
  show (join _).length = _ + (join _).length
  rw [join_size, join_size]
  rfl

/-- What the fields are read as. -/
def Accepts (fields : Fields α) (valid : α → Prop) : Prop :=
  ∀ parts value, fields.build parts = some value → valid value

theorem nil_accepts : nil.Accepts fun _ => True := fun _ _ _ => trivial

theorem Accepts.cons {codec : Codec α} {fields : Fields β} {valid : α → Prop} {others : β → Prop}
    (rest : fields.Accepts others) (first : codec.Accepts valid) :
    (Fields.cons codec fields).Accepts fun value => valid value.1 ∧ others value.2 := by
  intro parts value built
  cases parts with
  | nil => cases built
  | cons part parts =>
    obtain ⟨head, decoded, built⟩ := Option.bind_eq_some_iff.mp built
    obtain ⟨tail, read, rfl⟩ := Option.map_eq_some_iff.mp built
    exact ⟨first _ _ decoded, rest _ _ read⟩

theorem Accepts.container {fields : Fields α} {valid : α → Prop} (accepts : fields.Accepts valid) :
    fields.container.Accepts valid := by
  intro bytes value decoded
  obtain ⟨parts, -, built⟩ := Option.bind_eq_some_iff.mp decoded
  exact accepts _ _ built

end Fields

/-- A container of one field. -/
def Codec.single {α : Type} (codec : Codec α) : Codec α :=
  (Fields.cons codec .nil).container.via (·, ()) (some ·.1)

theorem Codec.Lawful.single {α : Type} {codec : Codec α} {valid : α → Prop}
    (lawful : codec.Lawful valid) :
    codec.single.Lawful valid :=
  (Fields.nil_lawful.cons lawful).container.via (fun _ isValid => ⟨isValid, trivial⟩) fun _ _ => rfl

/-! ### Lists -/

namespace Codec

variable {α : Type}

/-- Elements of one length, read one after the other. -/
def decodeFixed (codec : Codec α) (len : Nat) : Nat → ByteList → Option (List α)
  | _, [] => some []
  | 0, _ :: _ => none
  | fuel + 1, byte :: bytes =>
    (codec.decode ((byte :: bytes).take len)).bind fun value =>
      (decodeFixed codec len fuel ((byte :: bytes).drop len)).map (value :: ·)

/-- Elements of varying length, after a table of their offsets whose first entry says how many. -/
def decodeVariable (codec : Codec α) (bytes : ByteList) : Option (List α) :=
  if bytes = [] then some []
  else
    let first := readUint (bytes.take offsetLen)
    if bytes.length < offsetLen ∨ first % offsetLen ≠ 0 ∨ first < offsetLen then none
    else (split (List.replicate (first / offsetLen) none) bytes).bind (·.mapM codec.decode)

/-- The elements of a list as fields of varying length. -/
def rows (codec : Codec α) (values : List α) : List (Option Nat × ByteList) :=
  values.map fun value => (none, codec.encode value)

def list (codec : Codec α) : Codec (List α) where
  fixedLen := none
  encode values :=
    match codec.fixedLen with
    | some _ => values.flatMap codec.encode
    | none => join (codec.rows values)
  decode bytes :=
    match codec.fixedLen with
    | some len => codec.decodeFixed len bytes.length bytes
    | none => codec.decodeVariable bytes

theorem Lawful.decodeFixed_flatMap {codec : Codec α} {valid : α → Prop}
    (lawful : codec.Lawful valid) {len : Nat} (fixed : codec.fixedLen = some len)
    (positive : 0 < len) {values : List α} (areValid : ∀ value ∈ values, valid value) {fuel : Nat}
    (enough : values.length ≤ fuel) (fits : (values.flatMap codec.encode).length < offsetBound) :
    codec.decodeFixed len fuel (values.flatMap codec.encode) = some values := by
  induction values generalizing fuel with
  | nil => cases fuel <;> rfl
  | cons value values ih =>
    obtain ⟨isValid, others⟩ := List.forall_mem_cons.mp areValid
    have length := lawful.length fixed isValid
    rw [List.flatMap_cons] at fits ⊢
    rw [List.length_append] at fits
    obtain ⟨fuel, rfl⟩ : ∃ n, fuel = n + 1 := ⟨fuel - 1, by rw [List.length_cons] at enough; omega⟩
    rw [List.length_cons] at enough
    have step : ∀ bytes : ByteList, bytes ≠ [] → codec.decodeFixed len (fuel + 1) bytes =
        (codec.decode (bytes.take len)).bind fun value =>
          (codec.decodeFixed len fuel (bytes.drop len)).map (value :: ·) := by
      intro bytes nonempty
      cases bytes with
      | nil => exact absurd rfl nonempty
      | cons byte bytes => rfl
    have nonempty : codec.encode value ++ values.flatMap codec.encode ≠ [] := by
      intro empty
      have := congrArg List.length empty
      rw [List.length_append, length] at this
      simp only [List.length_nil] at this
      omega
    rw [step _ nonempty, List.take_left' length, List.drop_left' length,
      lawful.decode_encode isValid (by omega), Option.bind_some, ih others (by omega) (by omega)]
    rfl

theorem length_le_flatMap {codec : Codec α} {valid : α → Prop} (lawful : codec.Lawful valid) {len : Nat}
    (fixed : codec.fixedLen = some len) (positive : 0 < len) {values : List α}
    (areValid : ∀ value ∈ values, valid value) :
    values.length ≤ (values.flatMap codec.encode).length := by
  induction values with
  | nil => exact Nat.le_refl 0
  | cons value values ih =>
    obtain ⟨isValid, others⟩ := List.forall_mem_cons.mp areValid
    have := ih others
    rw [List.flatMap_cons, List.length_append, lawful.length fixed isValid, List.length_cons]
    omega

theorem rows_sized (codec : Codec α) (values : List α) : Sized (codec.rows values) := by
  intro field mem len fixed
  obtain ⟨value, -, rfl⟩ := List.mem_map.mp mem
  cases fixed

theorem rows_shape (codec : Codec α) (values : List α) :
    (codec.rows values).map Prod.fst = List.replicate values.length none := by
  rw [rows, List.map_map]
  exact List.map_const'

theorem rows_parts (codec : Codec α) (values : List α) :
    (codec.rows values).map Prod.snd = values.map codec.encode := by
  rw [rows, List.map_map]
  rfl

theorem mapM_decode {codec : Codec α} {valid : α → Prop} (lawful : codec.Lawful valid) {values : List α}
    (areValid : ∀ value ∈ values, valid value)
    (fits : ∀ value ∈ values, (codec.encode value).length < offsetBound) :
    (values.map codec.encode).mapM codec.decode = some values := by
  induction values with
  | nil => rfl
  | cons value values ih =>
    obtain ⟨isValid, others⟩ := List.forall_mem_cons.mp areValid
    obtain ⟨first, later⟩ := List.forall_mem_cons.mp fits
    rw [List.map_cons, List.mapM_cons, lawful.decode_encode isValid first, ih others later]
    rfl

theorem Lawful.decodeVariable_rows {codec : Codec α} {valid : α → Prop} (lawful : codec.Lawful valid)
    {values : List α} (areValid : ∀ value ∈ values, valid value)
    (fits : (join (codec.rows values)).length < offsetBound) :
    codec.decodeVariable (join (codec.rows values)) = some values := by
  have sized := rows_sized codec values
  have total := join_length sized
  have cuts := split_join sized fits
  rw [rows_shape] at total
  rw [rows_shape, rows_parts] at cuts
  cases values with
  | nil => rfl
  | cons value values =>
    have table : headLen (List.replicate (value :: values).length none) =
        (value :: values).length * offsetLen := by
      simp [headLen]
    rw [table] at total
    have positive : 0 < offsetLen := by decide
    have long : offsetLen ≤ (value :: values).length * offsetLen :=
      Nat.le_mul_of_pos_left _ (Nat.succ_pos _)
    have first : (join (codec.rows (value :: values))).take offsetLen =
        uintBytes offsetLen ((value :: values).length * offsetLen) := by
      rw [join, rows_shape, table, rows, List.map_cons, heads, List.append_assoc]
      exact List.take_left' (uintBytes_length _ _)
    have read : readUint ((join (codec.rows (value :: values))).take offsetLen) =
        (value :: values).length * offsetLen := by
      rw [first]
      exact readUint_uintBytes (by rw [← offsetBound]; omega)
    have nonempty : join (codec.rows (value :: values)) ≠ [] := by
      intro empty
      rw [empty, List.length_nil] at total
      omega
    rw [Codec.decodeVariable, if_neg nonempty, read, if_neg, Nat.mul_div_cancel _ positive, cuts]
    · apply mapM_decode lawful areValid
      intro element mem
      have row : ((none : Option Nat), codec.encode element) ∈ codec.rows (value :: values) :=
        List.mem_map_of_mem mem
      exact Nat.lt_of_le_of_lt (length_le_join row) fits
    · rw [Nat.mul_mod_left]
      omega

/-- Elements of fixed length must not be empty. -/
theorem Lawful.list {codec : Codec α} {valid : α → Prop} (lawful : codec.Lawful valid)
    (positive : codec.fixedLen ≠ some 0) :
    codec.list.Lawful fun values => ∀ value ∈ values, valid value where
  length := nofun
  decode_encode := by
    intro values areValid fits
    simp only [Codec.list] at fits ⊢
    cases fixed : codec.fixedLen with
    | none =>
      rw [fixed] at fits
      exact lawful.decodeVariable_rows areValid fits
    | some len =>
      rw [fixed] at fits positive
      have positive : 0 < len := Nat.pos_of_ne_zero fun zero => positive (congrArg some zero)
      exact lawful.decodeFixed_flatMap fixed positive areValid
        (length_le_flatMap lawful fixed positive areValid) fits

@[simp] theorem list_fixedLen (codec : Codec α) : codec.list.fixedLen = none := rfl

@[simp] theorem list_size (codec : Codec α) (values : List α) : (codec.list.encode values).length =
    (values.map fun value => fieldSize (codec.fixedLen, codec.encode value)).sum := by
  simp only [Codec.list]
  cases codec.fixedLen with
  | none =>
    dsimp only
    rw [join_size, rows, List.map_map]
    rfl
  | some len =>
    dsimp only
    rw [List.length_flatMap]
    rfl

theorem list_size_le {codec : Codec α} {values : List α} {bound : Nat}
    (each : ∀ value ∈ values, fieldSize (codec.fixedLen, codec.encode value) ≤ bound) :
    (codec.list.encode values).length ≤ values.length * bound := by
  rw [list_size]
  induction values with
  | nil => exact Nat.zero_le _
  | cons value values ih =>
    have first := each value (.head _)
    have rest := ih fun other mem => each other (.tail _ mem)
    rw [List.map_cons, List.sum_cons, List.length_cons, Nat.succ_mul]
    omega

theorem length_le_list {codec : Codec α} {values : List α} {value : α} (mem : value ∈ values) :
    (codec.encode value).length ≤ (codec.list.encode values).length := by
  rw [list_size]
  exact Nat.le_trans (Nat.le_add_right _ _) (List.le_sum_of_mem (List.mem_map_of_mem mem))

/-- A list with at most `bound` elements. -/
def variableList (codec : Codec α) (bound : Nat) : Codec (List α) :=
  codec.list.via id fun values => if values.length ≤ bound then some values else none

theorem Lawful.variableList {codec : Codec α} {valid : α → Prop} (lawful : codec.Lawful valid)
    (positive : codec.fixedLen ≠ some 0) (bound : Nat) :
    (codec.variableList bound).Lawful fun values =>
      (∀ value ∈ values, valid value) ∧ values.length ≤ bound :=
  (lawful.list positive).via (fun _ good => good.1) fun _ good => if_pos good.2

end Codec
end Ssz
