import Mathlib.Data.List.Basic

/-!
# Texts made of lines

A text joined from lines by newlines can be read back line by line, as far as its lines contain no
newline themselves. What follows the lines that are read may be anything.
-/

namespace Lines

/-- A line holds no newline. -/
def Plain (line : String) : Prop := '\n' ∉ line.toList

instance (line : String) : Decidable (Plain line) := inferInstanceAs (Decidable (¬ _))

theorem plain_append {line more : String} (first : Plain line) (second : Plain more) :
    Plain (line ++ more) := by
  simpa [Plain] using And.intro first second

theorem plain_nat (n : Nat) : Plain (toString n) := by
  intro mem
  have digits : (toString n).toList = Nat.toDigits 10 n := Nat.toList_repr
  rw [digits] at mem
  have isDigit := Nat.isDigit_of_mem_toDigits (by decide) (by decide) mem
  exact absurd isDigit (by decide)

theorem toString_nat_inj {m n : Nat} (same : toString m = toString n) : m = n := by
  have digits : Nat.toDigits 10 m = Nat.toDigits 10 n := String.ofList_inj.mp same
  rw [← Nat.ofDigitChars_ten_toDigits (n := m), digits, Nat.ofDigitChars_ten_toDigits]

def read (text : String) : List (List Char) := text.toList.splitOn '\n'

theorem read_take {lines : List String} (plain : ∀ line ∈ lines, Plain line) (rest : List String) :
    lines ≠ [] → (read ("\n".intercalate (lines ++ rest))).take lines.length =
      lines.map String.toList := by
  induction lines with
  | nil => exact fun empty => absurd rfl empty
  | cons line lines ih =>
    intro _
    have single := plain line (.head _)
    by_cases last : lines ++ rest = []
    · obtain ⟨rfl, rfl⟩ := List.append_eq_nil_iff.mp last
      simp [read, List.splitOn_eq_singleton single]
    · have split : read ("\n".intercalate (line :: (lines ++ rest))) =
          line.toList :: read ("\n".intercalate (lines ++ rest)) := by
        rw [read, read, String.intercalate_cons_of_ne_nil last, List.splitOn, List.splitOn]
        simp only [String.toList_append, List.append_assoc]
        refine List.splitOnP_append_cons_of_forall_mem (fun c mem => ?_) '\n' (by simp) _
        simp only [beq_eq_false_iff_ne]
        rintro rfl
        exact single mem
      rw [List.cons_append, split, List.length_cons, List.take_succ_cons, List.map_cons]
      congr 1
      by_cases more : lines = []
      · simp [more]
      · exact ih (fun line mem => plain line (.tail _ mem)) more

/-- A text determines its lines. -/
theorem intercalate_inj {lines others : List String} (plain : ∀ line ∈ lines, Plain line)
    (plainOthers : ∀ line ∈ others, Plain line) (some : lines ≠ []) (someOthers : others ≠ [])
    (same : "\n".intercalate lines = "\n".intercalate others) : lines = others := by
  have split : ∀ lines : List String, (∀ line ∈ lines, Plain line) → lines ≠ [] →
      read ("\n".intercalate lines) = lines.map String.toList := by
    intro lines plain some
    rw [read, String.toList_intercalate]
    refine List.splitOn_intercalate '\n' ?_ (by simpa using some)
    intro line mem
    obtain ⟨line, isLine, rfl⟩ := List.mem_map.mp mem
    exact plain line isLine
  have texts : lines.map String.toList = others.map String.toList := by
    rw [← split lines plain some, same, split others plainOthers someOthers]
  exact List.map_inj_right (fun _ _ => String.toList_inj.mp) |>.mp texts

end Lines
