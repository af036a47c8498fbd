import Mathlib.Data.List.Basic

/-!
# Delimited text and decimal numerals

A line of delimited text is its fields with a delimiter between them, and a text is its lines with
a terminator after each. `fields` and `lines` read them back. `decimal` writes a natural number
in base ten and `readDecimal` reads it; a numeral has digits only, so that no delimiter falls
inside it.
-/

set_option autoImplicit false
set_option relaxedAutoImplicit false

namespace PcmWrapper.Library

variable {α : Type*} [BEq α] [LawfulBEq α]

/-- The fields of a line, which a delimiter separates. -/
def fields (delimiter : α) (line : List α) : List (List α) := line.splitOn delimiter

/-- The lines of a text, each of which a terminator ends. -/
def lines (terminator : α) (text : List α) : List (List α) := (text.splitOn terminator).dropLast

/-- Fields free of the delimiter are read back from the line they make. -/
theorem fields_intercalate {delimiter : α} {row : List (List α)} (hrow : row ≠ [])
    (hfree : ∀ field ∈ row, delimiter ∉ field) :
    fields delimiter ([delimiter].intercalate row) = row :=
  List.splitOn_intercalate delimiter hfree hrow

omit [BEq α] [LawfulBEq α] in
/-- A character that is in no field and not in the delimiter is not in the line they make. -/
theorem notMem_intercalate {c : α} {delimiter : List α} {row : List (List α)}
    (hdelimiter : c ∉ delimiter) (hrow : ∀ field ∈ row, c ∉ field) :
    c ∉ delimiter.intercalate row := by
  induction row with
  | nil => exact List.not_mem_nil
  | cons field row ih =>
    have hfield := hrow field List.mem_cons_self
    have hrest := ih fun other hother ↦ hrow other (List.mem_cons_of_mem field hother)
    by_cases hnil : row = []
    · rw [hnil, List.intercalate_singleton]
      exact hfield
    · rw [List.intercalate_cons_of_ne_nil hnil, List.mem_append, List.mem_append]
      exact not_or_intro (not_or_intro hfield hdelimiter) hrest

/-- The first line of a text, when it is free of the terminator. -/
theorem lines_cons {terminator : α} {line : List α} (hfree : terminator ∉ line) (text : List α) :
    lines terminator (line ++ terminator :: text) = line :: lines terminator text := by
  rw [lines, List.splitOn_append_cons_self_of_not_mem hfree,
    List.dropLast_cons_of_ne_nil (List.splitOn_ne_nil terminator text), lines]

/-- Lines free of the terminator are read back from the text they make. -/
theorem lines_flatMap {terminator : α} {rows : List (List α)}
    (hfree : ∀ line ∈ rows, terminator ∉ line) :
    lines terminator (rows.flatMap (· ++ [terminator])) = rows := by
  induction rows with
  | nil => simp [lines, List.splitOn_eq_singleton]
  | cons line rows ih =>
    have hrest := ih fun other hother ↦ hfree other (List.mem_cons_of_mem line hother)
    rw [List.flatMap_cons, List.append_assoc, List.singleton_append,
      lines_cons (hfree line List.mem_cons_self), hrest]

/-- A natural number in base ten. -/
def decimal (n : ℕ) : List Char := Nat.toDigits 10 n

/-- The number a numeral in base ten stands for. -/
def readDecimal (numeral : List Char) : Option ℕ :=
  if numeral ≠ [] ∧ numeral.all Char.isDigit then some (Nat.ofDigitChars 10 numeral 0) else none

/-- The characters of a numeral are digits. -/
theorem isDigit_of_mem_decimal {n : ℕ} {c : Char} (hc : c ∈ decimal n) : c.isDigit :=
  Nat.isDigit_of_mem_toDigits (by decide) (by decide) hc

/-- A numeral is not empty. -/
theorem decimal_ne_nil (n : ℕ) : decimal n ≠ [] := Nat.toDigits_ne_nil

/-- A character that is no digit does not occur in a numeral. -/
theorem notMem_decimal {c : Char} (hc : c.isDigit = false) (n : ℕ) : c ∉ decimal n := by
  intro hmem
  rw [isDigit_of_mem_decimal hmem] at hc
  cases hc

/-- A numeral is read back as its number. -/
theorem readDecimal_decimal (n : ℕ) : readDecimal (decimal n) = some n := by
  have hdigits : (decimal n).all Char.isDigit :=
    List.all_eq_true.mpr fun _ hc ↦ isDigit_of_mem_decimal hc
  rw [readDecimal, if_pos ⟨decimal_ne_nil n, hdigits⟩]
  exact congrArg some Nat.ofDigitChars_ten_toDigits

end PcmWrapper.Library
