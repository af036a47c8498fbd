import Mathlib.Data.List.Forall2
import Mathlib.Data.Nat.Digits.Defs

/-!
# Hexadecimal numerals

A hexadecimal numeral is an optional marker `0x` or `0X` and at least one digit, of either case, and
its value is positional. `IsLongestNumeral` singles out the longest numeral a text begins with,
which is what a reader finds that goes on as long as it can. There are two ways to have it: behind a
marker all digits there are, and without one all digits of a text that has no marked numeral.
-/

set_option autoImplicit false
set_option relaxedAutoImplicit false

namespace PcmWrapper.Library

/-- The character is the digit of a value, in either case. -/
def IsHexDigit (c : Char) (digit : ℕ) : Prop :=
  digit < 16 ∧ (c = digit.digitChar ∨ c = digit.digitChar.toUpper)

instance (c : Char) (digit : ℕ) : Decidable (IsHexDigit c digit) :=
  inferInstanceAs (Decidable (_ ∧ _))

/-- The letter of a marker. -/
def IsMarkerLetter (c : Char) : Prop := c = 'x' ∨ c = 'X'

instance (c : Char) : Decidable (IsMarkerLetter c) := inferInstanceAs (Decidable (_ ∨ _))

/-- What may stand in front of the digits. -/
def IsHexMarker (marker : List Char) : Prop :=
  marker = [] ∨ ∃ letter, IsMarkerLetter letter ∧ marker = ['0', letter]

/-- The text is a numeral of the value. -/
def IsHexNumeral (text : List Char) (value : ℕ) : Prop :=
  ∃ marker chars digits, IsHexMarker marker ∧ text = marker ++ chars ∧ chars ≠ [] ∧
    List.Forall₂ IsHexDigit chars digits ∧ Nat.ofDigits 16 digits.reverse = value

/-- The text behind a numeral does not make it a longer one. -/
def IsLongestNumeral (numeral rest : List Char) : Prop :=
  ∀ longer value, longer <+: numeral ++ rest → IsHexNumeral longer value →
    longer.length ≤ numeral.length

/-- The text does not go on with a digit. -/
def NoDigitAhead (rest : List Char) : Prop :=
  ∀ c more, rest = c :: more → ∀ digit, ¬ IsHexDigit c digit

variable {text numeral chars rest : List Char} {value : ℕ}

/-! ### Digits and numerals -/

/-- The characters of a run of digits are digits. -/
theorem isHexDigit_of_mem {digits : List ℕ} (h : List.Forall₂ IsHexDigit chars digits) :
    ∀ c ∈ chars, ∃ digit, IsHexDigit c digit := by
  have hpairs : List.Forall₂ (fun c digit ↦ (∃ digit, IsHexDigit c digit) ∧ IsHexDigit c digit)
      chars digits := h.imp fun _ digit hdigit ↦ ⟨⟨digit, hdigit⟩, hdigit⟩
  exact ((List.forall₂_and_left _ _).mp hpairs).1

/-- The letter of a marker is no digit. -/
theorem not_isHexDigit_of_isMarkerLetter {c : Char} (h : IsMarkerLetter c) (digit : ℕ) :
    ¬ IsHexDigit c digit := by
  have hdigits : ∀ digit < 16, ¬ IsMarkerLetter digit.digitChar ∧
      ¬ IsMarkerLetter digit.digitChar.toUpper := by decide
  rintro ⟨hdigit, rfl | rfl⟩
  · exact (hdigits digit hdigit).1 h
  · exact (hdigits digit hdigit).2 h

/-- A marker with a digit behind it is a numeral. -/
theorem isHexNumeral_marker {letter c : Char} {digit : ℕ} (hletter : IsMarkerLetter letter)
    (hdigit : IsHexDigit c digit) : IsHexNumeral ['0', letter, c] digit :=
  ⟨['0', letter], [c], [digit], .inr ⟨letter, hletter, rfl⟩, rfl, List.cons_ne_nil _ _,
    .cons hdigit .nil, Nat.ofDigits_singleton⟩

/-- A digit behind a numeral makes it a longer one. -/
theorem IsHexNumeral.concat {c : Char} {digit : ℕ} (h : IsHexNumeral text value)
    (hdigit : IsHexDigit c digit) : IsHexNumeral (text ++ [c]) (16 * value + digit) := by
  obtain ⟨marker, chars, digits, hmarker, rfl, hchars, hdigits, rfl⟩ := h
  refine ⟨marker, chars ++ [c], digits ++ [digit], hmarker, List.append_assoc _ _ _, by simp,
    List.rel_append hdigits (.cons hdigit .nil), ?_⟩
  rw [List.reverse_append, List.reverse_singleton, List.singleton_append, Nat.ofDigits_cons,
    Nat.add_comm]

/-- A numeral begins with a digit, the one of the marker if there is one. -/
theorem IsHexNumeral.exists_digit (h : IsHexNumeral text value) :
    ∃ c more digit, text = c :: more ∧ IsHexDigit c digit := by
  obtain ⟨marker, chars, digits, hmarker, rfl, hchars, hdigits, -⟩ := h
  obtain rfl | ⟨letter, -, rfl⟩ := hmarker
  · cases hdigits with
    | nil => exact absurd rfl hchars
    | cons hdigit _ => exact ⟨_, _, _, rfl, hdigit⟩
  · exact ⟨'0', _, 0, rfl, by decide⟩

/-- The characters of a numeral are digits and the letter of its marker. -/
theorem IsHexNumeral.digit_or_letter (h : IsHexNumeral text value) :
    ∀ c ∈ text, IsMarkerLetter c ∨ ∃ digit, IsHexDigit c digit := by
  obtain ⟨marker, chars, digits, hmarker, rfl, -, hdigits, -⟩ := h
  intro c hc
  rcases List.mem_append.mp hc with hc | hc
  · obtain rfl | ⟨letter, hletter, rfl⟩ := hmarker
    · cases hc
    · rcases List.mem_cons.mp hc with rfl | hc
      · exact .inr ⟨0, by decide⟩
      · rw [List.mem_singleton.mp hc]
        exact .inl hletter
  · exact .inr (isHexDigit_of_mem hdigits c hc)

/-! ### The longest numeral -/

/-- A run of digits is no longer than the one a text begins with. -/
theorem length_le_of_digits {longer : List Char} (hlonger : longer <+: chars ++ rest)
    (hdigits : ∀ c ∈ longer, ∃ digit, IsHexDigit c digit) (hrest : NoDigitAhead rest) :
    longer.length ≤ chars.length := by
  by_contra hlength
  obtain ⟨further, rfl⟩ := List.prefix_of_prefix_length_le (List.prefix_append chars rest) hlonger
    (Nat.le_of_not_le hlength)
  cases further with
  | nil => simp at hlength
  | cons c more =>
    obtain ⟨others, hothers⟩ := (List.prefix_append_right_inj chars).mp hlonger
    obtain ⟨digit, hdigit⟩ := hdigits c (by simp)
    exact hrest c (more ++ others) hothers.symm digit hdigit

/-- Behind the longest numeral there is no digit. -/
theorem IsLongestNumeral.noDigitAhead (hlongest : IsLongestNumeral numeral rest)
    (h : IsHexNumeral numeral value) : NoDigitAhead rest := by
  intro c more hrest digit hdigit
  have hlonger : numeral ++ [c] <+: numeral ++ rest := ⟨more, by simp [hrest]⟩
  have hlength := hlongest _ _ hlonger (h.concat hdigit)
  simp at hlength

/-- All digits behind a marker make the longest numeral. -/
theorem isLongestNumeral_marker {letter : Char} (hletter : IsMarkerLetter letter)
    (hrest : NoDigitAhead rest) : IsLongestNumeral ('0' :: letter :: chars) rest := by
  rintro _ value hlonger ⟨marker, others, digits, hmarker, rfl, -, hdigits, -⟩
  obtain rfl | ⟨other, -, rfl⟩ := hmarker
  · -- a numeral without a marker ends in front of the letter
    have hzero : others <+: ['0'] ++ letter :: (chars ++ rest) := hlonger
    have hahead : NoDigitAhead (letter :: (chars ++ rest)) := by
      rintro _ _ ⟨⟩ digit
      exact not_isHexDigit_of_isMarkerLetter hletter digit
    have hlength := length_le_of_digits hzero (isHexDigit_of_mem hdigits) hahead
    exact Nat.le_trans hlength (by simp)
  · have hothers : others <+: chars ++ rest :=
      (List.cons_prefix_cons.mp (List.cons_prefix_cons.mp hlonger).2).2
    have hlength := length_le_of_digits hothers (isHexDigit_of_mem hdigits) hrest
    exact Nat.add_le_add_right hlength 2

/-- In a text without a marker in front of a digit, the digits make the longest numeral. -/
theorem isLongestNumeral_digits (hrest : NoDigitAhead rest)
    (hmarker : ∀ letter c more digit, IsMarkerLetter letter → IsHexDigit c digit →
      chars ++ rest ≠ '0' :: letter :: c :: more) : IsLongestNumeral chars rest := by
  rintro _ value hlonger ⟨marker, others, digits, hothersMarker, rfl, hothers, hdigits, -⟩
  obtain rfl | ⟨letter, hletter, rfl⟩ := hothersMarker
  · exact length_le_of_digits hlonger (isHexDigit_of_mem hdigits) hrest
  · cases hdigits with
    | nil => exact absurd rfl hothers
    | cons hdigit _ =>
      obtain ⟨more, hmore⟩ := hlonger
      exact absurd hmore.symm (hmarker _ _ _ _ hletter hdigit)

end PcmWrapper.Library
