import Mathlib.Data.List.TakeWhile
import PcmWrapper.DatabaseLoads
import PcmWrapper.Library.HexNumeral

/-!
# Codes that are read in full

`convert` hands the texts of both codes to `std::stoi` and does not ask at which position that
stopped. What `stoi` reads is the number of a `Decomposition` of the text: white space, a sign, the
longest numeral behind it, and a rest that nobody looks at.

`inFull_iff` is the exact condition for `convert` to represent the codes of a record in full: unless
one of the two numbers is missing or does not fit an `int`, neither text has white space or a sign
in front of its numeral or anything behind it. The shipped databases have records with the event
code `0xB7, 0xBB`, of which the first half remains (`offcoreResponse_not_inFull`).
-/

set_option autoImplicit false
set_option relaxedAutoImplicit false

namespace PcmWrapper

open Library

/-! ### Digits -/

theorem hexDigitValue_eq_some {c : Char} {digit : ℕ} :
    hexDigitValue c = some digit ↔ IsHexDigit c digit := by
  constructor
  · intro h
    have hascii : c.toNat < 128 := by
      by_contra hlarge
      have hnone : hexDigitValue c = none := by
        simp only [hexDigitValue, Char.reduceToNat]
        rw [if_neg (by omega), if_neg (by omega), if_neg (by omega)]
      rw [hnone] at h
      cases h
    have hvalues : ∀ n < 128, ∀ digit ∈ hexDigitValue (Char.ofNat n),
        IsHexDigit (Char.ofNat n) digit := by decide +kernel
    have hdigit := hvalues c.toNat hascii
    rw [Char.ofNat_toNat] at hdigit
    exact hdigit digit h
  · have hvalues : ∀ digit < 16, hexDigitValue digit.digitChar = some digit ∧
        hexDigitValue digit.digitChar.toUpper = some digit := by decide
    rintro ⟨hdigit, rfl | rfl⟩
    · exact (hvalues digit hdigit).1
    · exact (hvalues digit hdigit).2

/-- A character that is no digit has no value. -/
theorem hexDigitValue_eq_none {c : Char} :
    hexDigitValue c = none ↔ ∀ digit, ¬ IsHexDigit c digit := by
  simp only [← hexDigitValue_eq_some]
  cases hexDigitValue c <;> simp

/-- A digit is neither white space nor a sign. -/
theorem not_space_or_sign_of_isHexDigit {c : Char} {digit : ℕ} (h : IsHexDigit c digit) :
    isSpace c = false ∧ c ≠ '-' ∧ c ≠ '+' := by
  have hdigits : ∀ digit < 16,
      (isSpace digit.digitChar = false ∧ digit.digitChar ≠ '-' ∧ digit.digitChar ≠ '+') ∧
      isSpace digit.digitChar.toUpper = false ∧ digit.digitChar.toUpper ≠ '-' ∧
        digit.digitChar.toUpper ≠ '+' := by decide
  obtain ⟨hdigit, rfl | rfl⟩ := h
  · exact (hdigits digit hdigit).1
  · exact (hdigits digit hdigit).2

/-- The value of a run of digits is positional. -/
theorem hexValue_eq_ofDigits (digits : List ℕ) :
    hexValue digits = Nat.ofDigits 16 digits.reverse := by
  rw [Nat.ofDigits_eq_foldr, List.foldr_reverse, hexValue]
  simp only [Nat.cast_id, Nat.add_comm]

/-- The run of digits a text begins with, and what is behind it. -/
theorem exists_split_hexDigits (text : List Char) : ∃ chars rest, text = chars ++ rest ∧
    List.Forall₂ IsHexDigit chars (hexDigits text) ∧ NoDigitAhead rest := by
  induction text with
  | nil => exact ⟨[], [], rfl, .nil, fun _ _ h ↦ by cases h⟩
  | cons c text ih =>
    cases hvalue : hexDigitValue c with
    | none =>
      refine ⟨[], c :: text, rfl, by simp [hexDigits, hvalue], fun other more h ↦ ?_⟩
      cases h
      exact hexDigitValue_eq_none.mp hvalue
    | some digit =>
      obtain ⟨chars, rest, rfl, hdigits, hrest⟩ := ih
      refine ⟨c :: chars, rest, rfl, ?_, hrest⟩
      simp only [hexDigits, hvalue]
      exact .cons (hexDigitValue_eq_some.mp hvalue) hdigits

/-- The digits of a run of digits with something else behind it. -/
theorem hexDigits_append {chars rest : List Char} {digits : List ℕ}
    (hdigits : List.Forall₂ IsHexDigit chars digits) (hrest : NoDigitAhead rest) :
    hexDigits (chars ++ rest) = digits := by
  induction hdigits with
  | nil =>
    cases rest with
    | nil => rfl
    | cons c more =>
      simp only [List.nil_append, hexDigits, hexDigitValue_eq_none.mpr (hrest c more rfl)]
  | cons hdigit _ ih =>
    simp only [List.cons_append, hexDigits, hexDigitValue_eq_some.mpr hdigit, ih]

/-! ### Numerals -/

theorem skipHexMarker_marker {letter c : Char} {digit : ℕ} (hletter : IsMarkerLetter letter)
    (hdigit : IsHexDigit c digit) (more : List Char) :
    skipHexMarker ('0' :: letter :: c :: more) = c :: more := by
  have hskip : (letter = 'x' ∨ letter = 'X') ∧ (hexDigitValue c).isSome :=
    ⟨hletter, by rw [hexDigitValue_eq_some.mpr hdigit]; rfl⟩
  rw [skipHexMarker, if_pos hskip]

/-- In a text without a marker in front of a digit, nothing is skipped. -/
theorem skipHexMarker_of_no_marker {text : List Char}
    (h : ∀ letter c more digit, IsMarkerLetter letter → IsHexDigit c digit →
      text ≠ '0' :: letter :: c :: more) : skipHexMarker text = text := by
  fun_cases skipHexMarker text with
  | case1 letter c more hskip =>
    obtain ⟨hletter, hdigit⟩ := hskip
    obtain ⟨digit, hdigit⟩ := Option.isSome_iff_exists.mp hdigit
    exact absurd rfl (h letter c more digit hletter (hexDigitValue_eq_some.mp hdigit))
  | case2 => rfl
  | case3 => rfl

/-- The marker of the longest numeral of a text is skipped, and nothing else is. -/
theorem skipHexMarker_append {marker chars rest : List Char} {digits : List ℕ}
    (hmarker : IsHexMarker marker) (hchars : chars ≠ [])
    (hdigits : List.Forall₂ IsHexDigit chars digits)
    (hlongest : IsLongestNumeral (marker ++ chars) rest) :
    skipHexMarker (marker ++ chars ++ rest) = chars ++ rest := by
  cases hdigits with
  | nil => exact absurd rfl hchars
  | @cons first _ chars digits hdigit hothers =>
    obtain rfl | ⟨letter, hletter, rfl⟩ := hmarker
    · refine skipHexMarker_of_no_marker fun letter c more value hletter hc htext ↦ ?_
      cases chars with
      | nil =>
        -- the text begins with a longer numeral, whose marker begins with the only digit
        cases htext
        have hlength := hlongest _ _ ⟨more, rfl⟩ (isHexNumeral_marker hletter hc)
        simp at hlength
      | cons second chars =>
        obtain ⟨rfl, rfl, _⟩ : first = '0' ∧ second = letter ∧ _ := by
          simpa only [List.nil_append, List.cons_append, List.cons.injEq] using htext
        obtain ⟨value, hsecond⟩ := isHexDigit_of_mem hothers second List.mem_cons_self
        exact not_isHexDigit_of_isMarkerLetter hletter value hsecond
    · exact skipHexMarker_marker hletter hdigit _

/-- The longest numeral a text begins with is what `skipHexMarker` and `hexDigits` read. -/
theorem hexDigits_of_isLongestNumeral {numeral rest : List Char} {value : ℕ}
    (h : IsHexNumeral numeral value) (hlongest : IsLongestNumeral numeral rest) :
    hexDigits (skipHexMarker (numeral ++ rest)) ≠ [] ∧
      hexValue (hexDigits (skipHexMarker (numeral ++ rest))) = value := by
  have hrest := hlongest.noDigitAhead h
  obtain ⟨marker, chars, digits, hmarker, rfl, hchars, hdigits, rfl⟩ := h
  have hne : digits ≠ [] := by
    rintro rfl
    cases hdigits
    exact hchars rfl
  rw [skipHexMarker_append hmarker hchars hdigits hlongest, hexDigits_append hdigits hrest,
    hexValue_eq_ofDigits]
  exact ⟨hne, rfl⟩

/-- What `skipHexMarker` and `hexDigits` read is the longest numeral the text begins with. -/
theorem exists_longest_numeral {text : List Char} (h : hexDigits (skipHexMarker text) ≠ []) :
    ∃ numeral rest, text = numeral ++ rest ∧
      IsHexNumeral numeral (hexValue (hexDigits (skipHexMarker text))) ∧
      IsLongestNumeral numeral rest := by
  obtain ⟨chars, rest, hsplit, hdigits, hrest⟩ := exists_split_hexDigits (skipHexMarker text)
  have hchars : chars ≠ [] := by
    rintro rfl
    exact h (List.forall₂_nil_left_iff.mp hdigits)
  have hvalue := (hexValue_eq_ofDigits (hexDigits (skipHexMarker text))).symm
  by_cases hmarked : ∃ letter c more digit, IsMarkerLetter letter ∧ IsHexDigit c digit ∧
      text = '0' :: letter :: c :: more
  · obtain ⟨letter, c, more, digit, hletter, hdigit, rfl⟩ := hmarked
    rw [skipHexMarker_marker hletter hdigit] at hsplit
    exact ⟨'0' :: letter :: chars, rest, congrArg ('0' :: letter :: ·) hsplit,
      ⟨['0', letter], chars, _, .inr ⟨letter, hletter, rfl⟩, rfl, hchars, hdigits, hvalue⟩,
      isLongestNumeral_marker hletter hrest⟩
  · have hmarker : ∀ letter c more digit, IsMarkerLetter letter → IsHexDigit c digit →
        text ≠ '0' :: letter :: c :: more := fun letter c more digit hletter hdigit htext ↦
      hmarked ⟨letter, c, more, digit, hletter, hdigit, htext⟩
    rw [skipHexMarker_of_no_marker hmarker] at hsplit
    exact ⟨chars, rest, hsplit, ⟨[], chars, _, .inl rfl, rfl, hchars, hdigits, hvalue⟩,
      isLongestNumeral_digits hrest (hsplit ▸ hmarker)⟩

/-! ### What `stoi` reads -/

/-- An optional sign. -/
def IsSign (sign : List Char) : Prop := sign = [] ∨ sign = ['-'] ∨ sign = ['+']

/-- The factor a sign stands for. -/
def signFactor (sign : List Char) : ℤ := if sign = ['-'] then -1 else 1

/-- How `strtol` takes a text apart: white space, a sign, the longest numeral behind it, and a
rest. -/
structure Decomposition (text : String) where
  blanks : List Char
  sign : List Char
  numeral : List Char
  rest : List Char
  value : ℕ
  toList_eq : text.toList = blanks ++ (sign ++ (numeral ++ rest))
  blank : ∀ c ∈ blanks, isSpace c = true
  isSign : IsSign sign
  isNumeral : IsHexNumeral numeral value
  longest : IsLongestNumeral numeral rest

namespace Decomposition

variable {text : String}

/-- The number in the text. -/
def number (d : Decomposition text) : ℤ := signFactor d.sign * d.value

/-- The number is an `int`. -/
def FitsInt (d : Decomposition text) : Prop := -2 ^ 31 ≤ d.number ∧ d.number < 2 ^ 31

/-- The text is its numeral alone. -/
def IsBare (d : Decomposition text) : Prop := d.blanks = [] ∧ d.sign = [] ∧ d.rest = []

end Decomposition

theorem readSign_append {sign numeral : List Char} {value : ℕ} (hsign : IsSign sign)
    (hnumeral : IsHexNumeral numeral value) (rest : List Char) :
    readSign (sign ++ (numeral ++ rest)) = (signFactor sign, numeral ++ rest) := by
  obtain rfl | rfl | rfl := hsign
  · obtain ⟨c, more, digit, rfl, hdigit⟩ := hnumeral.exists_digit
    obtain ⟨_, hminus, hplus⟩ := not_space_or_sign_of_isHexDigit hdigit
    simp [readSign, signFactor, hminus, hplus]
  · rfl
  · rfl

theorem exists_sign (text : List Char) : ∃ sign, IsSign sign ∧
    text = sign ++ (readSign text).2 ∧ (readSign text).1 = signFactor sign := by
  fun_cases readSign text with
  | case1 rest => exact ⟨['-'], .inr (.inl rfl), rfl, rfl⟩
  | case2 rest => exact ⟨['+'], .inr (.inr rfl), rfl, rfl⟩
  | case3 => exact ⟨[], .inl rfl, rfl, rfl⟩

/-- A numeral behind an optional sign does not begin with white space. -/
theorem dropWhile_isSpace {blanks sign numeral : List Char} {value : ℕ}
    (hblanks : ∀ c ∈ blanks, isSpace c = true) (hsign : IsSign sign)
    (hnumeral : IsHexNumeral numeral value) (rest : List Char) :
    (blanks ++ (sign ++ (numeral ++ rest))).dropWhile isSpace = sign ++ (numeral ++ rest) := by
  rw [List.dropWhile_append_of_pos hblanks]
  obtain rfl | rfl | rfl := hsign
  · obtain ⟨c, more, digit, rfl, hdigit⟩ := hnumeral.exists_digit
    simp [(not_space_or_sign_of_isHexDigit hdigit).1]
  · rfl
  · rfl

/-- The number `strtol` reads when there are digits behind the sign. -/
theorem strtol_of_digits {text : List Char}
    (h : hexDigits (skipHexMarker (readSign (text.dropWhile isSpace)).2) ≠ []) :
    strtol text = some ((readSign (text.dropWhile isSpace)).1 *
      hexValue (hexDigits (skipHexMarker (readSign (text.dropWhile isSpace)).2))) := by
  unfold strtol
  cases hdigits : hexDigits (skipHexMarker (readSign (text.dropWhile isSpace)).2) with
  | nil => exact absurd hdigits h
  | cons digit digits => simp [hdigits]

/-- `strtol` reads the number of the decomposition of a text, and nothing when there is none. -/
theorem strtol_eq_some {text : String} {value : ℤ} :
    strtol text.toList = some value ↔ ∃ d : Decomposition text, d.number = value := by
  constructor
  · intro h
    have hdigits : hexDigits (skipHexMarker (readSign (text.toList.dropWhile isSpace)).2) ≠ [] := by
      intro hnil
      simp [strtol, hnil] at h
    obtain ⟨sign, hsign, hsigned, hfactor⟩ := exists_sign (text.toList.dropWhile isSpace)
    obtain ⟨numeral, rest, hnumeral, hvalue, hlongest⟩ := exists_longest_numeral hdigits
    have htext : text.toList = text.toList.takeWhile isSpace ++ (sign ++ (numeral ++ rest)) := by
      rw [← hnumeral, ← hsigned, List.takeWhile_append_dropWhile]
    refine ⟨⟨text.toList.takeWhile isSpace, sign, numeral, rest, _, htext,
      fun c hc ↦ List.mem_takeWhile_imp hc, hsign, hvalue, hlongest⟩, ?_⟩
    rw [strtol_of_digits hdigits, Option.some.injEq, hfactor] at h
    exact h
  · rintro ⟨d, rfl⟩
    obtain ⟨hne, hvalue⟩ := hexDigits_of_isLongestNumeral d.isNumeral d.longest
    have hsigned : readSign (text.toList.dropWhile isSpace) =
        (signFactor d.sign, d.numeral ++ d.rest) := by
      rw [d.toList_eq, dropWhile_isSpace d.blank d.isSign d.isNumeral,
        readSign_append d.isSign d.isNumeral]
    have hdigits : hexDigits (skipHexMarker (readSign (text.toList.dropWhile isSpace)).2) ≠ [] := by
      rw [hsigned]
      exact hne
    rw [strtol_of_digits hdigits, hsigned, hvalue]
    rfl

/-- `stoi` reads the number of the decomposition of a text when it is an `int`. -/
theorem stoi_eq_ok {text : String} {value : ℤ} :
    stoi text = .ok value ↔ ∃ d : Decomposition text, d.FitsInt ∧ d.number = value := by
  have hread : stoi text = .ok value ↔
      strtol text.toList = some value ∧ -2 ^ 31 ≤ value ∧ value < 2 ^ 31 := by
    unfold stoi
    cases strtol text.toList with
    | none => simp
    | some other =>
      rw [Option.some.injEq]
      by_cases hfits : -2 ^ 31 ≤ other ∧ other < 2 ^ 31
      · simp only [if_pos hfits, Except.ok.injEq]
        exact ⟨fun heq ↦ ⟨heq, heq ▸ hfits⟩, And.left⟩
      · simp only [if_neg hfits, reduceCtorEq, false_iff]
        rintro ⟨rfl, hvalue⟩
        exact hfits hvalue
  rw [hread, strtol_eq_some]
  constructor
  · rintro ⟨⟨d, rfl⟩, hfits⟩
    exact ⟨d, hfits, rfl⟩
  · rintro ⟨d, hfits, rfl⟩
    exact ⟨⟨d, rfl⟩, hfits⟩

example : (stoi "0x0E").toOption = some 14 ∧ (stoi "0xB7, 0xBB").toOption = some 0xB7 := by decide

/-- What `stoi` does not read, it throws an exception for. -/
theorem stoi_ok_or_thrown (text : String) :
    (∃ value, stoi text = .ok value) ∨ ∃ exception, stoi text = .error (.thrown exception) := by
  unfold stoi
  cases strtol text.toList with
  | none => exact .inr ⟨_, rfl⟩
  | some value =>
    by_cases hfits : -2 ^ 31 ≤ value ∧ value < 2 ^ 31
    · exact .inl ⟨value, if_pos hfits⟩
    · exact .inr ⟨_, if_neg hfits⟩

namespace Decomposition

variable {text : String}

/-- A numeral is its own decomposition. -/
def ofNumeral {value : ℕ} (h : IsHexNumeral text.toList value) : Decomposition text where
  blanks := []
  sign := []
  numeral := text.toList
  rest := []
  value := value
  toList_eq := by simp
  blank := fun _ hc ↦ absurd hc List.not_mem_nil
  isSign := .inl rfl
  isNumeral := h
  longest := fun longer _ hlonger _ ↦ by
    rw [List.append_nil] at hlonger
    exact hlonger.length_le

theorem number_ofNumeral {value : ℕ} (h : IsHexNumeral text.toList value) :
    (ofNumeral h).number = value := one_mul _

theorem fitsInt_ofNumeral {value : ℕ} (h : IsHexNumeral text.toList value)
    (hvalue : value ≤ 2 ^ 31 - 1) : (ofNumeral h).FitsInt := by
  rw [FitsInt, number_ofNumeral h]
  omega

/-- A text that is a numeral has no other decomposition. -/
theorem isBare_of_isHexNumeral (d : Decomposition text) {value : ℕ}
    (h : IsHexNumeral text.toList value) : d.IsBare := by
  obtain ⟨c, more, digit, htext, hdigit⟩ := h.exists_digit
  obtain ⟨hspace, hminus, hplus⟩ := not_space_or_sign_of_isHexDigit hdigit
  have heq := d.toList_eq
  have hblanks : d.blanks = [] := by
    cases hcons : d.blanks with
    | nil => rfl
    | cons blank blanks =>
      have hblank := d.blank blank (by simp [hcons])
      rw [hcons, htext] at heq
      cases heq
      rw [hspace] at hblank
      cases hblank
  rw [hblanks, List.nil_append] at heq
  have hsign : d.sign = [] := by
    obtain hsign | hsign | hsign := d.isSign
    · exact hsign
    all_goals
      rw [hsign, htext] at heq
      cases heq
    · exact absurd rfl hminus
    · exact absurd rfl hplus
  rw [hsign, List.nil_append] at heq
  have hlength := d.longest text.toList value (heq ▸ List.prefix_refl _) h
  rw [heq, List.length_append] at hlength
  exact ⟨hblanks, hsign, List.eq_nil_of_length_eq_zero (by omega)⟩

theorem isHexNumeral_of_isBare {d : Decomposition text} (h : d.IsBare) :
    IsHexNumeral text.toList d.value ∧ d.number = d.value := by
  obtain ⟨hblanks, hsign, hrest⟩ := h
  have htext := d.toList_eq
  rw [hblanks, hsign, hrest, List.nil_append, List.nil_append, List.append_nil] at htext
  rw [htext, number, hsign]
  exact ⟨d.isNumeral, one_mul _⟩

end Decomposition

/-! ### The codes of a record -/

/-- `convert` throws, or the texts of both codes are numerals whose values it returns; and it
returns the values of all numerals that are `int`s. -/
def InFull (record : Json) (hexaEventMask hexaUMask : String) : Prop :=
  ((∃ exception, convert record = .error (.thrown exception)) ∨
    ∃ counter code umask, convert record = .ok counter ∧
      IsHexNumeral hexaEventMask.toList code ∧ counter.eventNumber = code ∧
      IsHexNumeral hexaUMask.toList umask ∧ counter.umaskValue = umask) ∧
  ∀ code umask : ℕ, IsHexNumeral hexaEventMask.toList code → IsHexNumeral hexaUMask.toList umask →
    code ≤ 2 ^ 31 - 1 → umask ≤ 2 ^ 31 - 1 →
      ∃ counter, convert record = .ok counter ∧
        counter.eventNumber = code ∧ counter.umaskValue = umask

section Record

variable {record : Json} {hexaEventMask hexaUMask name : String}

variable (hcode : record.member c_EventCode = some (.string hexaEventMask))
  (humask : record.member c_UMask = some (.string hexaUMask))
  (hname : record.member c_EventName = some (.string name))

include hcode humask hname

/-- `convert` on a record of three strings. -/
theorem convert_of_strings : convert record = do
    let eventMask ← stoi hexaEventMask
    let umask ← stoi hexaUMask
    return ⟨eventMask, umask, name, []⟩ := by
  rw [convert, Json.stringAt_eq_ok.mpr hcode, Json.stringAt_eq_ok.mpr humask,
    Json.stringAt_eq_ok.mpr hname]
  rfl

/-- `convert` returns the numbers of both texts when they are `int`s. -/
theorem convert_of_decompositions {code : Decomposition hexaEventMask}
    {umask : Decomposition hexaUMask} (hcodeFits : code.FitsInt) (humaskFits : umask.FitsInt) :
    convert record = .ok ⟨code.number, umask.number, name, []⟩ := by
  rw [convert_of_strings hcode humask hname, stoi_eq_ok.mpr ⟨code, hcodeFits, rfl⟩,
    stoi_eq_ok.mpr ⟨umask, humaskFits, rfl⟩]
  rfl

/-- Where `convert` does not return the numbers of both texts, it throws. -/
theorem convert_thrown_or_decompositions :
    (∃ exception, convert record = .error (.thrown exception)) ∨
      ∃ (code : Decomposition hexaEventMask) (umask : Decomposition hexaUMask),
        code.FitsInt ∧ umask.FitsInt := by
  obtain ⟨eventMask, heventMask⟩ | ⟨exception, hthrown⟩ := stoi_ok_or_thrown hexaEventMask
  · obtain ⟨umaskValue, humaskValue⟩ | ⟨exception, hthrown⟩ := stoi_ok_or_thrown hexaUMask
    · obtain ⟨code, hcodeFits, _⟩ := stoi_eq_ok.mp heventMask
      obtain ⟨umask, humaskFits, _⟩ := stoi_eq_ok.mp humaskValue
      exact .inr ⟨code, umask, hcodeFits, humaskFits⟩
    · refine .inl ⟨exception, ?_⟩
      rw [convert_of_strings hcode humask hname, heventMask, hthrown]
      rfl
  · refine .inl ⟨exception, ?_⟩
    rw [convert_of_strings hcode humask hname, hthrown]
    rfl

/-- `convert` represents the codes of a record in full exactly when neither text has white space or
a sign in front of its numeral or anything behind it, unless one of the texts has no numeral there
or its number is no `int`. Assumes: the record has its event code, its umask and its name as
strings. -/
theorem inFull_iff : InFull record hexaEventMask hexaUMask ↔
    ∀ (code : Decomposition hexaEventMask) (umask : Decomposition hexaUMask),
      code.FitsInt → umask.FitsInt → code.IsBare ∧ umask.IsBare := by
  constructor
  · rintro ⟨hreturns, -⟩ code umask hcodeFits humaskFits
    have hconvert := convert_of_decompositions hcode humask hname hcodeFits humaskFits
    obtain ⟨exception, hthrown⟩ | ⟨_, _, _, _, hcodeNumeral, _, humaskNumeral, _⟩ := hreturns
    · rw [hconvert] at hthrown
      cases hthrown
    · exact ⟨code.isBare_of_isHexNumeral hcodeNumeral, umask.isBare_of_isHexNumeral humaskNumeral⟩
  · intro hbare
    refine ⟨(convert_thrown_or_decompositions hcode humask hname).imp_right ?_, ?_⟩
    · rintro ⟨code, umask, hcodeFits, humaskFits⟩
      obtain ⟨hcodeBare, humaskBare⟩ := hbare code umask hcodeFits humaskFits
      obtain ⟨hcodeNumeral, hcodeNumber⟩ := Decomposition.isHexNumeral_of_isBare hcodeBare
      obtain ⟨humaskNumeral, humaskNumber⟩ := Decomposition.isHexNumeral_of_isBare humaskBare
      exact ⟨_, code.value, umask.value,
        convert_of_decompositions hcode humask hname hcodeFits humaskFits, hcodeNumeral,
        hcodeNumber, humaskNumeral, humaskNumber⟩
    · intro code umask hcodeNumeral humaskNumeral hcodeValue humaskValue
      exact ⟨_, convert_of_decompositions hcode humask hname
        (Decomposition.fitsInt_ofNumeral hcodeNumeral hcodeValue)
        (Decomposition.fitsInt_ofNumeral humaskNumeral humaskValue),
        Decomposition.number_ofNumeral hcodeNumeral, Decomposition.number_ofNumeral humaskNumeral⟩

end Record

/-- Two numerals with markers are read in full. -/
theorem inFull_l1Miss : InFull (excerptElement "MEM_LOAD_UOPS_RETIRED.L1_MISS" "0xD1" "0x08" "0")
    "0xD1" "0x08" := by
  have hcode : IsHexNumeral "0xD1".toList 0xD1 :=
    ⟨['0', 'x'], ['D', '1'], [13, 1], .inr ⟨'x', .inl rfl, rfl⟩, rfl, List.cons_ne_nil _ _,
      .cons (by decide) (.cons (by decide) .nil), rfl⟩
  have humask : IsHexNumeral "0x08".toList 0x08 :=
    ⟨['0', 'x'], ['0', '8'], [0, 8], .inr ⟨'x', .inl rfl, rfl⟩, rfl, List.cons_ne_nil _ _,
      .cons (by decide) (.cons (by decide) .nil), rfl⟩
  exact (inFull_iff rfl rfl rfl).mpr fun code umask _ _ ↦
    ⟨code.isBare_of_isHexNumeral hcode, umask.isBare_of_isHexNumeral humask⟩

/-- Of the two codes of the shipped off-core events the first remains. -/
theorem offcoreResponse_not_inFull :
    let record := excerptElement "OFFCORE_RESPONSE" "0xB7, 0xBB" "0x01" "0"
    record.member c_EventCode = some (.string "0xB7, 0xBB") ∧
    record.member c_UMask = some (.string "0x01") ∧
    record.member c_EventName = some (.string "OFFCORE_RESPONSE") ∧
    ¬ InFull record "0xB7, 0xBB" "0x01" := by
  intro record
  refine ⟨rfl, rfl, rfl, ?_⟩
  rintro ⟨hreturns, -⟩
  have hconvert : convert record = .ok ⟨0xB7, 0x01, "OFFCORE_RESPONSE", []⟩ := by rfl
  obtain ⟨exception, hthrown⟩ | ⟨_, _, _, _, hnumeral, _⟩ := hreturns
  · rw [hconvert] at hthrown
    cases hthrown
  · -- a comma is in no numeral
    have hcomma : ',' ∈ "0xB7, 0xBB".toList := by decide
    obtain hletter | ⟨digit, hdigit⟩ := hnumeral.digit_or_letter ',' hcomma
    · exact absurd hletter (by decide)
    · have hvalue := hexDigitValue_eq_some.mpr hdigit
      exact absurd hvalue (by simp [show hexDigitValue ',' = none by decide])

end PcmWrapper
