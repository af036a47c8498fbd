import Mathlib.Data.List.TakeWhile
import PcmWrapper.JsonStrings

/-!
# The lexemes of JSON

`IsLexeme` says which tokens JSON has: punctuation, literals, numbers in their parts, and strings.
`isLexeme_of_scan` and `scan_of_isLexeme` say that the scanner returns exactly these: a token it
returns without an error is a lexeme that stands in the text behind white space, and a lexeme is
returned whenever the text behind it does not continue it. `scan_type_eq_endOfInput` says where
the input ends.
-/

set_option autoImplicit false
set_option relaxedAutoImplicit false

namespace PcmWrapper

open Library

/-! ### Lexemes -/

/-- Zero, or digits of which the first is none. -/
def IsInteger (digits : List Char) : Prop :=
  digits ≠ [] ∧ (∀ c ∈ digits, c.isDigit) ∧ (digits.head? = some '0' → digits = ['0'])

/-- Nothing, or a decimal point with digits behind it. -/
def IsFraction (part : List Char) : Prop :=
  part = [] ∨ ∃ digits, part = '.' :: digits ∧ digits ≠ [] ∧ ∀ c ∈ digits, c.isDigit

/-- Nothing, or an exponent. -/
def IsExponent (part : List Char) : Prop :=
  part = [] ∨ ∃ e sign digits, part = e :: (sign ++ digits) ∧ (e = 'e' ∨ e = 'E') ∧
    (sign = [] ∨ sign = ['+'] ∨ sign = ['-']) ∧ digits ≠ [] ∧ ∀ c ∈ digits, c.isDigit

/-- A number as JSON writes it. -/
structure Numeral where
  sign : List Char
  integer : List Char
  fraction : List Char
  exponent : List Char
  isSign : sign = [] ∨ sign = ['-']
  isInteger : IsInteger integer
  isFraction : IsFraction fraction
  isExponent : IsExponent exponent

/-- The text of a number. -/
def Numeral.text (n : Numeral) : List Char := n.sign ++ n.integer ++ n.fraction ++ n.exponent

/-- The type of a number. -/
def Numeral.type (n : Numeral) : TokenType :=
  if n.fraction ++ n.exponent ≠ [] then .valueFloat
  else if n.sign = [] then .valueUnsigned
  else .valueInteger

/-- The tokens of JSON. -/
inductive IsLexeme : Token → Prop
  | punctuation {c : Char} {type : TokenType} (h : punctuation c = some type) : IsLexeme ⟨type, [c]⟩
  | literal {c : Char} {letters : List Char} {type : TokenType}
      (h : literal c = some (letters, type)) : IsLexeme ⟨type, c :: letters⟩
  | number (n : Numeral) : IsLexeme ⟨n.type, n.text⟩
  | string {body : List Char} (h : IsBody body) : IsLexeme ⟨.valueString, '"' :: (body ++ ['"'])⟩

/-! ### Scanning a number -/

/-- The character would go on with a number. -/
def continuesNumber (c : Char) : Bool := c.isDigit || c == '.' || c == 'e' || c == 'E'

/-- The text does not go on with a number. -/
def Apart (rest : List Char) : Prop := ∀ c ∈ rest.head?, continuesNumber c = false

/-- A run of characters of one kind ends where the next character is of another. -/
theorem takeWhile_append_of_head {p : Char → Bool} {run rest : List Char} (hrun : ∀ c ∈ run, p c)
    (hrest : ∀ c ∈ rest.head?, p c = false) : (run ++ rest).takeWhile p = run := by
  have hend : rest.takeWhile p = [] := by
    cases rest with
    | nil => rfl
    | cons c rest => rw [List.takeWhile_cons_of_neg (by simp [hrest c rfl])]
  rw [List.takeWhile_append_of_pos hrun, hend, List.append_nil]

/-- The digits of a run. -/
theorem all_takeWhile {p : Char → Bool} {text : List Char} : ∀ c ∈ text.takeWhile p, p c :=
  fun _ hc ↦ List.mem_takeWhile_imp hc

/-- Two parts that stand at the beginning of a text, one behind the other. -/
theorem append_isPrefix {first second text : List Char} (hfirst : first <+: text)
    (hsecond : second <+: text.drop first.length) : first ++ second <+: text := by
  obtain ⟨rest, rfl⟩ := hfirst
  rw [List.drop_left] at hsecond
  exact List.prefix_append_right_inj first |>.mpr hsecond

/-- A text that does not go on with a number begins neither with a digit nor with a point. -/
theorem Apart.head {rest : List Char} (h : Apart rest) :
    ∀ c ∈ rest.head?, c.isDigit = false ∧ c ≠ '.' ∧ ¬ (c = 'e' ∨ c = 'E') := by
  intro c hc
  have hcontinues := h c hc
  simp only [continuesNumber, Bool.or_eq_false_iff, beq_eq_false_iff_ne] at hcontinues
  exact ⟨hcontinues.1.1.1, hcontinues.1.1.2, fun he ↦ he.elim hcontinues.1.2 hcontinues.2⟩

/-- An exponent begins neither with a digit nor with a point. -/
theorem head_exponent {exponent rest : List Char} (hexponent : IsExponent exponent)
    (hrest : Apart rest) :
    ∀ c ∈ (exponent ++ rest).head?, c.isDigit = false ∧ c ≠ '.' := by
  rcases hexponent with rfl | ⟨e, sign, digits, rfl, he, -, -, -⟩
  · exact fun c hc ↦ ⟨(hrest.head c hc).1, (hrest.head c hc).2.1⟩
  · intro c hc
    cases hc
    rcases he with rfl | rfl <;> decide

/-- A fraction does not begin with a digit. -/
theorem head_fraction {fraction rest : List Char} (hfraction : IsFraction fraction)
    (hrest : ∀ c ∈ rest.head?, c.isDigit = false ∧ c ≠ '.') :
    ∀ c ∈ (fraction ++ rest).head?, c.isDigit = false := by
  rcases hfraction with rfl | ⟨digits, rfl, -, -⟩
  · exact fun c hc ↦ (hrest c hc).1
  · intro c hc
    cases hc
    decide

theorem signPart_append {sign rest : List Char} (hsign : sign = [] ∨ sign = ['-'])
    (hrest : ∀ c ∈ rest.head?, c.isDigit) : signPart (sign ++ rest) = sign := by
  rcases hsign with rfl | rfl
  · cases rest with
    | nil => rfl
    | cons c rest =>
      have hdigit := hrest c rfl
      have hc : c ≠ '-' := by
        rintro rfl
        exact absurd hdigit (by decide)
      exact if_neg hc
  · rfl

theorem fractionPart_append {fraction rest : List Char} (hfraction : IsFraction fraction)
    (hrest : ∀ c ∈ rest.head?, c.isDigit = false ∧ c ≠ '.') :
    fractionPart (fraction ++ rest) = fraction := by
  rcases hfraction with rfl | ⟨digits, rfl, hne, hdigits⟩
  · cases rest with
    | nil => rfl
    | cons c rest => exact if_neg fun h ↦ (hrest c rfl).2 h.1
  · rw [List.cons_append, fractionPart,
      takeWhile_append_of_head hdigits fun c hc ↦ (hrest c hc).1]
    exact if_pos ⟨rfl, hne⟩

/-- The sign of an exponent is read when digits stand behind it. -/
theorem exponentSign_append {sign digits : List Char}
    (hsign : sign = [] ∨ sign = ['+'] ∨ sign = ['-']) (hne : digits ≠ [])
    (hdigits : ∀ c ∈ digits, c.isDigit) (rest : List Char) :
    exponentSign (sign ++ (digits ++ rest)) = sign := by
  rcases hsign with rfl | rfl | rfl
  · cases digits with
    | nil => exact absurd rfl hne
    | cons d digits =>
      have hdigit := hdigits d List.mem_cons_self
      refine if_neg ?_
      rintro (rfl | rfl) <;> exact absurd hdigit (by decide)
  · rfl
  · rfl

theorem exponentPart_append {exponent rest : List Char} (hexponent : IsExponent exponent)
    (hrest : Apart rest) : exponentPart (exponent ++ rest) = exponent := by
  rcases hexponent with rfl | ⟨e, sign, digits, rfl, he, hsign, hne, hdigits⟩
  · cases rest with
    | nil => rfl
    | cons c rest => exact if_neg fun h ↦ (hrest.head c rfl).2.2 h.1
  · have hsignRead := exponentSign_append hsign hne hdigits rest
    rw [List.cons_append, List.append_assoc, exponentPart]
    simp only [hsignRead]
    rw [List.drop_left, takeWhile_append_of_head hdigits fun c hc ↦ (hrest.head c hc).1]
    exact if_pos ⟨he, hne⟩

/-- The parts of a text that a number is read from stand at its beginning. -/
theorem isSign_signPart (text : List Char) :
    (signPart text = [] ∨ signPart text = ['-']) ∧ signPart text <+: text := by
  cases text with
  | nil => exact ⟨Or.inl rfl, List.nil_prefix⟩
  | cons c rest =>
    by_cases hc : c = '-'
    · rw [signPart, if_pos hc, hc]
      exact ⟨Or.inr rfl, rest, rfl⟩
    · rw [signPart, if_neg hc]
      exact ⟨Or.inl rfl, List.nil_prefix⟩

theorem isFraction_fractionPart (text : List Char) :
    IsFraction (fractionPart text) ∧ fractionPart text <+: text := by
  cases text with
  | nil => exact ⟨Or.inl rfl, List.nil_prefix⟩
  | cons point rest =>
    rw [fractionPart]
    by_cases h : point = '.' ∧ rest.takeWhile Char.isDigit ≠ []
    · simp only [if_pos h]
      refine ⟨Or.inr ⟨_, rfl, h.2, all_takeWhile⟩, ?_⟩
      rw [h.1]
      exact List.cons_prefix_cons.mpr ⟨rfl, List.takeWhile_prefix _⟩
    · simp only [if_neg h]
      exact ⟨Or.inl rfl, List.nil_prefix⟩

theorem isExponent_exponentPart (text : List Char) :
    IsExponent (exponentPart text) ∧ exponentPart text <+: text := by
  cases text with
  | nil => exact ⟨Or.inl rfl, List.nil_prefix⟩
  | cons e rest =>
    have hsign : (exponentSign rest = [] ∨ exponentSign rest = ['+'] ∨ exponentSign rest = ['-']) ∧
        exponentSign rest <+: rest := by
      cases rest with
      | nil => exact ⟨Or.inl rfl, List.nil_prefix⟩
      | cons c rest =>
        by_cases hc : c = '+' ∨ c = '-'
        · rw [exponentSign, if_pos hc]
          exact ⟨Or.inr (by simpa using hc), rest, rfl⟩
        · rw [exponentSign, if_neg hc]
          exact ⟨Or.inl rfl, List.nil_prefix⟩
    rw [exponentPart]
    by_cases h : (e = 'e' ∨ e = 'E') ∧
        (rest.drop (exponentSign rest).length).takeWhile Char.isDigit ≠ []
    · simp only [if_pos h]
      refine ⟨Or.inr ⟨e, _, _, rfl, h.1, hsign.1, h.2, all_takeWhile⟩, ?_⟩
      exact List.cons_prefix_cons.mpr ⟨rfl, append_isPrefix hsign.2 (List.takeWhile_prefix _)⟩
    · simp only [if_neg h]
      exact ⟨Or.inl rfl, List.nil_prefix⟩

/-- The digits the scanner accepts in front of the decimal point. -/
theorem isInteger_iff {digits : List Char} (hdigits : ∀ c ∈ digits, c.isDigit) :
    IsInteger digits ↔ ¬ (digits = [] ∨ digits.head? = some '0' ∧ digits ≠ ['0']) := by
  rw [IsInteger, not_or, not_and, not_not]
  exact ⟨fun h ↦ ⟨h.1, h.2.2⟩, fun h ↦ ⟨h.1, hdigits, h.2⟩⟩

/-- A number is scanned as a whole. -/
theorem scanNumber_of_numeral (n : Numeral) {rest : List Char} (hrest : Apart rest) :
    scanNumber (n.text ++ rest) = (⟨n.type, n.text⟩, rest) := by
  obtain ⟨hne, hdigits, -⟩ := n.isInteger
  have hexponent := head_exponent n.isExponent hrest
  have htext : n.text ++ rest = n.sign ++ (n.integer ++ (n.fraction ++ (n.exponent ++ rest))) := by
    simp only [Numeral.text, List.append_assoc]
  have hsign : signPart (n.text ++ rest) = n.sign := by
    rw [htext]
    refine signPart_append n.isSign fun c hc ↦ ?_
    rw [List.head?_append_of_ne_nil _ hne] at hc
    exact hdigits c (List.mem_of_mem_head? hc)
  have hinteger : ((n.text ++ rest).drop n.sign.length).takeWhile Char.isDigit = n.integer := by
    rw [htext, List.drop_left]
    exact takeWhile_append_of_head hdigits (head_fraction n.isFraction hexponent)
  have hfraction : fractionPart ((n.text ++ rest).drop (n.sign ++ n.integer).length) =
      n.fraction := by
    rw [htext, ← List.append_assoc, List.drop_left]
    exact fractionPart_append n.isFraction hexponent
  have hexponentPart : exponentPart ((n.text ++ rest).drop
      (n.sign ++ n.integer ++ n.fraction).length) = n.exponent := by
    rw [htext, ← List.append_assoc, ← List.append_assoc, List.drop_left]
    exact exponentPart_append n.isExponent hrest
  have hdrop : (n.text ++ rest).drop (n.sign ++ n.integer ++ n.fraction ++ n.exponent).length =
      rest := List.drop_left
  rw [scanNumber]
  simp only [hsign, hinteger, hfraction, hexponentPart, hdrop]
  rw [if_neg ((isInteger_iff hdigits).mp n.isInteger)]
  rfl

/-- A token that `scanNumber` returns without an error is a number at the beginning of the text. -/
theorem exists_numeral_of_scanNumber {text rest : List Char} {token : Token}
    (h : scanNumber text = (token, rest)) (htype : token.type ≠ .parseError) :
    ∃ n : Numeral, token = ⟨n.type, n.text⟩ ∧ text = n.text ++ rest := by
  have hsign := isSign_signPart text
  set sign := signPart text with hsignEq
  set digits := (text.drop sign.length).takeWhile Char.isDigit with hdigitsEq
  have hdigits : ∀ c ∈ digits, c.isDigit := all_takeWhile
  have hfraction := isFraction_fractionPart (text.drop (sign ++ digits).length)
  set fraction := fractionPart (text.drop (sign ++ digits).length) with hfractionEq
  have hexponent := isExponent_exponentPart (text.drop (sign ++ digits ++ fraction).length)
  set exponent := exponentPart (text.drop (sign ++ digits ++ fraction).length) with hexponentEq
  rw [scanNumber] at h
  simp only [← hsignEq, ← hdigitsEq, ← hfractionEq, ← hexponentEq] at h
  by_cases hinteger : digits = [] ∨ digits.head? = some '0' ∧ digits ≠ ['0']
  · rw [if_pos hinteger] at h
    cases h
    exact absurd rfl htype
  · rw [if_neg hinteger] at h
    obtain ⟨rfl, rfl⟩ := Prod.mk.injEq .. ▸ h
    refine ⟨⟨sign, digits, fraction, exponent, hsign.1, (isInteger_iff hdigits).mpr hinteger,
      hfraction.1, hexponent.1⟩, rfl, ?_⟩
    have hparts : sign ++ digits ++ fraction ++ exponent <+: text :=
      append_isPrefix (append_isPrefix (append_isPrefix hsign.2 (List.takeWhile_prefix _))
        hfraction.2) hexponent.2
    obtain ⟨behind, hbehind⟩ := hparts
    have hdrop := congrArg (List.drop (sign ++ digits ++ fraction ++ exponent).length) hbehind
    rw [List.drop_left] at hdrop
    rw [← hdrop]
    exact hbehind.symm

/-! ### Scanning a token -/

/-- The letters and signs by which tokens of one character and literals are told. -/
def structuralCharacters : List Char := [',', ':', '[', ']', '\x7b', '\x7d', 't', 'f', 'n']

theorem punctuation_eq_none {c : Char} (h : c ∉ structuralCharacters) : punctuation c = none := by
  simp only [structuralCharacters, List.mem_cons, List.not_mem_nil, or_false, not_or] at h
  simp [punctuation, h]

theorem literal_eq_none {c : Char} (h : c ∉ structuralCharacters) : literal c = none := by
  simp only [structuralCharacters, List.mem_cons, List.not_mem_nil, or_false, not_or] at h
  simp [literal, h]

/-- The three literals. -/
theorem literal_eq_some {c : Char} {letters : List Char} {type : TokenType}
    (h : literal c = some (letters, type)) :
    (c = 't' ∧ letters = ['r', 'u', 'e'] ∧ type = .literalTrue) ∨
    (c = 'f' ∧ letters = ['a', 'l', 's', 'e'] ∧ type = .literalFalse) ∨
    (c = 'n' ∧ letters = ['u', 'l', 'l'] ∧ type = .literalNull) := by
  rw [literal] at h
  split_ifs at h with ht hf hn
  · cases h
    exact Or.inl ⟨ht, rfl, rfl⟩
  · cases h
    exact Or.inr (Or.inl ⟨hf, rfl, rfl⟩)
  · cases h
    exact Or.inr (Or.inr ⟨hn, rfl, rfl⟩)

/-- The tokens of one character. -/
theorem punctuation_eq_some {c : Char} {type : TokenType} (h : punctuation c = some type) :
    (c = ',' ∧ type = .valueSeparator) ∨ (c = ':' ∧ type = .nameSeparator) ∨
    (c = '[' ∧ type = .beginArray) ∨ (c = ']' ∧ type = .endArray) ∨
    (c = '\x7b' ∧ type = .beginObject) ∨ (c = '\x7d' ∧ type = .endObject) := by
  rw [punctuation] at h
  split_ifs at h with h₁ h₂ h₃ h₄ h₅ h₆ <;> cases h <;> simp [*]

/-- How a number begins. -/
theorem exists_head_numeral (n : Numeral) :
    ∃ c rest, n.text = c :: rest ∧ (c = '-' ∨ c.isDigit) := by
  obtain ⟨hne, hdigits, -⟩ := n.isInteger
  obtain ⟨d, digits, hinteger⟩ := List.exists_cons_of_ne_nil hne
  rcases n.isSign with hsign | hsign
  · refine ⟨d, digits ++ n.fraction ++ n.exponent, ?_, Or.inr ?_⟩
    · rw [Numeral.text, hsign, hinteger]
      rfl
    · exact hdigits d (hinteger ▸ List.mem_cons_self)
  · refine ⟨'-', n.integer ++ n.fraction ++ n.exponent, ?_, Or.inl rfl⟩
    rw [Numeral.text, hsign]
    rfl

/-- A lexeme is not empty, and begins with no white space. -/
theorem exists_head_lexeme {token : Token} (h : IsLexeme token) :
    ∃ c rest, token.text = c :: rest ∧ isBlank c = false := by
  have hnumber : ∀ c : Char, c = '-' ∨ c.isDigit → isBlank c = false := by
    intro c hc
    have hblanks : ∀ d ∈ [' ', '\t', '\n', '\r'], ¬ (d = '-' ∨ d.isDigit) := by simp
    by_contra hblank
    simp only [isBlank, Bool.not_eq_false, Bool.or_eq_true, beq_iff_eq] at hblank
    refine hblanks c ?_ hc
    simpa [or_assoc] using hblank
  cases h with
  | punctuation h =>
    refine ⟨_, _, rfl, ?_⟩
    rcases punctuation_eq_some h with h | h | h | h | h | h <;> rw [h.1] <;> rfl
  | literal h =>
    refine ⟨_, _, rfl, ?_⟩
    rcases literal_eq_some h with h | h | h <;> rw [h.1] <;> rfl
  | number n =>
    obtain ⟨c, rest, htext, hc⟩ := exists_head_numeral n
    exact ⟨c, rest, htext, hnumber c hc⟩
  | string h => exact ⟨_, _, rfl, rfl⟩

/-- White space in front of a text is passed over. -/
theorem scan_append_blank {gap : List Char} (hgap : ∀ c ∈ gap, isBlank c) (text : List Char) :
    scan (gap ++ text) = scan text := by
  rw [scan, scan, List.dropWhile_append_of_pos hgap]

theorem scan_cons {c : Char} (hc : isBlank c = false) (rest : List Char) :
    scan (c :: rest) = scanToken c rest := by
  rw [scan, List.dropWhile_cons_of_neg (by simp [hc])]

/-- A lexeme is returned when the text behind it does not continue it. -/
theorem scan_of_isLexeme {token : Token} {gap rest : List Char} (h : IsLexeme token)
    (hgap : ∀ c ∈ gap, isBlank c) (hrest : token.type.IsNumber → Apart rest) :
    scan (gap ++ (token.text ++ rest)) = (token, rest) := by
  obtain ⟨c, text, htext, hc⟩ := exists_head_lexeme h
  have hscan : scan (gap ++ (token.text ++ rest)) = scanToken c (text ++ rest) := by
    rw [scan_append_blank hgap, htext, List.cons_append, scan_cons hc]
  rw [hscan]
  cases h with
  | punctuation h =>
    cases htext
    simp only [scanToken, h, List.nil_append]
  | literal h =>
    cases htext
    have hnone : punctuation c = none := by
      rcases literal_eq_some h with h | h | h <;> rw [h.1] <;> rfl
    have hletters : text.isPrefixOf (text ++ rest) = true :=
      List.isPrefixOf_iff_prefix.mpr (List.prefix_append text rest)
    simp only [scanToken, hnone, h, hletters, if_true, List.drop_left]
  | number n =>
    obtain ⟨c', rest', htext', hc'⟩ := exists_head_numeral n
    have hsame : c' :: rest' = c :: text := htext'.symm.trans htext
    cases hsame
    have hstructural : ∀ d ∈ structuralCharacters, ¬ (d = '-' ∨ d.isDigit) := by
      simp [structuralCharacters]
    have hstart : c ∉ structuralCharacters := fun hmem ↦ hstructural c hmem hc'
    have hquote : c ≠ '"' := by
      rintro rfl
      exact absurd hc' (by decide)
    have hnumber : n.type.IsNumber := by
      unfold Numeral.type TokenType.IsNumber
      split_ifs <;> simp
    simp only [scanToken, punctuation_eq_none hstart, literal_eq_none hstart, if_neg hquote,
      if_pos hc']
    rw [← List.cons_append, ← htext', scanNumber_of_numeral n (hrest hnumber)]
  | string hbody =>
    cases htext
    have hnone : punctuation '"' = none ∧ literal '"' = none := ⟨rfl, rfl⟩
    simp only [scanToken, hnone.1, hnone.2, if_true]
    rw [List.append_assoc, List.singleton_append, scanString_of_isBody hbody]

/-- What `scanToken` returns: a lexeme at the beginning of the text, an error, or the end. -/
theorem scanToken_cases {c : Char} {rest rest' : List Char} {token : Token}
    (h : scanToken c rest = (token, rest')) :
    (IsLexeme token ∧ c :: rest = token.text ++ rest') ∨ token.type = .parseError ∨
      (token.type = .endOfInput ∧ c.toNat = 0) := by
  cases hpunctuation : punctuation c with
  | some type =>
    simp only [scanToken, hpunctuation] at h
    cases h
    exact Or.inl ⟨.punctuation hpunctuation, rfl⟩
  | none =>
    cases hliteral : literal c with
    | some found =>
      simp only [scanToken, hpunctuation, hliteral] at h
      by_cases hletters : found.1.isPrefixOf rest = true
      · rw [if_pos hletters] at h
        obtain ⟨behind, rfl⟩ := List.isPrefixOf_iff_prefix.mp hletters
        rw [List.drop_left] at h
        cases h
        exact Or.inl ⟨.literal hliteral, rfl⟩
      · rw [if_neg hletters] at h
        cases h
        exact Or.inr (Or.inl rfl)
    | none =>
      simp only [scanToken, hpunctuation, hliteral] at h
      by_cases hquote : c = '"'
      · rw [if_pos hquote] at h
        cases hscan : scanString .body rest with
        | none =>
          rw [hscan] at h
          cases h
          exact Or.inr (Or.inl rfl)
        | some scanned =>
          rw [hscan] at h
          cases h
          obtain ⟨hbody, hrest⟩ := isBody_of_scanString hscan
          refine Or.inl ⟨.string hbody, ?_⟩
          rw [hquote, hrest, List.cons_append, List.append_assoc, List.singleton_append]
      · rw [if_neg hquote] at h
        by_cases hnumber : c = '-' ∨ c.isDigit
        · rw [if_pos hnumber] at h
          by_cases herror : token.type = .parseError
          · exact Or.inr (Or.inl herror)
          · obtain ⟨n, rfl, htext⟩ := exists_numeral_of_scanNumber h herror
            exact Or.inl ⟨.number n, htext⟩
        · rw [if_neg hnumber] at h
          by_cases hnull : c.toNat = 0
          · rw [if_pos hnull] at h
            cases h
            exact Or.inr (Or.inr ⟨rfl, hnull⟩)
          · rw [if_neg hnull] at h
            cases h
            exact Or.inr (Or.inl rfl)

/-- A lexeme is no error and does not end the input. -/
theorem IsLexeme.type_ne {token : Token} (h : IsLexeme token) :
    token.type ≠ .parseError ∧ token.type ≠ .endOfInput := by
  cases h with
  | punctuation h => rcases punctuation_eq_some h with h | h | h | h | h | h <;> simp [h.2]
  | literal h => rcases literal_eq_some h with h | h | h <;> simp [h.2.2]
  | number n =>
    simp only [Numeral.type]
    split_ifs <;> simp
  | string h => simp

/-- The input ends here: nothing but white space is left, or white space and a null character. -/
def IsEnd (text : List Char) : Prop :=
  ∃ gap rest, (∀ c ∈ gap, isBlank c) ∧ text = gap ++ rest ∧ ∀ c ∈ rest.head?, c.toNat = 0

/-- What `scan` returns: a lexeme behind white space, an error, or the end of the input. -/
theorem scan_cases {text rest : List Char} {token : Token} (h : scan text = (token, rest)) :
    (IsLexeme token ∧ ∃ gap, (∀ c ∈ gap, isBlank c) ∧ text = gap ++ (token.text ++ rest)) ∨
      token.type = .parseError ∨ (token.type = .endOfInput ∧ IsEnd text) := by
  have hgap : ∀ c ∈ text.takeWhile isBlank, isBlank c := all_takeWhile
  have htext := List.takeWhile_append_dropWhile (p := isBlank) (l := text)
  rw [scan] at h
  cases hdrop : text.dropWhile isBlank with
  | nil =>
    rw [hdrop] at h htext
    cases h
    exact Or.inr (Or.inr ⟨rfl, _, [], hgap, htext.symm, nofun⟩)
  | cons c behind =>
    rw [hdrop] at h htext
    rcases scanToken_cases h with ⟨hlexeme, hbehind⟩ | herror | ⟨hend, hnull⟩
    · exact Or.inl ⟨hlexeme, _, hgap, by rw [← hbehind, htext]⟩
    · exact Or.inr (Or.inl herror)
    · refine Or.inr (Or.inr ⟨hend, _, c :: behind, hgap, htext.symm, ?_⟩)
      intro d hd
      cases hd
      exact hnull

/-- A token that is returned without an error, and does not end the input, is a lexeme that stands
in the text behind white space. -/
theorem isLexeme_of_scan {text rest : List Char} {token : Token} (h : scan text = (token, rest))
    (herror : token.type ≠ .parseError) (hend : token.type ≠ .endOfInput) :
    IsLexeme token ∧ ∃ gap, (∀ c ∈ gap, isBlank c) ∧ text = gap ++ (token.text ++ rest) := by
  rcases scan_cases h with hlexeme | htype | ⟨htype, -⟩
  · exact hlexeme
  · exact absurd htype herror
  · exact absurd htype hend

/-- The scanner reports the end of the input exactly at its end. -/
theorem scan_type_eq_endOfInput {text : List Char} :
    (scan text).1.type = .endOfInput ↔ IsEnd text := by
  constructor
  · intro htype
    obtain ⟨token, rest, hscan⟩ : ∃ token rest, scan text = (token, rest) := ⟨_, _, rfl⟩
    rw [hscan] at htype
    rcases scan_cases hscan with ⟨hlexeme, -⟩ | herror | ⟨-, hend⟩
    · exact absurd htype hlexeme.type_ne.2
    · exact absurd (herror.symm.trans htype) nofun
    · exact hend
  · rintro ⟨gap, rest, hgap, rfl, hrest⟩
    rw [scan_append_blank hgap]
    cases rest with
    | nil => rfl
    | cons c rest =>
      have hc : c = Char.ofNat 0 := eq_ofNat (hrest c rfl)
      subst hc
      rfl

end PcmWrapper
