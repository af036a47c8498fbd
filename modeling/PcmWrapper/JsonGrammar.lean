import Mathlib.Algebra.Order.Field.Rat
import Mathlib.Tactic.NormNum
import PcmWrapper.CodeNumerals
import PcmWrapper.JsonParser

/-!
# What a JSON text says

This module says which texts are JSON and which value each of them has, without the parser. A
`Piece` is an item of a string literal with the code point it stands for; an escape of a surrogate
is a piece only together with its partner, so a `StringLiteral` always has a value. The values of
digits are positional. `Derives` is the grammar over tokens, with the value next to each derivation,
and `Spells` says how the tokens stand in a text.

`getString_text` and `exists_literal_of_getString` connect `get_string` to the pieces: it returns
the UTF-8 encoding of their code points, and it returns for no other body. `getNumber_text` connects
`get_number` to the values of numbers.
-/

set_option autoImplicit false
set_option relaxedAutoImplicit false

namespace PcmWrapper

open Library

/-! ### String literals -/

/-- The four digits of a `\u` escape, with their values. -/
structure HexQuad where
  digits : List Char
  values : List ℕ
  length_eq : digits.length = 4
  isDigit : List.Forall₂ IsHexDigit digits values

/-- The number of the escape. -/
def HexQuad.value (quad : HexQuad) : ℕ := Nat.ofDigits 16 quad.values.reverse

/-- The escape itself. -/
def HexQuad.text (quad : HexQuad) : List Char := '\\' :: 'u' :: quad.digits

/-- What a string literal is made of. -/
inductive Piece
  | unescaped (c : Char) (hlow : 0x20 ≤ c.toNat) (hquote : c ≠ '"') (hbackslash : c ≠ '\\')
  | escape (c : Char) (hc : c ∈ simpleEscapes)
  | unicode (quad : HexQuad) (hhigh : ¬ IsHigh quad.value) (hlow : ¬ IsLow quad.value)
  | pair (high low : HexQuad) (hhigh : IsHigh high.value) (hlow : IsLow low.value)

/-- The text of a piece. -/
def Piece.text : Piece → List Char
  | .unescaped c _ _ _ => utf8 c
  | .escape c _ => ['\\', c]
  | .unicode quad _ _ => quad.text
  | .pair high low _ _ => high.text ++ low.text

/-- The code point a piece stands for. -/
def Piece.codepoint : Piece → Char
  | .unescaped c _ _ _ => c
  | .escape c _ =>
    if c = 't' then '\t'
    else if c = 'b' then '\x08'
    else if c = 'f' then '\x0c'
    else if c = 'n' then '\n'
    else if c = 'r' then '\r'
    else c
  | .unicode quad _ _ => Char.ofNat quad.value
  | .pair high low _ _ =>
    Char.ofNat (0x10000 + (high.value - 0xD800) * 0x400 + (low.value - 0xDC00))

/-- A string literal, between its quotation marks. -/
structure StringLiteral where
  pieces : List Piece

/-- The text between the quotation marks. -/
def StringLiteral.text (s : StringLiteral) : List Char := s.pieces.flatMap Piece.text

/-- The string: the UTF-8 encoding of its code points. -/
def StringLiteral.value (s : StringLiteral) : String :=
  String.ofList (s.pieces.flatMap fun piece ↦ utf8 piece.codepoint)

/-- The token of a string literal. -/
def StringLiteral.token (s : StringLiteral) : Token :=
  ⟨.valueString, '"' :: (s.text ++ ['"'])⟩

/-! ### Numbers -/

/-- The token of a number. -/
def Numeral.token (n : Numeral) : Token := ⟨n.type, n.text⟩

/-- The digits behind the decimal point. -/
def Numeral.decimals (n : Numeral) : List Char := n.fraction.filter Char.isDigit

/-- The power of ten in the exponent. -/
def Numeral.power (n : Numeral) : ℤ :=
  (if '-' ∈ n.exponent then -1 else 1) * Nat.ofDigitChars 10 (n.exponent.filter Char.isDigit) 0

/-- The size of the number that a numeral stands for. -/
def Numeral.magnitude (n : Numeral) : ℚ :=
  Nat.ofDigitChars 10 (n.integer ++ n.decimals) 0 * 10 ^ (n.power - n.decimals.length)

/-- The number, or `null` where no `double` holds it. -/
def Numeral.value (n : Numeral) : Json :=
  if infinityBound ≤ n.magnitude then .null else .number (String.ofList n.text)

/-! ### Values -/

/-- The lists that stand one behind the other with commas between them. -/
def separated : List (List Token) → List Token
  | [] => []
  | first :: others => first ++ others.flatMap (⟨.valueSeparator, [',']⟩ :: ·)

/-- A member of an object: its key, the tokens of its value, and its value. -/
structure MemberText where
  key : StringLiteral
  tokens : List Token
  value : Json

/-- The tokens of a member. -/
def MemberText.all (m : MemberText) : List Token :=
  m.key.token :: ⟨.nameSeparator, [':']⟩ :: m.tokens

/-- The members that are left of an object when a later one replaces an earlier one of its key. -/
def objectOf (members : List MemberText) : List (String × Json) :=
  assignAll keyBefore (members.map fun m ↦ (m.key.value, m.value))

/-- The grammar: the tokens of a value, and the value. -/
inductive Derives : List Token → Json → Prop
  | null : Derives [⟨.literalNull, ['n', 'u', 'l', 'l']⟩] .null
  | true : Derives [⟨.literalTrue, ['t', 'r', 'u', 'e']⟩] (.boolean true)
  | false : Derives [⟨.literalFalse, ['f', 'a', 'l', 's', 'e']⟩] (.boolean false)
  | number (n : Numeral) : Derives [n.token] n.value
  | string (s : StringLiteral) : Derives [s.token] (.string s.value)
  | array (elements : List (List Token × Json)) (h : ∀ e ∈ elements, Derives e.1 e.2) :
      Derives (⟨.beginArray, ['[']⟩ :: (separated (elements.map Prod.fst) ++ [⟨.endArray, [']']⟩]))
        (.array (elements.map Prod.snd))
  | object (members : List MemberText) (h : ∀ m ∈ members, Derives m.tokens m.value) :
      Derives (⟨.beginObject, ['\x7b']⟩ ::
        (separated (members.map MemberText.all) ++ [⟨.endObject, ['\x7d']⟩]))
        (.object (objectOf members))

/-- The tokens stand in the text one behind the other, with white space in front of each, and the
text ends behind them. -/
def Spells : List Token → List Char → Prop
  | [], text => IsEnd text
  | token :: tokens, text => ∃ gap rest, (∀ c ∈ gap, isBlank c) ∧
      text = gap ++ (token.text ++ rest) ∧ Spells tokens rest

/-- The text is JSON and has the value. -/
def Denotes (text : List Char) (value : Json) : Prop :=
  ∃ tokens, Derives tokens value ∧ Spells tokens text

/-! ### Code points -/

/-- The four digits. -/
theorem HexQuad.exists_digits (quad : HexQuad) : ∃ a b c d, quad.digits = [a, b, c, d] := by
  match quad.digits, quad.length_eq with
  | [a, b, c, d], _ => exact ⟨a, b, c, d, rfl⟩

/-- The digits a text begins with are no more than its characters, and less than sixteen each. -/
theorem hexDigits_bounds (text : List Char) :
    (hexDigits text).length ≤ text.length ∧ ∀ digit ∈ hexDigits text, digit < 16 := by
  induction text with
  | nil => exact ⟨Nat.le_refl _, fun _ hmem ↦ absurd hmem List.not_mem_nil⟩
  | cons c text ih =>
    rw [hexDigits]
    cases hdigit : hexDigitValue c with
    | none => exact ⟨Nat.zero_le _, fun _ hmem ↦ absurd hmem List.not_mem_nil⟩
    | some digit =>
      exact ⟨Nat.succ_le_succ ih.1,
        List.forall_mem_cons.mpr ⟨(hexDigitValue_eq_some.mp hdigit).1, ih.2⟩⟩

/-- Four digits make a number of sixteen bits. -/
theorem codepointOf_lt {digits : List Char} (h : digits.length ≤ 4) :
    codepointOf digits < 0x10000 := by
  obtain ⟨hlength, hdigits⟩ := hexDigits_bounds digits
  rw [codepointOf, hexValue_eq_ofDigits]
  have hlt : Nat.ofDigits 16 (hexDigits digits).reverse < 16 ^ (hexDigits digits).length := by
    rw [← List.length_reverse]
    exact Nat.ofDigits_lt_base_pow_length (by decide) fun digit hdigit ↦
      hdigits digit (List.mem_reverse.mp hdigit)
  exact Nat.lt_of_lt_of_le hlt (Nat.pow_le_pow_right (by decide) (Nat.le_trans hlength h))

/-- A run of digits is read to its end. -/
theorem forall₂_hexDigits {digits : List Char} (h : ∀ c ∈ digits, (hexDigitValue c).isSome) :
    List.Forall₂ IsHexDigit digits (hexDigits digits) := by
  induction digits with
  | nil => exact .nil
  | cons c digits ih =>
    obtain ⟨hc, hdigits⟩ := List.forall_mem_cons.mp h
    obtain ⟨value, hvalue⟩ := Option.isSome_iff_exists.mp hc
    simp only [hexDigits, hvalue]
    exact .cons (hexDigitValue_eq_some.mp hvalue) (ih hdigits)

/-- The parser reads the number of an escape. -/
theorem HexQuad.codepointOf_digits (quad : HexQuad) : codepointOf quad.digits = quad.value := by
  have hdigits : hexDigits (quad.digits ++ []) = quad.values :=
    hexDigits_append quad.isDigit fun _ _ h ↦ absurd h.symm (List.cons_ne_nil _ _)
  rw [List.append_nil] at hdigits
  rw [codepointOf, hdigits, hexValue_eq_ofDigits, HexQuad.value]

/-- The digits of an escape are digits. -/
theorem HexQuad.isSome_digits (quad : HexQuad) : ∀ c ∈ quad.digits, (hexDigitValue c).isSome := by
  intro c hc
  obtain ⟨digit, hdigit⟩ := isHexDigit_of_mem quad.isDigit c hc
  rw [hexDigitValue_eq_some.mpr hdigit]
  rfl

/-- The number of a `\u` escape has sixteen bits. -/
theorem HexQuad.value_lt (quad : HexQuad) : quad.value < 0x10000 :=
  quad.codepointOf_digits ▸ codepointOf_lt quad.length_eq.le

/-- A marker above some lower bits of a number. -/
theorem marker_or_bits (upper width n : ℕ) :
    2 ^ width * upper ||| (n &&& (2 ^ width - 1)) = n % 2 ^ width + 2 ^ width * upper := by
  rw [Nat.and_two_pow_sub_one_eq_mod,
    ← Nat.two_pow_add_eq_or_of_lt (Nat.mod_lt n (Nat.two_pow_pos width)), Nat.add_comm]

/-- `to_unicode` returns the UTF-8 encoding of a character. -/
theorem codepointBytes_toNat (c : Char) : codepointBytes c.toNat = .ok (utf8 c) := by
  have hlast := toNat_le c
  have hshift6 : c.toNat >>> 6 = c.toNat / 64 := Nat.shiftRight_eq_div_pow _ _
  have hshift12 : c.toNat >>> 12 = c.toNat / 4096 := Nat.shiftRight_eq_div_pow _ _
  have hshift18 : c.toNat >>> 18 = c.toNat / 262144 := Nat.shiftRight_eq_div_pow _ _
  have htail : ∀ n : ℕ, 0x80 ||| (n &&& 0x3F) = n % 64 + 0x80 := marker_or_bits 2 6
  rw [codepointBytes]
  simp only [hshift6, hshift12, hshift18]
  by_cases hone : c.toNat < 0x80
  · rw [if_pos hone, utf8_of_lt hone, Char.ofNat_toNat]
  rw [if_neg hone]
  by_cases htwo : c.toNat ≤ 0x7FF
  · have hlead : 0xC0 ||| (c.toNat / 64 &&& 0x1F) = c.toNat / 64 + 0xC0 :=
      (marker_or_bits 6 5 _).trans (by omega)
    rw [if_pos htwo, utf8_two (by omega) htwo, hlead, htail]
  rw [if_neg htwo]
  by_cases hthree : c.toNat ≤ 0xFFFF
  · have hlead : 0xE0 ||| (c.toNat / 4096 &&& 0x0F) = c.toNat / 4096 + 0xE0 :=
      (marker_or_bits 14 4 _).trans (by omega)
    rw [if_pos hthree, utf8_three (by omega) hthree, hlead, htail, htail]
  · have hlead : 0xF0 ||| (c.toNat / 262144 &&& 0x07) = c.toNat / 262144 + 0xF0 :=
      (marker_or_bits 30 3 _).trans (by omega)
    rw [if_neg hthree, if_pos hlast, utf8_four (by omega), hlead, htail, htail, htail]

/-- `to_unicode` on a code point that is no surrogate. -/
theorem toUnicode_of_not_high {codepoint : ℕ} (hhigh : ¬ IsHigh codepoint)
    (hlow : ¬ IsLow codepoint) (hlt : codepoint < 0x10000) :
    toUnicode codepoint 0 = .ok (utf8 (Char.ofNat codepoint)) := by
  have hnumber : (Char.ofNat codepoint).toNat = codepoint := by
    unfold IsHigh IsLow at *
    exact toNat_ofNat_of_scalar (by omega)
  have hbytes := codepointBytes_toNat (Char.ofNat codepoint)
  rw [hnumber] at hbytes
  exact (if_neg hhigh).trans hbytes

/-- `to_unicode` on a pair of surrogates. -/
theorem toUnicode_pair {high low : ℕ} (hhigh : IsHigh high) (hlow : IsLow low) :
    toUnicode high low =
      .ok (utf8 (Char.ofNat (0x10000 + (high - 0xD800) * 0x400 + (low - 0xDC00)))) := by
  have hbounds : (0xD800 ≤ high ∧ high ≤ 0xDBFF) ∧ 0xDC00 ≤ low ∧ low ≤ 0xDFFF := ⟨hhigh, hlow⟩
  have hsum : (high <<< 10) + low - 0x35FDC00 =
      0x10000 + (high - 0xD800) * 0x400 + (low - 0xDC00) := by
    rw [Nat.shiftLeft_eq]
    omega
  have hnumber : (Char.ofNat (0x10000 + (high - 0xD800) * 0x400 + (low - 0xDC00))).toNat =
      0x10000 + (high - 0xD800) * 0x400 + (low - 0xDC00) := toNat_ofNat_of_scalar (by omega)
  have hbytes := codepointBytes_toNat
    (Char.ofNat (0x10000 + (high - 0xD800) * 0x400 + (low - 0xDC00)))
  rw [hnumber] at hbytes
  rw [toUnicode, if_pos hhigh, if_pos hlow, hsum, hbytes]

/-! ### What `get_string` returns -/

theorem getString_plain {c : Char} (hc : c ≠ '\\') (rest : List Char) :
    getString (c :: rest) = (getString rest).map (c :: ·) := by
  rw [getString.eq_def]
  simp only [if_pos hc]
  cases getString rest <;> rfl

/-- Characters that are no backslash stay as they are. -/
theorem getString_append {bytes : List Char} (hbytes : ∀ c ∈ bytes, c ≠ '\\') (rest : List Char) :
    getString (bytes ++ rest) = (getString rest).map (bytes ++ ·) := by
  induction bytes with
  | nil => cases h : getString rest <;> simp [h, Except.map]
  | cons c bytes ih =>
    rw [List.forall_mem_cons] at hbytes
    rw [List.cons_append, getString_plain hbytes.1, ih hbytes.2]
    cases getString rest <;> rfl

theorem getString_escape {escaped : Char} (hu : escaped ≠ 'u') (rest : List Char) :
    getString ('\\' :: escaped :: rest) = (getString rest).map (unescape escaped ++ ·) := by
  rw [getString.eq_def]
  simp only [ne_eq, not_true_eq_false, if_false, if_pos hu]
  cases getString rest <;> rfl

/-- A `\u` escape that is no surrogate. -/
theorem getString_unicode {quad : HexQuad} (hhigh : ¬ IsHigh quad.value)
    (hlow : ¬ IsLow quad.value) (rest : List Char) : getString (quad.text ++ rest) =
      (getString rest).map (utf8 (Char.ofNat quad.value) ++ ·) := by
  obtain ⟨a, b, c, d, habcd⟩ := quad.exists_digits
  have hvalue : codepointOf [a, b, c, d] = quad.value := by
    rw [← habcd, quad.codepointOf_digits]
  have hunicode := toUnicode_of_not_high hhigh hlow quad.value_lt
  rw [HexQuad.text, habcd, getString.eq_def]
  simp only [List.cons_append, List.nil_append, ne_eq, not_true_eq_false, if_false, hvalue]
  rw [if_neg hhigh, if_neg hlow, hunicode]
  cases getString rest <;> rfl

/-- A low surrogate in front of anything. -/
theorem getString_low {quad : HexQuad} (hlow : IsLow quad.value) (rest : List Char) :
    getString (quad.text ++ rest) = .error (.invalidArgument "missing high surrogate") := by
  obtain ⟨a, b, c, d, habcd⟩ := quad.exists_digits
  have hvalue : codepointOf [a, b, c, d] = quad.value := by
    rw [← habcd, quad.codepointOf_digits]
  have hhigh : ¬ IsHigh quad.value := by
    unfold IsHigh IsLow at *
    omega
  rw [HexQuad.text, habcd, getString.eq_def]
  simp only [List.cons_append, List.nil_append, ne_eq, not_true_eq_false, if_false, hvalue]
  rw [if_neg hhigh, if_pos hlow]

/-- A high surrogate in front of another escape. -/
theorem getString_high {high : HexQuad} (hhigh : IsHigh high.value) (low : HexQuad)
    (rest : List Char) :
    getString (high.text ++ (low.text ++ rest)) = do
      return (← toUnicode high.value low.value) ++ (← getString rest) := by
  obtain ⟨a, b, c, d, habcd⟩ := high.exists_digits
  obtain ⟨a', b', c', d', habcd'⟩ := low.exists_digits
  have hvalue : codepointOf [a, b, c, d] = high.value := by
    rw [← habcd, high.codepointOf_digits]
  have hvalue' : codepointOf [a', b', c', d'] = low.value := by
    rw [← habcd', low.codepointOf_digits]
  rw [HexQuad.text, HexQuad.text, habcd, habcd', getString.eq_def]
  simp only [List.cons_append, List.nil_append, ne_eq, not_true_eq_false, if_false, hvalue, hvalue',
    or_self]
  rw [if_pos hhigh]

/-- A pair of surrogates. -/
theorem getString_pair {high low : HexQuad} (hhigh : IsHigh high.value) (hlow : IsLow low.value)
    (rest : List Char) :
    getString ((high.text ++ low.text) ++ rest) = (getString rest).map
      (utf8 (Char.ofNat (0x10000 + (high.value - 0xD800) * 0x400 + (low.value - 0xDC00))) ++
        ·) := by
  rw [List.append_assoc, getString_high hhigh low, toUnicode_pair hhigh hlow]
  cases getString rest <;> rfl

/-- The bytes of an unescaped character are no backslash. -/
theorem ne_backslash_of_mem_utf8 {c byte : Char} (hc : c ≠ '\\') (hbyte : byte ∈ utf8 c) :
    byte ≠ '\\' := by
  by_cases hascii : c.toNat < 0x80
  · rw [utf8_of_lt hascii, List.mem_singleton] at hbyte
    exact hbyte ▸ hc
  · have hupper := le_toNat_of_mem_utf8 (by omega) hbyte
    rintro rfl
    exact absurd hupper (by decide)

/-- A piece in front of a text. -/
theorem getString_piece (piece : Piece) (rest : List Char) : getString (piece.text ++ rest) =
    (getString rest).map (utf8 piece.codepoint ++ ·) := by
  cases piece with
  | unescaped c hlow hquote hbackslash =>
    exact getString_append (fun _ ↦ ne_backslash_of_mem_utf8 hbackslash) rest
  | escape c hc =>
    have hunescape : ∀ c (hc : c ∈ simpleEscapes),
        c ≠ 'u' ∧ unescape c = utf8 (Piece.escape c hc).codepoint := by
      intro c hc
      simp only [simpleEscapes, List.mem_cons, List.not_mem_nil, or_false] at hc
      rcases hc with rfl | rfl | rfl | rfl | rfl | rfl | rfl | rfl <;> exact ⟨by decide, rfl⟩
    rw [← (hunescape c hc).2]
    exact getString_escape (hunescape c hc).1 rest
  | unicode quad hhigh hlow => exact getString_unicode hhigh hlow rest
  | pair high low hhigh hlow => exact getString_pair hhigh hlow rest

/-- `get_string` returns the value of a string literal. -/
theorem getString_text (s : StringLiteral) : getString s.text = .ok s.value.toList := by
  rw [StringLiteral.value, String.toList_ofList, StringLiteral.text]
  induction s.pieces with
  | nil => rfl
  | cons piece pieces ih =>
    rw [List.flatMap_cons, List.flatMap_cons, getString_piece, ih]
    rfl

/-- A high surrogate without another escape behind it. -/
theorem getString_high_alone {high : HexQuad} (hhigh : IsHigh high.value) {rest : List Char}
    (hrest : ∀ more, rest ≠ '\\' :: 'u' :: more) :
    getString (high.text ++ rest) = .error (.invalidArgument "missing low surrogate") := by
  obtain ⟨a, b, c, d, habcd⟩ := high.exists_digits
  have hvalue : codepointOf [a, b, c, d] = high.value := by
    rw [← habcd, high.codepointOf_digits]
  rw [HexQuad.text, habcd, getString.eq_def]
  simp only [List.cons_append, List.nil_append, ne_eq, not_true_eq_false, if_false, hvalue]
  rw [if_pos hhigh]
  split
  · rename_i backslash u e₁ e₂ e₃ e₄ more
    have hnot : backslash ≠ '\\' ∨ u ≠ 'u' := by
      by_contra hboth
      rw [not_or, not_not, not_not] at hboth
      exact hrest _ (by rw [hboth.1, hboth.2])
    rw [if_pos hnot]
  · rfl

/-- An item that is no `\u` escape does not begin like one. -/
theorem item_cases {item : List Char} (h : IsItem item) :
    (∃ quad : HexQuad, item = quad.text) ∨ ∀ rest more, item ++ rest ≠ '\\' :: 'u' :: more := by
  have hlead : ∀ {lead : Char} {low : ℕ} {tails : List Char}, 0xC2 ≤ low → low ≤ lead.toNat →
      ∀ rest more, lead :: tails ++ rest ≠ '\\' :: 'u' :: more := by
    rintro lead low tails hlow hle rest more heq
    injection heq with hlead _
    rw [hlead] at hle
    exact absurd (Nat.le_trans hlow hle) (by decide)
  cases h with
  | ascii hlow hhigh hquote hbackslash =>
    exact Or.inr fun rest more heq ↦ hbackslash (List.cons.inj heq).1
  | multibyte hbytes =>
    cases hbytes with
    | two hbounds htail => exact Or.inr (hlead (by omega) hbounds.1)
    | three hbounds htail htail' hlow hhigh => exact Or.inr (hlead (by omega) hbounds.1)
    | four hbounds htail htail' htail'' hlow hhigh => exact Or.inr (hlead (by omega) hbounds.1)
  | escape hc =>
    refine Or.inr fun rest more heq ↦ ?_
    have hu := (List.cons.inj (List.cons.inj heq).2).1
    rw [hu] at hc
    exact absurd hc (by decide)
  | unicode hlength hdigits => exact Or.inl ⟨⟨_, _, hlength, forall₂_hexDigits hdigits⟩, rfl⟩

/-- The text of a piece is one item or two. -/
theorem isBody_piece (piece : Piece) {body : List Char} (hbody : IsBody body) :
    IsBody (piece.text ++ body) := by
  cases piece with
  | unescaped c hlow hquote hbackslash =>
    refine .cons ?_ hbody
    by_cases hascii : c.toNat < 0x80
    · rw [Piece.text, utf8_of_lt hascii]
      exact .ascii hlow (by omega) hquote hbackslash
    · exact .multibyte (isMultibyte_utf8 (by omega))
  | escape c hc => exact .cons (.escape hc) hbody
  | unicode quad hhigh hlow => exact .cons (.unicode quad.length_eq quad.isSome_digits) hbody
  | pair high low hhigh hlow =>
    rw [Piece.text, List.append_assoc]
    exact .cons (.unicode high.length_eq high.isSome_digits)
      (.cons (.unicode low.length_eq low.isSome_digits) hbody)

/-- A string literal is the body of a string. -/
theorem isBody_text (s : StringLiteral) : IsBody s.text := by
  rw [StringLiteral.text]
  induction s.pieces with
  | nil => exact .nil
  | cons piece pieces ih => exact isBody_piece piece ih

/-- A body for which `get_string` returns begins with a piece, unless it is empty. -/
theorem exists_piece {body text : List Char} (hbody : IsBody body)
    (h : getString body = .ok text) : body = [] ∨
      ∃ piece : Piece, ∃ body', body = piece.text ++ body' ∧ IsBody body' := by
  cases hbody with
  | nil => exact Or.inl rfl
  | @cons item body' hitem hbody =>
    right
    cases hitem with
    | @ascii c hlow hhigh hquote hbackslash =>
      refine ⟨.unescaped c hlow hquote hbackslash, body', ?_, hbody⟩
      rw [Piece.text, utf8_of_lt (by omega)]
    | multibyte hbytes =>
      obtain ⟨c, hc, rfl⟩ := isMultibyte_iff.mp hbytes
      refine ⟨.unescaped c (by omega) ?_ ?_, body', rfl, hbody⟩
      · rintro rfl
        exact absurd hc (by decide)
      · rintro rfl
        exact absurd hc (by decide)
    | escape hc => exact ⟨.escape _ hc, body', rfl, hbody⟩
    | @unicode digits hlength hdigits =>
      set quad : HexQuad := ⟨digits, hexDigits digits, hlength, forall₂_hexDigits hdigits⟩
      by_cases hlow : IsLow quad.value
      · have hfailed := getString_low hlow body'
        exact absurd (h.symm.trans hfailed) nofun
      by_cases hhigh : IsHigh quad.value
      · -- a high surrogate has its partner behind it, or there is no value
        have halone : ∀ {rest : List Char}, (∀ more, rest ≠ '\\' :: 'u' :: more) →
            getString (quad.text ++ rest) ≠ .ok text := by
          intro rest hrest hok
          exact absurd (hok.symm.trans (getString_high_alone hhigh hrest)) nofun
        cases hbody with
        | nil => exact absurd h (halone fun _ ↦ nofun)
        | @cons item' body'' hitem' hbody' =>
          rcases item_cases hitem' with ⟨low, rfl⟩ | hother
          · by_cases hpartner : IsLow low.value
            · exact ⟨.pair quad low hhigh hpartner, body'', (List.append_assoc _ _ _).symm, hbody'⟩
            · have hfailed := getString_high hhigh low body''
              rw [toUnicode, if_pos hhigh, if_neg hpartner] at hfailed
              exact absurd (h.symm.trans hfailed) nofun
          · exact absurd h (halone (hother body''))
      · exact ⟨.unicode quad hhigh hlow, body', rfl, hbody⟩

/-- A piece is not empty. -/
theorem length_pos_of_piece (piece : Piece) : 0 < piece.text.length := by
  cases piece with
  | unescaped c hlow hquote hbackslash =>
    rw [Piece.text, utf8, List.length_map, String.length_utf8EncodeChar]
    exact c.utf8Size_pos
  | _ => exact Nat.succ_pos _

/-- `get_string` returns only for string literals. -/
theorem exists_literal_of_getString {body text : List Char} (hbody : IsBody body)
    (h : getString body = .ok text) : ∃ s : StringLiteral, body = s.text := by
  induction hn : body.length using Nat.strongRecOn generalizing body text with
  | _ n ih =>
    rcases exists_piece hbody h with rfl | ⟨piece, body', rfl, hbody'⟩
    · exact ⟨⟨[]⟩, rfl⟩
    · have hpos := length_pos_of_piece piece
      rw [List.length_append] at hn
      rw [getString_piece] at h
      cases htext : getString body' with
      | error exception =>
        rw [htext] at h
        cases h
      | ok text' =>
        obtain ⟨⟨pieces⟩, rfl⟩ := ih _ (by omega) hbody' htext rfl
        exact ⟨⟨piece :: pieces⟩, rfl⟩

/-! ### What `get_number` returns -/

/-- The test for infinity, on rational numbers. -/
theorem roundsToInfinity_iff (digits : ℕ) (scale : ℤ) :
    roundsToInfinity digits scale = true ↔ (infinityBound : ℚ) ≤ digits * (10 : ℚ) ^ scale := by
  rw [roundsToInfinity]
  by_cases hscale : 0 ≤ scale
  · obtain ⟨power, rfl⟩ := Int.eq_ofNat_of_zero_le hscale
    rw [if_pos hscale, decide_eq_true_iff, Int.toNat_natCast, zpow_natCast]
    exact_mod_cast Iff.rfl
  · obtain ⟨power, hpower⟩ := Int.eq_ofNat_of_zero_le (show 0 ≤ -scale by omega)
    have hscale' : scale = -(power : ℤ) := by omega
    have hpos : (0 : ℚ) < 10 ^ power := pow_pos (by norm_num) power
    rw [if_neg hscale, decide_eq_true_iff, hscale', neg_neg, Int.toNat_natCast, zpow_neg,
      zpow_natCast, ← div_eq_mul_inv, le_div_iff₀ hpos]
    exact_mod_cast Iff.rfl

@[simp] theorem Numeral.text_token (n : Numeral) : n.token.text = n.text := rfl

/-- The decimals stand behind the point. -/
theorem Numeral.decimals_eq (n : Numeral) : n.decimals = n.fraction.drop 1 := by
  rw [decimals]
  rcases n.isFraction with hnil | ⟨digits, hpart, -, hdigits⟩
  · rw [hnil]
    rfl
  · rw [hpart]
    exact List.filter_eq_self.mpr hdigits

/-- The exponent is read as its sign and its digits. -/
theorem Numeral.exponentValue_exponent (n : Numeral) : exponentValue n.exponent = n.power := by
  rw [power, exponentValue]
  rcases n.isExponent with hnil | ⟨e, sign, digits, hpart, he, hsign, hne, hdigits⟩
  · rw [hnil]
    rfl
  · have hsignRead : exponentSign (sign ++ digits) = sign := by
      rw [← List.append_nil digits]
      exact exponentSign_append hsign hne hdigits []
    have hdrop : (sign ++ digits).drop sign.length = digits := List.drop_left
    have hletter : e.isDigit = false ∧ '-' ≠ e := by rcases he with rfl | rfl <;> decide
    have hfilter : n.exponent.filter Char.isDigit = digits := by
      rw [hpart, List.filter_cons_of_neg (by simp [hletter.1]), List.filter_append,
        List.filter_eq_self.mpr hdigits]
      rcases hsign with rfl | rfl | rfl <;> rfl
    have hminus : '-' ∈ n.exponent ↔ sign = ['-'] := by
      have hnotMem : '-' ∉ digits := fun hmem ↦ absurd (hdigits '-' hmem) (by decide)
      rw [hpart, List.mem_cons, List.mem_append]
      rcases hsign with rfl | rfl | rfl <;> simp [hletter.2, hnotMem]
    simp only [hfilter, hminus]
    simp only [hpart, Nat.add_comm 1, List.drop_succ_cons, List.drop_zero, hsignRead, hdrop]
    split_ifs <;> simp [decimalValue, Nat.ofDigitChars]

/-- `get_number` keeps a numeral, unless its number is too large for a `double`. -/
theorem getNumber_text (n : Numeral) : getNumber n.text = n.value := by
  obtain ⟨hne, hdigits, -⟩ := n.isInteger
  have hexponent := @head_exponent _ [] n.isExponent nofun
  have hfraction := head_fraction n.isFraction hexponent
  simp only [List.append_nil] at hexponent hfraction
  have htext : n.text = n.sign ++ (n.integer ++ (n.fraction ++ n.exponent)) := by
    simp only [Numeral.text, List.append_assoc]
  have hsign : signPart n.text = n.sign := by
    rw [htext]
    refine signPart_append n.isSign fun c hc ↦ ?_
    rw [List.head?_append_of_ne_nil _ hne] at hc
    exact hdigits c (List.mem_of_mem_head? hc)
  have hunsigned : n.text.drop n.sign.length = n.integer ++ (n.fraction ++ n.exponent) := by
    rw [htext, List.drop_left]
  have hinteger : (n.integer ++ (n.fraction ++ n.exponent)).takeWhile Char.isDigit = n.integer :=
    takeWhile_append_of_head hdigits hfraction
  have hrest : (n.integer ++ (n.fraction ++ n.exponent)).drop (n.integer ++ n.fraction).length =
      n.exponent := by
    rw [← List.append_assoc, List.drop_left]
  have hfractionPart := fractionPart_append n.isFraction hexponent
  have hexponentPart := @exponentPart_append _ [] n.isExponent nofun
  rw [List.append_nil] at hexponentPart
  simp only [getNumber, hsign, hunsigned, hinteger, List.drop_left, hfractionPart, hrest,
    hexponentPart, roundsToInfinity_iff, n.exponentValue_exponent, ← n.decimals_eq]
  rfl

end PcmWrapper
