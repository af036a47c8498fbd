import PcmWrapper.JsonInput
import PcmWrapper.Library.Utf8

/-!
# The scanner of the JSON library

The databases go through the vendored `json.hpp`. Its `lexer` cuts the text into tokens with an
automaton that a generator wrote: `scan` passes white space over, remembers where the token begins,
and follows the longest match from there, going back to the last place where a token could have
ended when it gets stuck. A token keeps its text, as `get_token_string` returns it, because the
parser's error messages quote it.

A text is a list of bytes here, one character for each, as an `std::string` is, and the automaton
decides byte by byte which sequences above ASCII a string may hold. A number is scanned in parts:
its sign, the digits in front of the decimal point, a fraction and an exponent, where a part that
does not fit is left to the next token, as the automaton does when it goes back to its marker.
-/

set_option autoImplicit false
set_option relaxedAutoImplicit false

namespace PcmWrapper

open Library

/-! ### Tokens -/

/-- `token_type`. -/
inductive TokenType
  | uninitialized
  | literalTrue
  | literalFalse
  | literalNull
  | valueString
  | valueUnsigned
  | valueInteger
  | valueFloat
  | beginArray
  | beginObject
  | endArray
  | endObject
  | nameSeparator
  | valueSeparator
  | parseError
  | endOfInput
  deriving DecidableEq

/-- A token and its text, `get_token_string()`. -/
structure Token where
  type : TokenType
  text : List Char
  deriving DecidableEq

/-- `token_type_name`. -/
def tokenTypeName : TokenType → String
  | .uninitialized => "<uninitialized>"
  | .literalTrue => "true literal"
  | .literalFalse => "false literal"
  | .literalNull => "null literal"
  | .valueString => "string literal"
  | .valueUnsigned | .valueInteger | .valueFloat => "number literal"
  | .beginArray => "'['"
  | .beginObject => "'\x7b'"
  | .endArray => "']'"
  | .endObject => "'\x7d'"
  | .nameSeparator => "':'"
  | .valueSeparator => "','"
  | .parseError => "<parse error>"
  | .endOfInput => "end of input"

/-- The token is a number. -/
def TokenType.IsNumber (type : TokenType) : Prop :=
  type = .valueUnsigned ∨ type = .valueInteger ∨ type = .valueFloat

instance (type : TokenType) : Decidable type.IsNumber :=
  inferInstanceAs (Decidable (type = .valueUnsigned ∨ type = .valueInteger ∨ type = .valueFloat))

/-! ### Strings -/

/-- The characters that a backslash may stand in front of, besides `u`. -/
def simpleEscapes : List Char := ['"', '\\', '/', 'b', 'f', 'n', 'r', 't']

/-- Where the automaton is within a string: in its body, behind a backslash, or in front of some
more digits of an escape or bytes of a sequence. The bytes behind `0xE0`, `0xED`, `0xF0` and `0xF4`
have their own bounds. -/
inductive StringState
  | body
  | escape
  | hex (more : ℕ)
  | tail (more : ℕ)
  | tailE0
  | tailED
  | tailF0
  | tailF4
  deriving DecidableEq

/-- The states 30 to 42 and 55 to 74 of `scan`, without the closing quotation mark. -/
def stringStep : StringState → Char → Option StringState
  | .body, c =>
    if c.toNat ≤ 0x1F then none
    else if c = '\\' then some .escape
    else if c.toNat ≤ 0x7F then some .body
    else if c.toNat ≤ 0xC1 then none
    else if c.toNat ≤ 0xDF then some (.tail 0)
    else if c.toNat ≤ 0xE0 then some .tailE0
    else if c.toNat = 0xED then some .tailED
    else if c.toNat ≤ 0xEF then some (.tail 1)
    else if c.toNat ≤ 0xF0 then some .tailF0
    else if c.toNat ≤ 0xF3 then some (.tail 2)
    else if c.toNat ≤ 0xF4 then some .tailF4
    else none
  | .escape, c =>
    if c ∈ simpleEscapes then some .body else if c = 'u' then some (.hex 3) else none
  | .hex 0, c => if (hexDigitValue c).isSome then some .body else none
  | .hex (more + 1), c => if (hexDigitValue c).isSome then some (.hex more) else none
  | .tail 0, c => if 0x80 ≤ c.toNat ∧ c.toNat ≤ 0xBF then some .body else none
  | .tail (more + 1), c => if 0x80 ≤ c.toNat ∧ c.toNat ≤ 0xBF then some (.tail more) else none
  | .tailE0, c => if 0xA0 ≤ c.toNat ∧ c.toNat ≤ 0xBF then some (.tail 0) else none
  | .tailED, c => if 0x80 ≤ c.toNat ∧ c.toNat ≤ 0x9F then some (.tail 0) else none
  | .tailF0, c => if 0x90 ≤ c.toNat ∧ c.toNat ≤ 0xBF then some (.tail 1) else none
  | .tailF4, c => if 0x80 ≤ c.toNat ∧ c.toNat ≤ 0x8F then some (.tail 1) else none

/-- The text up to the closing quotation mark, and the text behind it. -/
def scanString : StringState → List Char → Option (List Char × List Char)
  | _, [] => none
  | state, c :: rest =>
    if state = .body ∧ c = '"' then some ([], rest)
    else
      match stringStep state c with
      | none => none
      | some next => (scanString next rest).map fun scanned ↦ (c :: scanned.1, scanned.2)

/-! ### Numbers -/

/-- A minus sign in front of a number. -/
def signPart : List Char → List Char
  | [] => []
  | c :: _ => if c = '-' then ['-'] else []

/-- A decimal point with digits behind it. Without one the automaton goes back in front of the
point. -/
def fractionPart : List Char → List Char
  | [] => []
  | point :: rest =>
    let digits := rest.takeWhile Char.isDigit
    if point = '.' ∧ digits ≠ [] then '.' :: digits else []

/-- The sign of an exponent. -/
def exponentSign : List Char → List Char
  | [] => []
  | c :: _ => if c = '+' ∨ c = '-' then [c] else []

/-- An exponent, with at least one digit. -/
def exponentPart : List Char → List Char
  | [] => []
  | e :: rest =>
    let sign := exponentSign rest
    let digits := (rest.drop sign.length).takeWhile Char.isDigit
    if (e = 'e' ∨ e = 'E') ∧ digits ≠ [] then e :: (sign ++ digits) else []

/-- The states 12 to 15 and 43 to 60 of `scan`. A minus sign alone is an error, and so is a zero
with digits behind it. -/
def scanNumber (text : List Char) : Token × List Char :=
  let sign := signPart text
  let digits := (text.drop sign.length).takeWhile Char.isDigit
  let integer := sign ++ digits
  if digits = [] ∨ digits.head? = some '0' ∧ digits ≠ ['0'] then
    (⟨.parseError, integer⟩, text.drop integer.length)
  else
    let fraction := fractionPart (text.drop integer.length)
    let exponent := exponentPart (text.drop (integer ++ fraction).length)
    let numeral := integer ++ fraction ++ exponent
    let type :=
      if fraction ++ exponent ≠ [] then .valueFloat
      else if sign = [] then .valueUnsigned
      else .valueInteger
    (⟨type, numeral⟩, text.drop numeral.length)

/-! ### Tokens of a text -/

/-- White space, which `scan` passes over. -/
def isBlank (c : Char) : Bool := c == ' ' || c == '\t' || c == '\n' || c == '\r'

/-- The tokens of one character. -/
def punctuation (c : Char) : Option TokenType :=
  if c = ',' then some .valueSeparator
  else if c = ':' then some .nameSeparator
  else if c = '[' then some .beginArray
  else if c = ']' then some .endArray
  else if c = '\x7b' then some .beginObject
  else if c = '\x7d' then some .endObject
  else none

/-- The literal that begins with a letter: the letters behind it, and its type. -/
def literal (c : Char) : Option (List Char × TokenType) :=
  if c = 't' then some (['r', 'u', 'e'], .literalTrue)
  else if c = 'f' then some (['a', 'l', 's', 'e'], .literalFalse)
  else if c = 'n' then some (['u', 'l', 'l'], .literalNull)
  else none

/-- The token that begins with a character that is no white space. A null character ends the
input, and what begins no token is an error of one character. -/
def scanToken (c : Char) (rest : List Char) : Token × List Char :=
  match punctuation c with
  | some type => (⟨type, [c]⟩, rest)
  | none =>
    match literal c with
    | some (letters, type) =>
      if letters.isPrefixOf rest then (⟨type, c :: letters⟩, rest.drop letters.length)
      else (⟨.parseError, [c]⟩, rest)
    | none =>
      if c = '"' then
        match scanString .body rest with
        | some (body, rest) => (⟨.valueString, '"' :: (body ++ ['"'])⟩, rest)
        | none => (⟨.parseError, [c]⟩, rest)
      else if c = '-' ∨ c.isDigit then scanNumber (c :: rest)
      else if c.toNat = 0 then (⟨.endOfInput, [c]⟩, rest)
      else (⟨.parseError, [c]⟩, rest)

/-- `scan`: the next token of a text, and the text behind it. The stream ends with a null character
that the buffer adds. -/
def scan (text : List Char) : Token × List Char :=
  match text.dropWhile isBlank with
  | [] => (⟨.endOfInput, []⟩, [])
  | c :: rest => scanToken c rest

end PcmWrapper
