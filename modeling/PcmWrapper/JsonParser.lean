import Mathlib.Algebra.Group.Nat.Defs
import PcmWrapper.JsonLexemes
import PcmWrapper.Library.OrderedMap

/-!
# The parser of the JSON library

`file >> j` parses the text of a file. The `parser` of `json.hpp` descends along the grammar with
one token ahead: `parse_internal` goes by the type of the last token, its two loops read the members
of an object and the elements of an array, and `expect` and `unexpect` throw with the token that is
there. A string becomes its characters in `get_string`, which writes the code points of the
`\u` escapes in UTF-8, and a number whose value no `double` holds becomes `null` in `get_number`.

The descent is by recursion on a bound for its depth. `parse` gives it one for each character, and
`parse_failure` shows that this is never too little: the exception by which it would be cut off is
not among those `parse` throws.
-/

set_option autoImplicit false
set_option relaxedAutoImplicit false

namespace PcmWrapper

open Library

/-! ### Strings -/

/-- A high surrogate. -/
def IsHigh (codepoint : ℕ) : Prop := 0xD800 ≤ codepoint ∧ codepoint ≤ 0xDBFF

/-- A low surrogate. -/
def IsLow (codepoint : ℕ) : Prop := 0xDC00 ≤ codepoint ∧ codepoint ≤ 0xDFFF

instance : DecidablePred IsHigh := fun codepoint ↦
  inferInstanceAs (Decidable (0xD800 ≤ codepoint ∧ codepoint ≤ 0xDBFF))

instance : DecidablePred IsLow := fun codepoint ↦
  inferInstanceAs (Decidable (0xDC00 ≤ codepoint ∧ codepoint ≤ 0xDFFF))

/-- The bytes that `to_unicode` returns for a code point. -/
def codepointBytes (codepoint : ℕ) : Except Exception (List Char) :=
  if codepoint < 0x80 then
    .ok [Char.ofNat codepoint]
  else if codepoint ≤ 0x7FF then
    .ok [Char.ofNat (0xC0 ||| ((codepoint >>> 6) &&& 0x1F)),
      Char.ofNat (0x80 ||| (codepoint &&& 0x3F))]
  else if codepoint ≤ 0xFFFF then
    .ok [Char.ofNat (0xE0 ||| ((codepoint >>> 12) &&& 0x0F)),
      Char.ofNat (0x80 ||| ((codepoint >>> 6) &&& 0x3F)),
      Char.ofNat (0x80 ||| (codepoint &&& 0x3F))]
  else if codepoint ≤ 0x10FFFF then
    .ok [Char.ofNat (0xF0 ||| ((codepoint >>> 18) &&& 0x07)),
      Char.ofNat (0x80 ||| ((codepoint >>> 12) &&& 0x3F)),
      Char.ofNat (0x80 ||| ((codepoint >>> 6) &&& 0x3F)),
      Char.ofNat (0x80 ||| (codepoint &&& 0x3F))]
  else .error (.outOfRange "code points above 0x10FFFF are invalid")

/-- `to_unicode`, on a code point or on a pair of surrogates. -/
def toUnicode (codepoint1 codepoint2 : ℕ) : Except Exception (List Char) :=
  if IsHigh codepoint1 then
    if IsLow codepoint2 then
      codepointBytes ((codepoint1 <<< 10) + codepoint2 - 0x35FDC00)
    else .error (.invalidArgument "missing or wrong low surrogate")
  else codepointBytes codepoint1

/-- What an escape of one character stands for. -/
def unescape (c : Char) : List Char :=
  if c = 't' then ['\t']
  else if c = 'b' then ['\x08']
  else if c = 'f' then ['\x0c']
  else if c = 'n' then ['\n']
  else if c = 'r' then ['\r']
  else if c = '\\' then ['\\']
  else if c = '/' then ['/']
  else if c = '"' then ['"']
  else []

/-- The number four digits behind `\u` stand for. -/
def codepointOf (digits : List Char) : ℕ := hexValue (hexDigits digits)

/-- `get_string`, on the text between the quotation marks. A high surrogate needs another `\u`
escape behind it. -/
def getString : List Char → Except Exception (List Char)
  | [] => .ok []
  | c :: rest =>
    if c ≠ '\\' then do
      return c :: (← getString rest)
    else
      match rest with
      | [] => .ok []
      | escaped :: rest =>
        if escaped ≠ 'u' then do
          return unescape escaped ++ (← getString rest)
        else
          match rest with
          | d₁ :: d₂ :: d₃ :: d₄ :: rest =>
            let codepoint := codepointOf [d₁, d₂, d₃, d₄]
            if IsHigh codepoint then
              match rest with
              | backslash :: u :: e₁ :: e₂ :: e₃ :: e₄ :: rest =>
                if backslash ≠ '\\' ∨ u ≠ 'u' then
                  .error (.invalidArgument "missing low surrogate")
                else do
                  return (← toUnicode codepoint (codepointOf [e₁, e₂, e₃, e₄])) ++
                    (← getString rest)
              | _ => .error (.invalidArgument "missing low surrogate")
            else if IsLow codepoint then
              .error (.invalidArgument "missing high surrogate")
            else do
              return (← toUnicode codepoint 0) ++ (← getString rest)
          | _ => .ok []

/-! ### Numbers -/

/-- The number that decimal digits stand for. -/
def decimalValue (digits : List Char) : ℕ :=
  digits.foldl (fun value c ↦ 10 * value + (c.toNat - '0'.toNat)) 0

/-- The scale of an exponent. -/
def exponentValue (part : List Char) : ℤ :=
  let sign := exponentSign (part.drop 1)
  let digits := decimalValue (part.drop (1 + sign.length))
  if sign = ['-'] then -digits else digits

/-- From here on `strtod` rounds to infinity: half a unit above the greatest `double`. -/
def infinityBound : ℕ := 2 ^ 1024 - 2 ^ 970

/-- A decimal number reaches the bound. -/
def roundsToInfinity (digits : ℕ) (scale : ℤ) : Bool :=
  if 0 ≤ scale then infinityBound ≤ digits * 10 ^ scale.toNat
  else infinityBound * 10 ^ (-scale).toNat ≤ digits

/-- `get_number`: an infinite value is replaced by `null`. -/
def getNumber (text : List Char) : Json :=
  let unsigned := text.drop (signPart text).length
  let integer := unsigned.takeWhile Char.isDigit
  let fraction := fractionPart (unsigned.drop integer.length)
  let exponent := exponentPart (unsigned.drop (integer ++ fraction).length)
  let digits := decimalValue (integer ++ fraction.drop 1)
  let scale := exponentValue exponent - (fraction.drop 1).length
  if roundsToInfinity digits scale then .null else .number (String.ofList text)

/-! ### The parser -/

/-- The last token, and the text behind it. -/
structure ParserState where
  lastToken : Token
  rest : List Char

/-- `get_token`. -/
def ParserState.getToken (s : ParserState) : ParserState := ⟨(scan s.rest).1, (scan s.rest).2⟩

/-- A token, as an error message quotes it. -/
def shown (token : Token) : String :=
  if token.type = .parseError then "'" ++ String.ofList token.text ++ "'"
  else tokenTypeName token.type

/-- `expect`. -/
def ParserState.expect (s : ParserState) (type : TokenType) : Except Exception Unit :=
  if type ≠ s.lastToken.type then
    .error (.invalidArgument ("parse error - unexpected " ++ shown s.lastToken ++ "; expected " ++
      tokenTypeName type))
  else .ok ()

/-- `unexpect`. -/
def ParserState.unexpect (s : ParserState) (type : TokenType) : Except Exception Unit :=
  if type = s.lastToken.type then
    .error (.invalidArgument ("parse error - unexpected " ++ shown s.lastToken))
  else .ok ()

/-- The text between the quotation marks of a string token. -/
def Token.body (token : Token) : List Char := token.text.tail.dropLast

/-- The order of characters, as unsigned bytes. -/
def byteBefore (first second : Char) : Prop := first.toNat < second.toNat

instance : DecidableRel byteBefore := fun first second ↦
  inferInstanceAs (Decidable (first.toNat < second.toNat))

/-- The order of `std::string`, which compares texts byte by byte. -/
def keyBefore (first second : String) : Prop := List.Lex byteBefore first.toList second.toList

instance : DecidableRel keyBefore := fun first second ↦
  inferInstanceAs (Decidable (List.Lex byteBefore first.toList second.toList))

/-- `result[key] = value` on the members of an object, which a `std::map` keeps in key order. -/
def setMember (key : String) (value : Json) (members : List (String × Json)) :
    List (String × Json) :=
  assign keyBefore key value members

/-- The exception by which a descent would be cut off for want of a bound. -/
def depthExceeded : Exception := .fatal "recursion depth"

/-- The loops go past a comma in front of everything but the first value. -/
def ParserState.passSeparator (s : ParserState) : ParserState :=
  if s.lastToken.type = .valueSeparator then s.getToken else s

/-- The two loops of `parse_internal`: items with commas between them. -/
def parseSeparated {α β : Type} (parseItem : ParserState → Except Exception (α × ParserState))
    (add : β → α → β) : ℕ → β → ParserState → Except Exception (β × ParserState)
  | 0, _, _ => .error depthExceeded
  | depth + 1, result, s => do
    let (item, s) ← parseItem s.passSeparator
    let result := add result item
    if s.lastToken.type = .valueSeparator then parseSeparated parseItem add depth result s
    else return (result, s)

/-- A key and its value. -/
def parseMember (parseValue : ParserState → Except Exception (Json × ParserState))
    (s : ParserState) : Except Exception ((String × Json) × ParserState) := do
  s.expect .valueString
  let key ← getString s.lastToken.body
  let s := s.getToken
  s.expect .nameSeparator
  let (value, s) ← parseValue s.getToken
  return ((String.ofList key, value), s)

/-- The loop over the members of an object. -/
def parseMembers (parseValue : ParserState → Except Exception (Json × ParserState)) :
    ℕ → List (String × Json) → ParserState →
      Except Exception (List (String × Json) × ParserState) :=
  parseSeparated (parseMember parseValue) fun members m ↦ setMember m.1 m.2 members

/-- The loop over the elements of an array. -/
def parseElements (parseValue : ParserState → Except Exception (Json × ParserState)) :
    ℕ → List Json → ParserState → Except Exception (List Json × ParserState) :=
  parseSeparated parseValue fun elements value ↦ elements ++ [value]

/-- `parse_internal`, without a callback. -/
def parseInternal : ℕ → ParserState → Except Exception (Json × ParserState)
  | 0, _ => .error depthExceeded
  | depth + 1, s =>
    match s.lastToken.type with
    | .beginObject => do
      let s := s.getToken
      if s.lastToken.type = .endObject then return (.object [], s.getToken)
      s.unexpect .valueSeparator
      let (members, s) ← parseMembers (parseInternal depth) depth [] s
      s.expect .endObject
      return (.object members, s.getToken)
    | .beginArray => do
      let s := s.getToken
      if s.lastToken.type = .endArray then return (.array [], s.getToken)
      s.unexpect .valueSeparator
      let (elements, s) ← parseElements (parseInternal depth) depth [] s
      s.expect .endArray
      return (.array elements, s.getToken)
    | .literalNull => .ok (.null, s.getToken)
    | .valueString => do
      let text ← getString s.lastToken.body
      return (.string (String.ofList text), s.getToken)
    | .literalTrue => .ok (.boolean true, s.getToken)
    | .literalFalse => .ok (.boolean false, s.getToken)
    | .valueUnsigned | .valueInteger | .valueFloat =>
      .ok (getNumber s.lastToken.text, s.getToken)
    | _ => .error (.invalidArgument ("parse error - unexpected " ++ shown s.lastToken))

/-- The byte order mark. -/
def byteOrderMark : List Char := [Char.ofNat 0xEF, Char.ofNat 0xBB, Char.ofNat 0xBF]

/-- What the lexer reads of a stream: the last line gets a newline like the others, and a byte order
mark is blanked out. -/
def streamText (text : String) : List Char :=
  let lines := text.toList ++ ['\n']
  if byteOrderMark.isPrefixOf lines then [' ', ' ', ' '] ++ lines.drop 3 else lines

/-- `parse`, as `operator>>` calls it on a stream. -/
def parse (text : String) : Except Exception Json := do
  let s : ParserState := ⟨⟨.uninitialized, []⟩, streamText text⟩
  let (result, s) ← parseInternal ((streamText text).length + 1) s.getToken
  s.expect .endOfInput
  return result

end PcmWrapper
