import Mathlib.Algebra.Group.Int.Defs
import PcmWrapper.ErrorHandling

/-!
# What the reader uses of the JSON library and of `std::stoi`

The reader goes through the elements of a parsed JSON value, takes members of an object by name,
converts them to `std::string` and reads hexadecimal numerals from them. `Json` and its
operations follow the vendored `json.hpp`, with the texts of its exceptions. `stoi` is
`std::stoi(text, 0, 16)`: `strtol` skips white space, reads an optional sign and an optional `0x`,
and then the longest run of hexadecimal digits, whatever comes after it.

The reader takes the JSON parser as a parameter; `parse` in `JsonParser` is the parser it has.
-/

set_option autoImplicit false
set_option relaxedAutoImplicit false

namespace PcmWrapper

open Library

/-! ### JSON values -/

/-- A JSON value. The members of an object are in key order, one for each key, as `std::map`
holds them, and a number is kept as its numeral. -/
inductive Json
  | null
  | boolean (value : Bool)
  | number (numeral : String)
  | string (value : String)
  | array (elements : List Json)
  | object (members : List (String × Json))

/-- `type_name()`. -/
def Json.typeName : Json → String
  | .null => "null"
  | .boolean _ => "boolean"
  | .number _ => "number"
  | .string _ => "string"
  | .array _ => "array"
  | .object _ => "object"

/-- What a range-based `for` goes through: nothing in `null`, and the value itself in another
primitive value. -/
def Json.elements : Json → List Json
  | .null => []
  | .array elements => elements
  | .object members => members.map Prod.snd
  | value => [value]

/-- The member of an object with a given key. -/
def Json.member (value : Json) (key : String) : Option Json :=
  match value with
  | .object members => members.lookup key
  | _ => none

/-- `operator[]` of a constant value: it throws on anything but an object, and asserts that the
key is there. -/
def Json.at (value : Json) (key : String) : Except (Interrupt Exception) Json :=
  match value with
  | .object members =>
    match members.lookup key with
    | some found => .ok found
    | none => .error .terminated
  | _ => .error (.thrown (.domainError ("cannot use operator[] with " ++ value.typeName)))

/-- The implicit conversion to `std::string`. -/
def Json.toStdString : Json → Except (Interrupt Exception) String
  | .string value => .ok value
  | value =>
    .error (.thrown (.domainError ("type must be string, but is " ++ value.typeName)))

/-- A member of an object, as an `std::string`. -/
def Json.stringAt (value : Json) (key : String) : Except (Interrupt Exception) String := do
  (← value.at key).toStdString

/-- Only a member that is a JSON string converts. -/
theorem Json.stringAt_eq_ok {value : Json} {key text : String} :
    value.stringAt key = .ok text ↔ value.member key = some (.string text) := by
  have hstring : ∀ found : Json, found.toStdString = .ok text ↔ found = .string text := by
    intro found
    cases found <;> simp [toStdString]
  rw [stringAt, except_bind_eq_ok]
  cases value with
  | object members => cases hfound : members.lookup key <;> simp [Json.at, member, hfound, hstring]
  | _ => simp [Json.at, member]

/-! ### Hexadecimal numerals -/

/-- `std::isspace` in the "C" locale. -/
def isSpace (c : Char) : Bool := c == ' ' || (9 ≤ c.toNat && c.toNat ≤ 13)

/-- The value of a hexadecimal digit, of either case. -/
def hexDigitValue (c : Char) : Option ℕ :=
  if '0'.toNat ≤ c.toNat ∧ c.toNat ≤ '9'.toNat then some (c.toNat - '0'.toNat)
  else if 'a'.toNat ≤ c.toNat ∧ c.toNat ≤ 'f'.toNat then some (c.toNat - 'a'.toNat + 10)
  else if 'A'.toNat ≤ c.toNat ∧ c.toNat ≤ 'F'.toNat then some (c.toNat - 'A'.toNat + 10)
  else none

/-- The values of the longest run of hexadecimal digits a text begins with. -/
def hexDigits : List Char → List ℕ
  | [] => []
  | c :: rest =>
    match hexDigitValue c with
    | some digit => digit :: hexDigits rest
    | none => []

/-- Skip `0x` or `0X`, which is part of the numeral only when a digit follows it. -/
def skipHexMarker : List Char → List Char
  | '0' :: marker :: digit :: rest =>
    if (marker = 'x' ∨ marker = 'X') ∧ (hexDigitValue digit).isSome then digit :: rest
    else '0' :: marker :: digit :: rest
  | text => text

/-- An optional sign, as a factor, and the text behind it. -/
def readSign : List Char → ℤ × List Char
  | '-' :: rest => (-1, rest)
  | '+' :: rest => (1, rest)
  | text => (1, text)

/-- The value of a run of hexadecimal digits. -/
def hexValue (digits : List ℕ) : ℕ := digits.foldl (fun value digit ↦ 16 * value + digit) 0

/-- `std::strtol` in base 16, without its range check: no value when no digit is found. -/
def strtol (text : List Char) : Option ℤ :=
  let signed := readSign (text.dropWhile isSpace)
  match hexDigits (skipHexMarker signed.2) with
  | [] => none
  | digits => some (signed.1 * hexValue digits)

/-- `std::stoi(text, 0, 16)`. -/
def stoi (text : String) : Except (Interrupt Exception) ℤ :=
  match strtol text.toList with
  | none => .error (.thrown (.invalidArgument "stoi"))
  | some value =>
    if -2 ^ 31 ≤ value ∧ value < 2 ^ 31 then .ok value
    else .error (.thrown (.outOfRange "stoi"))

end PcmWrapper
