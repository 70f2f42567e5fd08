import TypedQuery.Decimal.Layout
import TypedQuery.Json.Basic

/-!
# Compact JSON text

`Json.write` writes a value without any blank: members and items are separated by a comma, a key
and its value by a colon. Strings escape the quote, the backslash and the control characters below
the space and leave all else; doubles have their shortest digits and always show that they are
doubles.
-/

namespace TypedQuery.Json

/-- Doubles in JSON text: the point or the exponent tells them from integers, a tie goes to the
    even digit, and what is no finite number is written `null`. -/
def layout : Decimal.Layout where
  tie := .toEven
  positional := fun e => -5 ≤ e && e < 16
  pointZero := true
  signedExponent := true
  notANumber := "null"
  infinity := "null"

/-- The four lower case hexadecimal digits of a control character. -/
def controlEscape (c : Char) : List Char :=
  ['\\', 'u', '0', '0', Nat.digitChar (c.toNat / 16), Nat.digitChar (c.toNat % 16)]

/-- How one character is written in a string. -/
def escapeChar (c : Char) : List Char :=
  match c with
  | '"' => ['\\', '"']
  | '\\' => ['\\', '\\']
  | '\n' => ['\\', 'n']
  | '\r' => ['\\', 'r']
  | '\t' => ['\\', 't']
  | '\x08' => ['\\', 'b']
  | '\x0c' => ['\\', 'f']
  | c => if c.toNat < 0x20 then controlEscape c else [c]

/-- A string with its quotes. -/
def writeString (s : String) : List Char := '"' :: s.toList.flatMap escapeChar ++ ['"']

/-- A number; an infinite double has no sign, for it is no number. -/
def Number.write : Number → List Char
  | .integer n => (toString n).toList
  | .float x => if Decimal.isFinite x then (layout.render x).toList else "null".toList

mutual

/-- The characters of a value. -/
def chars : Json → List Char
  | .null => "null".toList
  | .boolean true => "true".toList
  | .boolean false => "false".toList
  | .number n => n.write
  | .string s => writeString s
  | .array items => '[' :: charsOfItems items ++ [']']
  | .object members => '\x7b' :: charsOfMembers members ++ ['\x7d']

/-- The items, separated by commas. -/
def charsOfItems : List Json → List Char
  | [] => []
  | [item] => item.chars
  | item :: next :: rest => item.chars ++ ',' :: charsOfItems (next :: rest)

/-- The members, separated by commas. -/
def charsOfMembers : List (String × Json) → List Char
  | [] => []
  | [(key, value)] => writeString key ++ ':' :: value.chars
  | (key, value) :: next :: rest =>
    writeString key ++ ':' :: value.chars ++ ',' :: charsOfMembers (next :: rest)

end

/-- The compact text of a value. -/
def write (j : Json) : String := String.ofList j.chars

end TypedQuery.Json
