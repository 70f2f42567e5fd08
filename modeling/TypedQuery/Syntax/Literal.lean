import TypedQuery.Decimal.Layout
import TypedQuery.Syntax.Position
import TypedQuery.Text.Quoted

/-!
# Value literals

Values as they are written in a document. The entries of an object literal keep their order and
their repetitions; a key stands for its first entry (`Literal.field?`).

`Literal.text` writes a literal on one line: items and entries are separated by a comma and a
space, strings are quoted, and doubles have no exponent.
-/

namespace TypedQuery

/-- A value as it is written. -/
inductive Literal
  | variable (name : String)
  | int (n : Int64)
  | float (x : Float)
  | string (s : String)
  | boolean (b : Bool)
  | enum (name : String)
  | null
  | list (items : List Literal)
  | object (entries : List (String × Literal))
deriving Inhabited

namespace Literal

/-- The value of the first entry of a key; only objects have entries. -/
def field? : Literal → String → Option Literal
  | .object entries, name => entries.lookup name
  | _, _ => none

/-- Whether the literal is `null`. -/
def isNull : Literal → Bool
  | .null => true
  | _ => false

/-- The kind of node that a literal is. -/
def kind : Literal → NodeKind
  | .variable _ => .variable
  | .int _ => .intValue
  | .float _ => .floatValue
  | .string _ => .stringValue
  | .boolean _ => .booleanValue
  | .enum _ => .enumValue
  | .null => .nullValue
  | .list _ => .listValue
  | .object _ => .objectValue

section

variable [Text.Repertoire]

mutual

/-- The literal on one line. -/
def text : Literal → String
  | .variable name => "$" ++ name
  | .int n => toString n
  | .float x => Decimal.plain.render x
  | .string s => Text.quote s
  | .boolean b => if b then "true" else "false"
  | .enum name => name
  | .null => "null"
  | .list items => "[" ++ textOfItems items ++ "]"
  | .object entries => "\x7b" ++ textOfEntries entries ++ "\x7d"

/-- The items, separated by commas. -/
def textOfItems : List Literal → String
  | [] => ""
  | [item] => item.text
  | item :: next :: rest => item.text ++ ", " ++ textOfItems (next :: rest)

/-- The entries, separated by commas. -/
def textOfEntries : List (String × Literal) → String
  | [] => ""
  | [(key, value)] => key ++ ": " ++ value.text
  | (key, value) :: next :: rest =>
    key ++ ": " ++ value.text ++ ", " ++ textOfEntries (next :: rest)

end

end

end Literal

end TypedQuery
