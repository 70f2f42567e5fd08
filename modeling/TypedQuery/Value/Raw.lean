import TypedQuery.Json.Tree
import TypedQuery.Json.Writer

/-!
# Raw values

The values that a request supplies for its variables, before any type is known. They are JSON
values in which an integer fits 64 bits with its sign and any other number is a double.

`Raw.ofJson` and `Raw.toJson` go both ways, and `Raw.text` is the compact JSON text.
-/

namespace TypedQuery

/-- A value as it is supplied. -/
inductive Raw
  | null
  | boolean (b : Bool)
  | int (n : Int64)
  | float (x : Float)
  | string (s : String)
  | list (items : List Raw)
  | object (entries : List (String × Raw))
deriving Inhabited

/-- The variables that a request supplies. -/
abbrev Variables := Table Raw

namespace Raw

/-- Whether the value is null. -/
def isNull : Raw → Bool
  | .null => true
  | _ => false

/-- The integer, if 64 bits with sign hold it. -/
def int64? (n : Int) : Option Int64 :=
  if Int64.minValue.toInt ≤ n && n ≤ Int64.maxValue.toInt then some (Int64.ofInt n) else none

/-- The double nearest to an integer. -/
def nearestFloat (n : Int) : Float :=
  Decimal.signed (decide (n < 0)) (Decimal.nearest n.natAbs 0)

/-- A number: an integer as long as it fits. -/
def ofNumber : Json.Number → Raw
  | .integer n =>
    match int64? n with
    | some i => .int i
    | none => .float (nearestFloat n)
  | .float x => .float x

mutual

/-- The raw value of a JSON value. -/
def ofJson : Json → Raw
  | .null => .null
  | .boolean b => .boolean b
  | .number n => ofNumber n
  | .string s => .string s
  | .array items => .list (ofItems items)
  | .object members => .object (ofMembers members)

/-- The raw values of items. -/
def ofItems : List Json → List Raw
  | [] => []
  | item :: rest => ofJson item :: ofItems rest

/-- The raw values of members. -/
def ofMembers : List (String × Json) → List (String × Raw)
  | [] => []
  | (key, value) :: rest => (key, ofJson value) :: ofMembers rest

end

mutual

/-- The JSON value of a raw value; a double that is no finite number becomes null. -/
def toJson : Raw → Json
  | .null => .null
  | .boolean b => .boolean b
  | .int n => .number (.integer n.toInt)
  | .float x => if Decimal.isFinite x then .number (.float x) else .null
  | .string s => .string s
  | .list items => .array (toItems items)
  | .object entries => .object (toMembers entries)

/-- The JSON values of items. -/
def toItems : List Raw → List Json
  | [] => []
  | item :: rest => item.toJson :: toItems rest

/-- The JSON values of entries. -/
def toMembers : List (String × Raw) → List (String × Json)
  | [] => []
  | (key, value) :: rest => (key, value.toJson) :: toMembers rest

end

/-- The compact JSON text of a value. -/
def text (raw : Raw) : String := raw.toJson.write

/-- The value of a JSON text. -/
def parse (source : String) : Option Raw := (Json.parse source).map ofJson

end Raw

/-- **The variables of a request**, from the JSON text of an object. -/
def Variables.parse (source : String) : Option Variables :=
  match Raw.parse source with
  | some (.object entries) => some (Table.ofList entries)
  | _ => none

end TypedQuery
