/-!
# JSON values

The values that JSON texts stand for. A number is an integer or a double, and the two are kept
apart: `1` and `1.0` are different values. The members of an object keep their order.
-/

namespace TypedQuery

/-- A JSON number. -/
inductive Json.Number
  | integer (n : Int)
  | float (x : Float)

/-- A JSON value. -/
inductive Json
  | null
  | boolean (b : Bool)
  | number (n : Json.Number)
  | string (s : String)
  | array (items : List Json)
  | object (members : List (String × Json))

namespace Json

instance : Inhabited Json := ⟨.null⟩

mutual

/-- How many arrays and objects stand inside each other, counting the outermost. -/
def nesting : Json → Nat
  | .array items => 1 + nestingOfItems items
  | .object members => 1 + nestingOfMembers members
  | _ => 0

/-- The deepest of the items. -/
def nestingOfItems : List Json → Nat
  | [] => 0
  | item :: rest => max item.nesting (nestingOfItems rest)

/-- The deepest of the members. -/
def nestingOfMembers : List (String × Json) → Nat
  | [] => 0
  | (_, value) :: rest => max value.nesting (nestingOfMembers rest)

end

end Json

end TypedQuery
