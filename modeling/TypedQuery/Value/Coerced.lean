import TypedQuery.Decimal.Layout
import TypedQuery.Table
import TypedQuery.Text.Quoted
import TypedQuery.Value.HostType

/-!
# Coerced values

What coercion makes of a literal or a raw value. An input object becomes a record under the name
of its type: a dynamic record keeps its entries in the order in which they were assigned, a typed
one has the members of its host type.

`Coerced.text` is the form for messages, `Coerced.inspect` the form that shows constructors.
-/

namespace TypedQuery

mutual

/-- A value that fits a type. -/
inductive Coerced
  | null
  | int (n : Int64)
  | float (x : Float)
  | string (s : String)
  | boolean (b : Bool)
  | enum (name : String)
  | list (items : List Coerced)
  | object (typeName : String) (record : HostRecord)

/-- The record of an input object. -/
inductive HostRecord
  /-- The entries, by name. -/
  | dynamic (entries : List (String × Coerced))
  /-- The members of a host type, all of them, in its order. -/
  | typed (host : HostType) (members : List (String × HostValue))

/-- What a member of a typed record holds. -/
inductive HostValue
  | int (n : Int64)
  | float (x : Float)
  | boolean (b : Bool)
  | text (s : String)
  | coerced (value : Coerced)
  | object (typeName : String) (record : HostRecord)
  | record (r : HostRecord)
  | optional (value : Option HostValue)
  | list (items : List HostValue)

end

instance : Inhabited Coerced := ⟨.null⟩

/-- The host type of a record. -/
def HostRecord.host : HostRecord → HostType
  | .dynamic _ => .dynamic
  | .typed host _ => host

namespace Coerced

/-! ## 1. Views -/

/-- Whether the value is null. -/
def isNull : Coerced → Bool
  | .null => true
  | _ => false

/-- The items of a list. -/
def items? : Coerced → Option (List Coerced)
  | .list items => some items
  | _ => none

/-- The type name of an object. -/
def typeName? : Coerced → Option String
  | .object typeName _ => some typeName
  | _ => none

/-- An entry of a dynamic record. -/
def entry? (name : String) : Coerced → Option Coerced
  | .object _ (.dynamic entries) => entries.lookup name
  | _ => none

/-! ## 2. Texts -/

mutual

/-- The value on one line; of an object only the type is written. -/
def text : Coerced → String
  | .null => "null"
  | .int n => toString n
  | .float x => Decimal.plain.render x
  | .string s => Text.quote s
  | .boolean b => if b then "true" else "false"
  | .enum name => name
  | .list items => "[" ++ textOfItems items ++ "]"
  | .object typeName _ => typeName ++ " \x7b...\x7d"

/-- The items, separated by commas. -/
def textOfItems : List Coerced → String
  | [] => ""
  | [item] => item.text
  | item :: next :: rest => item.text ++ ", " ++ textOfItems (next :: rest)

end

mutual

/-- The value with its constructors. The entries of a record stand in parentheses behind the type
    name; where that name is empty, a comma tells the parentheses from mere grouping. -/
def inspect : Coerced → String
  | .null => "Null"
  | .int n => "Int(" ++ toString n ++ ")"
  | .float x => "Float(" ++ Decimal.explicit.render x ++ ")"
  | .string s => "String(" ++ Text.quote s ++ ")"
  | .boolean b => if b then "Boolean(true)" else "Boolean(false)"
  | .enum name => "Enum(" ++ Text.quote name ++ ")"
  | .list items => "List([" ++ inspectItems items ++ "])"
  | .object typeName (.dynamic entries) =>
    "Object(" ++ typeName ++ "(\x7b" ++ inspectEntries entries ++ "\x7d" ++
      (if typeName.isEmpty then ",))" else "))")
  | .object typeName (.typed _ _) => "Object(" ++ typeName ++ "(..))"

/-- The items, separated by commas. -/
def inspectItems : List Coerced → String
  | [] => ""
  | [item] => item.inspect
  | item :: next :: rest => item.inspect ++ ", " ++ inspectItems (next :: rest)

/-- The entries, separated by commas. -/
def inspectEntries : List (String × Coerced) → String
  | [] => ""
  | [(key, value)] => Text.quote key ++ ": " ++ value.inspect
  | (key, value) :: next :: rest =>
    Text.quote key ++ ": " ++ value.inspect ++ ", " ++ inspectEntries (next :: rest)

end

/-! ## 3. Comparison -/

mutual

/-- Whether two values are equal. A typed record is equal to itself alone, which only `shared`
    tells: two occurrences of one value share their records, and then no record is looked into.
    Dynamic records are equal if their types have one name and their entries agree, in any
    order. -/
def sameAs (shared : Bool) : Coerced → Coerced → Bool
  | .null, .null => true
  | .int a, .int b => a == b
  | .float a, .float b => a == b
  | .string a, .string b => a == b
  | .boolean a, .boolean b => a == b
  | .enum a, .enum b => a == b
  | .list as, .list bs => sameItems shared as bs
  | .object typeName (.dynamic entries), .object other (.dynamic others) =>
    shared || (typeName == other && entries.length == others.length && sameEntries entries others)
  | .object _ _, .object _ _ => shared
  | _, _ => false

/-- Whether two lists are equal, item by item. -/
def sameItems (shared : Bool) : List Coerced → List Coerced → Bool
  | [], [] => true
  | a :: as, b :: bs => sameAs shared a b && sameItems shared as bs
  | _, _ => false

/-- Whether each entry has an equal one under its name. -/
def sameEntries : List (String × Coerced) → List (String × Coerced) → Bool
  | [], _ => true
  | (key, a) :: rest, others =>
    (match others.lookup key with
      | some b => sameAs false a b
      | none => false) && sameEntries rest others

end

end Coerced

end TypedQuery
