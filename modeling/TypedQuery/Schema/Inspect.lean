import TypedQuery.Schema.Type

/-!
# Fields with their constructors

The long form of a field: every part is named, every literal and type expression shows how it is
built. Texts are quoted, doubles always have a point or an exponent.
-/

namespace TypedQuery

/-- A part that may be missing. -/
def inspectOptional (inspect : α → String) : Option α → String
  | none => "None"
  | some a => "Some(" ++ inspect a ++ ")"

/-- A type expression with its constructors. -/
def TypeExpr.inspect : TypeExpr → String
  | .named name => "NamedType(" ++ Text.quote name ++ ")"
  | .list of => "ListType(" ++ of.inspect ++ ")"
  | .nonNull of => "NonNullType(" ++ of.inspect ++ ")"

namespace Literal

mutual

/-- A literal with its constructors. -/
def inspect : Literal → String
  | .variable name => "Variable(" ++ Text.quote name ++ ")"
  | .int n => "Int(" ++ toString n ++ ")"
  | .float x => "Float(" ++ Decimal.explicit.render x ++ ")"
  | .string s => "String(" ++ Text.quote s ++ ")"
  | .boolean b => if b then "Boolean(true)" else "Boolean(false)"
  | .enum name => "Enum(" ++ Text.quote name ++ ")"
  | .null => "Null"
  | .list items => "List([" ++ inspectItems items ++ "])"
  | .object entries => "Object([" ++ inspectEntries entries ++ "])"

/-- The items, separated by commas. -/
def inspectItems : List Literal → String
  | [] => ""
  | [item] => item.inspect
  | item :: next :: rest => item.inspect ++ ", " ++ inspectItems (next :: rest)

/-- The entries as pairs, separated by commas. -/
def inspectEntries : List (String × Literal) → String
  | [] => ""
  | [(key, value)] => "(" ++ Text.quote key ++ ", " ++ value.inspect ++ ")"
  | (key, value) :: next :: rest =>
    "(" ++ Text.quote key ++ ", " ++ value.inspect ++ "), " ++ inspectEntries (next :: rest)

end

end Literal

/-- An argument with its parts. -/
def ArgumentType.inspect (a : ArgumentType) : String :=
  "ArgumentDescriptor \x7b name: " ++ Text.quote a.name ++
    ", description: " ++ inspectOptional Text.quote a.description ++
    ", value_type: " ++ a.type.inspect ++
    ", default_value: " ++ inspectOptional Literal.inspect a.default ++ " \x7d"

/-- **A field with its parts**; of the answer only its being there is shown. -/
def FieldType.inspect (f : FieldType) : String :=
  let arguments := f.arguments.map fun a => Text.quote a.name ++ ": " ++ a.inspect
  "FieldDescriptor \x7b name: " ++ Text.quote f.name ++
    ", field_type: " ++ f.type.inspect ++
    ", arguments: \x7b" ++ String.intercalate ", " arguments ++
    "\x7d, resolver: " ++ (if f.answer.isSome then "true" else "false") ++ " \x7d"

end TypedQuery
