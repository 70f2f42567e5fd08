/-!
# Where directives may stand

The nineteen places of a directive and their names. A name is looked up among all of them
(`DirectiveLocation.ofName?`), so it finds exactly what `name` writes.
-/

namespace TypedQuery

/-- A place where a directive may stand. -/
inductive DirectiveLocation
  | query
  | mutation
  | subscription
  | field
  | fragmentDefinition
  | fragmentSpread
  | inlineFragment
  | variableDefinition
  | schema
  | scalar
  | object
  | fieldDefinition
  | argumentDefinition
  | interface
  | union
  | enum
  | enumValue
  | inputObject
  | inputFieldDefinition
deriving Repr, DecidableEq

namespace DirectiveLocation

/-- All places: those of executable documents, then those of type systems. -/
def all : List DirectiveLocation :=
  [query, mutation, subscription, field, fragmentDefinition, fragmentSpread, inlineFragment,
    variableDefinition, schema, scalar, object, fieldDefinition, argumentDefinition, interface,
    union, enum, enumValue, inputObject, inputFieldDefinition]

/-- The name of a place. -/
def name : DirectiveLocation → String
  | query => "QUERY"
  | mutation => "MUTATION"
  | subscription => "SUBSCRIPTION"
  | field => "FIELD"
  | fragmentDefinition => "FRAGMENT_DEFINITION"
  | fragmentSpread => "FRAGMENT_SPREAD"
  | inlineFragment => "INLINE_FRAGMENT"
  | variableDefinition => "VARIABLE_DEFINITION"
  | schema => "SCHEMA"
  | scalar => "SCALAR"
  | object => "OBJECT"
  | fieldDefinition => "FIELD_DEFINITION"
  | argumentDefinition => "ARGUMENT_DEFINITION"
  | interface => "INTERFACE"
  | union => "UNION"
  | enum => "ENUM"
  | enumValue => "ENUM_VALUE"
  | inputObject => "INPUT_OBJECT"
  | inputFieldDefinition => "INPUT_FIELD_DEFINITION"

/-- The place of a name. -/
def ofName? (s : String) : Option DirectiveLocation := all.find? fun place => place.name == s

/-- A place is found by its name. -/
theorem ofName?_name (place : DirectiveLocation) : ofName? place.name = some place := by
  cases place <;> decide

end DirectiveLocation

end TypedQuery
