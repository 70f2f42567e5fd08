import TypedQuery.Syntax.DirectiveLocation

/-!
# Descriptions of a schema

What a schema tells about itself: its types with their members, its directives and its roots. A
member that does not apply to the kind of a type is absent, which is not the same as an empty
list. A type that is only referred to is described by kind and name; a list or a non-null type is
described by its kind and the type inside (`wrapping`).
-/

namespace TypedQuery.Introspection

/-- The kinds of types. -/
inductive TypeKind
  | scalar
  | object
  | interface
  | union
  | enum
  | inputObject
  | list
  | nonNull
deriving Repr, DecidableEq

namespace TypeKind

/-- All kinds. -/
def all : List TypeKind := [scalar, object, interface, union, enum, inputObject, list, nonNull]

/-- The name of a kind. -/
def name : TypeKind → String
  | scalar => "SCALAR"
  | object => "OBJECT"
  | interface => "INTERFACE"
  | union => "UNION"
  | enum => "ENUM"
  | inputObject => "INPUT_OBJECT"
  | list => "LIST"
  | nonNull => "NON_NULL"

/-- The kind of a name. -/
def ofName? (s : String) : Option TypeKind := all.find? fun kind => kind.name == s

/-- A kind is found by its name. -/
theorem ofName?_name (kind : TypeKind) : ofName? kind.name = some kind := by
  cases kind <;> decide

end TypeKind

/-- A value of an enumeration. -/
structure EnumValueDescription where
  name : String
  description : Option String
  isDeprecated : Bool

mutual

/-- A type. -/
structure TypeDescription where
  kind : TypeKind
  name : Option String
  description : Option String
  fields : Option (List FieldDescription)
  interfaces : Option (List TypeDescription)
  possibleTypes : Option (List TypeDescription)
  enumValues : Option (List EnumValueDescription)
  inputFields : Option (List InputValueDescription)
  ofType : Option TypeDescription

/-- A field of an object or interface. -/
structure FieldDescription where
  name : String
  description : Option String
  args : List InputValueDescription
  type : TypeDescription

/-- An argument or a field of an input object; the default is the text of the literal. -/
structure InputValueDescription where
  name : String
  description : Option String
  type : TypeDescription
  defaultValue : Option String

end

namespace TypeDescription

/-- A type of which only the kind is told. -/
def bare (kind : TypeKind) : TypeDescription :=
  ⟨kind, none, none, none, none, none, none, none, none⟩

/-- A reference to a named type. -/
def reference (kind : TypeKind) (name : String) : TypeDescription :=
  { bare kind with name := some name }

/-- A list or a non-null type. -/
def wrapping (kind : TypeKind) (inner : TypeDescription) : TypeDescription :=
  { bare kind with ofType := some inner }

end TypeDescription

/-- A directive. -/
structure DirectiveDescription where
  name : String
  description : Option String
  locations : List DirectiveLocation
  args : List InputValueDescription

/-- A schema. -/
structure SchemaDescription where
  queryType : TypeDescription
  mutationType : Option TypeDescription
  subscriptionType : Option TypeDescription
  types : List TypeDescription
  directives : List DirectiveDescription

end TypedQuery.Introspection
