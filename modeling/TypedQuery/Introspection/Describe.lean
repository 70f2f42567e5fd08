import TypedQuery.Schema.Basic

/-!
# A schema describes itself

The description of each type of a schema, and of the schema as a whole. Where a type is referred to,
the reference carries the kind of the type of that name; a name that no type has is described as a
scalar. A default is described by its text, in which the characters that show stand as they are.
-/

namespace TypedQuery

open Introspection

namespace Schema

variable [Text.Repertoire]

/-- What a type expression refers to, layer by layer. -/
def describeReference (s : Schema) : TypeExpr → TypeDescription
  | .named name => .reference (((s.anyNamed? name).map NamedType.kind).getD .scalar) name
  | .list of => .wrapping .list (s.describeReference of)
  | .nonNull of => .wrapping .nonNull (s.describeReference of)

/-- An argument. -/
def describeArgument (s : Schema) (a : ArgumentType) : InputValueDescription :=
  ⟨a.name, a.description, s.describeReference a.type, a.default.map Literal.text⟩

/-- A field of an input object. -/
def describeInputField (s : Schema) (f : InputField) : InputValueDescription :=
  ⟨f.name, f.description, s.describeReference f.type, f.default.map Literal.text⟩

/-- A field. -/
def describeField (s : Schema) (f : FieldType) : FieldDescription :=
  ⟨f.name, f.description, f.arguments.map s.describeArgument, s.describeReference f.type⟩

/-- An object, interface or union: unions have no fields, objects alone have interfaces, and
    objects alone have no possible types. -/
def describeComposite (s : Schema) (c : CompositeType) : TypeDescription :=
  { TypeDescription.reference c.typeKind c.name with
    description := c.description
    fields := if c.kind = .union then none else some (c.fields.map s.describeField)
    interfaces :=
      if c.kind = .object then some (c.interfaces.map (.reference .interface)) else none
    possibleTypes :=
      if c.kind = .object then none else some (c.possibleTypes.map (.reference .object)) }

/-- A named type. -/
def describeNamed (s : Schema) : NamedType → TypeDescription
  | .scalar t => { TypeDescription.reference .scalar t.name with description := t.description }
  | .enum e =>
    { TypeDescription.reference .enum e.name with
      description := e.description
      enumValues := some (e.values.map fun v => ⟨v.name, v.description, false⟩) }
  | .composite c => s.describeComposite c
  | .inputObject o =>
    { TypeDescription.reference .inputObject o.name with
      description := o.description
      inputFields := some (o.fields.map s.describeInputField) }

/-- What a layer without null adds to a description. -/
def describeLayer (required : Bool) (inner : TypeDescription) : TypeDescription :=
  if required then .wrapping .nonNull inner else inner

/-- **A type**: the full description of its named type under its layers. -/
def describeType (s : Schema) : SchemaType → TypeDescription
  | .named t required => describeLayer required (s.describeNamed t)
  | .list of required => describeLayer required (.wrapping .list (s.describeType of))

/-- The type of a name. -/
def describe? (s : Schema) (name : String) : Option TypeDescription :=
  (s.anyNamed? name).map s.describeNamed

/-- A directive. -/
def describeDirective (s : Schema) (d : DirectiveType) : DirectiveDescription :=
  ⟨d.name, d.description, d.locations, d.arguments.values.map s.describeArgument⟩

/-- A root. -/
def describeRoot (c : CompositeType) : TypeDescription := .reference c.typeKind c.name

/-- **The whole schema.** -/
def describe (s : Schema) : SchemaDescription where
  queryType := describeRoot s.queryType
  mutationType := s.mutationType.map describeRoot
  subscriptionType := s.subscriptionType.map describeRoot
  types := s.allTypes.map s.describeNamed
  directives := s.directives.values.map s.describeDirective

end Schema

end TypedQuery
