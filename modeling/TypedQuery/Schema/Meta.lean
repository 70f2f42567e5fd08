import TypedQuery.Introspection.Describe
import TypedQuery.Introspection.Encode

/-!
# Fields that the schema answers

The root of queries has two fields that no object declares: `__schema` and `__type`. They answer
with the schema's own description. A field of any other kind answers nothing here.

`Schema.field?` is the lookup of a field on a type, which knows them.
-/

namespace TypedQuery

open Introspection

namespace FieldType

/-- The description of the whole schema. -/
def schemaMeta : FieldType where
  name := "__schema"
  description := "Access the current type schema of this server."
  type := .nonNull (.named "__Schema")
  arguments := []
  answer := some .schema

/-- The description of one type, by its name. -/
def typeMeta : FieldType where
  name := "__type"
  description := "Request the type information of a single type."
  type := .named "__Type"
  arguments := [⟨"name", none, .nonNull (.named "String"), none⟩]
  answer := some .type

/-- A field of an input object, seen as a field without arguments. -/
def ofInputField (f : InputField) : FieldType :=
  ⟨f.name, f.description, f.type, [], none⟩

/-- **The answer of a field** to arguments. -/
def resolve (f : FieldType) (s : Schema) (arguments : Table Coerced) : Json :=
  match f.answer with
  | none => .null
  | some .schema => s.describe.toJson
  | some .type =>
    match arguments.find? "name" with
    | some (.string name) => ((s.describe? name).map TypeDescription.toJson).getD .null
    | _ => .null

end FieldType

namespace Schema

/-- The field of a named type. -/
def namedField? (s : Schema) (t : NamedType) (name : String) : Option FieldType :=
  if s.isQueryRoot t && name == "__schema" then some .schemaMeta
  else if s.isQueryRoot t && name == "__type" then some .typeMeta
  else
    match t with
    | .composite c => c.field? name
    | .inputObject o => (o.field? name).map .ofInputField
    | .scalar _ | .enum _ => none

/-- **The field of a type**, lists and non-null layers looked through. -/
def field? (s : Schema) (t : SchemaType) (name : String) : Option FieldType :=
  s.namedField? t.namedType name

end Schema

end TypedQuery
