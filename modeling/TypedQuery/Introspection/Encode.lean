import TypedQuery.Introspection.Basic
import TypedQuery.Json.Writer

/-!
# Descriptions as JSON

Each description is an object with its members in a fixed order; a member that is absent is left
out, an empty list is written.
-/

namespace TypedQuery.Introspection

/-- A member that is written if it is there. -/
def optionalMember (key : String) (value : Option Json) : List (String × Json) :=
  match value with
  | some j => [(key, j)]
  | none => []

/-- An enumeration value as JSON. -/
def EnumValueDescription.toJson (v : EnumValueDescription) : Json :=
  .object ([("name", .string v.name)] ++
    optionalMember "description" (v.description.map .string) ++
    [("isDeprecated", .boolean v.isDeprecated)])

mutual

/-- A type as JSON. -/
def TypeDescription.toJson (t : TypeDescription) : Json :=
  match t with
  | ⟨kind, name, description, fields, interfaces, possibleTypes, enumValues, inputFields, ofType⟩ =>
    .object ([("kind", .string kind.name)] ++
      optionalMember "name" (name.map .string) ++
      optionalMember "description" (description.map .string) ++
      optionalMember "fields" (fieldsToJson? fields) ++
      optionalMember "interfaces" (typesToJson? interfaces) ++
      optionalMember "possibleTypes" (typesToJson? possibleTypes) ++
      optionalMember "enumValues" (enumValues.map fun vs =>
        .array (vs.map EnumValueDescription.toJson)) ++
      optionalMember "inputFields" (inputValuesToJson? inputFields) ++
      optionalMember "ofType" (typeToJson? ofType))

/-- A field as JSON. -/
def FieldDescription.toJson (f : FieldDescription) : Json :=
  match f with
  | ⟨name, description, args, type⟩ =>
    .object ([("name", .string name)] ++
      optionalMember "description" (description.map .string) ++
      [("args", .array (inputValuesToJson args)), ("type", type.toJson)])

/-- An argument or input field as JSON. -/
def InputValueDescription.toJson (v : InputValueDescription) : Json :=
  match v with
  | ⟨name, description, type, defaultValue⟩ =>
    .object ([("name", .string name)] ++
      optionalMember "description" (description.map .string) ++
      [("type", type.toJson)] ++
      optionalMember "defaultValue" (defaultValue.map .string))

/-- A type that may be absent. -/
def typeToJson? : Option TypeDescription → Option Json
  | none => none
  | some t => some t.toJson

/-- Types that may be absent. -/
def typesToJson? : Option (List TypeDescription) → Option Json
  | none => none
  | some ts => some (.array (typesToJson ts))

/-- Fields that may be absent. -/
def fieldsToJson? : Option (List FieldDescription) → Option Json
  | none => none
  | some fs => some (.array (fieldsToJson fs))

/-- Input values that may be absent. -/
def inputValuesToJson? : Option (List InputValueDescription) → Option Json
  | none => none
  | some vs => some (.array (inputValuesToJson vs))

/-- Types in order. -/
def typesToJson : List TypeDescription → List Json
  | [] => []
  | t :: rest => t.toJson :: typesToJson rest

/-- Fields in order. -/
def fieldsToJson : List FieldDescription → List Json
  | [] => []
  | f :: rest => f.toJson :: fieldsToJson rest

/-- Input values in order. -/
def inputValuesToJson : List InputValueDescription → List Json
  | [] => []
  | v :: rest => v.toJson :: inputValuesToJson rest

end

theorem typesToJson_eq_map (ts : List TypeDescription) :
    typesToJson ts = ts.map TypeDescription.toJson := by
  induction ts with
  | nil => rfl
  | cons t rest ih => rw [typesToJson, ih, List.map_cons]

theorem fieldsToJson_eq_map (fs : List FieldDescription) :
    fieldsToJson fs = fs.map FieldDescription.toJson := by
  induction fs with
  | nil => rfl
  | cons f rest ih => rw [fieldsToJson, ih, List.map_cons]

theorem inputValuesToJson_eq_map (vs : List InputValueDescription) :
    inputValuesToJson vs = vs.map InputValueDescription.toJson := by
  induction vs with
  | nil => rfl
  | cons v rest ih => rw [inputValuesToJson, ih, List.map_cons]

/-- A directive as JSON. -/
def DirectiveDescription.toJson (d : DirectiveDescription) : Json :=
  .object ([("name", .string d.name)] ++
    optionalMember "description" (d.description.map .string) ++
    [("locations", .array (d.locations.map fun place => .string place.name)),
      ("args", .array (inputValuesToJson d.args))])

/-- A schema as JSON. -/
def SchemaDescription.toJson (s : SchemaDescription) : Json :=
  .object ([("queryType", s.queryType.toJson)] ++
    optionalMember "mutationType" (typeToJson? s.mutationType) ++
    optionalMember "subscriptionType" (typeToJson? s.subscriptionType) ++
    [("types", .array (typesToJson s.types)),
      ("directives", .array (s.directives.map DirectiveDescription.toJson))])

end TypedQuery.Introspection
