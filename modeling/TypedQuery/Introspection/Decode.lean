import TypedQuery.Introspection.Basic
import TypedQuery.Json.Record

/-!
# Descriptions from JSON

The way back from JSON texts. Members that the descriptions do not know are skipped, a known one
stands at most once, and `null` reads as absence; a description in an array has all its members,
in the order of its keys. The first argument of each reader is the number of containers that may
still be opened.

**Main definitions**: `SchemaDescription.parse` and `TypeDescription.parse`.
-/

namespace TypedQuery.Introspection

open Json Json.Tree

/-! ## 1. The known keys -/

/-- The keys of an enumeration value. -/
def EnumValueDescription.keys : List String := ["name", "description", "isDeprecated"]

/-- The keys of a type. -/
def TypeDescription.keys : List String :=
  ["kind", "name", "description", "fields", "interfaces", "possibleTypes", "enumValues",
    "inputFields", "ofType"]

/-- The keys of a field. -/
def FieldDescription.keys : List String := ["name", "description", "args", "type"]

/-- The keys of an argument or input field. -/
def InputValueDescription.keys : List String := ["name", "description", "type", "defaultValue"]

/-- The keys of a directive. -/
def DirectiveDescription.keys : List String := ["name", "description", "locations", "args"]

/-- The keys of a schema. -/
def SchemaDescription.keys : List String :=
  ["queryType", "mutationType", "subscriptionType", "types", "directives"]

/-! ## 2. The readers -/

/-- A name out of a fixed set: as a string, or as the only key of an object that holds null. -/
def choice (room : Nat) (ofName? : String → Option α) : Tree → Option α
  | .string (some s) => ofName? s
  | .object [(some s, .null)] => if room = 0 then none else ofName? s
  | _ => none

/-- An enumeration value. -/
def EnumValueDescription.ofTree : Nat → Tree → Option EnumValueDescription
  | 0, _ => none
  | _ + 1, tree => do
    let m ← entries? EnumValueDescription.keys tree
    return ⟨← required m "name" string?, ← optional m "description" string?,
      ← required m "isDeprecated" boolean?⟩

/-- Enumeration values. -/
def enumValuesOfTree : Nat → Tree → Option (List EnumValueDescription)
  | room + 1, .array items => items.mapM (EnumValueDescription.ofTree room)
  | _, _ => none

mutual

/-- A type. -/
def TypeDescription.ofTree : Nat → Tree → Option TypeDescription
  | 0, _ => none
  | room + 1, tree => do
    let m ← entries? TypeDescription.keys tree
    let kind ← required m "kind" (choice room TypeKind.ofName?)
    let name ← optional m "name" string?
    let description ← optional m "description" string?
    let fields ← optional m "fields" (fieldsOfTree room)
    let interfaces ← optional m "interfaces" (typesOfTree room)
    let possibleTypes ← optional m "possibleTypes" (typesOfTree room)
    let enumValues ← optional m "enumValues" (enumValuesOfTree room)
    let inputFields ← optional m "inputFields" (inputValuesOfTree room)
    let ofType ← optional m "ofType" (TypeDescription.ofTree room)
    return ⟨kind, name, description, fields, interfaces, possibleTypes, enumValues, inputFields,
      ofType⟩

/-- A field. -/
def FieldDescription.ofTree : Nat → Tree → Option FieldDescription
  | 0, _ => none
  | room + 1, tree => do
    let m ← entries? FieldDescription.keys tree
    let name ← required m "name" string?
    let description ← optional m "description" string?
    let args ← required m "args" (inputValuesOfTree room)
    let type ← required m "type" (TypeDescription.ofTree room)
    return ⟨name, description, args, type⟩

/-- An argument or input field. -/
def InputValueDescription.ofTree : Nat → Tree → Option InputValueDescription
  | 0, _ => none
  | room + 1, tree => do
    let m ← entries? InputValueDescription.keys tree
    let name ← required m "name" string?
    let description ← optional m "description" string?
    let type ← required m "type" (TypeDescription.ofTree room)
    let defaultValue ← optional m "defaultValue" string?
    return ⟨name, description, type, defaultValue⟩

/-- Types. -/
def typesOfTree : Nat → Tree → Option (List TypeDescription)
  | room + 1, .array items => items.mapM (TypeDescription.ofTree room)
  | _, _ => none

/-- Fields. -/
def fieldsOfTree : Nat → Tree → Option (List FieldDescription)
  | room + 1, .array items => items.mapM (FieldDescription.ofTree room)
  | _, _ => none

/-- Arguments or input fields. -/
def inputValuesOfTree : Nat → Tree → Option (List InputValueDescription)
  | room + 1, .array items => items.mapM (InputValueDescription.ofTree room)
  | _, _ => none

end

/-- The places of a directive. -/
def locationsOfTree : Nat → Tree → Option (List DirectiveLocation)
  | room + 1, .array items => items.mapM (choice room DirectiveLocation.ofName?)
  | _, _ => none

/-- A directive. -/
def DirectiveDescription.ofTree : Nat → Tree → Option DirectiveDescription
  | 0, _ => none
  | room + 1, tree => do
    let m ← entries? DirectiveDescription.keys tree
    return ⟨← required m "name" string?, ← optional m "description" string?,
      ← required m "locations" (locationsOfTree room),
      ← required m "args" (inputValuesOfTree room)⟩

/-- Directives. -/
def directivesOfTree : Nat → Tree → Option (List DirectiveDescription)
  | room + 1, .array items => items.mapM (DirectiveDescription.ofTree room)
  | _, _ => none

/-- A schema. -/
def SchemaDescription.ofTree : Nat → Tree → Option SchemaDescription
  | 0, _ => none
  | room + 1, tree => do
    let m ← entries? SchemaDescription.keys tree
    return ⟨← required m "queryType" (TypeDescription.ofTree room),
      ← optional m "mutationType" (TypeDescription.ofTree room),
      ← optional m "subscriptionType" (TypeDescription.ofTree room),
      ← required m "types" (typesOfTree room),
      ← required m "directives" (directivesOfTree room)⟩

/-- **The description of a type from its JSON text.** -/
def TypeDescription.parse (source : String) : Option TypeDescription :=
  (Tree.parse source).bind (TypeDescription.ofTree maxNesting)

/-- **The description of a schema from its JSON text.** -/
def SchemaDescription.parse (source : String) : Option SchemaDescription :=
  (Tree.parse source).bind (SchemaDescription.ofTree maxNesting)

end TypedQuery.Introspection
