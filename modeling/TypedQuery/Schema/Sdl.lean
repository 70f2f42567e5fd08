import TypedQuery.Schema.Builder
import TypedQuery.TypeSystem.Grammar

/-!
# Schemas from their definitions

A schema text gives a schema in two steps: its definitions (`TypeSystem.parse`), and the builder
that adds them one by one (`Schema.ofDefinitions`).

* The built-in scalars and the directives of every schema may be defined again, which says nothing.
* All input objects are dynamic.
* The possible types of an interface are the objects that implement it, in the order of the text.
* Without a schema definition the roots have their usual names, as far as types of those names
  exist; of several schema definitions the last one counts.
-/

namespace TypedQuery

namespace TypeSystem

/-! ## 1. Types -/

/-- An argument. -/
def InputValue.toArgument (v : InputValue) : ArgumentType :=
  ⟨v.name, v.description, v.type, v.default⟩

/-- A field of a dynamic input object. -/
def InputValue.toInputField (v : InputValue) : InputField :=
  ⟨v.name, v.description, v.type, v.default⟩

/-- A field. -/
def FieldDefinition.toField (f : FieldDefinition) : FieldType :=
  ⟨f.name, f.description, f.type, f.arguments.map InputValue.toArgument, none⟩

/-- The objects that implement an interface, in order. -/
def implementers (definitions : List Definition) (interface : String) : List String :=
  definitions.flatMap fun
    | .type ⟨_, name, .object interfaces _⟩ =>
      (interfaces.filter (· == interface)).map fun _ => name
    | _ => []

/-- The type that a definition declares; a built-in scalar is declared already. -/
def TypeDefinition.toType? (implementers : String → List String) (t : TypeDefinition) :
    Option NamedType :=
  match t.body with
  | .scalar =>
    if (ScalarType.builtin? t.name).isSome then none
    else some (.scalar (.custom t.name t.description))
  | .enum values =>
    some (.enum ⟨t.name, t.description, values.map fun v => ⟨v.name, v.description⟩⟩)
  | .object interfaces fields =>
    some (.composite ⟨t.name, t.description, .object, fields.map FieldDefinition.toField,
      interfaces, [], none⟩)
  | .interface fields =>
    some (.composite ⟨t.name, t.description, .interface, fields.map FieldDefinition.toField,
      [], implementers t.name, none⟩)
  | .union members =>
    some (.composite ⟨t.name, t.description, .union, [], [], members, none⟩)
  | .inputObject fields =>
    some (.inputObject ⟨t.name, t.description, fields.map InputValue.toInputField, .dynamic⟩)

/-- The directive that a definition declares. -/
def DirectiveDefinition.toDirective (d : DirectiveDefinition) : DirectiveType where
  name := d.name
  description := d.description
  locations := d.locations
  arguments := DirectiveType.tableOf (d.arguments.map InputValue.toArgument)
  repeatable := d.repeatable

/-! ## 2. Definitions -/

/-- Whether every schema has the directive of the name. -/
def isStandardDirective (name : String) : Bool :=
  name == DirectiveType.skip.name || name == DirectiveType.includeOnly.name

/-- Adds what one definition declares. -/
def addDefinition (implementers : String → List String) (b : SchemaBuilder) :
    Definition → Except SchemaError SchemaBuilder
  | .type t =>
    match t.toType? implementers with
    | some type => b.addType (.named type false)
    | none => .ok b
  | .directive d =>
    if isStandardDirective d.name then .ok b else b.addDirective d.toDirective
  | .schema _ => .ok b
  | .typeExtension => .ok b

/-- The roots that the last schema definition names. -/
def explicitRoots? (definitions : List Definition) : Option Roots :=
  definitions.reverse.findSome? fun
    | .schema roots => some roots
    | _ => none

/-- The roots of the usual names, as far as there are types of these names. -/
def usualRoots (hasType : String → Bool) : Roots where
  query := some "Query"
  mutation := if hasType "Mutation" then some "Mutation" else none
  subscription := if hasType "Subscription" then some "Subscription" else none

/-- Names the roots. -/
def setRoots (b : SchemaBuilder) (roots : Roots) : SchemaBuilder :=
  { b with
    queryType := roots.query.getD b.queryType
    mutationType := roots.mutation.or b.mutationType
    subscriptionType := roots.subscription.or b.subscriptionType }

end TypeSystem

namespace Schema

open TypeSystem

/-- **The schema of a list of definitions.** -/
def ofDefinitions (definitions : List TypeSystem.Definition) : Except SchemaError Schema := do
  let b ← definitions.foldlM (addDefinition (implementers definitions)) SchemaBuilder.new
  (setRoots b ((explicitRoots? definitions).getD (usualRoots b.hasType))).build

/-- **The schema of a text.** -/
def parse (source : String) : Except SchemaError Schema :=
  match TypeSystem.parse source with
  | some definitions => ofDefinitions definitions
  | none => .error .malformed

end Schema

end TypedQuery
