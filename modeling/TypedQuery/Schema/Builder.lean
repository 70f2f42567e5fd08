import TypedQuery.Json.Record
import TypedQuery.Schema.Basic

/-!
# Building schemas

A builder collects types, directives and bindings of host types one at a time. A step that fails
leaves the builder as it was (`SchemaBuilder.step`); a type or directive is added under a name that
is free, and only if it repeats no name inside. `SchemaBuilder.build` checks in a fixed order that
everything that is referred to exists.

A builder may also be changed in place (`SchemaBuilder.InPlace`), one table after the other; then
it is the order of checks and changes that keeps a failing step from leaving anything behind.

**Main definitions**: `SchemaBuilder.addType`, `SchemaBuilder.step`, `SchemaBuilder.build`,
`SchemaBuilder.InPlace.perform`.
-/

namespace TypedQuery

/-- The limits of a JSON text: an object that may set `maxDepth`. -/
def Limits.parse (source : String) : Option Limits := do
  let tree ← Json.Tree.parse source
  let m ← Json.Tree.record? ["maxDepth"] tree
  match m.lookup "maxDepth" with
  | none => return {}
  | some tree => return { maxDepth := ← tree.natural? }

/-- A schema in the making. -/
structure SchemaBuilder where
  queryType : String
  mutationType : Option String
  subscriptionType : Option String
  inputTypes : Table NamedType
  outputTypes : Table NamedType
  inputHosts : Table TypeExpr
  outputHosts : Table TypeExpr
  directives : Table DirectiveType
  limits : Limits

namespace SchemaBuilder

/-! ## 1. Adding types -/

/-- Whether a type has the name, in whichever namespace. -/
def hasType (b : SchemaBuilder) (name : String) : Bool :=
  b.inputTypes.contains name || b.outputTypes.contains name

/-- Puts a type under its name into the namespaces it is for. -/
def insertNamed (b : SchemaBuilder) (t : NamedType) : SchemaBuilder :=
  { b with
    inputTypes := if t.isInput then b.inputTypes.insert t.name t else b.inputTypes
    outputTypes := if t.isOutput then b.outputTypes.insert t.name t else b.outputTypes }

/-- Binds a host type to an input type. -/
def bindHost (b : SchemaBuilder) (host : HostType) (t : TypeExpr) : SchemaBuilder :=
  { b with inputHosts := b.inputHosts.insert host.name t }

/-- Binds the host type of a type to the type: that of an input object for input, that of an
    object, if it has one, for output. -/
def bindOwnHost (b : SchemaBuilder) : NamedType → SchemaBuilder
  | .inputObject o => b.bindHost o.record.host (.named o.name)
  | .composite c =>
    match c.host with
    | some host => { b with outputHosts := b.outputHosts.insert host.name (.named c.name) }
    | none => b
  | .scalar _ | .enum _ => b

/-- **Adds a type.** The type has a name, the name is free, and the type repeats no name; of two
    faults the first in this order is told. -/
def addType (b : SchemaBuilder) : SchemaType → Except SchemaError SchemaBuilder
  | .named t false =>
    if b.hasType t.name then .error (.duplicateType t.name)
    else
      match t.repeated? with
      | some field => .error (.duplicateField t.name field)
      | none => .ok ((b.bindOwnHost t).insertNamed t)
  | t => .error (.unknownReference t.text "schema")

/-- **Adds a directive** under a name that is free. -/
def addDirective (b : SchemaBuilder) (d : DirectiveType) : Except SchemaError SchemaBuilder :=
  if b.directives.contains d.name then .error (.duplicateType ("@" ++ d.name))
  else .ok { b with directives := b.directives.insert d.name d }

/-- A builder without any type. -/
def blank : SchemaBuilder :=
  ⟨"Query", none, none, ∅, ∅, ∅, ∅, ∅, {}⟩

/-- The builder to start from: the built-in scalars, the host types that hold them, and the two
    directives of every schema. -/
def new : SchemaBuilder :=
  let b := ScalarType.builtin.foldl (fun b s => b.insertNamed (.scalar s)) blank
  let b := b.bindHost .int32 (.named "Int")
  let b := b.bindHost .int64 (.named "Int")
  let b := b.bindHost .float (.named "Float")
  let b := b.bindHost .text (.named "String")
  let b := b.bindHost .boolean (.named "Boolean")
  { b with
    directives := (b.directives.insert DirectiveType.skip.name .skip).insert
      DirectiveType.includeOnly.name .includeOnly }

/-! ## 2. Steps -/

/-- One step of building. -/
inductive Step
  | query (name : String)
  | mutation (name : String)
  | subscription (name : String)
  | limits (l : Limits)
  | type (t : SchemaType)
  | host (host : HostType) (t : TypeExpr)
  | directive (d : DirectiveType)

/-- What a step does, if it does not fail. -/
def apply (b : SchemaBuilder) : Step → Except SchemaError SchemaBuilder
  | .query name => .ok { b with queryType := name }
  | .mutation name => .ok { b with mutationType := some name }
  | .subscription name => .ok { b with subscriptionType := some name }
  | .limits l => .ok { b with limits := l }
  | .type t => b.addType t
  | .host host t => .ok (b.bindHost host t)
  | .directive d => b.addDirective d

/-- The builder after a step; a step that fails changes nothing. -/
def step (b : SchemaBuilder) (s : Step) : SchemaBuilder :=
  match b.apply s with
  | .ok b' => b'
  | .error _ => b

/-- The builder after steps. -/
def run (b : SchemaBuilder) (steps : List Step) : SchemaBuilder := steps.foldl step b

/-! ## 3. Steps in place -/

/-- Changes of a builder in place. A failure takes back nothing of what was changed before it. -/
abbrev InPlace := EStateM SchemaError SchemaBuilder

namespace InPlace

/-- Adds a type: the checks come before the host type is bound, and that before the type is put
    into its namespaces. -/
def addType : SchemaType → InPlace Unit
  | .named t false => do
    if (← get).hasType t.name then throw (.duplicateType t.name)
    else
      match t.repeated? with
      | some field => throw (.duplicateField t.name field)
      | none =>
        modify (·.bindOwnHost t)
        modify (·.insertNamed t)
  | t => throw (.unknownReference t.text "schema")

/-- Adds a directive. -/
def addDirective (d : DirectiveType) : InPlace Unit := do
  if (← get).directives.contains d.name then throw (.duplicateType ("@" ++ d.name))
  else modify fun b => { b with directives := b.directives.insert d.name d }

/-- Performs a step. -/
def perform : Step → InPlace Unit
  | .query name => modify fun b => { b with queryType := name }
  | .mutation name => modify fun b => { b with mutationType := some name }
  | .subscription name => modify fun b => { b with subscriptionType := some name }
  | .limits l => modify fun b => { b with limits := l }
  | .type t => addType t
  | .host host t => modify (·.bindHost host t)
  | .directive d => addDirective d

end InPlace

/-! ## 4. References -/

/-- A place where a type is referred to. -/
structure Reference where
  type : TypeExpr
  space : Namespace
  /-- What refers to the type. -/
  referrer : String

/-- The references of a field: its type, then the types of its arguments. -/
def fieldReferences (owner : String) (f : FieldType) : List Reference :=
  ⟨f.type, .output, owner ++ "." ++ f.name⟩ ::
    f.arguments.map fun a => ⟨a.type, .input, owner ++ "." ++ f.name ++ "(" ++ a.name ++ ":)"⟩

/-- The references of an output type: its fields, its interfaces, its possible types. -/
def outputReferences : NamedType → List Reference
  | .composite c =>
    c.fields.flatMap (fieldReferences c.name) ++
      (c.interfaces ++ c.possibleTypes).map fun name => ⟨.named name, .output, c.name⟩
  | _ => []

/-- The references of an input type: the fields of an input object. -/
def inputReferences : NamedType → List Reference
  | .inputObject o => o.fields.map fun f => ⟨f.type, .input, o.name ++ "." ++ f.name⟩
  | _ => []

/-- The references of a directive: its arguments. -/
def directiveReferences (d : DirectiveType) : List Reference :=
  d.arguments.values.map fun a => ⟨a.type, .input, "@" ++ d.name ++ "(" ++ a.name ++ ":)"⟩

/-- All references, in the order in which they are checked. -/
def references (b : SchemaBuilder) : List Reference :=
  b.outputTypes.values.flatMap outputReferences ++
    b.inputTypes.values.flatMap inputReferences ++
    b.directives.values.flatMap directiveReferences

/-- Whether the name that a reference mentions is there. -/
def knows (b : SchemaBuilder) (r : Reference) : Bool :=
  match r.space with
  | .input => b.inputTypes.contains r.type.innerName
  | .output => b.outputTypes.contains r.type.innerName

/-! ## 5. The schema -/

/-- A root: an object, interface or union for output. -/
def root (b : SchemaBuilder) (name : String) : Except SchemaError CompositeType :=
  match b.outputTypes.find? name with
  | some (.composite c) => .ok c
  | _ => .error (.unknownReference name "schema")

/-- A root that need not be set. -/
def root? (b : SchemaBuilder) : Option String → Except SchemaError (Option CompositeType)
  | none => .ok none
  | some name => (b.root name).map some

/-- **The schema**, if its roots exist and every reference has a name that is there. -/
def build (b : SchemaBuilder) : Except SchemaError Schema := do
  let queryType ←
    match b.root b.queryType with
    | .ok c => .ok c
    | .error _ => .error (.missingQueryRoot b.queryType)
  let mutationType ← b.root? b.mutationType
  let subscriptionType ← b.root? b.subscriptionType
  match b.references.find? fun r => !b.knows r with
  | some r => .error (.unknownReference r.type.innerName r.referrer)
  | none =>
    return {
      queryType, mutationType, subscriptionType
      inputTypes := b.inputTypes
      outputTypes := b.outputTypes
      inputHosts := b.inputHosts
      outputHosts := b.outputHosts
      directives := b.directives
      limits := b.limits }

/-! ## 6. Laws -/

/-- A type that is added has its name. -/
theorem hasType_of_addType {b b' : SchemaBuilder} {t : NamedType}
    (h : b.addType (.named t false) = .ok b') : b'.hasType t.name = true := by
  simp only [addType] at h
  split at h
  · cases h
  · split at h
    · cases h
    · cases h
      cases t <;>
        simp [hasType, insertNamed, NamedType.isInput, NamedType.isOutput, NamedType.name,
          Table.contains]

/-- A failing step leaves the builder as it was. -/
theorem step_of_error {b : SchemaBuilder} {s : Step} {e : SchemaError}
    (h : b.apply s = .error e) : b.step s = b := by
  simp [step, h]

end SchemaBuilder

end TypedQuery
