import TypedQuery.Coercion.Raw

/-!
# Variables

The variables of an operation: the definitions that declare them and the values that a request
supplies. A name stands for its first definition. A supplied value is read against the declared
type; without one the default is, in which no variable can stand; without either the variable is
null, if its type allows that.

**Main definitions**: `Resolver.resolve`, `Resolver.resolveAll`, `Repository.coerce`.
-/

namespace TypedQuery

/-- The variables of an operation. -/
structure Resolver where
  schema : Schema
  supplied : Variables
  definitions : List VariableDefinition

namespace Resolver

/-- The variables that an operation declares. -/
def ofOperation (supplied : Variables) (o : Operation) (s : Schema) : Resolver :=
  ⟨s, supplied, o.variables⟩

/-- The first definition of a name. -/
def definition? (r : Resolver) (name : String) : Option VariableDefinition :=
  r.definitions.find? fun d => d.name == name

/-- The supplied names that no definition declares, in the order of supply. -/
def unused (r : Resolver) : List String :=
  r.supplied.names.filter fun name => (r.definition? name).isNone

/-- The type that a definition declares. -/
def declaredType (r : Resolver) : TypeExpr → Except ResolutionError SchemaType
  | .named name =>
    match r.schema.named? .input name with
    | some t => .ok (.named t false)
    | none => .error (.unknownType name)
  | .list of => do return .list (← r.declaredType of) false
  | .nonNull of => do
    match (← r.declaredType of).nonNull? with
    | .ok t => return t
    | .error _ => .error (.unknownType (TypeExpr.nonNull of).text)

/-- **The value of a variable.** -/
def resolve (r : Resolver) (name : String) : Except ResolutionError Coerced := do
  match r.definition? name with
  | none => .error (.undeclaredVariable name)
  | some d =>
    let t ← r.declaredType d.type
    match r.supplied.find? name, d.default with
    | some raw, _ => r.schema.coerceRaw t raw
    | none, some default => r.schema.coerceLiteral .none t default
    | none, none =>
      if t.isNonNull then .error (.missingVariable name t.text) else return .null

/-- **The values of all variables**, by name; the first failure in the order of the definitions
    counts. -/
def resolveAll (r : Resolver) : Except ResolutionError (Table Coerced) := do
  return Table.ofList (← r.definitions.mapM fun d => do return (d.name, ← r.resolve d.name))

/-- A raw value against the type that is bound to a host type. -/
def resolveByHost (r : Resolver) (raw : Raw) (host : HostType) : Except ResolutionError Coerced :=
  match r.schema.resolveHost .input host with
  | some t => r.schema.coerceRaw t raw
  | none => .error (.unknownHostType host.name)

/-- An unused name is supplied and declared by no definition. -/
theorem mem_unused_iff (r : Resolver) (name : String) :
    name ∈ r.unused ↔ name ∈ r.supplied.names ∧ r.definition? name = none := by
  simp [unused]

end Resolver

/-- A schema, with or without the variables of an operation. -/
structure Repository where
  schema : Schema
  resolver : Option Resolver

namespace Repository

/-- What variables stand for. -/
def lookup (r : Repository) : VariableLookup :=
  match r.resolver with
  | some resolver => resolver.resolve
  | none => .none

/-- **A literal against a type**, its variables resolved. -/
def coerce (r : Repository) (t : SchemaType) (l : Literal) : Except ResolutionError Coerced :=
  r.schema.coerceLiteral r.lookup t l

end Repository

end TypedQuery
