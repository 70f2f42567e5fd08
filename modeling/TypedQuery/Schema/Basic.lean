import TypedQuery.Schema.Type
import TypedQuery.Syntax.Document

/-!
# Schemas

A schema has two namespaces, one for the types of arguments and variables and one for the types of
fields. A type expression is resolved in one of them (`Schema.resolve`). Host types are bound to
type expressions, and the roots answer the three kinds of operations.
-/

namespace TypedQuery

/-- Bounds on what a request may ask. -/
structure Limits where
  /-- How deep values and selections may be nested. -/
  maxDepth : Nat := 64
deriving Repr, DecidableEq

/-- The two namespaces of a schema. -/
inductive Namespace
  | input
  | output
deriving Repr, DecidableEq

/-- A schema. -/
structure Schema where
  queryType : CompositeType
  mutationType : Option CompositeType
  subscriptionType : Option CompositeType
  inputTypes : Table NamedType
  outputTypes : Table NamedType
  /-- Bindings of host types to input types, by the full name of the host type. -/
  inputHosts : Table TypeExpr
  /-- Bindings of host types to output types. -/
  outputHosts : Table TypeExpr
  directives : Table DirectiveType
  limits : Limits

/-- A type expression with the named types that a lookup gives. -/
def TypeExpr.resolve (lookup : String → Option NamedType) : TypeExpr → Option SchemaType
  | .named name => (lookup name).map (.named · false)
  | .list of => (of.resolve lookup).map (.list · false)
  | .nonNull of =>
    match (of.resolve lookup).map SchemaType.nonNull? with
    | some (.ok t) => some t
    | _ => none

namespace Schema

/-- The types of a namespace. -/
def types (s : Schema) : Namespace → Table NamedType
  | .input => s.inputTypes
  | .output => s.outputTypes

/-- The named type of a name. -/
def named? (s : Schema) (space : Namespace) (name : String) : Option NamedType :=
  (s.types space).find? name

/-- The input object of a name. -/
def inputObject? (s : Schema) (name : String) : Option InputObjectType :=
  match s.named? .input name with
  | some (.inputObject o) => some o
  | _ => none

/-- **The type that an expression stands for.** -/
def resolve (s : Schema) (space : Namespace) (t : TypeExpr) : Option SchemaType :=
  t.resolve (s.named? space)

/-- The type that is bound to a host type. -/
def resolveHost (s : Schema) (space : Namespace) (host : HostType) : Option SchemaType :=
  match space with
  | .input => (s.inputHosts.find? host.name).bind (s.resolve .input)
  | .output => (s.outputHosts.find? host.name).bind (s.resolve .output)

/-- The root type of a kind of operation. -/
def root? (s : Schema) : OperationKind → Option CompositeType
  | .query => some s.queryType
  | .mutation => s.mutationType
  | .subscription => s.subscriptionType

/-- Whether a type is the root of queries. -/
def isQueryRoot (s : Schema) : NamedType → Bool
  | .composite c => c.name == s.queryType.name
  | _ => false

/-- Whether a type is the root of queries as it stands, without lists and with null. -/
def isQueryRootType (s : Schema) : SchemaType → Bool
  | .named t false => s.isQueryRoot t
  | _ => false

/-- All types: those for output, then those for input alone. -/
def allTypes (s : Schema) : List NamedType :=
  s.outputTypes.values ++
    (s.inputTypes.entries.filter fun p => !s.outputTypes.contains p.1).map (·.2)

/-- The named type of a name, in whichever namespace; the output namespace goes first. -/
def anyNamed? (s : Schema) (name : String) : Option NamedType :=
  (s.named? .output name).or (s.named? .input name)

/-- A resolved name is the named type as it stands. -/
theorem resolve_named (s : Schema) (space : Namespace) (name : String) :
    s.resolve space (.named name) = (s.named? space name).map (.named · false) := rfl

/-- A resolved list is a list. -/
theorem resolve_list (s : Schema) (space : Namespace) (of : TypeExpr) :
    s.resolve space (.list of) = (s.resolve space of).map (.list · false) := rfl

end Schema

end TypedQuery
