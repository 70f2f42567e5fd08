/-!
# Why coercion and schema building fail

Two types of causes, and one function each that words them. A cause names what it is about by the
text in which it was written or is displayed.
-/

namespace TypedQuery

/-- Why a value cannot be resolved, or a walk cannot go on. -/
inductive ResolutionError
  /-- A variable is used that no definition declares. -/
  | undeclaredVariable (name : String)
  /-- A variable of a non-null type has neither value nor default. -/
  | missingVariable (name type : String)
  /-- The schema has no root type for the kind of operation. -/
  | unsupportedOperation (kind : String)
  /-- The type has no such value. -/
  | notRepresentable (type found : String)
  /-- A non-null type meets null. -/
  | nullValue (type : String)
  /-- A type expression does not resolve. -/
  | unknownType (type : String)
  /-- No type is bound to the host type. -/
  | unknownHostType (host : String)
  /-- A variable is met where no variables are bound. -/
  | variableOutsideOperation (name : String)
  /-- A coerced value does not fit the host type that is to hold it. -/
  | hostConversion (expected found : String)
  /-- A value or a selection is nested too deep. -/
  | depthLimitExceeded (maxDepth : Nat)
deriving Repr, DecidableEq

/-- The wording of a cause. -/
def ResolutionError.message : ResolutionError → String
  | .undeclaredVariable name => s!"Variable \"${name}\" is not defined."
  | .missingVariable name type =>
    s!"Variable \"${name}\" of required type \"{type}\" was not provided."
  | .unsupportedOperation kind =>
    s!"Operation kind \"{kind}\" is not supported by the schema."
  | .notRepresentable type found => s!"Expected value of type \"{type}\", found {found}."
  | .nullValue type => s!"Expected non-nullable type \"{type}\" not to be null."
  | .unknownType type => s!"Unknown type \"{type}\"."
  | .unknownHostType host => s!"No schema type is registered for host type \"{host}\"."
  | .variableOutsideOperation name =>
    s!"Variable \"${name}\" cannot be resolved outside of an operation."
  | .hostConversion expected found => s!"Cannot convert {found} into host type \"{expected}\"."
  | .depthLimitExceeded maxDepth =>
    s!"Value nesting exceeds the maximum depth of {maxDepth}."

/-- Why a schema cannot be built. -/
inductive SchemaError
  /-- A non-null type is made non-null again. -/
  | nestedNonNull (type : String)
  /-- A name is given to a second type or directive. -/
  | duplicateType (name : String)
  /-- A type has two fields of a name, or a field two arguments of a name. -/
  | duplicateField (type field : String)
  /-- The query root is missing. -/
  | missingQueryRoot (name : String)
  /-- A type is referred to that does not exist where it is referred to. -/
  | unknownReference (type referencedBy : String)
  /-- The text is no schema text. -/
  | malformed
deriving Repr, DecidableEq

/-- The wording of a cause. -/
def SchemaError.message : SchemaError → String
  | .nestedNonNull type => s!"Type \"{type}\" is wrapped in NonNull twice."
  | .duplicateType name => s!"Type \"{name}\" is defined more than once."
  | .duplicateField type field => s!"Field \"{field}\" is defined more than once on \"{type}\"."
  | .missingQueryRoot name => s!"Schema does not contain a Query root type \"{name}\"."
  | .unknownReference type referencedBy =>
    s!"Unknown type \"{type}\" referenced by \"{referencedBy}\"."
  | .malformed => "The schema text is malformed."

end TypedQuery
