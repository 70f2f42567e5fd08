import TypedQuery.Syntax.DirectiveLocation
import TypedQuery.Syntax.Literal
import TypedQuery.Syntax.TypeExpr

/-!
# Definitions of a type system

What a schema text declares: types, directives and the root operations. Extensions are part of the
grammar and add nothing to a schema, so nothing is kept of them; nor are the directives on
definitions kept.
-/

namespace TypedQuery.TypeSystem

/-- An argument, or a field of an input object. -/
structure InputValue where
  description : Option String
  name : String
  type : TypeExpr
  default : Option Literal

/-- A field of an object or interface. -/
structure FieldDefinition where
  description : Option String
  name : String
  arguments : List InputValue
  type : TypeExpr

/-- A value of an enumeration. -/
structure EnumValueDefinition where
  description : Option String
  name : String

/-- What a type definition says besides name and description. -/
inductive TypeBody
  | scalar
  | object (interfaces : List String) (fields : List FieldDefinition)
  | interface (fields : List FieldDefinition)
  | union (members : List String)
  | enum (values : List EnumValueDefinition)
  | inputObject (fields : List InputValue)

/-- The definition of a type. -/
structure TypeDefinition where
  description : Option String
  name : String
  body : TypeBody

/-- The definition of a directive. -/
structure DirectiveDefinition where
  description : Option String
  name : String
  arguments : List InputValue
  repeatable : Bool
  locations : List DirectiveLocation

/-- The names of the root types. -/
structure Roots where
  query : Option String
  mutation : Option String
  subscription : Option String
deriving Repr, DecidableEq

/-- A definition of a schema text. -/
inductive Definition
  | schema (roots : Roots)
  | type (t : TypeDefinition)
  | directive (d : DirectiveDefinition)
  | typeExtension

end TypedQuery.TypeSystem
