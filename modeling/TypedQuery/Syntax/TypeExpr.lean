import TypedQuery.Syntax.Position

/-!
# Type expressions

A type as it is written: a name, a list of a type, or a type that excludes null. A type expression
says nothing about what its names stand for; a schema resolves it. The grammar writes no `!` after
a `!`, but an expression that is built by hand may hold it, and no schema resolves such a one.
-/

namespace TypedQuery

/-- A type as it is written. -/
inductive TypeExpr
  | named (name : String)
  | list (of : TypeExpr)
  | nonNull (of : TypeExpr)
deriving Repr, DecidableEq, Inhabited

namespace TypeExpr

/-- The name under all lists and `!`. -/
def innerName : TypeExpr → String
  | .named name => name
  | .list of => of.innerName
  | .nonNull of => of.innerName

/-- Whether the expression ends in `!`. -/
def isNonNull : TypeExpr → Bool
  | .nonNull _ => true
  | _ => false

/-- A list in brackets, a `!` behind what it makes non-null. -/
def text : TypeExpr → String
  | .named name => name
  | .list of => "[" ++ of.text ++ "]"
  | .nonNull of => of.text ++ "!"

/-- The kind of node that an expression is. -/
def kind : TypeExpr → NodeKind
  | .named _ => .namedType
  | .list _ => .listType
  | .nonNull _ => .nonNullType

end TypeExpr

end TypedQuery
