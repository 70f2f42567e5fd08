import TypedQuery.Coercion.Scalar
import TypedQuery.Schema.Basic

/-!
# Coercion of literals

A literal against a type. Variables are met before the type is looked at: a variable has the value
that a lookup gives it, and only its being null is checked.

At a list type the whole literal is first read as one member. If that gives a value other than
null, the list holds it alone; if not, a list literal is read item by item, and any other literal
has the outcome of the attempt.

The first argument of `SchemaType.coerceLiteral` is the number of levels that may still be entered.
Every member of a list and every field of an input object is one level down, so the depth limit
itself makes the recursion end.
-/

namespace TypedQuery

/-- What variables stand for. -/
abbrev VariableLookup := String → Except ResolutionError Coerced

/-- The lookup where no variables are bound. -/
def VariableLookup.none : VariableLookup := fun name => .error (.variableOutsideOperation name)

namespace SchemaType

/-- Null against a type. -/
def ofNull (t : SchemaType) : Except ResolutionError Coerced :=
  if t.isNonNull then .error (.nullValue t.text) else .ok .null

/-- A value that is known already against a type: null alone is looked at. -/
def ofKnown (t : SchemaType) (value : Coerced) : Except ResolutionError Coerced :=
  if value.isNull && t.isNonNull then .error (.nullValue t.text) else .ok value

end SchemaType

/-- The type of a field of an input object. -/
def Schema.inputFieldType (s : Schema) (f : InputField) : Except ResolutionError SchemaType :=
  match s.resolve .input f.type with
  | some t => .ok t
  | none => .error (.unknownType f.type.text)

namespace SchemaType

/-- **A literal against a type**, with the levels that are left. -/
def coerceLiteral (s : Schema) (lookup : VariableLookup) :
    Nat → SchemaType → Literal → Except ResolutionError Coerced
  | 0, _, _ => .error (.depthLimitExceeded s.limits.maxDepth)
  | _ + 1, t, .variable name => do t.ofKnown (← lookup name)
  | _ + 1, t, .null => t.ofNull
  | _ + 1, .named (.scalar t) _, l => t.ofLiteral l
  | _ + 1, .named (.enum t) _, l => t.ofLiteral l
  | _ + 1, .named (.composite c) _, l => .error (literalMismatch c.name l)
  | room + 1, .named (.inputObject o) _, l =>
    match l with
    | .object entries =>
      o.assemble fun f =>
        match entries.lookup f.name with
        | none => .ok none
        | some value => do
          let t ← s.inputFieldType f
          return some (← coerceLiteral s lookup room t value)
    | l => .error (literalMismatch o.name l)
  | room + 1, .list of _, l =>
    let attempt := coerceLiteral s lookup room of l
    match attempt, l with
    | .ok .null, .list items =>
      (items.mapM (coerceLiteral s lookup room of)).map .list
    | .ok .null, _ => attempt
    | .ok single, _ => .ok (.list [single])
    | .error _, .list items =>
      (items.mapM (coerceLiteral s lookup room of)).map .list
    | .error _, _ => attempt

end SchemaType

/-- How many levels a value may have: the outermost is one beyond the limit. -/
def Limits.levels (l : Limits) : Nat := l.maxDepth + 1

/-- A literal against a type, from the outermost level. -/
def Schema.coerceLiteral (s : Schema) (lookup : VariableLookup) (t : SchemaType) (l : Literal) :
    Except ResolutionError Coerced :=
  t.coerceLiteral s lookup s.limits.levels l

end TypedQuery
