import TypedQuery.Coercion.Literal

/-!
# Coercion of raw values

A raw value against a type. A list is read item by item, and any other value at a list type is its
only item. As for literals, the first argument is the number of levels that may still be entered;
an object that has no level left fails even if none of its fields is supplied.
-/

namespace TypedQuery

namespace SchemaType

/-- **A raw value against a type**, with the levels that are left. -/
def coerceRaw (s : Schema) : Nat → SchemaType → Raw → Except ResolutionError Coerced
  | 0, _, _ => .error (.depthLimitExceeded s.limits.maxDepth)
  | _ + 1, t, .null => t.ofNull
  | _ + 1, .named (.scalar t) _, raw => t.ofRaw raw
  | _ + 1, .named (.enum t) _, raw => t.ofRaw raw
  | _ + 1, .named (.composite c) _, raw => .error (rawMismatch c.name raw)
  | room + 1, .named (.inputObject o) _, raw =>
    match raw with
    | .object entries =>
      if room = 0 then .error (.depthLimitExceeded s.limits.maxDepth)
      else
        o.assemble fun f =>
          match entries.lookup f.name with
          | none => .ok none
          | some value => do
            let t ← s.inputFieldType f
            return some (← coerceRaw s room t value)
    | raw => .error (rawMismatch o.name raw)
  | room + 1, .list of _, raw =>
    match raw with
    | .list items => (items.mapM (coerceRaw s room of)).map .list
    | single => (coerceRaw s room of single).map fun value => .list [value]

end SchemaType

/-- A raw value against a type, from the outermost level. -/
def Schema.coerceRaw (s : Schema) (t : SchemaType) (raw : Raw) : Except ResolutionError Coerced :=
  t.coerceRaw s s.limits.levels raw

end TypedQuery
