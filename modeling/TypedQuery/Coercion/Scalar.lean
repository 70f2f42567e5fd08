import TypedQuery.Schema.Type
import TypedQuery.Value.Raw

/-!
# Leaf types read values

What scalars and enumerations make of literals and of raw values. Null is null for all of them.
The two kinds of values differ in two points: an enumeration value is a name in a literal and a
string in a raw value, and a raw double without fraction is an integer.

**Main definitions**: `ScalarType.ofLiteral`, `ScalarType.ofRaw`, `EnumType.ofLiteral`,
`EnumType.ofRaw`.
-/

namespace TypedQuery

/-- The failure of a type to represent a literal. -/
def literalMismatch (type : String) (l : Literal) : ResolutionError := .notRepresentable type l.text

/-- The failure of a type to represent a raw value. -/
def rawMismatch (type : String) (raw : Raw) : ResolutionError := .notRepresentable type raw.text

/-- An integer that 32 bits with sign hold. -/
def int32? (n : Int64) : Option Coerced := if fitsInt32 n then some (.int n) else none

/-- The integer of a double without fraction, if 32 bits with sign hold it. -/
def wholeInt32? (x : Float) : Option Coerced :=
  if x.floor == x then int32? x.toInt64 else none

/-- What is found, or the failure. -/
def orMismatch (found : Option Coerced) (failure : ResolutionError) :
    Except ResolutionError Coerced :=
  match found with
  | some value => .ok value
  | none => .error failure

namespace ScalarKind

/-- The value that a scalar of the kind gives to a literal. -/
def ofLiteral? : ScalarKind → Literal → Option Coerced
  | _, .null => some .null
  | .int, .int n => int32? n
  | .float, .int n => some (.float (Decimal.ofInt64 n))
  | .float, .float x => some (.float x)
  | .string, .string s => some (.string s)
  | .boolean, .boolean b => some (.boolean b)
  | .id, .string s => some (.string s)
  | .id, .int n => some (.string (toString n))
  | .custom, .int n => some (.int n)
  | .custom, .float x => some (.float x)
  | .custom, .string s => some (.string s)
  | .custom, .enum name => some (.string name)
  | .custom, .boolean b => some (.boolean b)
  | _, _ => none

/-- The value that a scalar of the kind gives to a raw value. -/
def ofRaw? : ScalarKind → Raw → Option Coerced
  | _, .null => some .null
  | .int, .int n => int32? n
  | .int, .float x => wholeInt32? x
  | .float, .int n => some (.float (Decimal.ofInt64 n))
  | .float, .float x => some (.float x)
  | .string, .string s => some (.string s)
  | .boolean, .boolean b => some (.boolean b)
  | .id, .string s => some (.string s)
  | .id, .int n => some (.string (toString n))
  | .custom, .int n => some (.int n)
  | .custom, .float x => some (.float x)
  | .custom, .string s => some (.string s)
  | .custom, .boolean b => some (.boolean b)
  | _, _ => none

end ScalarKind

/-- **A literal at a scalar.** -/
def ScalarType.ofLiteral (t : ScalarType) (l : Literal) : Except ResolutionError Coerced :=
  orMismatch (t.kind.ofLiteral? l) (literalMismatch t.name l)

/-- **A raw value at a scalar.** -/
def ScalarType.ofRaw (t : ScalarType) (raw : Raw) : Except ResolutionError Coerced :=
  orMismatch (t.kind.ofRaw? raw) (rawMismatch t.name raw)

namespace EnumType

/-- The declared value of a name. -/
def value? (t : EnumType) (name : String) : Option Coerced :=
  if t.has name then some (.enum name) else none

/-- **A literal at an enumeration**: the name of a declared value. -/
def ofLiteral (t : EnumType) (l : Literal) : Except ResolutionError Coerced :=
  let found := match l with
    | .null => some .null
    | .enum name => t.value? name
    | _ => none
  orMismatch found (literalMismatch t.name l)

/-- **A raw value at an enumeration**: the name of a declared value as a string. -/
def ofRaw (t : EnumType) (raw : Raw) : Except ResolutionError Coerced :=
  let found := match raw with
    | .null => some .null
    | .string name => t.value? name
    | _ => none
  orMismatch found (rawMismatch t.name raw)

end EnumType

end TypedQuery
