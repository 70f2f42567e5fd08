import TypedQuery.Decimal.Nearest
import TypedQuery.Error
import TypedQuery.Value.Coerced

/-!
# Holding coerced values in host records

A typed input object is read into a record of the embedding program. The shape of the record names
its members, what each can hold (`MemberShape`) and what it holds before anything is assigned, and
which of them takes the value of a field. A dynamic record has no members.

* `MemberShape.convert` brings a coerced value into the shape of a member, or fails;
* `Coerced.intoHost` takes a record out of a coerced value;
* `RecordShape.fresh` is the record to start from, `RecordShape.setter?` the member of a field.
-/

namespace TypedQuery

/-- What a member of a record can hold. -/
inductive MemberShape
  | int32
  | int64
  | float
  | boolean
  | text
  | coerced
  | object
  /-- A record of the host type. -/
  | record (host : HostType)
  | optional (of : MemberShape)
  | list (of : MemberShape)
deriving Repr, DecidableEq

/-- The host type of a member. -/
def MemberShape.host : MemberShape → HostType
  | .int32 => .int32
  | .int64 => .int64
  | .float => .float
  | .boolean => .boolean
  | .text => .text
  | .coerced => .coerced
  | .object => .object
  | .record host => host.embedded
  | .optional of => of.host.optional
  | .list of => of.host.list

/-! ## 1. Conversion -/

/-- The failure to bring a value into a host type. -/
def hostMismatch (expected : HostType) (found : String) : ResolutionError :=
  .hostConversion expected.name found

/-- **The record of a host type that a value holds.** A record of another type is told by the name
    of its input object. -/
def Coerced.intoHost (host : HostType) : Coerced → Except ResolutionError HostRecord
  | .object typeName record =>
    if record.host = host then .ok record else .error (hostMismatch host typeName)
  | other => .error (hostMismatch host other.text)

/-- Whether 32 bits with sign hold an integer. -/
def fitsInt32 (n : Int64) : Bool := -2147483648 ≤ n.toInt && n.toInt ≤ 2147483647

/-- **A coerced value in the shape of a member.** An integer also fits a double, the name of an
    enumeration value also fits a text; a value that is no list fits a list as its only item. -/
def MemberShape.convert : MemberShape → Coerced → Except ResolutionError HostValue
  | .int32, value =>
    match value with
    | .int n => if fitsInt32 n then .ok (.int n) else .error (hostMismatch .int32 (toString n))
    | other => .error (hostMismatch .int32 other.text)
  | .int64, value =>
    match value with
    | .int n => .ok (.int n)
    | other => .error (hostMismatch .int64 other.text)
  | .float, value =>
    match value with
    | .float x => .ok (.float x)
    | .int n => .ok (.float (Decimal.ofInt64 n))
    | other => .error (hostMismatch .float other.text)
  | .boolean, value =>
    match value with
    | .boolean b => .ok (.boolean b)
    | other => .error (hostMismatch .boolean other.text)
  | .text, value =>
    match value with
    | .string s => .ok (.text s)
    | .enum name => .ok (.text name)
    | other => .error (hostMismatch .text other.text)
  | .coerced, value => .ok (.coerced value)
  | .object, value =>
    match value with
    | .object typeName held => .ok (.object typeName held)
    | other => .error (hostMismatch .object other.text)
  | .record host, value => (value.intoHost host).map .record
  | .optional of, value =>
    match value with
    | .null => .ok (.optional none)
    | other => (of.convert other).map fun held => .optional (some held)
  | .list of, value =>
    match value with
    | .list items => (items.mapM of.convert).map .list
    | other => (of.convert other).map fun held => .list [held]

/-! ## 2. Records -/

/-- A member of a host record. -/
structure Member where
  name : String
  shape : MemberShape
  /-- What the member holds before anything is assigned. -/
  initial : HostValue

/-- The record into which an input object is read. -/
inductive RecordShape
  /-- A dynamic record takes the value of any field, under the name of the field. -/
  | dynamic
  /-- A record of a host type has its members, and tells by the name of a field which member takes
      the value of the field. -/
  | typed (host : HostType) (members : List Member) (setters : List (String × Member))

namespace RecordShape

/-- The host type of the record. -/
def host : RecordShape → HostType
  | .dynamic => .dynamic
  | .typed host _ _ => host

/-- The member that takes the value of a field. -/
def setter? : RecordShape → String → Option Member
  | .dynamic, _ => none
  | .typed _ _ setters, field => setters.lookup field

/-- A record to which nothing is assigned. -/
def fresh : RecordShape → HostRecord
  | .dynamic => .dynamic []
  | .typed host members _ => .typed host (members.map fun m => (m.name, m.initial))

/-- A fresh record is of the host type of its shape. -/
theorem host_fresh (shape : RecordShape) : shape.fresh.host = shape.host := by
  cases shape <;> rfl

end RecordShape

end TypedQuery
