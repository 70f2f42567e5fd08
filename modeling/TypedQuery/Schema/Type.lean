import TypedQuery.Introspection.Basic
import TypedQuery.Syntax.Literal
import TypedQuery.Syntax.TypeExpr
import TypedQuery.Value.Host

/-!
# Types of a schema

Named types, and the types made of them by lists and by excluding null.

* The members of objects and input objects name their types by expressions, so a type holds no
  other type and may refer to itself.
* A `SchemaType` carries at each layer whether it excludes null. Excluding null twice is therefore
  no type at all; `SchemaType.nonNull?` refuses it.
* Fields and arguments are kept as they were declared. Where a name is declared twice the first
  one counts (`List.find?`), and `repeated?` names the first repetition; a schema holds no type
  with one.
-/

namespace TypedQuery

open Introspection

/-! ## 1. Scalars and enumerations -/

/-- What a scalar accepts. -/
inductive ScalarKind
  | int
  | float
  | string
  | boolean
  | id
  | custom
deriving Repr, DecidableEq

/-- A scalar. -/
structure ScalarType where
  name : String
  description : Option String
  kind : ScalarKind
deriving Repr, DecidableEq

namespace ScalarType

/-- Integers of 32 bits. -/
def int : ScalarType where
  name := "Int"
  description := "The `Int` scalar type represents non-fractional signed whole numeric values."
  kind := .int

/-- Doubles. -/
def float : ScalarType where
  name := "Float"
  description :=
    "The `Float` scalar type represents signed double-precision fractional values."
  kind := .float

/-- Texts. -/
def string : ScalarType where
  name := "String"
  description := "The `String` scalar type represents textual data, " ++
    "represented as UTF-8 character sequences."
  kind := .string

/-- Truth values. -/
def boolean : ScalarType where
  name := "Boolean"
  description := "The `Boolean` scalar type represents `true` or `false`."
  kind := .boolean

/-- Identifiers. -/
def id : ScalarType where
  name := "ID"
  description := "The `ID` scalar type represents a unique identifier."
  kind := .id

/-- The scalars that every schema has. -/
def builtin : List ScalarType := [int, float, string, boolean, id]

/-- The built-in scalar of a name. -/
def builtin? (name : String) : Option ScalarType := builtin.find? fun s => s.name == name

/-- A scalar of the schema's own. -/
def custom (name : String) (description : Option String) : ScalarType :=
  ⟨name, description, .custom⟩

end ScalarType

/-- A value of an enumeration. -/
structure EnumValue where
  name : String
  description : Option String
deriving Repr, DecidableEq

/-- An enumeration. -/
structure EnumType where
  name : String
  description : Option String
  values : List EnumValue
deriving Repr, DecidableEq

/-- Whether the enumeration declares the value. -/
def EnumType.has (e : EnumType) (value : String) : Bool := e.values.any fun v => v.name == value

/-! ## 2. Objects, interfaces, unions -/

/-- An argument of a field or directive. -/
structure ArgumentType where
  name : String
  description : Option String
  type : TypeExpr
  default : Option Literal

/-- The two fields that a schema answers by itself. -/
inductive MetaField
  | schema
  | type
deriving Repr, DecidableEq

/-- A field of an object or interface. -/
structure FieldType where
  name : String
  description : Option String
  type : TypeExpr
  arguments : List ArgumentType
  /-- A field that the schema answers. -/
  answer : Option MetaField

namespace FieldType

/-- The argument of a name. -/
def argument? (f : FieldType) (name : String) : Option ArgumentType :=
  f.arguments.find? fun a => a.name == name

end FieldType

/-- The first name in a list that stands there before. -/
def firstRepeated (seen : List String) : List String → Option String
  | [] => none
  | name :: rest => if seen.contains name then some name else firstRepeated (name :: seen) rest

/-- A name is repeated unless all are distinct. -/
theorem firstRepeated_eq_none_iff (seen names : List String) :
    firstRepeated seen names = none ↔ names.Nodup ∧ ∀ n ∈ names, n ∉ seen := by
  induction names generalizing seen with
  | nil => simp [firstRepeated]
  | cons name rest ih =>
    by_cases h : name ∈ seen
    · simp [firstRepeated, h]
    · have hc : seen.contains name = false := by simpa using h
      simp only [firstRepeated, hc, Bool.false_eq_true, if_false, ih, List.nodup_cons,
        List.mem_cons, not_or]
      constructor
      · rintro ⟨hn, hs⟩
        refine ⟨⟨fun hm => (hs name hm).1 rfl, hn⟩, ?_⟩
        rintro n (rfl | hm)
        · exact h
        · exact (hs n hm).2
      · rintro ⟨⟨hm, hn⟩, hs⟩
        exact ⟨hn, fun n hn' => ⟨fun e => hm (e ▸ hn'), hs n (Or.inr hn')⟩⟩

/-- What is repeated is the first name that is seen already or stands there before. -/
theorem exists_of_firstRepeated {seen names : List String} {name : String}
    (h : firstRepeated seen names = some name) :
    ∃ before after, names = before ++ name :: after ∧ before.Nodup ∧
      (∀ n ∈ before, n ∉ seen) ∧ (name ∈ seen ∨ name ∈ before) := by
  induction names generalizing seen with
  | nil => cases h
  | cons first rest ih =>
    by_cases hfirst : first ∈ seen
    · simp only [firstRepeated, List.contains_iff_mem, hfirst, if_true, Option.some.injEq] at h
      subst h
      exact ⟨[], rest, rfl, List.nodup_nil, by simp, .inl hfirst⟩
    · simp only [firstRepeated, List.contains_iff_mem, hfirst, if_false] at h
      obtain ⟨before, after, rfl, hdistinct, hseen, hname⟩ := ih h
      simp only [List.mem_cons, not_or] at hseen hname
      refine ⟨first :: before, after, rfl, List.nodup_cons.2 ⟨fun hm => ?_, hdistinct⟩, ?_, ?_⟩
      · exact (hseen first hm).1 rfl
      · intro n hn
        rcases List.mem_cons.1 hn with rfl | hn
        · exact hfirst
        · exact (hseen n hn).2
      · rcases hname with (rfl | hname) | hname
        · exact .inr List.mem_cons_self
        · exact .inl hname
        · exact .inr (List.mem_cons_of_mem _ hname)

/-- The kinds of types with fields or members. -/
inductive CompositeKind
  | object
  | interface
  | union
deriving Repr, DecidableEq

/-- An object, interface or union. -/
structure CompositeType where
  name : String
  description : Option String
  kind : CompositeKind
  fields : List FieldType
  interfaces : List String
  possibleTypes : List String
  /-- The host type whose values are of this type. -/
  host : Option HostType

namespace CompositeType

/-- The field of a name. -/
def field? (c : CompositeType) (name : String) : Option FieldType :=
  c.fields.find? fun f => f.name == name

/-- The first repetition among the fields in order: a field that repeats a name, or one that
    repeats the name of an argument. -/
def repeatedIn (seen : List String) : List FieldType → Option String
  | [] => none
  | f :: rest =>
    if seen.contains f.name then some f.name
    else
      match firstRepeated [] (f.arguments.map (·.name)) with
      | some argument => some (f.name ++ "(" ++ argument ++ ":)")
      | none => repeatedIn (f.name :: seen) rest

/-- The first repetition, if there is one. -/
def repeated? (c : CompositeType) : Option String := repeatedIn [] c.fields

/-- The kind under which the type is described. -/
def typeKind (c : CompositeType) : TypeKind :=
  match c.kind with
  | .object => .object
  | .interface => .interface
  | .union => .union

end CompositeType

/-! ## 3. Input objects -/

/-- A field of an input object. -/
structure InputField where
  name : String
  description : Option String
  type : TypeExpr
  default : Option Literal

/-- An input object. -/
structure InputObjectType where
  name : String
  description : Option String
  fields : List InputField
  record : RecordShape

namespace InputObjectType

/-- The field of a name. -/
def field? (o : InputObjectType) (name : String) : Option InputField :=
  o.fields.find? fun f => f.name == name

/-- The first field that repeats a name. -/
def repeated? (o : InputObjectType) : Option String := firstRepeated [] (o.fields.map (·.name))

/-- **Assigns a value to a field of a record.** The record must be of the host type of the input
    object that owns the field, which is looked at before the value. A field that no member of a
    record takes leaves the record as it is. -/
def assign (o : InputObjectType) (f : InputField) (record : HostRecord) (value : Coerced) :
    Except ResolutionError HostRecord :=
  if record.host ≠ o.record.host then
    .error (hostMismatch o.record.host "a foreign host record")
  else
    match record with
    | .dynamic entries => .ok (.dynamic (Entries.put entries f.name value))
    | .typed host members =>
      match o.record.setter? f.name with
      | some m =>
        (m.shape.convert value).map fun held => .typed host (Entries.put members m.name held)
      | none => .ok (.typed host members)

/-- The value that holds a record of the input object. -/
def finish (o : InputObjectType) (record : HostRecord) : Coerced := .object o.name record

/-- **The record whose fields are read one by one**, in the order of their declaration; a field
    that is not supplied is left as it is, and the first failure ends the reading. -/
def assemble (o : InputObjectType) (read : InputField → Except ResolutionError (Option Coerced)) :
    Except ResolutionError Coerced := do
  let record ← o.fields.foldlM (fun record f => do
    match ← read f with
    | some value => o.assign f record value
    | none => return record) o.record.fresh
  return o.finish record

end InputObjectType

/-! ## 4. Types -/

/-- A type with a name. -/
inductive NamedType
  | scalar (s : ScalarType)
  | enum (e : EnumType)
  | composite (c : CompositeType)
  | inputObject (o : InputObjectType)

namespace NamedType

/-- The name. -/
def name : NamedType → String
  | .scalar s => s.name
  | .enum e => e.name
  | .composite c => c.name
  | .inputObject o => o.name

/-- The description. -/
def description : NamedType → Option String
  | .scalar s => s.description
  | .enum e => e.description
  | .composite c => c.description
  | .inputObject o => o.description

/-- The kind. -/
def kind : NamedType → TypeKind
  | .scalar _ => .scalar
  | .enum _ => .enum
  | .composite c => c.typeKind
  | .inputObject _ => .inputObject

/-- Whether values of the type have no fields. -/
def isLeaf : NamedType → Bool
  | .scalar _ | .enum _ => true
  | .composite _ | .inputObject _ => false

/-- Whether the type is for input. -/
def isInput : NamedType → Bool
  | .scalar _ | .enum _ | .inputObject _ => true
  | .composite _ => false

/-- Whether the type is for output. -/
def isOutput : NamedType → Bool
  | .scalar _ | .enum _ | .composite _ => true
  | .inputObject _ => false

/-- The first repetition among fields and arguments. -/
def repeated? : NamedType → Option String
  | .composite c => c.repeated?
  | .inputObject o => o.repeated?
  | .scalar _ | .enum _ => none

end NamedType

/-- A type: a named type or a list, with or without null. -/
inductive SchemaType
  | named (t : NamedType) (required : Bool)
  | list (of : SchemaType) (required : Bool)

namespace SchemaType

/-- Whether the type excludes null. -/
def isNonNull : SchemaType → Bool
  | .named _ required => required
  | .list _ required => required

/-- The named type under all lists. -/
def namedType : SchemaType → NamedType
  | .named t _ => t
  | .list of _ => of.namedType

/-- The type as it is written. -/
def text : SchemaType → String
  | .named t required => if required then t.name ++ "!" else t.name
  | .list of required => if required then "[" ++ of.text ++ "]!" else "[" ++ of.text ++ "]"

/-- The type that excludes null; a type that excludes it already is refused. -/
def nonNull? : SchemaType → Except SchemaError SchemaType
  | .named t false => .ok (.named t true)
  | .list of false => .ok (.list of true)
  | t => .error (.nestedNonNull t.text)

/-- The name, if the type is a named type as it stands. -/
def name? : SchemaType → Option String
  | .named t false => some t.name
  | _ => none

/-- The description, if the type is a named type as it stands. -/
def description? : SchemaType → Option String
  | .named t false => t.description
  | _ => none

/-- The kind. -/
def kind : SchemaType → TypeKind
  | .named _ true => .nonNull
  | .list _ true => .nonNull
  | .named t false => t.kind
  | .list _ false => .list

/-- Whether values of the type have no fields, lists looked through. -/
def isLeaf (t : SchemaType) : Bool := t.namedType.isLeaf

/-- Whether the type is for input. -/
def isInput (t : SchemaType) : Bool := t.namedType.isInput

/-- The type of the items of a list. -/
def member? : SchemaType → Option SchemaType
  | .list of _ => some of
  | .named _ _ => none

/-- A type that excludes null excludes it once. -/
theorem isNonNull_of_nonNull? {t u : SchemaType} (h : t.nonNull? = .ok u) :
    t.isNonNull = false ∧ u.isNonNull = true := by
  match t, h with
  | .named _ false, h => cases h; exact ⟨rfl, rfl⟩
  | .list _ false, h => cases h; exact ⟨rfl, rfl⟩
  | .named _ true, h => cases h
  | .list _ true, h => cases h

end SchemaType

/-! ## 5. Directives -/

/-- A directive of a schema. -/
structure DirectiveType where
  name : String
  description : Option String
  locations : List DirectiveLocation
  /-- The arguments by name; of a repeated name the last one counts, in the first place. -/
  arguments : Table ArgumentType
  repeatable : Bool

namespace DirectiveType

/-- The table of arguments in the order of their declaration. -/
def tableOf (arguments : List ArgumentType) : Table ArgumentType :=
  Table.ofList (arguments.map fun a => (a.name, a))

/-- The places of the two directives that every schema has. -/
def selectionPlaces : List DirectiveLocation := [.field, .fragmentSpread, .inlineFragment]

/-- A directive that looks at one condition. -/
def conditional (name description argument : String) : DirectiveType where
  name := name
  description := description
  locations := selectionPlaces
  arguments := tableOf [⟨"if", argument, .nonNull (.named "Boolean"), none⟩]
  repeatable := false

/-- Leaves a selection out if its condition holds. -/
def skip : DirectiveType :=
  conditional "skip"
    "Directs the executor to skip this field or fragment when the `if` argument is true."
    "Skipped when true."

/-- Takes a selection in only if its condition holds. -/
def includeOnly : DirectiveType :=
  conditional "include"
    ("Directs the executor to include this field or fragment only when the `if` argument " ++
      "is true.")
    "Included when true."

end DirectiveType

end TypedQuery
