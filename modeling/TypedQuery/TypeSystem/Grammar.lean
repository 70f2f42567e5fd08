import TypedQuery.Syntax.Grammar
import TypedQuery.TypeSystem.Definition

/-!
# The grammar of schema texts

Types, directives and roots in the schema definition language. A description is a string in front
of a definition. An extension has the form of the definition it extends, without description, and
must add something.

**Main definition**: `TypeSystem.parse`.
-/

namespace TypedQuery.TypeSystem

namespace Parse

open TypedQuery.Parser

/-! ## 1. Parts -/

/-- A description, if one stands here. -/
def description : Parser (Option String) := do
  if ← sees (fun | .string _ => true | _ => false) then
    match (← token).token with
    | .string s => return some s
    | _ => failure
  else return none

/-- An argument or a field of an input object. -/
def inputValue : Parser InputValue := do
  let text ← description
  let key ← name
  mark ':'
  let type ← typeExpr levels
  let default ← defaultValue
  let _ ← directives
  return ⟨text, key, type, default⟩

/-- The arguments that a field or directive declares. -/
def argumentDefinitions : Parser (List InputValue) := bracketed '(' ')' inputValue

/-- The fields of an object or interface. -/
def fields : Parser (List FieldDefinition) :=
  bracketed '\x7b' '\x7d' do
    let text ← description
    let key ← name
    let arguments ← argumentDefinitions
    mark ':'
    let type ← typeExpr levels
    let _ ← directives
    return ⟨text, key, arguments, type⟩

/-- The fields of an input object. -/
def inputFields : Parser (List InputValue) := bracketed '\x7b' '\x7d' inputValue

/-- The values of an enumeration. -/
def enumValues : Parser (List EnumValueDefinition) :=
  bracketed '\x7b' '\x7d' do
    let text ← description
    let key ← name
    let _ ← directives
    return ⟨text, key⟩

/-- Names with a mark between them; the mark may also stand in front of the first. -/
def namesBetween (c : Char) : Parser (List String) := do
  let _ ← accept (Token.isMark c)
  separated c name

/-- The interfaces of an object. -/
def interfaces : Parser (List String) := do
  if ← accept (Token.isName "implements") then namesBetween '&' else return []

/-- The members of a union. -/
def members : Parser (List String) := do
  if ← accept (Token.isMark '=') then namesBetween '|' else return []

/-- A place of a directive, by its name. -/
def location : Parser DirectiveLocation := do
  match DirectiveLocation.ofName? (← name) with
  | some place => return place
  | none => failure

/-- The places of a directive; there may be none. -/
def locations : Parser (List DirectiveLocation) := do
  if ← accept (Token.isMark '|') then separated '|' location
  else if ← sees (fun | .name _ => true | _ => false) then separated '|' location
  else return []

/-! ## 2. Definitions and extensions -/

/-- The body of a type after its keyword and name, and whether it says anything at all. An
    extension with an empty body adds nothing. -/
def body (keyword : String) : Parser (TypeBody × Bool) := do
  match keyword with
  | "scalar" =>
    let ds ← directives
    return (.scalar, !ds.isEmpty)
  | "type" =>
    let is ← interfaces
    let ds ← directives
    let fs ← fields
    return (.object is fs, !(is.isEmpty && ds.isEmpty && fs.isEmpty))
  | "interface" =>
    let _ ← interfaces
    let ds ← directives
    let fs ← fields
    return (.interface fs, !(ds.isEmpty && fs.isEmpty))
  | "union" =>
    let ds ← directives
    let ms ← members
    return (.union ms, !(ds.isEmpty && ms.isEmpty))
  | "enum" =>
    let ds ← directives
    let vs ← enumValues
    return (.enum vs, !(ds.isEmpty && vs.isEmpty))
  | "input" =>
    let ds ← directives
    let fs ← inputFields
    return (.inputObject fs, !(ds.isEmpty && fs.isEmpty))
  | _ => failure

/-- One root of a schema definition; each root is named once. -/
def root (roots : Roots) (key : String) (type : String) : Option Roots :=
  match OperationKind.ofKeyword? key with
  | some .query => if roots.query.isNone then some { roots with query := some type } else none
  | some .mutation =>
    if roots.mutation.isNone then some { roots with mutation := some type } else none
  | some .subscription =>
    if roots.subscription.isNone then some { roots with subscription := some type } else none
  | none => none

/-- The roots of a schema definition, behind its keyword. -/
def roots : Parser Roots := do
  let _ ← directives
  mark '\x7b'
  let pairs ← manyUntil '\x7d' do
    let key ← name
    mark ':'
    return (key, ← name)
  pairs.foldlM (fun roots p => root roots p.1 p.2) ⟨none, none, none⟩

/-- A directive, behind its keyword. -/
def directive (text : Option String) : Parser DirectiveDefinition := do
  mark '@'
  let key ← name
  let arguments ← argumentDefinitions
  let repeatable ← accept (Token.isName "repeatable")
  keyword "on"
  return ⟨text, key, arguments, repeatable, ← locations⟩

/-- One definition. -/
def definition : Parser Definition := do
  let text ← description
  let word ← name
  match word with
  | "schema" => if text.isSome then failure else .schema <$> roots
  | "extend" =>
    if text.isSome then failure
    let word ← name
    let _ ← name
    let (_, addsSomething) ← body word
    if addsSomething then return .typeExtension else failure
  | "directive" => .directive <$> directive text
  | word =>
    let key ← name
    return .type ⟨text, key, (← body word).1⟩

end Parse

/-- **The definitions of a schema text.** -/
def parse (source : String) : Option (List Definition) := do
  Parser.all Parse.definition (← Lexeme.scan source)

end TypedQuery.TypeSystem
