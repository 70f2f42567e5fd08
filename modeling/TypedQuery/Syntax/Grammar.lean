import TypedQuery.Syntax.Document
import TypedQuery.Syntax.Token.Lexer

/-!
# The grammar of executable documents

A `Parser` reads tokens from the front of a list and fails, or gives a value and the tokens it
left. Every choice is made by the next token, so no parser tries twice. Brackets bound the
nesting of values, types and selection sets; parsers of nested things count the levels left.

**Main definition**: `Document.parse`.
-/

namespace TypedQuery

/-- A reader of tokens. -/
abbrev Parser := StateT (List Lexeme) Option

namespace Parser

/-! ## 1. Single tokens -/

/-- The next token, which is read. -/
def token : Parser Lexeme := fun
  | [] => none
  | lexeme :: rest => some (lexeme, rest)

/-- The place of the next token, which is not read. -/
def here : Parser Position := fun
  | [] => none
  | lexeme :: rest => some (lexeme.position, lexeme :: rest)

/-- Whether the next token is of a kind; it is not read. -/
def sees (p : Token → Bool) : Parser Bool := fun
  | [] => some (false, [])
  | lexeme :: rest => some (p lexeme.token, lexeme :: rest)

/-- Reads the next token if it is of a kind, and says whether it did. -/
def accept (p : Token → Bool) : Parser Bool := fun
  | [] => some (false, [])
  | lexeme :: rest => if p lexeme.token then some (true, rest) else some (false, lexeme :: rest)

/-- Reads a mark. -/
def mark (c : Char) : Parser Unit := do
  if !(← accept (Token.isMark c)) then failure

/-- Reads a name. -/
def name : Parser String := do
  match (← token).token with
  | .name s => return s
  | _ => failure

/-- Reads the given name. -/
def keyword (s : String) : Parser Unit := do
  if !(← accept (Token.isName s)) then failure

/-! ## 2. Repetition -/

/-- Runs a parser until `stop` says that the end is read. The tokens that are there bound the
    rounds, for an item takes one at least. -/
def untilStop (stop : Parser Bool) (item : Parser α) : List Lexeme → Parser (List α)
  | [] => do if ← stop then return [] else failure
  | _ :: bound => do
    if ← stop then return []
    let first ← item
    return first :: (← untilStop stop item bound)

/-- Any number of items up to a mark, which is read. -/
def manyUntil (close : Char) (item : Parser α) : Parser (List α) := do
  untilStop (accept (Token.isMark close)) item (← get)

/-- At least one item up to a mark, which is read. -/
def someUntil (close : Char) (item : Parser α) : Parser (List α) := do
  return (← item) :: (← manyUntil close item)

/-- Items as long as the next token starts one. -/
def whileSees (starts : Token → Bool) (item : Parser α) : Parser (List α) := do
  untilStop (do return !(← sees starts)) item (← get)

/-- Items with a mark between them. -/
def separated (c : Char) (item : Parser α) : Parser (List α) := do
  let first ← item
  return first :: (← whileSees (Token.isMark c) (do mark c; item))

/-- Items between brackets, at least one; nothing if no bracket opens. -/
def bracketed (opening closing : Char) (item : Parser α) : Parser (List α) := do
  if ← accept (Token.isMark opening) then someUntil closing item else return []

/-! ## 3. Types and values -/

/-- How many levels a nested thing can have. -/
def levels : Nat := Lexeme.maxOpen + 1

/-- A type: a name or a list, with or without a `!`. -/
def typeExpr : Nat → Parser TypeExpr
  | 0 => failure
  | levels + 1 => do
    let bare ←
      if ← accept (Token.isMark '[') then do
        let of ← typeExpr levels
        mark ']'
        pure (TypeExpr.list of)
      else TypeExpr.named <$> name
    if ← accept (Token.isMark '!') then return .nonNull bare else return bare

/-- An entry is put before the first key that is greater; an equal key takes the new value. -/
def insertSorted (entries : List (String × Literal)) (key : String) (value : Literal) :
    List (String × Literal) :=
  match entries with
  | [] => [(key, value)]
  | (other, held) :: rest =>
    if key = other then (key, value) :: rest
    else if key < other then (key, value) :: (other, held) :: rest
    else (other, held) :: insertSorted rest key value

/-- The entries of an object, ordered by their keys; the last value of a key counts. -/
def sortEntries (entries : List (String × Literal)) : List (String × Literal) :=
  entries.foldl (fun sorted p => insertSorted sorted p.1 p.2) []

/-- A value; a constant value holds no variable. -/
def value (constant : Bool) : Nat → Parser Literal
  | 0 => failure
  | levels + 1 => do
    match (← token).token with
    | .int n => return .int n
    | .float x => return .float x
    | .string s => return .string s
    | .name "true" => return .boolean true
    | .name "false" => return .boolean false
    | .name "null" => return .null
    | .name s => return .enum s
    | .punctuator '$' => if constant then failure else .variable <$> name
    | .punctuator '[' => .list <$> manyUntil ']' (value constant levels)
    | .punctuator '\x7b' => do
      let entry : Parser (String × Literal) := do
        let key ← name
        mark ':'
        return (key, ← value constant levels)
      (.object ∘ sortEntries) <$> manyUntil '\x7d' entry
    | _ => failure

/-- A default value, if one follows. -/
def defaultValue : Parser (Option Literal) := do
  if ← accept (Token.isMark '=') then some <$> value true levels else return none

/-! ## 4. Arguments, directives, variables -/

/-- The arguments of a field or directive, if there are any. -/
def arguments : Parser (List Argument) :=
  bracketed '(' ')' do
    let key ← name
    mark ':'
    return ⟨key, ← value false levels⟩

/-- Directives, as many as follow. -/
def directives : Parser (List Directive) :=
  whileSees (Token.isMark '@') do
    let position ← here
    mark '@'
    let key ← name
    return ⟨position, key, ← arguments⟩

/-- The variables of an operation, if it has any. -/
def variableDefinitions : Parser (List VariableDefinition) :=
  bracketed '(' ')' do
    let position ← here
    mark '$'
    let key ← name
    mark ':'
    let type ← typeExpr levels
    return ⟨position, key, type, ← defaultValue⟩

/-! ## 5. Selections -/

/-- A field, with the parser of the selection set that it may have. -/
def field (nested : Parser SelectionSet) : Parser Field := do
  let position ← here
  let first ← name
  let (alias?, key) ←
    if ← accept (Token.isMark ':') then do pure (some first, ← name) else pure (none, first)
  let arguments ← arguments
  let directives ← directives
  let selectionSet ← if ← sees (Token.isMark '\x7b') then some <$> nested else pure none
  return ⟨position, alias?, key, arguments, directives, selectionSet⟩

/-- What follows three points: after the name `on` a fragment in place with a type condition,
    after another name a use of that fragment, else a fragment in place without condition. -/
def afterSpread (nested : Parser SelectionSet) : Parser Selection := do
  let position ← here
  if ← accept (Token.isName "on") then
    let condition ← name
    let directives ← directives
    return .inlineFragment ⟨position, some condition, directives, ← nested⟩
  else if ← sees (fun | .name _ => true | _ => false) then
    let key ← name
    return .spread ⟨position, key, ← directives⟩
  else
    let directives ← directives
    return .inlineFragment ⟨position, none, directives, ← nested⟩

/-- One selection. -/
def selection (nested : Parser SelectionSet) : Parser Selection := do
  if ← accept (fun | .spread => true | _ => false) then afterSpread nested
  else .field <$> field nested

/-- At least one selection between braces. -/
def selectionSet : Nat → Parser SelectionSet
  | 0 => failure
  | levels + 1 => do
    let position ← here
    mark '\x7b'
    return ⟨position, ← someUntil '\x7d' (selection (selectionSet levels))⟩

/-! ## 6. Definitions -/

/-- An operation that is written with its keyword. -/
def operation (position : Position) (kind : OperationKind) : Parser Operation := do
  let key ← if ← sees (fun | .name _ => true | _ => false) then some <$> name else pure none
  let declared ← variableDefinitions
  let directives ← directives
  return ⟨position, kind, key, declared, directives, ← selectionSet levels⟩

/-- A fragment, behind its keyword. -/
def fragment (position : Position) : Parser Fragment := do
  let key ← name
  keyword "on"
  let condition ← name
  let directives ← directives
  return ⟨position, key, condition, directives, ← selectionSet levels⟩

/-- One definition; a selection set alone is a query. -/
def definition : Parser Definition := do
  let position ← here
  if ← sees (Token.isMark '\x7b') then
    return .operation ⟨position, .query, none, [], [], ← selectionSet levels⟩
  else
    let word ← name
    if word = "fragment" then .fragment <$> fragment position
    else
      match OperationKind.ofKeyword? word with
      | some kind => .operation <$> operation position kind
      | none => failure

/-- Runs a parser on all tokens: at least one item up to the end. -/
def all (item : Parser α) (tokens : List Lexeme) : Option (List α) := do
  let step : Parser (List α) := do
    let first ← item
    return first :: (← untilStop (do return (← get).isEmpty) item (← get))
  return (← step tokens).1

end Parser

/-- **An executable document from its text.** -/
def Document.parse (source : String) : Option Document := do
  return ⟨← Parser.all Parser.definition (← Lexeme.scan source)⟩

end TypedQuery
