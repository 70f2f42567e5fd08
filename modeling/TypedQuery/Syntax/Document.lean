import TypedQuery.Error
import TypedQuery.Syntax.Literal
import TypedQuery.Syntax.TypeExpr
import TypedQuery.Table

/-!
# Executable documents

Operations and fragments with their selections. A field without a selection set has none at all
(`selectionSet = none`); a selection set that is there may still hold nothing.

`Document.operation` picks the operation to run: the first of a given name, or the only one.
-/

namespace TypedQuery

/-! ## 1. Parts of nodes -/

/-- The three kinds of operations. -/
inductive OperationKind
  | query
  | mutation
  | subscription
deriving Repr, DecidableEq

namespace OperationKind

/-- The keyword of the kind. -/
def keyword : OperationKind → String
  | .query => "query"
  | .mutation => "mutation"
  | .subscription => "subscription"

/-- The kind of a keyword. -/
def ofKeyword? (s : String) : Option OperationKind :=
  [query, mutation, subscription].find? fun kind => kind.keyword == s

/-- The kind of a keyword; no other kind is supported. -/
def ofKeyword (s : String) : Except ResolutionError OperationKind :=
  match ofKeyword? s with
  | some kind => .ok kind
  | none => .error (.unsupportedOperation s)

/-- A kind is found by its keyword. -/
theorem ofKeyword?_keyword (kind : OperationKind) : ofKeyword? kind.keyword = some kind := by
  cases kind <;> decide

end OperationKind

/-- An argument of a field or directive. -/
structure Argument where
  name : String
  value : Literal

/-- A directive on a node. -/
structure Directive where
  position : Position
  name : String
  arguments : List Argument

/-- A variable that an operation declares. -/
structure VariableDefinition where
  position : Position
  name : String
  type : TypeExpr
  default : Option Literal

/-- The use of a named fragment. -/
structure FragmentSpread where
  position : Position
  name : String
  directives : List Directive

/-! ## 2. Selections -/

mutual

/-- What stands between a pair of braces. -/
structure SelectionSet where
  position : Position
  items : List Selection

/-- A selected field. -/
structure Field where
  position : Position
  «alias» : Option String
  name : String
  arguments : List Argument
  directives : List Directive
  selectionSet : Option SelectionSet

/-- A fragment in place, with or without a type condition. -/
structure InlineFragment where
  position : Position
  typeCondition : Option String
  directives : List Directive
  selectionSet : SelectionSet

/-- One item of a selection set. -/
inductive Selection
  | field (f : Field)
  | spread (s : FragmentSpread)
  | inlineFragment (i : InlineFragment)

end

/-- The key under which a field answers: its alias, or its name. -/
def Field.responseKey (f : Field) : String := f.alias.getD f.name

/-- Whether nothing is selected. -/
def SelectionSet.isEmpty (s : SelectionSet) : Bool := s.items.isEmpty

/-! ## 3. Definitions -/

/-- An operation. -/
structure Operation where
  position : Position
  kind : OperationKind
  name : Option String
  «variables» : List VariableDefinition
  directives : List Directive
  selectionSet : SelectionSet

/-- A named fragment. -/
structure Fragment where
  position : Position
  name : String
  typeCondition : String
  directives : List Directive
  selectionSet : SelectionSet

/-- A definition of a document. -/
inductive Definition
  | operation (o : Operation)
  | fragment (f : Fragment)

/-- An executable document. -/
structure Document where
  definitions : List Definition

namespace Document

/-- The operations, in order. -/
def operations (d : Document) : List Operation :=
  d.definitions.filterMap fun
    | .operation o => some o
    | .fragment _ => none

/-- The fragments, in order. -/
def fragments (d : Document) : List Fragment :=
  d.definitions.filterMap fun
    | .operation _ => none
    | .fragment f => some f

/-- The fragments by name; of a repeated name the last one counts. -/
def fragmentTable (d : Document) : Table Fragment :=
  Table.ofList (d.fragments.map fun f => (f.name, f))

/-- The fragment that a spread of the name stands for. -/
def fragment? (d : Document) (name : String) : Option Fragment := d.fragmentTable.find? name

/-- **The operation to run**: the first of the given name; without a name the only operation. -/
def operation (d : Document) : Option String → Option Operation
  | some name => d.operations.find? fun o => o.name == some name
  | none =>
    match d.operations with
    | [only] => some only
    | _ => none

/-- The operation found by a name has it. -/
theorem name_of_operation {d : Document} {name : String} {o : Operation}
    (h : d.operation (some name) = some o) : o.name = some name := by
  simpa using List.find?_some h

end Document

end TypedQuery
