/-!
# Positions and kinds of nodes

Where a node of a document starts, and what kind of node it is. Lines and columns count from one.
-/

namespace TypedQuery

/-- A place in a source text. -/
structure Position where
  line : Nat
  column : Nat
deriving Repr, DecidableEq, Inhabited

namespace Position

/-- The first character of a text. -/
def start : Position := ⟨1, 1⟩

/-- Some columns further on the same line. -/
def forward (p : Position) (columns : Nat) : Position := { p with column := p.column + columns }

/-- The first column of the next line. -/
def nextLine (p : Position) : Position := ⟨p.line + 1, 1⟩

/-- The place behind a run of characters in which only a line feed ends a line. -/
def behind (p : Position) : List Char → Position
  | [] => p
  | '\n' :: rest => p.nextLine.behind rest
  | _ :: rest => (p.forward 1).behind rest

/-- Line and column, with a colon between them. -/
def text (p : Position) : String := toString p.line ++ ":" ++ toString p.column

end Position

/-- The kinds of nodes of a document. -/
inductive NodeKind
  | document
  | operationDefinition
  | selectionSet
  | field
  | fragmentSpread
  | fragmentDefinition
  | inlineFragment
  | directive
  | argument
  | variableDefinition
  | namedType
  | listType
  | nonNullType
  | variable
  | intValue
  | floatValue
  | stringValue
  | booleanValue
  | enumValue
  | nullValue
  | listValue
  | objectValue
deriving Repr, DecidableEq

/-- The name under which a kind of node is reported. -/
def NodeKind.name : NodeKind → String
  | .document => "Document"
  | .operationDefinition => "OperationDefinition"
  | .selectionSet => "SelectionSet"
  | .field => "Field"
  | .fragmentSpread => "FragmentSpread"
  | .fragmentDefinition => "FragmentDefinition"
  | .inlineFragment => "InlineFragment"
  | .directive => "Directive"
  | .argument => "Argument"
  | .variableDefinition => "VariableDefinition"
  | .namedType => "NamedType"
  | .listType => "ListType"
  | .nonNullType => "NonNullType"
  | .variable => "Variable"
  | .intValue => "IntValue"
  | .floatValue => "FloatValue"
  | .stringValue => "StringValue"
  | .booleanValue => "BooleanValue"
  | .enumValue => "EnumValue"
  | .nullValue => "NullValue"
  | .listValue => "ListValue"
  | .objectValue => "ObjectValue"

end TypedQuery
