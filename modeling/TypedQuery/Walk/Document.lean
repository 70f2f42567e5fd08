import TypedQuery.Walk.Visitor

/-!
# Walking through a document

Every node is shown to a visitor in the order of the document, on entering and on leaving, with
the place of the walk in the schema (`Context`).

Only two things break a walk off: an operation of a kind that the schema has no root for, and a
selection set beyond the depth limit. What encloses the break is not shown on leaving, and the
place is restored all the same.

**Main definition**: `Document.walk`.
-/

namespace TypedQuery

namespace Walker

variable {σ : Type}

/-! ## 1. Values, arguments, directives -/

mutual

/-- Goes through a literal. -/
def literal (v : Visitor σ) : Literal → Walker σ → Walker σ
  | .null, w => w.around v .nullValue id
  | .enum name, w => w.around v (.enumValue name) id
  | .variable name, w => w.around v (.variableValue name) id
  | .list items, w =>
    w.around v (.listValue items) fun w => w.within w.context.itemType (literals v items)
  | .object entries, w => w.around v (.objectValue entries) (entriesOf v entries)
  | .int n, w => w.around v (.scalarValue (.int n)) id
  | .float x, w => w.around v (.scalarValue (.float x)) id
  | .string s, w => w.around v (.scalarValue (.string s)) id
  | .boolean b, w => w.around v (.scalarValue (.boolean b)) id

/-- Goes through the items of a list. -/
def literals (v : Visitor σ) : List Literal → Walker σ → Walker σ
  | [], w => w
  | item :: rest, w => literals v rest (literal v item w)

/-- Goes through the entries of an object, each inside its declared type. -/
def entriesOf (v : Visitor σ) : List (String × Literal) → Walker σ → Walker σ
  | [], w => w
  | (key, value) :: rest, w =>
    entriesOf v rest
      (w.within (w.context.entryType key) (around v (.objectField key value) (literal v value)))

end

/-- Goes through an argument, inside its declared type. -/
def argument (v : Visitor σ) (w : Walker σ) (a : Argument) : Walker σ :=
  w.within (w.context.argumentType a.name) (around v (.argument a) (literal v a.value))

/-- Goes through arguments. -/
def arguments (v : Visitor σ) (args : List Argument) (w : Walker σ) : Walker σ :=
  args.foldl (argument v) w

/-- Goes through a directive. -/
def directive (v : Visitor σ) (w : Walker σ) (d : Directive) : Walker σ :=
  (around v (.directive d) (arguments v d.arguments) (w.move (·.withDirective (some d)))).move
    (·.withDirective w.context.directive)

/-- Goes through directives. -/
def directives (v : Visitor σ) (ds : List Directive) (w : Walker σ) : Walker σ :=
  ds.foldl (directive v) w

/-- Goes through the declaration of a variable, inside its type. -/
def variableDefinition (v : Visitor σ) (w : Walker σ) (d : VariableDefinition) : Walker σ :=
  w.within (w.context.schema.resolve .input d.type) <|
    around v (.variableDefinition d) fun w =>
      match d.default with
      | some default => literal v default w
      | none => w

/-- Goes through the variables of an operation. -/
def variableDefinitions (v : Visitor σ) (ds : List VariableDefinition) (w : Walker σ) :
    Walker σ :=
  ds.foldl (variableDefinition v) w

/-! ## 2. Selections -/

/-- Opens a selection set and closes it again, if one more may be open. -/
def inSelectionSet (v : Visitor σ) (s : SelectionSet) (inside : Walker σ → Outcome σ)
    (w : Walker σ) : Outcome σ :=
  let limit := w.context.schema.limits.maxDepth
  if w.context.depth ≥ limit then .broken w (.depthLimitExceeded limit)
  else
    let opened := (w.move (·.openSelection)).call v .enter (.selectionSet s)
    ((inside opened).leave v (.selectionSet s)).move (·.closeSelection)

mutual

/-- Goes through a selection set. -/
def selectionSet (v : Visitor σ) : SelectionSet → Walker σ → Outcome σ
  | ⟨position, items⟩, w => w.inSelectionSet v ⟨position, items⟩ (selections v items)

/-- Goes through the items of a selection set. -/
def selections (v : Visitor σ) : List Selection → Walker σ → Outcome σ
  | [], w => .done w
  | item :: rest, w => (selection v item w).andThen (selections v rest)

/-- Goes through a selected field, inside its type. -/
def field (v : Visitor σ) : Field → Walker σ → Outcome σ
  | ⟨position, responseAlias, name, args, ds, selected⟩, w =>
    let node := Node.field ⟨position, responseAlias, name, args, ds, selected⟩
    let found := w.context.selectedField name
    let entered := (w.move (·.pushField found (found.bind w.context.fieldType))).call v .enter node
    let prepared := (entered.arguments v args).directives v ds
    let selectedOutcome :=
      match selected with
      | some s => selectionSet v s prepared
      | none => .done prepared
    (selectedOutcome.leave v node).move (·.popField)

/-- Goes through a fragment in place, inside the type of its condition; without a condition the
    type stays. -/
def inlineFragment (v : Visitor σ) : InlineFragment → Walker σ → Outcome σ
  | ⟨position, condition, ds, selected⟩, w =>
    let node := Node.inlineFragment ⟨position, condition, ds, selected⟩
    let entered := (w.move (·.pushType (w.context.narrowedType condition))).call v .enter node
    ((selectionSet v selected (entered.directives v ds)).leave v node).move (·.popType)

/-- Goes through one item of a selection set. -/
def selection (v : Visitor σ) : Selection → Walker σ → Outcome σ
  | .field f, w => field v f w
  | .spread s, w => .done (w.around v (.spread s) (directives v s.directives))
  | .inlineFragment i, w => inlineFragment v i w

end

/-! ## 3. Definitions -/

/-- Goes through an operation, inside the root type of its kind. -/
def operation (v : Visitor σ) (o : Operation) (w : Walker σ) : Outcome σ :=
  match w.context.schema.root? o.kind with
  | none => .broken w (.unsupportedOperation o.kind.keyword)
  | some root =>
    let entered := (w.move (·.pushType (some (.named (.composite root) false)))).call v .enter
      (.operation o)
    let prepared := (entered.directives v o.directives).variableDefinitions v o.variables
    ((selectionSet v o.selectionSet prepared).leave v (.operation o)).move (·.popType)

/-- Goes through a fragment, inside the type of its condition. -/
def fragment (v : Visitor σ) (f : Fragment) (w : Walker σ) : Outcome σ :=
  let t := w.context.narrowedType (some f.typeCondition)
  let entered := (w.move (·.pushType t)).call v .enter (.fragment f)
  ((selectionSet v f.selectionSet (entered.directives v f.directives)).leave v
    (.fragment f)).move (·.popType)

/-- Goes through definitions. -/
def definitions (v : Visitor σ) : List Definition → Walker σ → Outcome σ
  | [], w => .done w
  | .operation o :: rest, w => (w.operation v o).andThen (definitions v rest)
  | .fragment f :: rest, w => (w.fragment v f).andThen (definitions v rest)

end Walker

/-- **Walks through a document**, starting where a walker stands. -/
def Document.walk (v : Visitor σ) (d : Document) (w : Walker σ) : Outcome σ :=
  (Walker.definitions v d.definitions (w.call v .enter (.document d))).leave v (.document d)

end TypedQuery
