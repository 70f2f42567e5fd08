import TypedQuery.Walk.Visitor

/-!
# The outline of a document

The nodes of a document as one tree, without the schema and without any walk, and what going
through such a tree shows.

* `Outline` -- a node with the nodes inside it; `Document.outline` -- that of a document: what
  stands inside a node is in the order of the text, but the directives of an operation come before
  its variables;
* `Showing` -- a node that is shown, with the nodes that it stands in;
* `Outline.showings` -- **each node is shown twice**, before and after what is inside it;
* `Showing.Balanced` -- what is entered is left again, the last one first;
  `Outline.balanced_showings` -- so it is with all showings of an outline.
-/

namespace TypedQuery

/-- A node with the nodes inside it, in order. -/
inductive Outline
  | node (top : Node) (inside : List Outline)

/-! ## 1. Parts of a document -/

mutual

/-- The outline of a literal. -/
def Literal.outline : Literal → Outline
  | .null => .node .nullValue []
  | .enum name => .node (.enumValue name) []
  | .variable name => .node (.variableValue name) []
  | .list items => .node (.listValue items) (outlinesOfItems items)
  | .object entries => .node (.objectValue entries) (outlinesOfEntries entries)
  | .int n => .node (.scalarValue (.int n)) []
  | .float x => .node (.scalarValue (.float x)) []
  | .string s => .node (.scalarValue (.string s)) []
  | .boolean b => .node (.scalarValue (.boolean b)) []

/-- The outlines of items. -/
def outlinesOfItems : List Literal → List Outline
  | [] => []
  | item :: rest => item.outline :: outlinesOfItems rest

/-- The outlines of entries, each around its value. -/
def outlinesOfEntries : List (String × Literal) → List Outline
  | [] => []
  | (key, value) :: rest =>
    .node (.objectField key value) [value.outline] :: outlinesOfEntries rest

end

/-- The outline of an argument. -/
def Argument.outline (a : Argument) : Outline := .node (.argument a) [a.value.outline]

/-- The outline of a directive. -/
def Directive.outline (d : Directive) : Outline :=
  .node (.directive d) (d.arguments.map Argument.outline)

/-- The outline of the declaration of a variable. -/
def VariableDefinition.outline (d : VariableDefinition) : Outline :=
  .node (.variableDefinition d) (d.default.map Literal.outline).toList

mutual

/-- The outline of a selection set. -/
def SelectionSet.outline : SelectionSet → Outline
  | ⟨position, items⟩ => .node (.selectionSet ⟨position, items⟩) (outlinesOfSelections items)

/-- The outlines of the items of a selection set. -/
def outlinesOfSelections : List Selection → List Outline
  | [] => []
  | item :: rest => item.outline :: outlinesOfSelections rest

/-- The outline of a field. -/
def Field.outline : Field → Outline
  | ⟨position, responseAlias, name, args, ds, selected⟩ =>
    .node (.field ⟨position, responseAlias, name, args, ds, selected⟩)
      (args.map Argument.outline ++ ds.map Directive.outline ++
        (match selected with
          | some set => [set.outline]
          | none => []))

/-- The outline of a fragment in place. -/
def InlineFragment.outline : InlineFragment → Outline
  | ⟨position, condition, ds, selected⟩ =>
    .node (.inlineFragment ⟨position, condition, ds, selected⟩)
      (ds.map Directive.outline ++ [selected.outline])

/-- The outline of one item of a selection set. -/
def Selection.outline : Selection → Outline
  | .field f => f.outline
  | .spread s => .node (.spread s) (s.directives.map Directive.outline)
  | .inlineFragment i => i.outline

end

/-- The outline of a definition. The directives of an operation come before its variables. -/
def Definition.outline : Definition → Outline
  | .operation o =>
    .node (.operation o) (o.directives.map Directive.outline ++
      o.variables.map VariableDefinition.outline ++ [o.selectionSet.outline])
  | .fragment f =>
    .node (.fragment f) (f.directives.map Directive.outline ++ [f.selectionSet.outline])

/-- **The outline of a document.** -/
def Document.outline (d : Document) : Outline :=
  .node (.document d) (d.definitions.map Definition.outline)

/-! ## 2. Going through an outline -/

/-- A node that is shown, with the nodes that it stands in, the innermost first. -/
structure Showing where
  phase : Phase
  node : Node
  above : List Node

mutual

/-- **Each node is shown twice**, before and after what is inside it. -/
def Outline.showings (above : List Node) : Outline → List Showing
  | .node top inside =>
    ⟨.enter, top, above⟩ :: (showingsOfOutlines (top :: above) inside ++ [⟨.leave, top, above⟩])

/-- The showings of outlines that stand in the same nodes. -/
def showingsOfOutlines (above : List Node) : List Outline → List Showing
  | [] => []
  | o :: rest => o.showings above ++ showingsOfOutlines above rest

end

theorem showingsOfOutlines_append (above : List Node) (first second : List Outline) :
    showingsOfOutlines above (first ++ second) =
      showingsOfOutlines above first ++ showingsOfOutlines above second := by
  induction first with
  | nil => rfl
  | cons o rest ih =>
      rw [List.cons_append, showingsOfOutlines, showingsOfOutlines, ih, List.append_assoc]

theorem showingsOfOutlines_singleton (above : List Node) (o : Outline) :
    showingsOfOutlines above [o] = o.showings above := by
  rw [showingsOfOutlines, showingsOfOutlines, List.append_nil]

/-- **What is entered is left again**, the last one first, and each node stands in those that are
    entered and not yet left. -/
inductive Showing.Balanced : List Node → List Showing → Prop
  | nil {above : List Node} : Balanced above []
  | around {above : List Node} {top : Node} {inside rest : List Showing}
      (nested : Balanced (top :: above) inside) (next : Balanced above rest) :
      Balanced above (⟨.enter, top, above⟩ :: (inside ++ ⟨.leave, top, above⟩ :: rest))

theorem Showing.Balanced.append {above : List Node} {first second : List Showing}
    (h : Balanced above first) (h' : Balanced above second) : Balanced above (first ++ second) := by
  induction h with
  | nil => exact h'
  | around nested _ _ ih =>
      rw [List.cons_append, List.append_assoc, List.cons_append]
      exact .around nested (ih h')

mutual

/-- **The showings of an outline are balanced.** -/
theorem Outline.balanced_showings : ∀ (o : Outline) (above : List Node),
    Showing.Balanced above (o.showings above)
  | .node top inside, above => .around (balanced_showingsOfOutlines inside (top :: above)) .nil

theorem balanced_showingsOfOutlines : ∀ (os : List Outline) (above : List Node),
    Showing.Balanced above (showingsOfOutlines above os)
  | [], _ => .nil
  | o :: rest, above => (o.balanced_showings above).append (balanced_showingsOfOutlines rest above)

end

end TypedQuery
