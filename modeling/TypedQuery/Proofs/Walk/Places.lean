import Mathlib.Data.List.Forall2
import TypedQuery.Proofs.Schema.Built
import TypedQuery.Proofs.Walk.Fields
import TypedQuery.Proofs.Walk.Outline

/-!
# What a visitor sees of the place

What the context says at each showing of a node, read off the nodes that it stands in.

* `Schema.typeAt`, `Schema.descriptorAt`, `directiveAt`, `Schema.argumentAt` -- the type, field,
  directive and declaration of an argument at a node, by the nodes around it;
* `Context.At` -- **the invariant**: the context says so of these nodes;
* `Event.Sees` -- an event is a showing, and its context says what it should;
* `Document.walk_sees` -- **a walk that goes through shows the outline of its document**, each node
  with the declared types; `Document.walk_shows_directives_first` -- in the order of the text but
  for the directives of an operation.
-/

namespace TypedQuery

/-! ## 1. What the schema says of a node -/

/-- **The type at a node**, which stands first in the list, before those around it: that of the
    innermost operation, fragment or field. -/
def Schema.typeAt (s : Schema) : List Node → Option SchemaType
  | [] => none
  | .operation o :: _ => (s.root? o.kind).map fun root => .named (.composite root) false
  | .fragment f :: _ => s.conditionType f.typeCondition
  | .inlineFragment i :: above =>
    match i.typeCondition with
    | some name => s.conditionType name
    | none => s.typeAt above
  | .field f :: above => ((s.typeAt above).bind (s.field? · f.name)).bind s.typeOfField
  | _ :: above => s.typeAt above

/-- The field of the schema at a node: what the innermost field is on the type around it. -/
def Schema.descriptorAt (s : Schema) : List Node → Option FieldType
  | [] => none
  | .field f :: above => (s.typeAt above).bind (s.field? · f.name)
  | _ :: above => s.descriptorAt above

/-- The innermost directive. -/
def directiveAt : List Node → Option Directive
  | [] => none
  | .directive d :: _ => some d
  | _ :: above => directiveAt above

/-- The declaration of an argument in these nodes: of the innermost directive if there is one,
    otherwise of the innermost field. -/
def Schema.argumentAt (s : Schema) (above : List Node) (name : String) : Option ArgumentType :=
  match directiveAt above with
  | some d => (s.directives.find? d.name).bind fun t => t.arguments.find? name
  | none => (s.descriptorAt above).bind fun f => f.argument? name

/-- How many of the nodes are fields. -/
def fieldsAmong (nodes : List Node) : Nat := (nodes.filter Node.isField).length

/-- Whether a node is a selection set. -/
def Node.isSelectionSet : Node → Bool
  | .selectionSet _ => true
  | _ => false

/-- How many of the nodes are selection sets. -/
def selectionSetsAmong (nodes : List Node) : Nat := (nodes.filter Node.isSelectionSet).length

/-- Whether a node leaves the place of the walk as it is. -/
def Node.isPlain : Node → Bool
  | .operation _ => false
  | .fragment _ => false
  | .inlineFragment _ => false
  | .field _ => false
  | .directive _ => false
  | _ => true

/-! ## 2. The invariant -/

/-- **The context says of a node** what the nodes around it determine. -/
structure Context.At (c : Context) (s : Schema) (nodes : List Node) : Prop where
  schema : c.schema = s
  type : c.currentType = s.typeAt nodes
  field : c.currentField = s.descriptorAt nodes
  directive : c.directive = directiveAt nodes
  fieldDepth : c.fieldDepth = fieldsAmong nodes

/-- What the context says of some kinds of nodes alone. -/
def Context.Suits (c : Context) (s : Schema) (above : List Node) : Node → Prop
  | .field _ => c.parentType = s.typeAt above
  | .selectionSet _ => c.typeDepth = selectionSetsAmong above + 1
  | .argument a =>
    c.currentInput = (s.argumentAt above a.name).bind fun t => s.resolve .input t.type
  | .variableDefinition v => c.currentInput = s.resolve .input v.type
  | _ => True

/-- **An event is a showing**, and its context says what it should. -/
structure Event.Sees (s : Schema) (e : Event) (x : Showing) : Prop where
  phase : e.phase = x.phase
  node : e.node = x.node
  place : e.context.At s (x.node :: x.above)
  own : e.context.Suits s x.above x.node

namespace Context.At

variable {c : Context} {s : Schema} {nodes : List Node}

/-- Before a document. -/
theorem start (s : Schema) (d : Document) : (Context.start s d).At s [] :=
  ⟨rfl, rfl, rfl, rfl, rfl⟩

theorem plain (h : c.At s nodes) (node : Node) (hnode : node.isPlain = true) :
    c.At s (node :: nodes) := by
  obtain ⟨hschema, htype, hfield, hdirective, hdepth⟩ := h
  cases node <;>
    first | (cases hnode; done) | exact ⟨hschema, htype, hfield, hdirective, hdepth⟩

theorem pushInput (h : c.At s nodes) (t : Option SchemaType) : (c.pushInput t).At s nodes :=
  ⟨h.schema, h.type, h.field, h.directive, h.fieldDepth⟩

theorem openSelection (h : c.At s nodes) : c.openSelection.At s nodes :=
  ⟨h.schema, h.type, h.field, h.directive, h.fieldDepth⟩

theorem withDirective (h : c.At s nodes) (d : Directive) :
    (c.withDirective (some d)).At s (.directive d :: nodes) :=
  ⟨h.schema, h.type, h.field, rfl, h.fieldDepth⟩

/-- Inside a field. -/
theorem pushField (h : c.At s nodes) (f : Field) :
    let found := c.selectedField f.name
    (c.pushField found (found.bind c.fieldType)).At s (.field f :: nodes) := by
  intro found
  obtain rfl := h.schema
  have hfound : found = (c.schema.typeAt nodes).bind (c.schema.field? · f.name) :=
    congrArg (Option.bind · fun t => c.schema.field? t f.name) h.type
  refine ⟨rfl, ?_, hfound, h.directive, congrArg (· + 1) h.fieldDepth⟩
  rw [currentType_pushField, hfound]
  rfl

/-- Inside a fragment in place. -/
theorem pushCondition (h : c.At s nodes) (i : InlineFragment) :
    (c.pushType (c.narrowedType i.typeCondition)).At s (.inlineFragment i :: nodes) := by
  obtain rfl := h.schema
  refine ⟨rfl, ?_, h.field, h.directive, h.fieldDepth⟩
  rw [currentType_pushType, Schema.typeAt]
  cases i.typeCondition with
  | none => exact h.type
  | some name => rfl

/-- The type of an argument. -/
theorem argumentType (h : c.At s nodes) (name : String) :
    c.argumentType name = (s.argumentAt nodes name).bind fun t => s.resolve .input t.type := by
  obtain rfl := h.schema
  cases hd : directiveAt nodes with
  | none => simp only [Context.argumentType, argument?, Schema.argumentAt, h.directive, h.field, hd]
  | some d => simp only [Context.argumentType, argument?, Schema.argumentAt, h.directive, hd]

end Context.At

/-! ## 3. Events -/

section

variable {s : Schema} {c : Context} {above : List Node}

/-- A node around what is inside. -/
theorem sees_around {top : Node} {inside : List Outline} {events : List Event}
    (hplace : c.At s (top :: above)) (hown : c.Suits s above top)
    (hinside : List.Forall₂ (Event.Sees s) events (showingsOfOutlines (top :: above) inside)) :
    List.Forall₂ (Event.Sees s) (Event.around c top events)
      ((Outline.node top inside).showings above) := by
  have hshown : ∀ phase, Event.Sees s ⟨phase, top, c⟩ ⟨phase, top, above⟩ :=
    fun _ => ⟨rfl, rfl, hplace, hown⟩
  exact .cons (hshown .enter) (List.rel_append hinside (.cons (hshown .leave) .nil))

/-- A node with nothing inside. -/
theorem sees_single {top : Node} (h : c.At s above) (hplain : top.isPlain = true)
    (hown : c.Suits s above top) :
    List.Forall₂ (Event.Sees s) (Event.around c top []) ((Outline.node top []).showings above) :=
  sees_around (h.plain _ hplain) hown .nil

/-- Nodes one after the other. -/
theorem sees_flatMap {α : Type} {events : α → List Event} {outline : α → Outline}
    (h : ∀ a, List.Forall₂ (Event.Sees s) (events a) ((outline a).showings above)) (as : List α) :
    List.Forall₂ (Event.Sees s) (as.flatMap events)
      (showingsOfOutlines above (as.map outline)) := by
  induction as with
  | nil => exact .nil
  | cons a rest ih => exact List.rel_append (h a) ih

mutual

theorem Literal.sees : ∀ (l : Literal) {c : Context} {above : List Node}, c.At s above →
    List.Forall₂ (Event.Sees s) (l.events c) (l.outline.showings above)
  | .null, _, _, h => sees_single h rfl trivial
  | .enum _, _, _, h => sees_single h rfl trivial
  | .variable _, _, _, h => sees_single h rfl trivial
  | .int _, _, _, h => sees_single h rfl trivial
  | .float _, _, _, h => sees_single h rfl trivial
  | .string _, _, _, h => sees_single h rfl trivial
  | .boolean _, _, _, h => sees_single h rfl trivial
  | .list items, _, _, h => by
      rw [Literal.events, Literal.outline]
      exact sees_around (h.plain _ rfl) trivial (sees_items items ((h.plain _ rfl).pushInput _))
  | .object entries, _, _, h => by
      rw [Literal.events, Literal.outline]
      exact sees_around (h.plain _ rfl) trivial (sees_entries entries (h.plain _ rfl))

theorem sees_items : ∀ (items : List Literal) {c : Context} {above : List Node}, c.At s above →
    List.Forall₂ (Event.Sees s) (Literal.eventsOfItems c items)
      (showingsOfOutlines above (outlinesOfItems items))
  | [], _, _, _ => .nil
  | item :: rest, _, _, h => List.rel_append (Literal.sees item h) (sees_items rest h)

theorem sees_entries : ∀ (entries : List (String × Literal)) {c : Context} {above : List Node},
    c.At s above → List.Forall₂ (Event.Sees s) (Literal.eventsOfEntries c entries)
      (showingsOfOutlines above (outlinesOfEntries entries))
  | [], _, _, _ => .nil
  | (key, value) :: rest, c, above, h => by
      rw [Literal.eventsOfEntries, outlinesOfEntries, showingsOfOutlines]
      have hentry := (h.pushInput (c.entryType key)).plain (.objectField key value) rfl
      refine List.rel_append (sees_around hentry trivial ?_) (sees_entries rest h)
      rw [showingsOfOutlines_singleton]
      exact Literal.sees value hentry

end

/-- An argument has its declared type. -/
theorem Argument.sees (h : c.At s above) (a : Argument) :
    List.Forall₂ (Event.Sees s) (a.events c) (a.outline.showings above) := by
  have hinside := (h.pushInput (c.argumentType a.name)).plain (.argument a) rfl
  refine sees_around hinside ?_ ?_
  · exact (Context.currentInput_pushInput _ _).trans (h.argumentType a.name)
  · rw [showingsOfOutlines_singleton]
    exact Literal.sees a.value hinside

theorem Directive.sees (h : c.At s above) (d : Directive) :
    List.Forall₂ (Event.Sees s) (d.events c) (d.outline.showings above) :=
  sees_around (h.withDirective d) trivial
    (sees_flatMap (Argument.sees (h.withDirective d)) d.arguments)

/-- A variable has its declared type. -/
theorem VariableDefinition.sees (h : c.At s above) (d : VariableDefinition) :
    List.Forall₂ (Event.Sees s) (d.events c) (d.outline.showings above) := by
  obtain rfl := h.schema
  have hinside :=
    (h.pushInput (c.schema.resolve .input d.type)).plain (.variableDefinition d) rfl
  refine sees_around hinside (Context.currentInput_pushInput _ _) ?_
  cases d.default with
  | none => exact .nil
  | some default =>
      show List.Forall₂ _ (Literal.events _ default) (showingsOfOutlines _ [default.outline])
      rw [showingsOfOutlines_singleton]
      exact Literal.sees default hinside

theorem sees_directives (h : c.At s above) (ds : List Directive) :
    List.Forall₂ (Event.Sees s) (ds.flatMap (Directive.events c))
      (showingsOfOutlines above (ds.map Directive.outline)) :=
  sees_flatMap (Directive.sees h) ds

end

/-! ## 4. Traces -/

/-- **A trace that goes through shows these nodes.** -/
def Trace.Follows (t : Trace) (s : Schema) (showings : List Showing) : Prop :=
  t.error = none → List.Forall₂ (Event.Sees s) t.events showings

namespace Trace

variable {t t' : Trace} {s : Schema} {showings showings' : List Showing}

theorem follows_done {events : List Event} (h : List.Forall₂ (Event.Sees s) events showings) :
    (done events).Follows s showings :=
  fun _ => h

theorem follows_broken (e : ResolutionError) : (broken e).Follows s showings :=
  fun h => by cases h

/-- One part after another. -/
theorem Follows.andThen (h : t.Follows s showings) (h' : t'.Follows s showings') :
    (t.andThen t').Follows s (showings ++ showings') := by
  obtain ⟨events, error⟩ := t
  cases error with
  | some e => exact fun hnone => by cases hnone
  | none => exact fun hnone => List.rel_append (h rfl) (h' hnone)

/-- A node around a part. -/
theorem Follows.around {c : Context} {above : List Node} {top : Node} {inside : List Outline}
    (hplace : c.At s (top :: above)) (hown : c.Suits s above top)
    (h : t.Follows s (showingsOfOutlines (top :: above) inside)) :
    (Trace.around c top t).Follows s ((Outline.node top inside).showings above) := by
  have hshown : ∀ phase, (done [⟨phase, top, c⟩]).Follows s [⟨phase, top, above⟩] :=
    fun _ => follows_done (.cons ⟨rfl, rfl, hplace, hown⟩ .nil)
  exact ((hshown .enter).andThen h).andThen (hshown .leave)

end Trace

section

variable {s : Schema}

/-- What stands on a field. -/
theorem follows_prepared {c : Context} {above : List Node} (h : c.At s above)
    (args : List Argument) (ds : List Directive) :
    (Trace.done (args.flatMap (Argument.events c) ++ ds.flatMap (Directive.events c))).Follows s
      (showingsOfOutlines above (args.map Argument.outline ++ ds.map Directive.outline)) := by
  rw [showingsOfOutlines_append]
  exact Trace.follows_done
    (List.rel_append (sees_flatMap (Argument.sees h) args) (sees_directives h ds))

/-! Types are counted where an operation, a fragment or a field is entered, and each of them has
one selection set at most. So the two counts agree among the items of a selection set, and are one
apart before it is opened: they are carried beside `Context.At`, which holds at every node. -/

mutual

/-- A selection set opens one more than the selection sets that it stands in. -/
theorem SelectionSet.follows : ∀ (selected : SelectionSet) {c : Context} {above : List Node},
    c.At s above → c.typeDepth = selectionSetsAmong above + 1 →
      (selected.trace c).Follows s (selected.outline.showings above)
  | ⟨position, items⟩, c, above, h, hdepth => by
      rw [SelectionSet.trace, SelectionSet.outline]
      by_cases hlimit : c.depth ≥ c.schema.limits.maxDepth
      · simp only [hlimit, if_true]
        exact Trace.follows_broken _
      · simp only [hlimit, if_false]
        have hinside := h.openSelection.plain (.selectionSet ⟨position, items⟩) rfl
        exact Trace.Follows.around hinside hdepth (follows_selections items hinside hdepth)

theorem follows_selections : ∀ (items : List Selection) {c : Context} {above : List Node},
    c.At s above → c.typeDepth = selectionSetsAmong above →
      (traceOfSelections c items).Follows s (showingsOfOutlines above (outlinesOfSelections items))
  | [], _, _, _, _ => Trace.follows_done .nil
  | item :: rest, _, _, h, hdepth =>
      (Selection.follows item h hdepth).andThen (follows_selections rest h hdepth)

theorem Field.follows : ∀ (f : Field) {c : Context} {above : List Node},
    c.At s above → c.typeDepth = selectionSetsAmong above →
      (f.trace c).Follows s (f.outline.showings above)
  | ⟨position, responseAlias, name, args, ds, some selected⟩, c, above, h, hdepth => by
      rw [Field.trace, Field.outline]
      have hinside := h.pushField ⟨position, responseAlias, name, args, ds, some selected⟩
      refine Trace.Follows.around hinside ((Context.parentType_pushField _ _ _).trans h.type) ?_
      rw [showingsOfOutlines_append, showingsOfOutlines_singleton]
      refine (follows_prepared hinside args ds).andThen ?_
      exact SelectionSet.follows selected hinside (congrArg (· + 1) hdepth)
  | ⟨position, responseAlias, name, args, ds, none⟩, c, above, h, hdepth => by
      rw [Field.trace, Field.outline]
      have hinside := h.pushField ⟨position, responseAlias, name, args, ds, none⟩
      refine Trace.Follows.around hinside ((Context.parentType_pushField _ _ _).trans h.type) ?_
      rw [showingsOfOutlines_append]
      exact (follows_prepared hinside args ds).andThen (Trace.follows_done .nil)

theorem InlineFragment.follows : ∀ (i : InlineFragment) {c : Context} {above : List Node},
    c.At s above → c.typeDepth = selectionSetsAmong above →
      (i.trace c).Follows s (i.outline.showings above)
  | ⟨position, condition, ds, selected⟩, c, above, h, hdepth => by
      rw [InlineFragment.trace, InlineFragment.outline]
      have hinside := h.pushCondition ⟨position, condition, ds, selected⟩
      refine Trace.Follows.around hinside trivial ?_
      rw [showingsOfOutlines_append, showingsOfOutlines_singleton]
      refine (Trace.follows_done (sees_directives hinside ds)).andThen ?_
      exact SelectionSet.follows selected hinside (congrArg (· + 1) hdepth)

theorem Selection.follows : ∀ (item : Selection) {c : Context} {above : List Node},
    c.At s above → c.typeDepth = selectionSetsAmong above →
      (item.trace c).Follows s (item.outline.showings above)
  | .field f, _, _, h, hdepth => Field.follows f h hdepth
  | .spread spread, _, _, h, _ =>
      Trace.follows_done (sees_around (h.plain _ rfl) trivial
        (sees_directives (h.plain _ rfl) spread.directives))
  | .inlineFragment i, _, _, h, hdepth => InlineFragment.follows i h hdepth

end

/-- A definition inside a document. -/
theorem Definition.follows (definition : Definition) {c : Context} {above : List Node}
    (h : c.At s above) (hdepth : c.typeDepth = selectionSetsAmong above) :
    (definition.trace c).Follows s (definition.outline.showings above) := by
  obtain rfl := h.schema
  cases definition with
  | fragment f =>
      have hinside : (c.pushType (c.narrowedType (some f.typeCondition))).At c.schema
          (.fragment f :: above) :=
        ⟨rfl, rfl, h.field, h.directive, h.fieldDepth⟩
      refine Trace.Follows.around hinside trivial ?_
      rw [showingsOfOutlines_append, showingsOfOutlines_singleton]
      refine (Trace.follows_done (sees_directives hinside f.directives)).andThen ?_
      exact SelectionSet.follows f.selectionSet hinside (congrArg (· + 1) hdepth)
  | operation o =>
      show (o.trace c).Follows c.schema _
      unfold Operation.trace
      cases hroot : c.schema.root? o.kind with
      | none => exact Trace.follows_broken _
      | some root =>
          have hinside : (c.pushType (some (.named (.composite root) false))).At c.schema
              (.operation o :: above) := by
            refine ⟨rfl, ?_, h.field, h.directive, h.fieldDepth⟩
            rw [Context.currentType_pushType, Schema.typeAt, hroot]
            rfl
          refine Trace.Follows.around hinside trivial ?_
          rw [showingsOfOutlines_append, showingsOfOutlines_append, showingsOfOutlines_singleton]
          refine (Trace.follows_done (List.rel_append (sees_directives hinside o.directives)
            (sees_flatMap (VariableDefinition.sees hinside) o.variables))).andThen ?_
          exact SelectionSet.follows o.selectionSet hinside (congrArg (· + 1) hdepth)

end

/-- **The trace of a document follows its outline.** -/
theorem Document.trace_follows (d : Document) (s : Schema) :
    (d.trace (Context.start s d)).Follows s (d.outline.showings []) := by
  have hstart := (Context.At.start s d).plain (.document d) rfl
  have hdefinitions : ∀ ds, (traceOfDefinitions (Context.start s d) ds).Follows s
      (showingsOfOutlines [.document d] (ds.map Definition.outline)) := by
    intro ds
    induction ds with
    | nil => exact Trace.follows_done .nil
    | cons definition rest ih => exact (Definition.follows definition hstart rfl).andThen ih
  exact Trace.Follows.around hstart trivial (hdefinitions d.definitions)

/-! ## 5. Walks -/

/-- What is recorded are the events of the trace. -/
theorem Document.state_recorder (d : Document) (c : Context) :
    (d.walk Visitor.recorder ⟨c, []⟩).walker.state = (d.trace c).events := by
  rw [Document.walk_eq]
  exact (Visitor.replay_recorder _ []).trans (List.nil_append _)

/-- **A walk that goes through shows the outline of its document**: each node is entered and left
    once, with all that is inside it between, and each time the context says what the nodes around
    it determine. -/
theorem Document.walk_sees {d : Document} {s : Schema}
    (h : (d.walk Visitor.recorder ⟨Context.start s d, []⟩).error = none) :
    Showing.Balanced [] (d.outline.showings []) ∧
      List.Forall₂ (Event.Sees s) (d.walk Visitor.recorder ⟨Context.start s d, []⟩).walker.state
        (d.outline.showings []) := by
  refine ⟨d.outline.balanced_showings [], ?_⟩
  rw [Document.state_recorder]
  rw [Document.walk_eq] at h
  exact d.trace_follows s h

/-- An operation with a variable, a directive and a field with a fragment beside it. -/
theorem Document.walk_sees_points :
    let origin : Selection := .field ⟨⟨1, 34⟩, none, "origin", [], [], none⟩
    let d : Document := ⟨[.operation ⟨⟨1, 1⟩, .query, none, [⟨⟨1, 7⟩, "x", .named "Int", none⟩],
      [⟨⟨1, 16⟩, "skip", [⟨"if", .boolean true⟩]⟩],
      ⟨⟨1, 32⟩, [origin, .inlineFragment ⟨⟨1, 45⟩, none, [], ⟨⟨1, 45⟩, [origin]⟩⟩]⟩⟩]⟩
    let o := d.walk Visitor.recorder ⟨Context.start Schema.points d, []⟩
    o.error = none ∧
      List.Forall₂ (Event.Sees Schema.points) o.walker.state (d.outline.showings []) := by
  intro origin d o
  have herror : o.error = none := rfl
  exact ⟨herror, (walk_sees herror).2⟩

/-- Where a node stands in the text, if it has a place of its own. -/
def Node.position? : Node → Option Position
  | .operation o => some o.position
  | .fragment f => some f.position
  | .variableDefinition v => some v.position
  | .directive d => some d.position
  | .selectionSet s => some s.position
  | .field f => some f.position
  | .spread s => some s.position
  | .inlineFragment i => some i.position
  | _ => none

/-- What is told of phases and nodes alone is told of the showings. -/
theorem Event.filterMap_eq {α : Type} {s : Schema} {events : List Event} {showings : List Showing}
    (h : List.Forall₂ (Event.Sees s) events showings) (g : Phase → Node → Option α) :
    events.filterMap (fun e => g e.phase e.node) =
      showings.filterMap fun x => g x.phase x.node := by
  induction h with
  | nil => rfl
  | cons hsees _ ih => rw [List.filterMap_cons, List.filterMap_cons, hsees.phase, hsees.node, ih]

/-- **The order is not that of the text**: in `query($x: Int) @skip(if: true) { origin }` the
    directive comes before the variable. -/
theorem Document.walk_shows_directives_first :
    let d : Document := ⟨[.operation ⟨⟨1, 1⟩, .query, none, [⟨⟨1, 7⟩, "x", .named "Int", none⟩],
      [⟨⟨1, 16⟩, "skip", [⟨"if", .boolean true⟩]⟩],
      ⟨⟨1, 32⟩, [.field ⟨⟨1, 34⟩, none, "origin", [], [], none⟩]⟩⟩]⟩
    let o := d.walk Visitor.recorder ⟨Context.start Schema.points d, []⟩
    let entered := o.walker.state.filterMap fun e =>
      if e.phase = .enter then e.node.position? else none
    o.error = none ∧ entered = [⟨1, 1⟩, ⟨1, 16⟩, ⟨1, 7⟩, ⟨1, 32⟩, ⟨1, 34⟩] ∧
      ¬ (entered.map (·.column)).Pairwise (· ≤ ·) := by
  intro d o entered
  have herror : (d.trace (Context.start Schema.points d)).error = none := rfl
  have hentered : entered = [⟨1, 1⟩, ⟨1, 16⟩, ⟨1, 7⟩, ⟨1, 32⟩, ⟨1, 34⟩] := by
    have hshown := Event.filterMap_eq (d.trace_follows Schema.points herror) fun phase node =>
      if phase = .enter then node.position? else none
    rw [← Document.state_recorder] at hshown
    exact hshown.trans rfl
  refine ⟨rfl, hentered, ?_⟩
  rw [hentered]
  decide

end TypedQuery
