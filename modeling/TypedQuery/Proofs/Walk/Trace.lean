import TypedQuery.Walk.Document

/-!
# What a walk shows

The showings of a walk are determined by the document and the place where the walk starts; the
visitor has no part in it. This file lists them, node by node, and proves that a walk does nothing
else: it shows its visitor the events of its trace and comes back to its place, also where it is
broken off.

* `Literal.events`, `Argument.events`, `Directive.events`, `VariableDefinition.events` -- the
  events of the parts that cannot break a walk off;
* `Trace` -- events, and what broke the walk off; `SelectionSet.trace`, `Field.trace`,
  `Document.trace`;
* `Document.walk_eq` -- **a walk is the replay of its trace**: whatever the visitor, it is shown
  these events in this order, the place is the one before, and the error is that of the trace.
-/

namespace TypedQuery

/-! ## 1. Events -/

/-- What a visitor makes of events, one after the other. -/
def Visitor.replay {σ : Type} (v : Visitor σ) (events : List Event) (state : σ) : σ :=
  events.foldl (fun state e => v e.phase e.node e.context state) state

@[simp] theorem Visitor.replay_nil {σ : Type} (v : Visitor σ) (state : σ) :
    v.replay [] state = state := rfl

theorem Visitor.replay_append {σ : Type} (v : Visitor σ) (first second : List Event)
    (state : σ) : v.replay (first ++ second) state = v.replay second (v.replay first state) :=
  List.foldl_append

/-- The recorder keeps all events. -/
theorem Visitor.replay_recorder (events shown : List Event) :
    Visitor.recorder.replay events shown = shown ++ events := by
  induction events generalizing shown with
  | nil => exact (List.append_nil shown).symm
  | cons e rest ih =>
      show Visitor.recorder.replay rest (shown ++ [e]) = _
      rw [ih, List.append_assoc]
      rfl

/-- A node is shown before and after what is inside. -/
def Event.around (c : Context) (node : Node) (inside : List Event) : List Event :=
  ⟨.enter, node, c⟩ :: (inside ++ [⟨.leave, node, c⟩])

namespace Literal

mutual

/-- The events of a literal. -/
def events (c : Context) : Literal → List Event
  | .null => Event.around c .nullValue []
  | .enum name => Event.around c (.enumValue name) []
  | .variable name => Event.around c (.variableValue name) []
  | .list items => Event.around c (.listValue items) (eventsOfItems (c.pushInput c.itemType) items)
  | .object entries => Event.around c (.objectValue entries) (eventsOfEntries c entries)
  | .int n => Event.around c (.scalarValue (.int n)) []
  | .float x => Event.around c (.scalarValue (.float x)) []
  | .string s => Event.around c (.scalarValue (.string s)) []
  | .boolean b => Event.around c (.scalarValue (.boolean b)) []

/-- The events of items. -/
def eventsOfItems (c : Context) : List Literal → List Event
  | [] => []
  | item :: rest => item.events c ++ eventsOfItems c rest

/-- The events of entries, each inside its declared type. -/
def eventsOfEntries (c : Context) : List (String × Literal) → List Event
  | [] => []
  | (key, value) :: rest =>
    let inside := c.pushInput (c.entryType key)
    Event.around inside (.objectField key value) (value.events inside) ++ eventsOfEntries c rest

end

end Literal

/-- The events of an argument. -/
def Argument.events (c : Context) (a : Argument) : List Event :=
  let inside := c.pushInput (c.argumentType a.name)
  Event.around inside (.argument a) (a.value.events inside)

/-- The events of a directive. -/
def Directive.events (c : Context) (d : Directive) : List Event :=
  let inside := c.withDirective (some d)
  Event.around inside (.directive d) (d.arguments.flatMap (Argument.events inside))

/-- The events of the declaration of a variable. -/
def VariableDefinition.events (c : Context) (d : VariableDefinition) : List Event :=
  let inside := c.pushInput (c.schema.resolve .input d.type)
  Event.around inside (.variableDefinition d) ((d.default.map (Literal.events inside)).getD [])

/-! ## 2. Traces -/

/-- The events of a walk, up to what broke it off. -/
structure Trace where
  events : List Event
  error : Option ResolutionError

namespace Trace

/-- Events of a walk that goes through. -/
def done (events : List Event) : Trace := ⟨events, none⟩

/-- A walk that is broken off at once. -/
def broken (e : ResolutionError) : Trace := ⟨[], some e⟩

/-- Goes on, unless the walk is broken off. -/
def andThen (t next : Trace) : Trace :=
  match t.error with
  | none => ⟨t.events ++ next.events, next.error⟩
  | some _ => t

/-- A node around a part of the walk; it is not shown on leaving if the part is broken off. -/
def around (c : Context) (node : Node) (inside : Trace) : Trace :=
  ((done [⟨.enter, node, c⟩]).andThen inside).andThen (done [⟨.leave, node, c⟩])

end Trace

mutual

/-- The trace of a selection set. -/
def SelectionSet.trace (c : Context) : SelectionSet → Trace
  | ⟨position, items⟩ =>
    let limit := c.schema.limits.maxDepth
    if c.depth ≥ limit then .broken (.depthLimitExceeded limit)
    else .around c.openSelection (.selectionSet ⟨position, items⟩)
      (traceOfSelections c.openSelection items)

/-- The trace of the items of a selection set. -/
def traceOfSelections (c : Context) : List Selection → Trace
  | [] => .done []
  | item :: rest => (item.trace c).andThen (traceOfSelections c rest)

/-- The trace of a field, inside its type. -/
def Field.trace (c : Context) : Field → Trace
  | ⟨position, responseAlias, name, args, ds, selected⟩ =>
    let found := c.selectedField name
    let inside := c.pushField found (found.bind c.fieldType)
    .around inside (.field ⟨position, responseAlias, name, args, ds, selected⟩)
      ((Trace.done (args.flatMap (Argument.events inside) ++
          ds.flatMap (Directive.events inside))).andThen
        (match selected with
          | some s => s.trace inside
          | none => .done []))

/-- The trace of a fragment in place. -/
def InlineFragment.trace (c : Context) : InlineFragment → Trace
  | ⟨position, condition, ds, selected⟩ =>
    let inside := c.pushType (c.narrowedType condition)
    .around inside (.inlineFragment ⟨position, condition, ds, selected⟩)
      ((Trace.done (ds.flatMap (Directive.events inside))).andThen (selected.trace inside))

/-- The trace of one item of a selection set. -/
def Selection.trace (c : Context) : Selection → Trace
  | .field f => f.trace c
  | .spread s => .done (Event.around c (.spread s) (s.directives.flatMap (Directive.events c)))
  | .inlineFragment i => i.trace c

end

/-- The trace of an operation. -/
def Operation.trace (c : Context) (o : Operation) : Trace :=
  match c.schema.root? o.kind with
  | none => .broken (.unsupportedOperation o.kind.keyword)
  | some root =>
    let inside := c.pushType (some (.named (.composite root) false))
    .around inside (.operation o)
      ((Trace.done (o.directives.flatMap (Directive.events inside) ++
          o.variables.flatMap (VariableDefinition.events inside))).andThen
        (o.selectionSet.trace inside))

/-- The trace of a fragment. -/
def Fragment.trace (c : Context) (f : Fragment) : Trace :=
  let inside := c.pushType (c.narrowedType (some f.typeCondition))
  .around inside (.fragment f)
    ((Trace.done (f.directives.flatMap (Directive.events inside))).andThen
      (f.selectionSet.trace inside))

/-- The trace of one definition. -/
def Definition.trace (c : Context) : Definition → Trace
  | .operation o => o.trace c
  | .fragment f => f.trace c

/-- The trace of definitions. -/
def traceOfDefinitions (c : Context) : List Definition → Trace
  | [] => .done []
  | d :: rest => (d.trace c).andThen (traceOfDefinitions c rest)

/-- **The trace of a document.** -/
def Document.trace (d : Document) (c : Context) : Trace :=
  .around c (.document d) (traceOfDefinitions c d.definitions)

/-! ## 3. The walk replays its trace -/

namespace Walker

variable {σ : Type} {v : Visitor σ}

/-- Shows events, one after the other. -/
def replay (v : Visitor σ) (events : List Event) (w : Walker σ) : Walker σ :=
  { w with state := v.replay events w.state }

/-- Performs a trace. -/
def perform (v : Visitor σ) (t : Trace) (w : Walker σ) : Outcome σ :=
  ⟨w.replay v t.events, t.error⟩

@[simp] theorem context_replay (events : List Event) (w : Walker σ) :
    (w.replay v events).context = w.context := rfl

theorem replay_replay (first second : List Event) (w : Walker σ) :
    (w.replay v first).replay v second = w.replay v (first ++ second) := by
  unfold replay
  rw [Visitor.replay_append]

theorem call_eq (phase : Phase) (node : Node) (w : Walker σ) :
    w.call v phase node = w.replay v [⟨phase, node, w.context⟩] := rfl

/-- What is inside a node is replayed, so the node is. -/
theorem around_eq {node : Node} {inside : Walker σ → Walker σ} {events : List Event}
    {w : Walker σ} (h : ∀ w', w'.context = w.context → inside w' = w'.replay v events) :
    w.around v node inside = w.replay v (Event.around w.context node events) := by
  unfold around
  rw [call_eq .enter, h (w.replay v [⟨.enter, node, w.context⟩]) rfl, call_eq .leave,
    replay_replay, replay_replay]
  rfl

/-- What is inside an input value is replayed at its place. -/
theorem within_eq {t : Option SchemaType} {inside : Walker σ → Walker σ} {events : List Event}
    {w : Walker σ}
    (h : ∀ w', w'.context = w.context.pushInput t → inside w' = w'.replay v events) :
    w.within t inside = w.replay v events := by
  unfold within
  rw [h _ rfl]
  rfl

/-- A fold over nodes each of which is replayed. -/
theorem foldl_eq {α : Type} {step : Walker σ → α → Walker σ} {events : Context → α → List Event}
    (h : ∀ w a, step w a = w.replay v (events w.context a)) (as : List α) (w : Walker σ) :
    as.foldl step w = w.replay v (as.flatMap (events w.context)) := by
  induction as generalizing w with
  | nil => rfl
  | cons a as ih =>
      rw [List.foldl_cons, h, ih, context_replay, replay_replay, List.flatMap_cons]

mutual

theorem literal_eq (v : Visitor σ) : ∀ (l : Literal) (w : Walker σ),
    literal v l w = w.replay v (l.events w.context)
  | .null, _ => around_eq fun _ _ => rfl
  | .enum _, _ => around_eq fun _ _ => rfl
  | .variable _, _ => around_eq fun _ _ => rfl
  | .int _, _ => around_eq fun _ _ => rfl
  | .float _, _ => around_eq fun _ _ => rfl
  | .string _, _ => around_eq fun _ _ => rfl
  | .boolean _, _ => around_eq fun _ _ => rfl
  | .list items, w => by
      rw [literal, Literal.events]
      refine around_eq fun w' hw' => within_eq fun w'' hw'' => ?_
      rw [literals_eq v items w'', hw'', hw']
  | .object entries, w => by
      rw [literal, Literal.events]
      refine around_eq fun w' hw' => ?_
      rw [entriesOf_eq v entries w', hw']

theorem literals_eq (v : Visitor σ) : ∀ (items : List Literal) (w : Walker σ),
    literals v items w = w.replay v (Literal.eventsOfItems w.context items)
  | [], _ => rfl
  | item :: rest, w => by
      rw [literals, literal_eq v item w, literals_eq v rest, context_replay, replay_replay,
        Literal.eventsOfItems]

theorem entriesOf_eq (v : Visitor σ) : ∀ (entries : List (String × Literal)) (w : Walker σ),
    entriesOf v entries w = w.replay v (Literal.eventsOfEntries w.context entries)
  | [], _ => rfl
  | (key, value) :: rest, w => by
      have hentry : w.within (w.context.entryType key)
          (around v (.objectField key value) (literal v value)) =
            w.replay v (Event.around (w.context.pushInput (w.context.entryType key))
              (.objectField key value)
              (value.events (w.context.pushInput (w.context.entryType key)))) := by
        refine within_eq fun w' hw' => ?_
        rw [← hw']
        exact around_eq fun w'' hw'' => by rw [literal_eq v value w'', hw'']
      rw [entriesOf, hentry, entriesOf_eq v rest, context_replay, replay_replay,
        Literal.eventsOfEntries]

end

theorem argument_eq (w : Walker σ) (a : Argument) :
    argument v w a = w.replay v (a.events w.context) := by
  refine within_eq fun w' hw' => ?_
  rw [Argument.events, ← hw']
  exact around_eq fun w'' hw'' => by rw [literal_eq v a.value w'', hw'']

theorem arguments_eq (args : List Argument) (w : Walker σ) :
    arguments v args w = w.replay v (args.flatMap (Argument.events w.context)) :=
  foldl_eq argument_eq args w

theorem directive_eq (w : Walker σ) (d : Directive) :
    directive v w d = w.replay v (d.events w.context) := by
  unfold directive
  rw [around_eq fun w' hw' => (arguments_eq d.arguments w').trans (by rw [hw'])]
  rfl

theorem directives_eq (ds : List Directive) (w : Walker σ) :
    directives v ds w = w.replay v (ds.flatMap (Directive.events w.context)) :=
  foldl_eq directive_eq ds w

/-- What stands on a field. -/
theorem prepared_eq (args : List Argument) (ds : List Directive) (w : Walker σ) :
    (w.arguments v args).directives v ds =
      w.replay v (args.flatMap (Argument.events w.context) ++
        ds.flatMap (Directive.events w.context)) := by
  rw [arguments_eq, directives_eq, context_replay, replay_replay]

theorem variableDefinition_eq (w : Walker σ) (d : VariableDefinition) :
    variableDefinition v w d = w.replay v (d.events w.context) := by
  refine within_eq fun w' hw' => ?_
  rw [VariableDefinition.events, ← hw']
  refine around_eq fun w'' hw'' => ?_
  cases d.default with
  | none => rfl
  | some default => exact (literal_eq v default w'').trans (by rw [hw'']; rfl)

theorem variableDefinitions_eq (ds : List VariableDefinition) (w : Walker σ) :
    variableDefinitions v ds w =
      w.replay v (ds.flatMap (VariableDefinition.events w.context)) :=
  foldl_eq variableDefinition_eq ds w

/-! ## 4. Walks that may be broken off -/

theorem done_replay (events : List Event) (w : Walker σ) :
    Outcome.done (w.replay v events) = w.perform v (.done events) := rfl

/-- One part of a walk after another. -/
theorem perform_andThen {next : Walker σ → Outcome σ} {t t' : Trace} {w : Walker σ}
    (h : ∀ w', w'.context = w.context → next w' = w'.perform v t') :
    (w.perform v t).andThen next = w.perform v (t.andThen t') := by
  obtain ⟨events, error⟩ := t
  cases error with
  | some e => rfl
  | none =>
      show next (w.replay v events) = _
      rw [h _ (context_replay events w)]
      show Outcome.mk ((w.replay v events).replay v t'.events) t'.error = _
      rw [replay_replay]
      rfl

/-- A part of a walk after events. -/
theorem after_replay {next : Walker σ → Outcome σ} {events : List Event} {t : Trace}
    {w : Walker σ} (h : ∀ w', w'.context = w.context → next w' = w'.perform v t) :
    next (w.replay v events) = w.perform v ((Trace.done events).andThen t) := by
  rw [← perform_andThen h, ← done_replay, Outcome.andThen_done]

/-- A part of a walk inside a node. -/
theorem enclosed_eq {node : Node} (inside : Walker σ → Outcome σ) {t : Trace} {w : Walker σ}
    (h : ∀ w', w'.context = w.context → inside w' = w'.perform v t) :
    (inside (w.call v .enter node)).leave v node =
      w.perform v (Trace.around w.context node t) := by
  rw [call_eq, after_replay h]
  refine perform_andThen fun w' hw' => ?_
  rw [call_eq, hw']
  rfl

/-- A part of a walk at another place, from which it comes back. -/
theorem moved_eq {change back : Context → Context} {o : Outcome σ} {t : Trace} {w : Walker σ}
    (hback : back (change w.context) = w.context) (h : o = (w.move change).perform v t) :
    o.move back = w.perform v t := by
  subst h
  show Outcome.mk ⟨back (change w.context), v.replay t.events w.state⟩ t.error = _
  rw [hback]
  rfl

theorem inSelectionSet_eq {s : SelectionSet} {inside : Walker σ → Outcome σ} {t : Trace}
    {w : Walker σ}
    (h : ∀ w', w'.context = w.context.openSelection → inside w' = w'.perform v t) :
    w.inSelectionSet v s inside =
      w.perform v (if w.context.depth ≥ w.context.schema.limits.maxDepth
        then .broken (.depthLimitExceeded w.context.schema.limits.maxDepth)
        else .around w.context.openSelection (.selectionSet s) t) := by
  unfold inSelectionSet
  by_cases hdepth : w.context.depth ≥ w.context.schema.limits.maxDepth
  · simp only [hdepth, if_true]
    rfl
  · simp only [hdepth, if_false]
    refine moved_eq (w.context.closeSelection_openSelection) ?_
    exact enclosed_eq inside fun w' hw' => h w' hw'

mutual

theorem selectionSet_eq (v : Visitor σ) : ∀ (s : SelectionSet) (w : Walker σ),
    selectionSet v s w = w.perform v (s.trace w.context)
  | ⟨position, items⟩, w => by
      rw [selectionSet, SelectionSet.trace]
      exact inSelectionSet_eq fun w' hw' => by rw [selections_eq v items w', hw']

theorem selections_eq (v : Visitor σ) : ∀ (items : List Selection) (w : Walker σ),
    selections v items w = w.perform v (traceOfSelections w.context items)
  | [], _ => rfl
  | item :: rest, w => by
      rw [selections, traceOfSelections, selection_eq v item w]
      exact perform_andThen fun w' hw' => by rw [selections_eq v rest w', hw']

theorem field_eq (v : Visitor σ) : ∀ (f : Field) (w : Walker σ),
    field v f w = w.perform v (f.trace w.context)
  | ⟨position, responseAlias, name, args, ds, some s⟩, w => by
      rw [field, Field.trace]
      refine moved_eq rfl (enclosed_eq
        (fun w => selectionSet v s ((w.arguments v args).directives v ds)) fun w' hw' => ?_)
      rw [context_move] at hw'
      rw [prepared_eq, hw']
      exact after_replay fun w'' hw'' => by rw [selectionSet_eq v s w'', hw'', hw']
  | ⟨position, responseAlias, name, args, ds, none⟩, w => by
      rw [field, Field.trace]
      refine moved_eq rfl (enclosed_eq
        (fun w => .done ((w.arguments v args).directives v ds)) fun w' hw' => ?_)
      rw [context_move] at hw'
      rw [prepared_eq, hw']
      exact after_replay fun w'' _ => rfl

theorem inlineFragment_eq (v : Visitor σ) : ∀ (i : InlineFragment) (w : Walker σ),
    inlineFragment v i w = w.perform v (i.trace w.context)
  | ⟨position, condition, ds, selected⟩, w => by
      rw [inlineFragment, InlineFragment.trace]
      refine moved_eq rfl (enclosed_eq
        (fun w => selectionSet v selected (w.directives v ds)) fun w' hw' => ?_)
      rw [context_move] at hw'
      rw [directives_eq, hw']
      exact after_replay fun w'' hw'' => by rw [selectionSet_eq v selected w'', hw'', hw']

theorem selection_eq (v : Visitor σ) : ∀ (item : Selection) (w : Walker σ),
    selection v item w = w.perform v (item.trace w.context)
  | .field f, w => by
      rw [selection, Selection.trace, field_eq v f w]
  | .spread s, w => by
      rw [selection, Selection.trace, around_eq fun w' hw' => (directives_eq s.directives w').trans
        (by rw [hw'])]
      rfl
  | .inlineFragment i, w => by
      rw [selection, Selection.trace, inlineFragment_eq v i w]

end

theorem operation_eq (o : Operation) (w : Walker σ) :
    operation v o w = w.perform v (o.trace w.context) := by
  unfold operation Operation.trace
  cases w.context.schema.root? o.kind with
  | none => rfl
  | some root =>
      refine moved_eq rfl (enclosed_eq (fun w => selectionSet v o.selectionSet
        ((w.directives v o.directives).variableDefinitions v o.variables)) fun w' hw' => ?_)
      rw [context_move] at hw'
      rw [directives_eq, variableDefinitions_eq, context_replay, replay_replay, hw']
      exact after_replay fun w'' hw'' => by rw [selectionSet_eq v o.selectionSet w'', hw'', hw']

theorem fragment_eq (f : Fragment) (w : Walker σ) :
    fragment v f w = w.perform v (f.trace w.context) := by
  refine moved_eq rfl (enclosed_eq
    (fun w => selectionSet v f.selectionSet (w.directives v f.directives)) fun w' hw' => ?_)
  rw [context_move] at hw'
  rw [directives_eq, hw']
  exact after_replay fun w'' hw'' => by rw [selectionSet_eq v f.selectionSet w'', hw'', hw']

theorem definitions_eq (ds : List Definition) (w : Walker σ) :
    definitions v ds w = w.perform v (traceOfDefinitions w.context ds) := by
  induction ds generalizing w with
  | nil => rfl
  | cons d rest ih =>
      cases d with
      | operation o =>
          rw [definitions, operation_eq]
          exact perform_andThen fun w' hw' => by rw [ih w', hw']
      | fragment f =>
          rw [definitions, fragment_eq]
          exact perform_andThen fun w' hw' => by rw [ih w', hw']

end Walker

/-- **A walk is the replay of its trace.** -/
theorem Document.walk_eq {σ : Type} (v : Visitor σ) (d : Document) (w : Walker σ) :
    d.walk v w = w.perform v (d.trace w.context) :=
  Walker.enclosed_eq (Walker.definitions v d.definitions) fun w' hw' => by
    rw [Walker.definitions_eq, hw']

end TypedQuery
