import TypedQuery.Proofs.Walk.Trace

/-!
# Fields as a walk shows them

What the schema says of each field of a document, read off the document without any walk: the type
that encloses it, what that type has under its name, and the type of its values.

* the type of an operation is its root, that of a fragment the output type of its condition; a
  fragment in place without a condition has the type of what encloses it; a field has its own;
* `Sighting` -- a field with what the schema says of it; `Document.sightings` -- all fields in the
  order in which they are entered and left, each around the fields on it;
* `Document.fieldsEntered`, `Document.fieldsLeft` -- the fields in either order;
* `Document.trace_shows` -- **a walk that goes through shows the fields so**: in this order, and
  each with these types in its context.
-/

namespace TypedQuery

/-! ## 1. Fields of a document -/

/-- A field with what the schema says of it. -/
structure Sighting where
  field : Field
  /-- The type of what encloses the field, if it is known. -/
  enclosing : Option SchemaType
  /-- The field of the enclosing type. -/
  descriptor : Option FieldType
  /-- The type of the values of the field. -/
  type : Option SchemaType

/-- The type of a field's values; types for output go first. -/
def Schema.typeOfField (s : Schema) (f : FieldType) : Option SchemaType :=
  (s.resolve .output f.type).or (s.resolve .input f.type)

/-- What the schema says of a field inside an enclosing type. -/
def Sighting.of (s : Schema) (enclosing : Option SchemaType) (f : Field) : Sighting :=
  let descriptor := enclosing.bind (s.field? · f.name)
  ⟨f, enclosing, descriptor, descriptor.bind s.typeOfField⟩

/-- The type of a condition: the output type of the name. -/
def Schema.conditionType (s : Schema) (name : String) : Option SchemaType :=
  (s.named? .output name).map (.named · false)

mutual

/-- The fields of a selection set inside an enclosing type, entered and left. -/
def SelectionSet.sightings (s : Schema) (enclosing : Option SchemaType) :
    SelectionSet → List (Phase × Sighting)
  | ⟨_, items⟩ => sightingsOfSelections s enclosing items

/-- The fields of the items of a selection set. -/
def sightingsOfSelections (s : Schema) (enclosing : Option SchemaType) :
    List Selection → List (Phase × Sighting)
  | [] => []
  | item :: rest => item.sightings s enclosing ++ sightingsOfSelections s enclosing rest

/-- A field, around the fields on it. -/
def Field.sightings (s : Schema) (enclosing : Option SchemaType) :
    Field → List (Phase × Sighting)
  | ⟨position, responseAlias, name, args, ds, selected⟩ =>
    let x := Sighting.of s enclosing ⟨position, responseAlias, name, args, ds, selected⟩
    (.enter, x) ::
      ((match selected with
        | some set => set.sightings s x.type
        | none => []) ++ [(.leave, x)])

/-- The fields of a fragment in place. -/
def InlineFragment.sightings (s : Schema) (enclosing : Option SchemaType) :
    InlineFragment → List (Phase × Sighting)
  | ⟨_, some name, _, selected⟩ => selected.sightings s (s.conditionType name)
  | ⟨_, none, _, selected⟩ => selected.sightings s enclosing

/-- The fields of one item of a selection set; a spread has none of its own. -/
def Selection.sightings (s : Schema) (enclosing : Option SchemaType) :
    Selection → List (Phase × Sighting)
  | .field f => f.sightings s enclosing
  | .spread _ => []
  | .inlineFragment i => i.sightings s enclosing

end

/-- The fields of a definition. -/
def Definition.sightings (s : Schema) : Definition → List (Phase × Sighting)
  | .operation o =>
    o.selectionSet.sightings s ((s.root? o.kind).map fun root => .named (.composite root) false)
  | .fragment f => f.selectionSet.sightings s (s.conditionType f.typeCondition)

namespace Document

/-- **The fields of a document, entered and left.** -/
def sightings (d : Document) (s : Schema) : List (Phase × Sighting) :=
  d.definitions.flatMap (Definition.sightings s)

/-- The fields in the order in which they are entered. -/
def fieldsEntered (d : Document) (s : Schema) : List Sighting :=
  (d.sightings s).filterMap fun p => if p.1 = .enter then some p.2 else none

/-- The fields in the order in which they are left. -/
def fieldsLeft (d : Document) (s : Schema) : List Sighting :=
  (d.sightings s).filterMap fun p => if p.1 = .leave then some p.2 else none

end Document

/-! ## 2. Fields among events -/

/-- What the context says of a field that is shown. -/
def Event.sighting? (e : Event) : Option (Phase × Sighting) :=
  match e.node with
  | .field f => some (e.phase, ⟨f, e.context.parentType, e.context.currentField,
      e.context.currentType⟩)
  | _ => none

/-- The fields that events show. -/
def sightingsIn (events : List Event) : List (Phase × Sighting) :=
  events.filterMap Event.sighting?

theorem sightingsIn_append (first second : List Event) :
    sightingsIn (first ++ second) = sightingsIn first ++ sightingsIn second :=
  List.filterMap_append

/-- Whether a node is a field. -/
def Node.isField : Node → Bool
  | .field _ => true
  | _ => false

/-- A node that is no field shows what is inside. -/
theorem sightingsIn_around {c : Context} {node : Node} (hnode : node.isField = false)
    (inside : List Event) : sightingsIn (Event.around c node inside) = sightingsIn inside := by
  have hshown : ∀ phase, Event.sighting? ⟨phase, node, c⟩ = none := by
    intro phase
    cases node with
    | field f => cases hnode
    | _ => rfl
  unfold sightingsIn Event.around
  rw [List.filterMap_cons, hshown .enter, List.filterMap_append, List.filterMap_cons,
    hshown .leave, List.filterMap_nil, List.append_nil]

/-- Nodes without fields. -/
theorem sightingsIn_flatMap {α : Type} {events : α → List Event}
    (h : ∀ a, sightingsIn (events a) = []) (as : List α) :
    sightingsIn (as.flatMap events) = [] := by
  induction as with
  | nil => rfl
  | cons a as ih => rw [List.flatMap_cons, sightingsIn_append, h a, ih, List.append_nil]

mutual

/-- A literal has no fields. -/
theorem sightingsIn_literal : ∀ (l : Literal) (c : Context), sightingsIn (l.events c) = []
  | .null, _ => rfl
  | .enum _, _ => rfl
  | .variable _, _ => rfl
  | .int _, _ => rfl
  | .float _, _ => rfl
  | .string _, _ => rfl
  | .boolean _, _ => rfl
  | .list items, c => by
      rw [Literal.events, sightingsIn_around rfl]
      exact sightingsIn_items items _
  | .object entries, c => by
      rw [Literal.events, sightingsIn_around rfl]
      exact sightingsIn_entries entries c

theorem sightingsIn_items : ∀ (items : List Literal) (c : Context),
    sightingsIn (Literal.eventsOfItems c items) = []
  | [], _ => rfl
  | item :: rest, c => by
      rw [Literal.eventsOfItems, sightingsIn_append, sightingsIn_literal item c,
        sightingsIn_items rest c, List.append_nil]

theorem sightingsIn_entries : ∀ (entries : List (String × Literal)) (c : Context),
    sightingsIn (Literal.eventsOfEntries c entries) = []
  | [], _ => rfl
  | (key, value) :: rest, c => by
      rw [Literal.eventsOfEntries, sightingsIn_append,
        sightingsIn_around rfl, sightingsIn_literal value _,
        sightingsIn_entries rest c, List.append_nil]

end

theorem sightingsIn_argument (c : Context) (a : Argument) : sightingsIn (a.events c) = [] := by
  unfold Argument.events
  rw [sightingsIn_around rfl]
  exact sightingsIn_literal a.value _

theorem sightingsIn_directive (c : Context) (d : Directive) : sightingsIn (d.events c) = [] := by
  unfold Directive.events
  rw [sightingsIn_around rfl]
  exact sightingsIn_flatMap (sightingsIn_argument _) d.arguments

theorem sightingsIn_variableDefinition (c : Context) (d : VariableDefinition) :
    sightingsIn (d.events c) = [] := by
  unfold VariableDefinition.events
  rw [sightingsIn_around rfl]
  cases d.default with
  | none => rfl
  | some default => exact sightingsIn_literal default _

/-! ## 3. Fields of a trace -/

/-- **A trace that goes through shows these fields.** -/
def Trace.Shows (t : Trace) (fields : List (Phase × Sighting)) : Prop :=
  t.error = none → sightingsIn t.events = fields

namespace Trace

variable {t t' : Trace} {fields fields' : List (Phase × Sighting)}

theorem shows_done (events : List Event) : (done events).Shows (sightingsIn events) :=
  fun _ => rfl

/-- Events without fields. -/
theorem shows_quiet {events : List Event} (h : sightingsIn events = []) :
    (done events).Shows [] :=
  fun _ => h

theorem shows_broken (e : ResolutionError) : (broken e).Shows fields :=
  fun h => by cases h

/-- One part after another shows the fields of both. -/
theorem Shows.andThen (h : t.Shows fields) (h' : t'.Shows fields') :
    (t.andThen t').Shows (fields ++ fields') := by
  obtain ⟨events, error⟩ := t
  cases error with
  | some e => exact fun hnone => by cases hnone
  | none =>
      intro hnone
      show sightingsIn (events ++ t'.events) = _
      rw [sightingsIn_append, h rfl, h' hnone]

/-- A node that is no field shows the fields inside. -/
theorem Shows.around {c : Context} {node : Node} (hnode : node.isField = false)
    (h : t.Shows fields) : (Trace.around c node t).Shows fields := by
  have hshown : ∀ phase, (done [⟨phase, node, c⟩]).Shows [] := by
    intro phase _
    cases node with
    | field f => cases hnode
    | _ => rfl
  have hall := ((hshown .enter).andThen h).andThen (hshown .leave)
  rw [List.append_nil] at hall
  exact hall

/-- A field shows itself around the fields inside. -/
theorem Shows.field {c : Context} {f : Field} (h : t.Shows fields) :
    (Trace.around c (.field f) t).Shows
      ((.enter, ⟨f, c.parentType, c.currentField, c.currentType⟩) ::
        (fields ++ [(.leave, ⟨f, c.parentType, c.currentField, c.currentType⟩)])) :=
  ((shows_done [⟨.enter, .field f, c⟩]).andThen h).andThen (shows_done [⟨.leave, .field f, c⟩])

end Trace

theorem shows_directives (ds : List Directive) (c : Context) :
    (Trace.done (ds.flatMap (Directive.events c))).Shows [] :=
  Trace.shows_quiet (sightingsIn_flatMap (sightingsIn_directive c) ds)

/-- What stands on a field has no fields. -/
theorem shows_prepared (args : List Argument) (ds : List Directive) (c : Context) :
    (Trace.done (args.flatMap (Argument.events c) ++ ds.flatMap (Directive.events c))).Shows
      [] := by
  refine Trace.shows_quiet ?_
  rw [sightingsIn_append, sightingsIn_flatMap (sightingsIn_argument c) args,
    sightingsIn_flatMap (sightingsIn_directive c) ds, List.append_nil]

/-- What the walk knows of a field it goes into is what the schema says of it. -/
theorem Context.sighting_pushField (c : Context) (f : Field) :
    let found := c.selectedField f.name
    let inside := c.pushField found (found.bind c.fieldType)
    Sighting.mk f inside.parentType inside.currentField inside.currentType =
      Sighting.of c.schema c.currentType f := by
  intro found inside
  rw [parentType_pushField, currentField_pushField, currentType_pushField]
  rfl

mutual

/-- A selection set shows its fields. -/
theorem SelectionSet.shows : ∀ (s : SelectionSet) (c : Context),
    (s.trace c).Shows (s.sightings c.schema c.currentType)
  | ⟨position, items⟩, c => by
      rw [SelectionSet.trace, SelectionSet.sightings]
      by_cases hdepth : c.depth ≥ c.schema.limits.maxDepth
      · simp only [hdepth, if_true]
        exact Trace.shows_broken _
      · simp only [hdepth, if_false]
        exact (shows_selections items c.openSelection).around rfl

theorem shows_selections : ∀ (items : List Selection) (c : Context),
    (traceOfSelections c items).Shows (sightingsOfSelections c.schema c.currentType items)
  | [], _ => Trace.shows_done []
  | item :: rest, c => (Selection.shows item c).andThen (shows_selections rest c)

theorem Field.shows : ∀ (f : Field) (c : Context),
    (f.trace c).Shows (f.sightings c.schema c.currentType)
  | ⟨position, responseAlias, name, args, ds, some s⟩, c => by
      rw [Field.trace, Field.sightings, ← c.sighting_pushField]
      exact ((shows_prepared args ds _).andThen (SelectionSet.shows s _)).field
  | ⟨position, responseAlias, name, args, ds, none⟩, c => by
      rw [Field.trace, Field.sightings, ← c.sighting_pushField]
      exact ((shows_prepared args ds _).andThen (Trace.shows_done [])).field

theorem InlineFragment.shows : ∀ (i : InlineFragment) (c : Context),
    (i.trace c).Shows (i.sightings c.schema c.currentType)
  | ⟨position, some name, ds, selected⟩, c => by
      rw [InlineFragment.trace, InlineFragment.sightings]
      exact ((shows_directives ds _).andThen (SelectionSet.shows selected _)).around rfl
  | ⟨position, none, ds, selected⟩, c => by
      rw [InlineFragment.trace, InlineFragment.sightings]
      exact ((shows_directives ds _).andThen (SelectionSet.shows selected _)).around rfl

theorem Selection.shows : ∀ (item : Selection) (c : Context),
    (item.trace c).Shows (item.sightings c.schema c.currentType)
  | .field f, c => Field.shows f c
  | .spread s, c => by
      refine Trace.shows_quiet ?_
      rw [sightingsIn_around rfl]
      exact sightingsIn_flatMap (sightingsIn_directive c) s.directives
  | .inlineFragment i, c => InlineFragment.shows i c

end

theorem Definition.shows (d : Definition) (c : Context) :
    (d.trace c).Shows (d.sightings c.schema) := by
  cases d with
  | fragment f =>
      exact ((shows_directives f.directives _).andThen (SelectionSet.shows f.selectionSet _)).around
        rfl
  | operation o =>
      show (o.trace c).Shows (o.selectionSet.sightings c.schema
        ((c.schema.root? o.kind).map fun root => .named (.composite root) false))
      unfold Operation.trace
      cases c.schema.root? o.kind with
      | none => exact Trace.shows_broken _
      | some root =>
          have hprepared : ∀ c, (Trace.done (o.directives.flatMap (Directive.events c) ++
              o.variables.flatMap (VariableDefinition.events c))).Shows [] := by
            intro c
            refine Trace.shows_quiet ?_
            rw [sightingsIn_append, sightingsIn_flatMap (sightingsIn_directive c) o.directives,
              sightingsIn_flatMap (sightingsIn_variableDefinition c) o.variables,
              List.append_nil]
          exact ((hprepared _).andThen (SelectionSet.shows o.selectionSet _)).around rfl

/-- **A walk that goes through shows the fields of the document**, in order and each with its
    types. -/
theorem Document.trace_shows (d : Document) (c : Context) :
    (d.trace c).Shows (d.sightings c.schema) := by
  have hdefinitions : ∀ ds, (traceOfDefinitions c ds).Shows
      (ds.flatMap (Definition.sightings c.schema)) := by
    intro ds
    induction ds with
    | nil => exact Trace.shows_done []
    | cons d rest ih => exact (Definition.shows d c).andThen ih
  exact (hdefinitions d.definitions).around rfl

end TypedQuery
