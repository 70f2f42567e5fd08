import TypedQuery.Proofs.Walk.Places

/-!
# Where a walk stops

A walk that starts afresh counts the selection sets that are open and stops where one more would be
beyond the limit. So what a definition needs is how deep its selection sets nest, and nothing else
about it matters: not the types and fields, and not the visitor.

* `SelectionSet.nesting` -- **how deep selection sets nest**, the outermost being one;
* `SelectionSet.error_trace` -- a selection set breaks a walk off if its nesting does not fit
  between what is open and the limit;
* `Definition.violation?`, `Definition.Fits` -- what is wrong with a definition, and when nothing
  is;
* `Trace.Raised` -- a trace under a higher limit: the same one, or one that goes on where the other
  is broken off; `SelectionSet.raised` -- **so it is for selection sets**;
* `Document.walk_stops` -- **a walk stops at the first definition that does not fit**, and a higher
  limit only adds to what it shows.
-/

namespace TypedQuery

/-! ## 1. Nesting -/

mutual

/-- **How deep selection sets nest**: one more than those inside. -/
def SelectionSet.nesting : SelectionSet → Nat
  | ⟨_, items⟩ => nestingOfSelections items + 1

/-- The nesting of the deepest item. -/
def nestingOfSelections : List Selection → Nat
  | [] => 0
  | item :: rest => max item.nesting (nestingOfSelections rest)

/-- The nesting of the selection set of a field. -/
def Field.nesting : Field → Nat
  | ⟨_, _, _, _, _, some s⟩ => s.nesting
  | ⟨_, _, _, _, _, none⟩ => 0

/-- The nesting of the selection set of a fragment in place. -/
def InlineFragment.nesting : InlineFragment → Nat
  | ⟨_, _, _, selected⟩ => selected.nesting

/-- The nesting inside one item. The fragment that a spread names is not looked into. -/
def Selection.nesting : Selection → Nat
  | .field f => f.nesting
  | .spread _ => 0
  | .inlineFragment i => i.nesting

end

/-! ## 2. Where a trace is broken off -/

/-- What breaks a walk off that opens so many selection sets more. -/
def Context.beyond? (c : Context) (levels : Nat) : Option ResolutionError :=
  if c.depth + levels ≤ c.schema.limits.maxDepth then none
  else some (.depthLimitExceeded c.schema.limits.maxDepth)

namespace Context

variable {c : Context}

theorem beyond?_zero (h : c.depth ≤ c.schema.limits.maxDepth) : c.beyond? 0 = none :=
  if_pos h

/-- Of two parts the deeper one decides. -/
theorem beyond?_max (m n : Nat) : c.beyond? (max m n) = (c.beyond? m).or (c.beyond? n) := by
  unfold beyond?
  by_cases hm : c.depth + m ≤ c.schema.limits.maxDepth
  · by_cases hn : c.depth + n ≤ c.schema.limits.maxDepth
    · have hmax : c.depth + max m n ≤ c.schema.limits.maxDepth := by omega
      rw [if_pos hm, if_pos hn, if_pos hmax]
      rfl
    · have hmax : ¬ c.depth + max m n ≤ c.schema.limits.maxDepth := by omega
      rw [if_pos hm, if_neg hn, if_neg hmax]
      rfl
  · have hmax : ¬ c.depth + max m n ≤ c.schema.limits.maxDepth := by omega
    rw [if_neg hm, if_neg hmax]
    rfl

end Context

namespace Trace

theorem error_andThen (t t' : Trace) : (t.andThen t').error = t.error.or t'.error := by
  obtain ⟨events, error⟩ := t
  cases error <;> rfl

theorem error_around (c : Context) (node : Node) (t : Trace) :
    (around c node t).error = t.error := by
  unfold around
  rw [error_andThen, error_andThen]
  exact Option.or_none

end Trace

mutual

/-- **A selection set breaks a walk off if its nesting does not fit** between what is open and the
    limit. -/
theorem SelectionSet.error_trace : ∀ (s : SelectionSet) (c : Context),
    (s.trace c).error = c.beyond? s.nesting
  | ⟨position, items⟩, c => by
      rw [SelectionSet.trace, SelectionSet.nesting]
      by_cases hdepth : c.depth ≥ c.schema.limits.maxDepth
      · have hbeyond : ¬ c.depth + (nestingOfSelections items + 1) ≤ c.schema.limits.maxDepth := by
          omega
        simp only [hdepth, if_true]
        exact (if_neg hbeyond).symm
      · simp only [hdepth, if_false]
        have hopen : c.openSelection.depth ≤ c.openSelection.schema.limits.maxDepth :=
          Nat.succ_le_of_lt (Nat.lt_of_not_ge hdepth)
        rw [Trace.error_around, error_traceOfSelections items _ hopen]
        -- the set that is opened is one of the levels
        show (if c.depth + 1 + nestingOfSelections items ≤ _ then none else _) = _
        rw [Nat.add_right_comm]
        rfl

theorem error_traceOfSelections : ∀ (items : List Selection) (c : Context),
    c.depth ≤ c.schema.limits.maxDepth →
    (traceOfSelections c items).error = c.beyond? (nestingOfSelections items)
  | [], _, h => (Context.beyond?_zero h).symm
  | item :: rest, c, h => by
      rw [traceOfSelections, nestingOfSelections, Trace.error_andThen,
        Selection.error_trace item c h, error_traceOfSelections rest c h, Context.beyond?_max]

theorem Field.error_trace : ∀ (f : Field) (c : Context), c.depth ≤ c.schema.limits.maxDepth →
    (f.trace c).error = c.beyond? f.nesting
  | ⟨_, _, _, _, _, some s⟩, c, _ => by
      rw [Field.trace, Trace.error_around, Trace.error_andThen]
      exact SelectionSet.error_trace s _
  | ⟨_, _, _, _, _, none⟩, c, h => by
      rw [Field.trace, Trace.error_around, Trace.error_andThen]
      exact (Context.beyond?_zero h).symm

theorem InlineFragment.error_trace : ∀ (i : InlineFragment) (c : Context),
    (i.trace c).error = c.beyond? i.nesting
  | ⟨_, _, _, selected⟩, c => by
      rw [InlineFragment.trace, Trace.error_around, Trace.error_andThen]
      exact SelectionSet.error_trace selected _

theorem Selection.error_trace : ∀ (item : Selection) (c : Context),
    c.depth ≤ c.schema.limits.maxDepth → (item.trace c).error = c.beyond? item.nesting
  | .field f, c, h => Field.error_trace f c h
  | .spread _, _, h => (Context.beyond?_zero h).symm
  | .inlineFragment i, c, _ => InlineFragment.error_trace i c

end

/-! ## 3. Definitions -/

/-- What breaks a walk off at a selection set that nothing encloses. -/
def Schema.tooDeep? (s : Schema) (selected : SelectionSet) : Option ResolutionError :=
  if selected.nesting ≤ s.limits.maxDepth then none
  else some (.depthLimitExceeded s.limits.maxDepth)

theorem Schema.tooDeep?_eq_none_iff {s : Schema} {selected : SelectionSet} :
    s.tooDeep? selected = none ↔ selected.nesting ≤ s.limits.maxDepth := by
  unfold tooDeep?
  split <;> simp_all

namespace Definition

/-- The selection set of a definition. -/
def selectionSet : Definition → SelectionSet
  | .operation o => o.selectionSet
  | .fragment f => f.selectionSet

/-- **What breaks a walk off at a definition**: there is no root for an operation of its kind, or
    its selection sets nest beyond the limit. -/
def violation? (s : Schema) : Definition → Option ResolutionError
  | .operation o =>
    match s.root? o.kind with
    | none => some (.unsupportedOperation o.kind.keyword)
    | some _ => s.tooDeep? o.selectionSet
  | .fragment f => s.tooDeep? f.selectionSet

/-- **A definition fits**: there is a root for it if it is an operation, and its selection sets nest
    within the limit. -/
structure Fits (s : Schema) (definition : Definition) : Prop where
  root : ∀ o, definition = .operation o → (s.root? o.kind).isSome = true
  within : definition.selectionSet.nesting ≤ s.limits.maxDepth

variable {s : Schema}

/-- Nothing breaks a walk off at a definition that fits, and at no other. -/
theorem violation?_eq_none_iff {definition : Definition} :
    definition.violation? s = none ↔ definition.Fits s := by
  cases definition with
  | fragment f =>
      refine Schema.tooDeep?_eq_none_iff.trans ⟨fun h => ⟨fun o ho => ?_, h⟩, Fits.within⟩
      cases ho
  | operation o =>
      rw [violation?]
      cases hroot : s.root? o.kind with
      | none =>
          refine ⟨fun h => (by cases h), fun h => ?_⟩
          have hsome := h.root o rfl
          rw [hroot] at hsome
          cases hsome
      | some root =>
          refine Schema.tooDeep?_eq_none_iff.trans ⟨fun h => ⟨fun o' ho' => ?_, h⟩, Fits.within⟩
          cases ho'
          rw [hroot]
          rfl

/-- A definition breaks a walk off that starts afresh as it violates the schema. -/
theorem error_trace (definition : Definition) {c : Context} (hdepth : c.depth = 0) :
    (definition.trace c).error = definition.violation? c.schema := by
  have hselected : ∀ (selected : SelectionSet) (t : Option SchemaType),
      (selected.trace (c.pushType t)).error = c.schema.tooDeep? selected := by
    intro selected t
    rw [SelectionSet.error_trace]
    show (if c.depth + selected.nesting ≤ _ then none else _) = _
    rw [hdepth, Nat.zero_add]
    rfl
  cases definition with
  | fragment f =>
      show (f.trace c).error = _
      rw [Fragment.trace, Trace.error_around, Trace.error_andThen]
      exact hselected f.selectionSet _
  | operation o =>
      show (o.trace c).error = _
      rw [Operation.trace, violation?]
      cases c.schema.root? o.kind with
      | none => rfl
      | some root =>
          show (Trace.around _ _ _).error = _
          rw [Trace.error_around, Trace.error_andThen]
          exact hselected o.selectionSet _

end Definition

theorem error_traceOfDefinitions (definitions : List Definition) {c : Context}
    (hdepth : c.depth = 0) :
    (traceOfDefinitions c definitions).error =
      definitions.findSome? (Definition.violation? c.schema) := by
  induction definitions with
  | nil => rfl
  | cons definition rest ih =>
      rw [traceOfDefinitions, Trace.error_andThen, definition.error_trace hdepth, ih,
        List.findSome?_cons]
      cases definition.violation? c.schema <;> rfl

/-! ## 4. A higher limit -/

/-- The same place under another limit. -/
def Context.withMaxDepth (c : Context) (m : Nat) : Context :=
  { c with schema := c.schema.withMaxDepth m }

/-- The same showing under another limit. -/
def Event.withMaxDepth (m : Nat) (e : Event) : Event :=
  { e with context := e.context.withMaxDepth m }

section Events

variable {m : Nat}

theorem Event.around_withMaxDepth (c : Context) (node : Node) (inside : List Event) :
    Event.around (c.withMaxDepth m) node (inside.map (Event.withMaxDepth m)) =
      (Event.around c node inside).map (Event.withMaxDepth m) := by
  simp only [Event.around, List.map_cons, List.map_append]
  rfl

/-- Nodes each of which is shown alike under both limits. -/
theorem flatMap_withMaxDepth {α : Type} {events : Context → α → List Event}
    (h : ∀ c a, events (c.withMaxDepth m) a = (events c a).map (Event.withMaxDepth m))
    (c : Context) (as : List α) :
    as.flatMap (events (c.withMaxDepth m)) =
      (as.flatMap (events c)).map (Event.withMaxDepth m) := by
  induction as with
  | nil => rfl
  | cons a rest ih => rw [List.flatMap_cons, List.flatMap_cons, List.map_append, h, ih]

mutual

theorem Literal.events_withMaxDepth : ∀ (l : Literal) (c : Context),
    l.events (c.withMaxDepth m) = (l.events c).map (Event.withMaxDepth m)
  | .null, _ => rfl
  | .enum _, _ => rfl
  | .variable _, _ => rfl
  | .int _, _ => rfl
  | .float _, _ => rfl
  | .string _, _ => rfl
  | .boolean _, _ => rfl
  | .list items, c => by
      rw [Literal.events, Literal.events, ← Event.around_withMaxDepth]
      exact congrArg _ (events_withMaxDepth_items items (c.pushInput c.itemType))
  | .object entries, c => by
      rw [Literal.events, Literal.events, ← Event.around_withMaxDepth]
      exact congrArg _ (events_withMaxDepth_entries entries c)

theorem events_withMaxDepth_items : ∀ (items : List Literal) (c : Context),
    Literal.eventsOfItems (c.withMaxDepth m) items =
      (Literal.eventsOfItems c items).map (Event.withMaxDepth m)
  | [], _ => rfl
  | item :: rest, c => by
      rw [Literal.eventsOfItems, Literal.eventsOfItems, List.map_append,
        Literal.events_withMaxDepth item c, events_withMaxDepth_items rest c]

theorem events_withMaxDepth_entries : ∀ (entries : List (String × Literal)) (c : Context),
    Literal.eventsOfEntries (c.withMaxDepth m) entries =
      (Literal.eventsOfEntries c entries).map (Event.withMaxDepth m)
  | [], _ => rfl
  | (key, value) :: rest, c => by
      rw [Literal.eventsOfEntries, Literal.eventsOfEntries, List.map_append,
        events_withMaxDepth_entries rest c, ← Event.around_withMaxDepth,
        ← Literal.events_withMaxDepth value]
      rfl

end

theorem Argument.events_withMaxDepth (c : Context) (a : Argument) :
    a.events (c.withMaxDepth m) = (a.events c).map (Event.withMaxDepth m) := by
  rw [Argument.events, Argument.events, ← Event.around_withMaxDepth,
    ← Literal.events_withMaxDepth a.value]
  rfl

theorem Directive.events_withMaxDepth (c : Context) (d : Directive) :
    d.events (c.withMaxDepth m) = (d.events c).map (Event.withMaxDepth m) := by
  rw [Directive.events, Directive.events, ← Event.around_withMaxDepth,
    ← flatMap_withMaxDepth Argument.events_withMaxDepth]
  rfl

theorem VariableDefinition.events_withMaxDepth (c : Context) (d : VariableDefinition) :
    d.events (c.withMaxDepth m) = (d.events c).map (Event.withMaxDepth m) := by
  rw [VariableDefinition.events, VariableDefinition.events, ← Event.around_withMaxDepth]
  cases d.default with
  | none => rfl
  | some default =>
      exact congrArg _ (Literal.events_withMaxDepth default
        (c.pushInput (c.schema.resolve .input d.type)))

end Events

/-- **A trace under a higher limit**: the same events, or at least those up to the place where the
    other is broken off. -/
inductive Trace.Raised (m : Nat) : Trace → Trace → Prop
  | through (events : List Event) :
      Raised m (.done events) (.done (events.map (Event.withMaxDepth m)))
  | beyond {events : List Event} {e : ResolutionError} {high : Trace}
      (h : events.map (Event.withMaxDepth m) <+: high.events) : Raised m ⟨events, some e⟩ high

namespace Trace.Raised

variable {m : Nat} {low low' high high' : Trace}

/-- What is shown under the lower limit is shown first under the higher one. -/
theorem isPrefix (h : Raised m low high) :
    low.events.map (Event.withMaxDepth m) <+: high.events := by
  cases h with
  | through events => exact List.prefix_rfl
  | beyond h => exact h

/-- If the lower limit lets the walk through, the higher one shows the same. -/
theorem eq_of_through (h : Raised m low high) (hlow : low.error = none) :
    high = .done (low.events.map (Event.withMaxDepth m)) := by
  cases h with
  | through events => rfl
  | beyond _ => cases hlow

theorem andThen (h : Raised m low high) (h' : Raised m low' high') :
    Raised m (low.andThen low') (high.andThen high') := by
  cases h with
  | through events =>
      cases h' with
      | through events' =>
          have hboth := through (m := m) (events ++ events')
          rw [List.map_append] at hboth
          exact hboth
      | beyond hfirst =>
          refine .beyond ?_
          rw [List.map_append]
          exact (List.prefix_append_right_inj _).2 hfirst
  | @beyond events e _ hfirst =>
      refine .beyond (hfirst.trans ?_)
      obtain ⟨shown, error⟩ := high
      cases error with
      | none => exact List.prefix_append shown _
      | some _ => exact List.prefix_rfl

theorem around (c : Context) (node : Node) (h : Raised m low high) :
    Raised m (Trace.around c node low) (Trace.around (c.withMaxDepth m) node high) :=
  ((through [⟨.enter, node, c⟩]).andThen h).andThen (through [⟨.leave, node, c⟩])

/-- Events that are shown alike under both limits. -/
theorem of_events {events events' : List Event}
    (h : events' = events.map (Event.withMaxDepth m)) : Raised m (.done events) (.done events') :=
  h ▸ .through events

end Trace.Raised

section Raised

variable {m : Nat}

mutual

/-- **Under a higher limit a selection set shows the same, or goes on.** -/
theorem SelectionSet.raised : ∀ (s : SelectionSet) (c : Context), c.schema.limits.maxDepth ≤ m →
    Trace.Raised m (s.trace c) (s.trace (c.withMaxDepth m))
  | ⟨position, items⟩, c, hm => by
      rw [SelectionSet.trace]
      by_cases hdepth : c.depth ≥ c.schema.limits.maxDepth
      · simp only [hdepth, if_true]
        exact .beyond List.nil_prefix
      · have hhigh : ¬ (c.withMaxDepth m).depth ≥
            (c.withMaxDepth m).schema.limits.maxDepth := by
          show ¬ c.depth ≥ m
          omega
        rw [SelectionSet.trace]
        simp only [hdepth, hhigh, if_false]
        exact .around _ _ (raised_selections items c.openSelection hm)

theorem raised_selections : ∀ (items : List Selection) (c : Context),
    c.schema.limits.maxDepth ≤ m →
    Trace.Raised m (traceOfSelections c items) (traceOfSelections (c.withMaxDepth m) items)
  | [], _, _ => .through []
  | item :: rest, c, hm => by
      rw [traceOfSelections, traceOfSelections]
      exact (Selection.raised item c hm).andThen (raised_selections rest c hm)

theorem Field.raised : ∀ (f : Field) (c : Context), c.schema.limits.maxDepth ≤ m →
    Trace.Raised m (f.trace c) (f.trace (c.withMaxDepth m))
  | ⟨_, _, name, args, ds, some s⟩, c, hm => by
      rw [Field.trace, Field.trace]
      refine .around _ _ (.andThen (.of_events ?_) (SelectionSet.raised s _ hm))
      rw [List.map_append, ← flatMap_withMaxDepth Argument.events_withMaxDepth,
        ← flatMap_withMaxDepth Directive.events_withMaxDepth]
      rfl
  | ⟨_, _, name, args, ds, none⟩, c, hm => by
      rw [Field.trace, Field.trace]
      refine .around _ _ (.andThen (.of_events ?_) (.through []))
      rw [List.map_append, ← flatMap_withMaxDepth Argument.events_withMaxDepth,
        ← flatMap_withMaxDepth Directive.events_withMaxDepth]
      rfl

theorem InlineFragment.raised : ∀ (i : InlineFragment) (c : Context),
    c.schema.limits.maxDepth ≤ m →
    Trace.Raised m (i.trace c) (i.trace (c.withMaxDepth m))
  | ⟨_, condition, ds, selected⟩, c, hm => by
      rw [InlineFragment.trace, InlineFragment.trace]
      refine .around _ _ (.andThen (.of_events ?_) (SelectionSet.raised selected _ hm))
      rw [← flatMap_withMaxDepth Directive.events_withMaxDepth]
      rfl

theorem Selection.raised : ∀ (item : Selection) (c : Context), c.schema.limits.maxDepth ≤ m →
    Trace.Raised m (item.trace c) (item.trace (c.withMaxDepth m))
  | .field f, c, hm => Field.raised f c hm
  | .spread s, c, _ => by
      rw [Selection.trace, Selection.trace]
      refine .of_events ?_
      rw [← Event.around_withMaxDepth, ← flatMap_withMaxDepth Directive.events_withMaxDepth]
  | .inlineFragment i, c, hm => InlineFragment.raised i c hm

end

theorem Definition.raised (definition : Definition) {c : Context}
    (hm : c.schema.limits.maxDepth ≤ m) :
    Trace.Raised m (definition.trace c) (definition.trace (c.withMaxDepth m)) := by
  cases definition with
  | fragment f =>
      refine .around _ _ (.andThen (.of_events ?_) (SelectionSet.raised f.selectionSet _ hm))
      rw [← flatMap_withMaxDepth Directive.events_withMaxDepth]
      rfl
  | operation o =>
      show Trace.Raised m (o.trace c) (o.trace (c.withMaxDepth m))
      have hsame : (c.withMaxDepth m).schema.root? o.kind = c.schema.root? o.kind := rfl
      unfold Operation.trace
      rw [hsame]
      cases c.schema.root? o.kind with
      | none => exact .beyond List.nil_prefix
      | some root =>
          refine .around _ _ (.andThen (.of_events ?_) (SelectionSet.raised o.selectionSet _ hm))
          rw [List.map_append, ← flatMap_withMaxDepth Directive.events_withMaxDepth,
            ← flatMap_withMaxDepth VariableDefinition.events_withMaxDepth]
          rfl

theorem Document.raised (d : Document) {c : Context} (hm : c.schema.limits.maxDepth ≤ m) :
    Trace.Raised m (d.trace c) (d.trace (c.withMaxDepth m)) := by
  refine .around c _ ?_
  induction d.definitions with
  | nil => exact .through []
  | cons definition rest ih => exact (definition.raised hm).andThen ih

end Raised

/-! ## 5. Walks -/

/-- What a walk that starts afresh shows, whoever is shown it. -/
def Document.shown (s : Schema) (d : Document) : List Event :=
  (d.walk Visitor.recorder ⟨Context.start s d, []⟩).walker.state

/-- **A walk stops at the first definition that does not fit**, at an operation without a root or
    at selection sets that nest beyond the limit, and it goes through if there is none. The visitor
    has no part in it and is shown the same in any case. Under a higher limit the walk shows the
    same, and if it stopped, perhaps more after it. -/
theorem Document.walk_stops (s : Schema) (d : Document) :
    (∀ {σ : Type} (v : Visitor σ) (x : σ),
      (d.walk v ⟨Context.start s d, x⟩).error =
          d.definitions.findSome? (Definition.violation? s) ∧
        (d.walk v ⟨Context.start s d, x⟩).walker.state = v.replay (d.shown s) x) ∧
    (d.definitions.findSome? (Definition.violation? s) = none ↔
      ∀ definition ∈ d.definitions, definition.Fits s) ∧
    ∀ m, s.limits.maxDepth ≤ m →
      (d.shown s).map (Event.withMaxDepth m) <+: d.shown (s.withMaxDepth m) ∧
      (d.definitions.findSome? (Definition.violation? s) = none →
        d.shown (s.withMaxDepth m) = (d.shown s).map (Event.withMaxDepth m)) := by
  have hshown : ∀ s : Schema, d.shown s = (d.trace (Context.start s d)).events :=
    fun s => d.state_recorder (Context.start s d)
  have herror : (d.trace (Context.start s d)).error =
      d.definitions.findSome? (Definition.violation? s) := by
    rw [Document.trace, Trace.error_around]
    exact error_traceOfDefinitions d.definitions rfl
  refine ⟨fun v x => ?_, ?_, fun m hm => ?_⟩
  · rw [Document.walk_eq, hshown]
    exact ⟨herror, rfl⟩
  · rw [List.findSome?_eq_none_iff]
    exact forall₂_congr fun definition _ => Definition.violation?_eq_none_iff
  · have hraised := d.raised (c := Context.start s d) hm
    rw [hshown, hshown, ← herror]
    refine ⟨hraised.isPrefix, fun hthrough => ?_⟩
    exact congrArg Trace.events (hraised.eq_of_through hthrough)

/-- A query with two selection sets, a mutation, for which there is no root, and a fragment. A limit
    of one stops the walk in the query, a limit of two at the mutation. -/
theorem Document.walk_stops_points :
    let s := Schema.points.withMaxDepth 1
    let d : Document := ⟨[
      .operation ⟨⟨1, 1⟩, .query, none, [], [], ⟨⟨1, 1⟩, [
        .field ⟨⟨1, 3⟩, none, "unknown", [], [], some ⟨⟨1, 11⟩, []⟩⟩]⟩⟩,
      .operation ⟨⟨2, 1⟩, .mutation, none, [], [], ⟨⟨2, 10⟩, []⟩⟩,
      .fragment ⟨⟨3, 1⟩, "f", "Unknown", [], ⟨⟨3, 20⟩, []⟩⟩]⟩
    let v : Visitor Nat := fun _ _ _ shown => shown + 1
    (d.walk v ⟨Context.start s d, 0⟩).error = some (.depthLimitExceeded 1) ∧
      (d.walk v ⟨Context.start (s.withMaxDepth 2) d, 0⟩).error =
        some (.unsupportedOperation "mutation") ∧
      s.limits.maxDepth ≤ 2 ∧ (d.shown s).length = 4 ∧ (d.shown (s.withMaxDepth 2)).length = 9 ∧
      (d.shown s).map (Event.withMaxDepth 2) <+: d.shown (s.withMaxDepth 2) := by
  intro s d v
  have hm : s.limits.maxDepth ≤ 2 := by decide
  refine ⟨?_, ?_, hm, rfl, rfl, ((walk_stops s d).2.2 2 hm).1⟩
  · exact ((walk_stops s d).1 v 0).1.trans rfl
  · exact ((walk_stops (s.withMaxDepth 2) d).1 v 0).1.trans rfl

end TypedQuery
