import TypedQuery.Proofs.Validation.Defaults

/-!
# What accepted documents select

A document without complaints, and which of its fields may still be missing in the schema.

* `Document.Encloses` -- where the enclosing type of a field comes from: it is a root, the type of
  a condition, or the type of a field with a selection on it; `Document.exists_of_mem_sightings`
  -- **there is no other**;
* `Document.validate_eq_nil_iff` -- rules that only report accept together what each of them
  accepts; `Document.accepted_iff` -- the default rules accept what has no faults;
* `Document.selects_of_accepted` -- **an accepted document selects fields that exist**, unless a
  type condition names a type that has no fields; `Document.accepts_field_of_leaf` -- one that
  does.
-/

namespace TypedQuery

/-! ## 1. Type conditions -/

mutual

/-- The type conditions inside a selection set. -/
def SelectionSet.conditions : SelectionSet → List String
  | ⟨_, items⟩ => conditionsOfSelections items

/-- The type conditions inside the items of a selection set. -/
def conditionsOfSelections : List Selection → List String
  | [] => []
  | item :: rest => item.conditions ++ conditionsOfSelections rest

/-- The type conditions inside the selection on a field. -/
def Field.conditions : Field → List String
  | ⟨_, _, _, _, _, some selected⟩ => selected.conditions
  | ⟨_, _, _, _, _, none⟩ => []

/-- The type condition of a fragment in place, and those inside. -/
def InlineFragment.conditions : InlineFragment → List String
  | ⟨_, condition, _, selected⟩ => condition.toList ++ selected.conditions

/-- The type conditions of one item of a selection set. -/
def Selection.conditions : Selection → List String
  | .field f => f.conditions
  | .spread _ => []
  | .inlineFragment i => i.conditions

end

/-- The type conditions of a definition. -/
def Definition.conditions : Definition → List String
  | .operation o => o.selectionSet.conditions
  | .fragment f => f.typeCondition :: f.selectionSet.conditions

/-- **The type conditions of a document**, those of its fragments and of fragments in place. -/
def Document.typeConditions (d : Document) : List String :=
  d.definitions.flatMap Definition.conditions

/-! ## 2. Where enclosing types come from -/

/-- Something is selected on the field. -/
def Field.HasSelections (f : Field) : Prop :=
  ∃ selected, f.selectionSet = some selected ∧ selected.isEmpty = false

/-- Each sighting is that of a field inside an enclosing type with a property. -/
def Sighted (s : Schema) (encloses : Option SchemaType → Prop)
    (shown : List (Phase × Sighting)) : Prop :=
  ∀ p ∈ shown, ∃ enclosing f, encloses enclosing ∧ p.2 = Sighting.of s enclosing f

theorem Sighted.append {s : Schema} {encloses : Option SchemaType → Prop}
    {shown shown' : List (Phase × Sighting)} (h : Sighted s encloses shown)
    (h' : Sighted s encloses shown') : Sighted s encloses (shown ++ shown') := by
  intro p hp
  exact (List.mem_append.1 hp).elim (h p) (h' p)

/-- A property that the types of all conditions have, and those of all fields with a selection. -/
structure Carries (s : Schema) (encloses : Option SchemaType → Prop) (conditions : List String)
    (shown : List (Phase × Sighting)) : Prop where
  condition : ∀ name ∈ conditions, encloses (s.conditionType name)
  field : ∀ x, (.leave, x) ∈ shown → x.field.HasSelections → encloses x.type

section

variable {s : Schema} {encloses : Option SchemaType → Prop}

theorem Carries.left {conditions conditions' : List String}
    {shown shown' : List (Phase × Sighting)}
    (h : Carries s encloses (conditions ++ conditions') (shown ++ shown')) :
    Carries s encloses conditions shown :=
  ⟨fun name hname => h.condition name (List.mem_append_left _ hname),
    fun x hx => h.field x (List.mem_append_left _ hx)⟩

theorem Carries.right {conditions conditions' : List String}
    {shown shown' : List (Phase × Sighting)}
    (h : Carries s encloses (conditions ++ conditions') (shown ++ shown')) :
    Carries s encloses conditions' shown' :=
  ⟨fun name hname => h.condition name (List.mem_append_right _ hname),
    fun x hx => h.field x (List.mem_append_right _ hx)⟩

mutual

theorem SelectionSet.sighted : ∀ (selected : SelectionSet) (enclosing : Option SchemaType),
    Carries s encloses selected.conditions (selected.sightings s enclosing) →
      (selected.isEmpty = false → encloses enclosing) →
        Sighted s encloses (selected.sightings s enclosing)
  | ⟨_, []⟩, _, _, _ => fun p hp => by cases hp
  | ⟨_, item :: rest⟩, enclosing, h, hinside =>
      sighted_selections (item :: rest) enclosing h (hinside rfl)

theorem sighted_selections : ∀ (items : List Selection) (enclosing : Option SchemaType),
    Carries s encloses (conditionsOfSelections items) (sightingsOfSelections s enclosing items) →
      encloses enclosing → Sighted s encloses (sightingsOfSelections s enclosing items)
  | [], _, _, _ => fun p hp => by cases hp
  | item :: rest, enclosing, h, hinside =>
      (Selection.sighted item enclosing h.left hinside).append
        (sighted_selections rest enclosing h.right hinside)

theorem Field.sighted : ∀ (f : Field) (enclosing : Option SchemaType),
    Carries s encloses f.conditions (f.sightings s enclosing) → encloses enclosing →
      Sighted s encloses (f.sightings s enclosing)
  | ⟨position, responseAlias, name, args, ds, none⟩, enclosing, _, hinside => by
      intro p hp
      refine ⟨enclosing, ⟨position, responseAlias, name, args, ds, none⟩, hinside, ?_⟩
      rw [Field.sightings] at hp
      rcases List.mem_cons.1 hp with rfl | hp
      · rfl
      · obtain rfl := List.mem_singleton.1 hp
        rfl
  | ⟨position, responseAlias, name, args, ds, some selected⟩, enclosing, h, hinside => by
      intro p hp
      rw [Field.sightings] at h hp
      -- the field itself carries the property to what is selected on it
      have hon : selected.isEmpty = false → encloses (Sighting.of s enclosing
          ⟨position, responseAlias, name, args, ds, some selected⟩).type := fun hfull =>
        h.field _ (List.mem_cons_of_mem _ (List.mem_append_right _ (List.mem_singleton.2 rfl)))
          ⟨selected, rfl, hfull⟩
      rcases List.mem_cons.1 hp with rfl | hp
      · exact ⟨enclosing, _, hinside, rfl⟩
      · rcases List.mem_append.1 hp with hp | hp
        · refine SelectionSet.sighted selected _ ⟨h.condition, fun x hx => ?_⟩ hon p hp
          exact h.field x (List.mem_cons_of_mem _ (List.mem_append_left _ hx))
        · obtain rfl := List.mem_singleton.1 hp
          exact ⟨enclosing, _, hinside, rfl⟩

theorem InlineFragment.sighted : ∀ (i : InlineFragment) (enclosing : Option SchemaType),
    Carries s encloses i.conditions (i.sightings s enclosing) → encloses enclosing →
      Sighted s encloses (i.sightings s enclosing)
  | ⟨_, some name, _, selected⟩, enclosing, h, _ => by
      rw [InlineFragment.sightings] at h ⊢
      refine SelectionSet.sighted selected _ ⟨fun other hother => ?_, h.field⟩ fun _ => ?_
      · exact h.condition other (List.mem_cons_of_mem _ hother)
      · exact h.condition name List.mem_cons_self
  | ⟨_, none, _, selected⟩, enclosing, h, hinside => by
      rw [InlineFragment.sightings] at h ⊢
      exact SelectionSet.sighted selected _ h fun _ => hinside

theorem Selection.sighted : ∀ (item : Selection) (enclosing : Option SchemaType),
    Carries s encloses item.conditions (item.sightings s enclosing) → encloses enclosing →
      Sighted s encloses (item.sightings s enclosing)
  | .field f, enclosing, h, hinside => Field.sighted f enclosing h hinside
  | .spread _, _, _, _ => fun p hp => by cases hp
  | .inlineFragment i, enclosing, h, hinside => InlineFragment.sighted i enclosing h hinside

end

end

/-- **The types that enclose the fields of a document.** -/
inductive Document.Encloses (d : Document) (s : Schema) : Option SchemaType → Prop
  /-- The root of an operation. -/
  | root {o : Operation} (member : .operation o ∈ d.definitions) :
      d.Encloses s ((s.root? o.kind).map fun root => .named (.composite root) false)
  /-- The type of a condition. -/
  | condition {name : String} (member : name ∈ d.typeConditions) :
      d.Encloses s (s.conditionType name)
  /-- The type of a field on which something is selected. -/
  | field {x : Sighting} (left : x ∈ d.fieldsLeft s) (selections : x.field.HasSelections) :
      d.Encloses s x.type

/-- **Each field of a document** stands inside one of these types. -/
theorem Document.exists_of_mem_sightings {d : Document} {s : Schema} {p : Phase × Sighting}
    (h : p ∈ d.sightings s) :
    ∃ enclosing f, d.Encloses s enclosing ∧ p.2 = Sighting.of s enclosing f := by
  obtain ⟨definition, hmember, hp⟩ := List.mem_flatMap.1 h
  have hcarries : Carries s (d.Encloses s) definition.conditions (definition.sightings s) := by
    refine ⟨fun name hname => .condition (List.mem_flatMap.2 ⟨definition, hmember, hname⟩),
      fun x hx => .field (List.mem_filterMap.2 ⟨(.leave, x), ?_, rfl⟩)⟩
    exact List.mem_flatMap.2 ⟨definition, hmember, hx⟩
  cases definition with
  | operation o =>
      exact SelectionSet.sighted o.selectionSet _ hcarries (fun _ => .root hmember) p hp
  | fragment f =>
      refine SelectionSet.sighted f.selectionSet _ ⟨fun name hname => ?_, hcarries.field⟩
        (fun _ => hcarries.condition _ List.mem_cons_self) p hp
      exact hcarries.condition name (List.mem_cons_of_mem _ hname)

/-! ## 3. Rules that accept -/

/-- **Rules that only report** accept together what each of them accepts. -/
theorem Rule.accepts_of_run {d : Document} {c : Context} {rules : List Rule}
    (hrules : ∀ rule ∈ rules, ∃ report, rule.visitor.Reports report) {complaints : List Complaint}
    (herror : (run d rules ⟨c, complaints⟩).error = none)
    (hstate : (run d rules ⟨c, complaints⟩).walker.state = []) :
    complaints = [] ∧ ∀ rule ∈ rules, d.walk rule.visitor ⟨c, []⟩ = .done ⟨c, []⟩ := by
  induction rules generalizing complaints with
  | nil => exact ⟨hstate, fun rule hrule => by cases hrule⟩
  | cons rule rest ih =>
      obtain ⟨report, hreport⟩ := hrules rule List.mem_cons_self
      have hwalk : ∀ before, d.walk rule.visitor ⟨c, before⟩ =
          ⟨⟨c, before ++ (d.trace c).events.filterMap report⟩, (d.trace c).error⟩ := by
        intro before
        rw [Document.walk_eq, ← hreport.replay]
        rfl
      rw [run, hwalk] at herror hstate
      cases hd : (d.trace c).error with
      | some e =>
          rw [hd] at herror
          cases herror
      | none =>
          rw [hd] at herror hstate
          obtain ⟨hnil, hrest⟩ :=
            ih (fun other hother => hrules other (List.mem_cons_of_mem _ hother)) herror hstate
          obtain ⟨rfl, hreports⟩ := List.append_eq_nil_iff.1 hnil
          refine ⟨rfl, fun other hother => ?_⟩
          rcases List.mem_cons.1 hother with rfl | hother
          · rw [hwalk, hreports, hd]
            rfl
          · exact hrest other hother

/-- Rules that accept one by one accept together. -/
theorem Rule.run_of_accepts {d : Document} {c : Context} {rules : List Rule}
    (h : ∀ rule ∈ rules, d.walk rule.visitor ⟨c, []⟩ = .done ⟨c, []⟩) :
    run d rules ⟨c, []⟩ = .done ⟨c, []⟩ := by
  induction rules with
  | nil => rfl
  | cons rule rest ih =>
      rw [run, h rule List.mem_cons_self, Outcome.andThen_done]
      exact ih fun other hother => h other (List.mem_cons_of_mem _ hother)

/-- **Rules that only report accept a document** together if each of them does. -/
theorem Document.validate_eq_nil_iff {d : Document} {s : Schema} {rules : List Rule}
    (hrules : ∀ rule ∈ rules, ∃ report, rule.visitor.Reports report) :
    d.validate s rules = .ok [] ↔ ∀ rule ∈ rules,
      d.walk rule.visitor ⟨Context.start s d, []⟩ = .done ⟨Context.start s d, []⟩ := by
  constructor
  · intro h
    cases herror : (Rule.run d rules ⟨Context.start s d, []⟩).error with
    | none =>
        simp only [validate, herror, Except.ok.injEq] at h
        exact (Rule.accepts_of_run hrules herror h).2
    | some e =>
        simp only [validate, herror] at h
        cases h
  · intro h
    unfold validate
    rw [Rule.run_of_accepts h]
    rfl

theorem Rule.mem_defaults {rule : Rule} :
    rule ∈ defaults ↔ rule = leafFieldSelections ∨ rule = fieldsOnCorrectType :=
  List.mem_cons.trans (or_congr_right List.mem_singleton)

/-- A rule on fields accepts where the walk goes through and no field has a fault. -/
theorem Document.accepts_iff {d : Document} {c : Context} {v : Visitor (List Complaint)}
    {phase : Phase} {fault : Sighting → Option Complaint}
    (hv : v.Reports fun e => e.sighting?.bind fun p => if p.1 = phase then fault p.2 else none) :
    d.walk v ⟨c, []⟩ = .done ⟨c, []⟩ ↔ (d.trace c).error = none ∧
      ((d.sightings c.schema).filterMap
        fun p => if p.1 = phase then some p.2 else none).filterMap fault = [] := by
  constructor
  · intro h
    have hd : (d.trace c).error = none := by
      rw [Document.walk_eq] at h
      exact congrArg Outcome.error h
    rw [walk_of_reports hd hv] at h
    exact ⟨hd, congrArg (·.walker.state) h⟩
  · rintro ⟨hd, hfaultless⟩
    rw [walk_of_reports hd hv, hfaultless]
    rfl

/-- **The default rules accept** the documents through which a walk goes and in which no field has
    a fault. -/
theorem Document.accepted_iff {d : Document} {s : Schema} :
    d.validate s Rule.defaults = .ok [] ↔ (d.trace (Context.start s d)).error = none ∧
      (d.fieldsLeft s).filterMap Sighting.selectionFault? = [] ∧
        (d.fieldsEntered s).filterMap Sighting.unknownFault? = [] := by
  have hfirst := accepts_iff (d := d) (c := Context.start s d) Rule.reports_leafFieldSelections
  have hsecond := accepts_iff (d := d) (c := Context.start s d) Rule.reports_fieldsOnCorrectType
  have hrules : ∀ rule ∈ Rule.defaults, ∃ report, rule.visitor.Reports report := by
    intro rule hrule
    rcases Rule.mem_defaults.1 hrule with rfl | rfl
    · exact ⟨_, Rule.reports_leafFieldSelections⟩
    · exact ⟨_, Rule.reports_fieldsOnCorrectType⟩
  rw [validate_eq_nil_iff hrules]
  constructor
  · intro h
    obtain ⟨hd, hleft⟩ := hfirst.1 (h _ (Rule.mem_defaults.2 (.inl rfl)))
    obtain ⟨-, hentered⟩ := hsecond.1 (h _ (Rule.mem_defaults.2 (.inr rfl)))
    exact ⟨hd, hleft, hentered⟩
  · rintro ⟨hd, hleft, hentered⟩ rule hrule
    rcases Rule.mem_defaults.1 hrule with rfl | rfl
    · exact hfirst.2 ⟨hd, hleft⟩
    · exact hsecond.2 ⟨hd, hentered⟩

/-! ## 4. Accepted documents -/

/-- A field without an unknown fault is `__typename`, exists, or stands inside a leaf type. -/
theorem Sighting.exists_of_unknownFault?_eq_none {x : Sighting} {t : SchemaType}
    (ht : x.enclosing = some t) (h : x.unknownFault? = none) :
    x.field.name = "__typename" ∨ x.descriptor.isSome = true ∨ t.isLeaf = true := by
  by_cases hname : x.field.name = "__typename"
  · exact .inl hname
  cases hdescriptor : x.descriptor with
  | some f => exact .inr (.inl rfl)
  | none =>
      cases hleaf : t.isLeaf with
      | true => exact .inr (.inr rfl)
      | false =>
          simp only [unknownFault?, ht] at h
          rw [if_pos ⟨hname, hdescriptor, hleaf⟩] at h
          cases h

/-- A field of a leaf type with selections has a fault. -/
theorem Sighting.selectionFault?_ne_none {x : Sighting} {t : SchemaType} (ht : x.type = some t)
    (hleaf : t.isLeaf = true) (h : x.field.HasSelections) : x.selectionFault? ≠ none := by
  obtain ⟨selected, hselected, hfull⟩ := h
  unfold selectionFault?
  rw [ht, hselected]
  simp [hleaf, hfull]

/-- Where no field has a fault in its selection, a leaf encloses only what a condition with its
    name does. -/
theorem Document.Encloses.exists_condition {d : Document} {s : Schema}
    {enclosing : Option SchemaType} {t : SchemaType} (h : d.Encloses s enclosing)
    (hfaultless : ∀ x ∈ d.fieldsLeft s, x.selectionFault? = none) (ht : enclosing = some t)
    (hleaf : t.isLeaf = true) : ∃ name ∈ d.typeConditions, s.conditionType name = some t := by
  cases h with
  | root member =>
      obtain ⟨root, -, rfl⟩ := Option.map_eq_some_iff.1 ht
      cases hleaf
  | condition member => exact ⟨_, member, ht⟩
  | field hleft hselections =>
      exact (Sighting.selectionFault?_ne_none ht hleaf hselections (hfaultless _ hleft)).elim

/-- **An accepted document selects fields that exist.** A field inside a known type is
    `__typename`, or the type has it; or the type has no fields at all and a type condition of the
    document names it. -/
theorem Document.selects_of_accepted {d : Document} {s : Schema}
    (h : d.validate s Rule.defaults = .ok []) {x : Sighting} (hx : x ∈ d.fieldsEntered s)
    {t : SchemaType} (ht : x.enclosing = some t) :
    x.field.name = "__typename" ∨ (s.field? t x.field.name).isSome = true ∨
      (t.isLeaf = true ∧ ∃ name ∈ d.typeConditions, s.conditionType name = some t) := by
  obtain ⟨-, hleft, hentered⟩ := accepted_iff.1 h
  rw [List.filterMap_eq_nil_iff] at hleft hentered
  obtain ⟨⟨phase, y⟩, hmem, hy⟩ := List.mem_filterMap.1 hx
  obtain rfl : y = x := by
    split at hy
    · exact Option.some.inj hy
    · cases hy
  obtain ⟨enclosing, f, hencloses, rfl⟩ := exists_of_mem_sightings hmem
  obtain rfl : enclosing = some t := ht
  rcases Sighting.exists_of_unknownFault?_eq_none rfl (hentered _ hx) with hname | hexists | hleaf
  · exact .inl hname
  · exact .inr (.inl hexists)
  · exact .inr (.inr ⟨hleaf, hencloses.exists_condition hleft rfl hleaf⟩)

/-- The fields of an accepted document: a field of the root, and one that every type has. -/
theorem Document.selects_of_accepted_points :
    let leaf (name : String) : Selection := .field ⟨⟨1, 1⟩, none, name, [], [], none⟩
    let d : Document := ⟨[.operation ⟨⟨1, 1⟩, .query, none, [], [],
      ⟨⟨1, 1⟩, [leaf "origin", leaf "__typename"]⟩⟩]⟩
    d.validate Schema.points Rule.defaults = .ok [] ∧
      ∀ x ∈ d.fieldsEntered Schema.points, ∀ t, x.enclosing = some t →
        x.field.name = "__typename" ∨ (Schema.points.field? t x.field.name).isSome = true := by
  intro leaf d
  have haccepted : d.validate Schema.points Rule.defaults = .ok [] :=
    accepted_iff.2 ⟨rfl, rfl, rfl⟩
  refine ⟨haccepted, fun x hx t ht => ?_⟩
  rcases selects_of_accepted haccepted hx ht with hname | hexists | ⟨-, name, hname, -⟩
  · exact .inl hname
  · exact .inr hexists
  · cases hname

/-- **A condition that names a leaf type hides an unknown field**: no rule complains of it. -/
theorem Document.accepts_field_of_leaf :
    let leaf (name : String) : Selection := .field ⟨⟨1, 1⟩, none, name, [], [], none⟩
    let d : Document := ⟨[.operation ⟨⟨1, 1⟩, .query, none, [], [], ⟨⟨1, 1⟩, [leaf "origin"]⟩⟩,
      .fragment ⟨⟨1, 1⟩, "F", "String", [], ⟨⟨1, 1⟩, [leaf "nope"]⟩⟩]⟩
    Schema.points.Built ∧ d.validate Schema.points Rule.defaults = .ok [] ∧
      ∃ x ∈ d.fieldsEntered Schema.points, ∃ t, x.enclosing = some t ∧
        x.field.name ≠ "__typename" ∧ Schema.points.field? t x.field.name = none := by
  intro leaf d
  have hnope : d.fieldsEntered Schema.points = [
      Sighting.of Schema.points (some (.named (.composite Schema.points.queryType) false))
        ⟨⟨1, 1⟩, none, "origin", [], [], none⟩,
      Sighting.of Schema.points (Schema.points.conditionType "String")
        ⟨⟨1, 1⟩, none, "nope", [], [], none⟩] := rfl
  refine ⟨Schema.built_points, accepted_iff.2 ⟨rfl, rfl, rfl⟩, ?_⟩
  rw [hnope]
  exact ⟨_, .tail _ (.head _), .named (.scalar .string) false, rfl, by decide, rfl⟩

end TypedQuery
