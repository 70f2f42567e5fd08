import TypedQuery.Proofs.Introspection.Closure
import TypedQuery.Proofs.Walk.Steps

/-!
# A walk keeps the namespaces apart

A context has one stack of types for selections and one for input values. In a built schema the
first holds types for output alone and the second types for input alone, at every step of every
walk.

* `Schema.Holds` -- a type of a namespace;
* `Schema.Built.resolve_input_of_field?` -- **the type of a field is not for input alone**, if no
  input object has the name of a type behind `__schema` or `__type`;
* `Context.KeepsApart` -- **the invariant**, `Context.KeepsApart.moves` -- every change keeps it;
* `Document.walk_keepsApart` -- every state of a walk has it: a field's type is never looked up in
  the wrong namespace with success, and no field is looked for on an input object.
-/

namespace TypedQuery

/-! ## 1. Types of a namespace -/

namespace Schema

/-- **A type of a namespace**: its named type is registered there, under its own name. -/
def Holds (s : Schema) (space : Namespace) (t : SchemaType) : Prop :=
  s.named? space t.namedType.name = some t.namedType

variable {s : Schema} {space : Namespace}

theorem Built.holds_of_named? (hs : s.Built) {name : String} {t : NamedType}
    (h : s.named? space name = some t) {u : SchemaType} (hu : u.namedType = t) :
    s.Holds space u := by
  unfold Holds
  rw [hu, (hs.orderly h).ownName]
  exact h

theorem Built.holds_of_resolve (hs : s.Built) {e : TypeExpr} {t : SchemaType}
    (h : s.resolve space e = some t) : s.Holds space t :=
  hs.holds_of_named? (namedType_of_resolve h) rfl

/-- What is for output is no input object. -/
theorem Built.inputObject?_eq_none (hs : s.Built) {name : String} {t : NamedType}
    (h : s.named? .output name = some t) : s.inputObject? name = none := by
  have hfor := (hs.orderly h).isFor
  rw [inputObject?, hs.named?_of_named? h .input]
  cases t with
  | scalar _ | enum _ | composite _ => rfl
  | inputObject o => cases hfor

/-- An expression that resolves for input alone has the name of an input object. -/
theorem Built.resolve_input_eq_none (hs : s.Built) {e : TypeExpr}
    (hno : s.inputObject? e.innerName = none) (hnone : s.resolve .output e = none) :
    s.resolve .input e = none := by
  cases hinput : s.resolve .input e with
  | none => rfl
  | some t =>
      have hnamed := namedType_of_resolve hinput
      have honce := isSome_resolve s .input e
      rw [hinput, hnamed, Option.isSome_some, Option.isSome_some, Bool.true_and] at honce
      have houtput := isSome_resolve s .output e
      rw [hnone, ← honce, Bool.and_true, hs.named?_of_named? hnamed] at houtput
      unfold inputObject? at hno
      rw [hnamed] at hno
      cases ht : t.namedType with
      | inputObject o =>
          rw [ht] at hno
          cases hno
      | scalar _ | enum _ | composite _ =>
          rw [ht] at houtput
          cases houtput

variable (hs : s.Built) (hmeta : ∀ name ∈ ["__Schema", "__Type"], s.inputObject? name = none)
include hs hmeta

/-- No input object has the name inside the type of a field. -/
theorem Built.inputObject?_of_field? {t : SchemaType} (ht : s.Holds .output t) {name : String}
    {f : FieldType} (h : s.field? t name = some f) : s.inputObject? f.type.innerName = none := by
  unfold field? namedField? at h
  split at h
  · cases h
    exact hmeta _ (by decide)
  · split at h
    · cases h
      exact hmeta _ (by decide)
    · unfold Holds at ht
      cases hnamed : t.namedType with
      | scalar _ | enum _ =>
          rw [hnamed] at h
          cases h
      | inputObject o =>
          rw [hnamed] at ht
          cases (hs.orderly ht).isFor
      | composite c =>
          rw [hnamed] at h ht
          have hmember : f ∈ c.fields := List.mem_of_find?_eq_some h
          obtain ⟨u, hu⟩ := Option.isSome_iff_exists.1
            (hs.isSome_named_of_refers (.field ht hmember))
          exact hs.inputObject?_eq_none hu

/-- **The type of a field is not for input alone.** -/
theorem Built.resolve_input_of_field? {t : SchemaType} (ht : s.Holds .output t) {name : String}
    {f : FieldType} (h : s.field? t name = some f) (hnone : s.resolve .output f.type = none) :
    s.resolve .input f.type = none :=
  hs.resolve_input_eq_none (hs.inputObject?_of_field? hmeta ht h) hnone

end Schema

/-! ## 2. The invariant -/

/-- **The namespaces are kept apart**: each known type is of the namespace that its stack is for. -/
structure Context.KeepsApart (s : Schema) (c : Context) : Prop where
  schema : c.schema = s
  types : ∀ t, some t ∈ c.types → s.Holds .output t
  inputs : ∀ t, some t ∈ c.inputs → s.Holds .input t

namespace Context.KeepsApart

variable {s : Schema} {c c' : Context}

theorem start (s : Schema) (d : Document) : (Context.start s d).KeepsApart s where
  schema := rfl
  types _ h := absurd h List.not_mem_nil
  inputs _ h := absurd h List.not_mem_nil

theorem pushType (h : c.KeepsApart s) {t? : Option SchemaType}
    (ht : ∀ t, t? = some t → s.Holds .output t) : (c.pushType t?).KeepsApart s where
  schema := h.schema
  types t hmem := (List.mem_cons.1 hmem).elim (fun heq => ht t heq.symm) (h.types t)
  inputs := h.inputs

theorem pushField (h : c.KeepsApart s) {f? : Option FieldType} {t? : Option SchemaType}
    (ht : ∀ t, t? = some t → s.Holds .output t) : (c.pushField f? t?).KeepsApart s :=
  ⟨h.schema, (h.pushType ht).types, h.inputs⟩

theorem pushInput (h : c.KeepsApart s) {t? : Option SchemaType}
    (ht : ∀ t, t? = some t → s.Holds .input t) : (c.pushInput t?).KeepsApart s where
  schema := h.schema
  types := h.types
  inputs t hmem := (List.mem_cons.1 hmem).elim (fun heq => ht t heq.symm) (h.inputs t)

theorem currentType (h : c.KeepsApart s) {t : SchemaType} (ht : c.currentType = some t) :
    s.Holds .output t :=
  h.types t (List.mem_of_head? (Option.join_eq_some_iff.1 ht))

theorem currentInput (h : c.KeepsApart s) {t : SchemaType} (ht : c.currentInput = some t) :
    s.Holds .input t :=
  h.inputs t (List.mem_of_head? (Option.join_eq_some_iff.1 ht))

/-- **Every change of the place keeps the namespaces apart.** -/
theorem moves (hs : s.Built) (hmeta : ∀ name ∈ ["__Schema", "__Type"], s.inputObject? name = none)
    (h : c.KeepsApart s) (hmoves : c.Moves c') : c'.KeepsApart s := by
  obtain rfl := h.schema
  cases hmoves with
  | stays => exact h
  | root hroot =>
      refine h.pushType fun t ht => ?_
      cases ht
      exact hs.holds_of_named? (hs.named_of_root hroot) rfl
  | condition name =>
      refine h.pushType fun t ht => ?_
      cases name with
      | none => exact h.currentType ht
      | some name =>
          obtain ⟨u, hu, rfl⟩ := Option.map_eq_some_iff.1 ht
          exact hs.holds_of_named? hu rfl
  | field name =>
      refine h.pushField fun t ht => ?_
      obtain ⟨f, hf, htype⟩ := Option.bind_eq_some_iff.1 ht
      obtain ⟨u, hu, hfound⟩ := Option.bind_eq_some_iff.1 hf
      obtain houtput | ⟨hnone, hinput⟩ := Option.or_eq_some_iff.1 htype
      · exact hs.holds_of_resolve houtput
      · rw [hs.resolve_input_of_field? hmeta (h.currentType hu) hfound hnone] at hinput
        cases hinput
  | argument name =>
      refine h.pushInput fun t ht => ?_
      obtain ⟨a, -, ha⟩ := Option.bind_eq_some_iff.1 ht
      exact hs.holds_of_resolve ha
  | variableDefinition e => exact h.pushInput fun t ht => hs.holds_of_resolve ht
  | item =>
      refine h.pushInput fun t ht => ?_
      obtain ⟨u, hu, hmember⟩ := Option.bind_eq_some_iff.1 ht
      have hlist := h.currentInput hu
      unfold Schema.Holds at hlist ⊢
      rw [← SchemaType.namedType_of_member? hmember]
      exact hlist
  | entry key =>
      refine h.pushInput fun t ht => ?_
      unfold entryType at ht
      split at ht
      · obtain ⟨f, -, hf⟩ := Option.bind_eq_some_iff.1 ht
        exact hs.holds_of_resolve hf
      · cases ht
  | directive _ | openSelection | closeSelection => exact ⟨rfl, h.types, h.inputs⟩
  | popType => exact ⟨rfl, fun t ht => h.types t (List.mem_of_mem_tail ht), h.inputs⟩
  | popField => exact ⟨rfl, fun t ht => h.types t (List.mem_of_mem_tail ht), h.inputs⟩
  | popInput => exact ⟨rfl, h.types, fun t ht => h.inputs t (List.mem_of_mem_tail ht)⟩

end Context.KeepsApart

/-! ## 3. Every state of a walk -/

/-- A type for output is a scalar, an enumeration, an object, an interface or a union. -/
theorem Schema.Built.isOutput_of_holds {s : Schema} (hs : s.Built) {t : SchemaType}
    (h : s.Holds .output t) : t.namedType.isOutput = true :=
  (hs.orderly h).isFor

/-- **A walk keeps the namespaces apart.** In a built schema without input objects of two names, at
    every state of a walk through a document -- each of them leads to the outcome of the walk --
    the known types of the selections are registered for output, and those of the input values for
    input. So where the type of a selected field is not one for output it is none at all, and no
    field is looked for on an input object. -/
theorem Document.walk_keepsApart {σ : Type} {s : Schema} (hs : s.Built)
    (hmeta : ∀ name ∈ ["__Schema", "__Type"], s.inputObject? name = none) (v : Visitor σ)
    (d other : Document) (state : σ) {m : Machine σ}
    (hm : (Machine.start d ⟨.start s other, state⟩).Reaches v m) :
    m.Reaches v ⟨[], d.walk v ⟨.start s other, state⟩⟩ ∧
      (∀ t, some t ∈ m.context.types →
        t.namedType.isOutput = true ∧ s.named? .output t.namedType.name = some t.namedType) ∧
      (∀ t, some t ∈ m.context.inputs → s.named? .input t.namedType.name = some t.namedType) ∧
      (∀ name f, m.context.selectedField name = some f → s.resolve .output f.type = none →
        s.resolve .input f.type = none) ∧
      ∀ t, m.context.currentType = some t → ∀ o, t.namedType ≠ .inputObject o := by
  have hkeeps : m.context.KeepsApart s :=
    hm.keeps (fun h hmoves => h.moves hs hmeta hmoves) (.start s other)
  refine ⟨Machine.reaches_walk hm, fun t ht => ?_, hkeeps.inputs, fun name f hf hnone => ?_,
    fun t ht o ho => ?_⟩
  · exact ⟨hs.isOutput_of_holds (hkeeps.types t ht), hkeeps.types t ht⟩
  · obtain ⟨t, ht, hfound⟩ := Option.bind_eq_some_iff.1 hf
    rw [hkeeps.schema] at hfound
    exact hs.resolve_input_of_field? hmeta (hkeeps.currentType ht) hfound hnone
  · have houtput := hs.isOutput_of_holds (hkeeps.currentType ht)
    rw [ho] at houtput
    cases houtput

/-- Inside the empty list of a default, where no node is shown. -/
theorem Document.walk_keepsApart_points :
    let d : Document := ⟨[.operation ⟨⟨1, 1⟩, .query, none,
      [⟨⟨1, 7⟩, "p", .named "Point", some (.object [("tags", .list [])])⟩], [],
      ⟨⟨1, 31⟩, [.field ⟨⟨1, 33⟩, none, "origin", [], [], none⟩]⟩⟩]⟩
    let v : Visitor Nat := fun _ _ _ shown => shown + 1
    let w : Walker Nat := ⟨.start Schema.points d, 0⟩
    Schema.points.Built ∧
      (∀ name ∈ ["__Schema", "__Type"], Schema.points.inputObject? name = none) ∧
      ∃ m, (Machine.start d w).Reaches v m ∧ m.Reaches v ⟨[], d.walk v w⟩ ∧
        m.context.inputs = [some (.named (.scalar .string) false),
          some (.list (.named (.scalar .string) false) false),
          some (.named (.inputObject Schema.point) false)] ∧
        ∀ t, some t ∈ m.context.inputs →
          Schema.points.named? .input t.namedType.name = some t.namedType := by
  intro d v w
  have hmeta : ∀ name ∈ ["__Schema", "__Type"], Schema.points.inputObject? name = none := by
    intro name hname
    rcases List.mem_cons.1 hname with rfl | hname
    · rfl
    · obtain rfl := List.mem_singleton.1 hname
      rfl
  refine ⟨Schema.built_points, hmeta, ?_⟩
  -- the document, the operation, the variable, the object, the entry and the list are entered
  -- and shown, then the walk goes into the items
  have hreached := Relation.ReflTransGen.refl (r := Machine.Step v) (a := Machine.start d w)
    |>.tail (.enter rfl) |>.tail .call |>.tail (.enter rfl) |>.tail .call
    |>.tail (.enter rfl) |>.tail .call |>.tail (.enter rfl) |>.tail .call
    |>.tail (.enter rfl) |>.tail .call |>.tail (.enter rfl) |>.tail .call |>.tail (.enter rfl)
  have hall := walk_keepsApart Schema.built_points hmeta v d d 0 hreached
  exact ⟨_, hreached, hall.1, rfl, hall.2.2.1⟩

end TypedQuery
