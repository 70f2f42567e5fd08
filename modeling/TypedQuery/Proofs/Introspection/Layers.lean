import TypedQuery.Proofs.Introspection.Closure

/-!
# The layers of a type

A type expression is read in four ways: a schema resolves it, a variable declares its type by it,
it is described by reference, and the type that it resolves to is described in full. The readings
go through the same layers.

* `Schema.Built.text_of_resolve` -- a resolved type is written as its expression is;
* `TypeDescription.layers` -- the kinds and names that a description tells, layer by layer;
  `Schema.Built.layers_describeType` -- **a reference tells the layers of the type**;
* `Schema.Unresolved` -- where an expression for input does not resolve, and with which text;
  `Resolver.declaredType_of_unresolved` -- it is what a variable's declaration fails with;
* `Schema.readings_agree` -- **all four readings of every expression**, in a built schema.
-/

namespace TypedQuery

open Introspection

/-! ## 1. Texts -/

/-- A type that excludes null is the type with null and a `!`. -/
theorem SchemaType.text_of_isNonNull {t : SchemaType} (h : t.isNonNull = true) :
    t.text = t.nullable.text ++ "!" := by
  cases t with
  | named u required =>
      cases h
      rfl
  | list of required =>
      cases h
      simp [text, nullable, String.append_assoc]

/-- **A resolved type is written as its expression is.** -/
theorem Schema.Built.text_of_resolve {s : Schema} (hs : s.Built) {space : Namespace}
    {e : TypeExpr} {t : SchemaType} (h : s.resolve space e = some t) : t.text = e.text := by
  induction e generalizing t with
  | named name =>
      rw [resolve_named, Option.map_eq_some_iff] at h
      obtain ⟨u, hu, rfl⟩ := h
      exact (hs.orderly hu).ownName
  | list of ih =>
      rw [resolve_list, Option.map_eq_some_iff] at h
      obtain ⟨u, hu, rfl⟩ := h
      show "[" ++ u.text ++ "]" = "[" ++ of.text ++ "]"
      rw [ih hu]
  | nonNull of ih =>
      obtain ⟨u, hu, hnonNull⟩ := resolve_nonNull.1 h
      obtain ⟨-, hrequired, rfl⟩ := SchemaType.nonNull?_eq_ok_iff.1 hnonNull
      rw [SchemaType.text_of_isNonNull hrequired, ih hu]
      rfl

/-! ## 2. Descriptions -/

/-- **What is told of each layer**, from the outermost one to the named type: the kind, and the
    name where there is one. -/
def Introspection.TypeDescription.layers : TypeDescription → List (TypeKind × Option String)
  | ⟨kind, name, _, _, _, _, _, _, none⟩ => [(kind, name)]
  | ⟨kind, name, _, _, _, _, _, _, some inner⟩ => (kind, name) :: inner.layers

@[simp] theorem Introspection.TypeDescription.layers_wrapping (kind : TypeKind)
    (inner : TypeDescription) :
    (TypeDescription.wrapping kind inner).layers = (kind, none) :: inner.layers := rfl

@[simp] theorem Introspection.TypeDescription.layers_reference (kind : TypeKind) (name : String) :
    (TypeDescription.reference kind name).layers = [(kind, some name)] := rfl

namespace Schema

variable {s : Schema}

@[simp] theorem layers_describeNamed (t : NamedType) :
    (s.describeNamed t).layers = [(t.kind, some t.name)] := by
  cases t <;> rfl

/-- A type that excludes null is described around the type with null. -/
theorem describeType_of_isNonNull {t : SchemaType} (h : t.isNonNull = true) :
    s.describeType t = .wrapping .nonNull (s.describeType t.nullable) := by
  cases t with
  | named u required =>
      cases h
      rfl
  | list of required =>
      cases h
      rfl

/-- **A reference tells the layers of the type** that its expression resolves to, whichever
    namespace it is resolved in. -/
theorem Built.layers_describeType (hs : s.Built) {space : Namespace} {e : TypeExpr}
    {t : SchemaType} (h : s.resolve space e = some t) :
    (s.describeType t).layers = (s.describeReference e).layers := by
  induction e generalizing t with
  | named name =>
      rw [resolve_named, Option.map_eq_some_iff] at h
      obtain ⟨u, hu, rfl⟩ := h
      obtain rfl := (hs.orderly hu).ownName
      show (s.describeNamed u).layers = _
      rw [describeReference, hs.anyNamed?_of_named? hu]
      simp
  | list of ih =>
      rw [resolve_list, Option.map_eq_some_iff] at h
      obtain ⟨u, hu, rfl⟩ := h
      show (TypeDescription.wrapping .list (s.describeType u)).layers = _
      rw [describeReference, TypeDescription.layers_wrapping, TypeDescription.layers_wrapping,
        ih hu]
  | nonNull of ih =>
      obtain ⟨u, hu, hnonNull⟩ := resolve_nonNull.1 h
      obtain ⟨-, hrequired, rfl⟩ := SchemaType.nonNull?_eq_ok_iff.1 hnonNull
      rw [describeType_of_isNonNull hrequired, describeReference,
        TypeDescription.layers_wrapping, TypeDescription.layers_wrapping, ih hu]

/-! ## 3. Declared types -/

/-- **Where an expression for input does not resolve**, with the text that is told of it: the
    innermost name, if no type has it, otherwise the innermost `!` that stands on a `!`. -/
inductive Unresolved (s : Schema) : TypeExpr → String → Prop
  | name {name : String} (unknown : s.named? .input name = none) :
      Unresolved s (.named name) name
  | doubled {of : TypeExpr} (known : (s.resolve .input of).isSome = true)
      (nonNull : of.isNonNull = true) : Unresolved s (.nonNull of) (TypeExpr.nonNull of).text
  | list {of : TypeExpr} {text : String} (inside : Unresolved s of text) :
      Unresolved s (.list of) text
  | nonNull {of : TypeExpr} {text : String} (inside : Unresolved s of text) :
      Unresolved s (.nonNull of) text

/-- What does not resolve fails somewhere. -/
theorem exists_unresolved {e : TypeExpr} (h : s.resolve .input e = none) :
    ∃ text, s.Unresolved e text := by
  induction e with
  | named name =>
      rw [resolve_named, Option.map_eq_none_iff] at h
      exact ⟨name, .name h⟩
  | list of ih =>
      rw [resolve_list, Option.map_eq_none_iff] at h
      obtain ⟨text, hinside⟩ := ih h
      exact ⟨text, .list hinside⟩
  | nonNull of ih =>
      cases hof : s.resolve .input of with
      | none =>
          obtain ⟨text, hinside⟩ := ih hof
          exact ⟨text, .nonNull hinside⟩
      | some u =>
          have hsome := isSome_resolve_nonNull s .input of
          rw [h, hof, Option.isSome_none, Option.isSome_some, Bool.and_true] at hsome
          exact ⟨_, .doubled (by rw [hof]; rfl) (by simpa using hsome.symm)⟩

end Schema

/-- A type that excludes null is refused as what excludes it once more. -/
theorem SchemaType.nonNull?_of_isNonNull {t : SchemaType} (h : t.isNonNull = true) :
    t.nonNull? = .error (.nestedNonNull t.text) := by
  cases t with
  | named u required =>
      cases h
      rfl
  | list of required =>
      cases h
      rfl

/-- **A declaration fails where its expression does not resolve**, and tells that place. -/
theorem Resolver.declaredType_of_unresolved {r : Resolver} {e : TypeExpr} {text : String}
    (h : r.schema.Unresolved e text) : r.declaredType e = .error (.unknownType text) := by
  induction h with
  | name hunknown => rw [declaredType, hunknown]
  | doubled hknown hnonNull =>
      obtain ⟨u, hu⟩ := Option.isSome_iff_exists.1 hknown
      have hrefused := SchemaType.nonNull?_of_isNonNull
        ((Schema.isNonNull_of_resolve hu).trans hnonNull)
      rw [declaredType, declaredType_eq_ok_iff.2 hu]
      simp only [bind, Except.bind, hrefused]
  | list _ ih =>
      rw [declaredType, ih]
      rfl
  | nonNull _ ih =>
      rw [declaredType, ih]
      rfl

/-! ## 4. The four readings -/

/-- **The readings of a type expression agree.** In a built schema an expression resolves exactly
    if its innermost name is known and no `!` stands on a `!`. What it resolves to is written alike,
    excludes null alike, has the type of the name inside, and is described by the layers that a
    reference tells. A variable declares the type that the schema resolves for input; where there
    is none, the declaration fails with what does not resolve. -/
theorem Schema.readings_agree {s : Schema} (hs : s.Built) (e : TypeExpr) :
    (∀ space, (s.resolve space e).isSome = true ↔
      (s.named? space e.innerName).isSome = true ∧ e.excludesNullOnce = true) ∧
    (∀ space t, s.resolve space e = some t →
      t.text = e.text ∧ t.isNonNull = e.isNonNull ∧
        s.named? space e.innerName = some t.namedType ∧
        (s.describeType t).layers = (s.describeReference e).layers) ∧
    ∀ r : Resolver, r.schema = s →
      (∀ t, r.declaredType e = .ok t ↔ s.resolve .input e = some t) ∧
      (s.resolve .input e = none →
        ∃ text, s.Unresolved e text ∧ r.declaredType e = .error (.unknownType text)) := by
  refine ⟨fun space => ?_, fun space t h => ?_, fun r hr => ?_⟩
  · rw [isSome_resolve, Bool.and_eq_true]
  · exact ⟨hs.text_of_resolve h, isNonNull_of_resolve h, namedType_of_resolve h,
      hs.layers_describeType h⟩
  · subst hr
    refine ⟨fun t => Resolver.declaredType_eq_ok_iff, fun h => ?_⟩
    obtain ⟨text, hunresolved⟩ := exists_unresolved h
    exact ⟨text, hunresolved, Resolver.declaredType_of_unresolved hunresolved⟩

/-- A list of points is read alike in all four ways; with one `!` more it is no type. -/
theorem Schema.readings_agree_points :
    let e : TypeExpr := .nonNull (.list (.nonNull (.named "Point")))
    let t : SchemaType := .list (.named (.inputObject point) true) true
    let r : Resolver := ⟨points, ∅, []⟩
    points.Built ∧ points.resolve .input e = some t ∧ t.text = e.text ∧
      (points.describeType t).layers = (points.describeReference e).layers ∧
      r.declaredType e = .ok t ∧ (points.resolve .output e).isSome = false ∧
      ∃ text, points.Unresolved (.nonNull e) text ∧
        r.declaredType (.nonNull e) = .error (.unknownType text) := by
  intro e t r
  have hresolved : points.resolve .input e = some t := rfl
  obtain ⟨hsome, htype, hdeclared⟩ := readings_agree built_points e
  obtain ⟨htext, -, -, hlayers⟩ := htype .input t hresolved
  have houtput : (points.resolve .output e).isSome = false :=
    Bool.eq_false_iff.2 fun h => by cases ((hsome .output).1 h).1
  have hdoubled : points.resolve .input (.nonNull e) = none := rfl
  exact ⟨built_points, hresolved, htext, hlayers, ((hdeclared r rfl).1 t).2 hresolved, houtput,
    ((readings_agree built_points (.nonNull e)).2.2 r rfl).2 hdoubled⟩

end TypedQuery
