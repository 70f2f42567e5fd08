import TypedQuery.Schema.Sdl

/-!
# Schemas that builders make

A schema is `Built` if some steps, failing ones among them, lead a new builder to it. What every
such schema keeps is said of the builder, step by step.

* `addType_cases`, `types_apply` -- all that a step can do to the two namespaces;
* `orderly_apply`, `orderly_run` -- **the invariant**: a type stands under its own name, in a
  namespace that it is for, and repeats no name inside;
* `build_cases` -- all that building asks and gives;
* `Schema.Built.orderly` -- the invariant on a built schema;
* `Schema.built_of_ofDefinitions` -- a schema text gives a built schema;
* `Schema.withMaxDepth`, `Schema.Built.withMaxDepth` -- a built schema is built with every depth
  limit;
* `Schema.points` -- a small built schema, on which general statements are tried.
-/

namespace TypedQuery

/-- Whether a type is for a namespace. -/
def NamedType.isFor (t : NamedType) : Namespace → Bool
  | .input => t.isInput
  | .output => t.isOutput

/-- **A type as a namespace holds it**: under its own name, where it may stand, with no name
    repeated inside. -/
structure NamedType.StandsIn (t : NamedType) (space : Namespace) (name : String) : Prop where
  ownName : t.name = name
  isFor : t.isFor space = true
  distinct : t.repeated? = none

/-- A schema that some steps of a new builder lead to. -/
def Schema.Built (s : Schema) : Prop :=
  ∃ steps, (SchemaBuilder.new.run steps).build = .ok s

namespace SchemaBuilder

/-! ## 1. What a step does to the types -/

/-- The types of a namespace. -/
def types (b : SchemaBuilder) : Namespace → Table NamedType
  | .input => b.inputTypes
  | .output => b.outputTypes

@[simp] theorem types_bindHost (b : SchemaBuilder) (host : HostType) (t : TypeExpr) :
    (b.bindHost host t).types = b.types := by
  funext space
  cases space <;> rfl

@[simp] theorem types_bindOwnHost (b : SchemaBuilder) (t : NamedType) :
    (b.bindOwnHost t).types = b.types := by
  funext space
  cases t with
  | scalar _ => rfl
  | enum _ => rfl
  | inputObject o => exact congrFun (types_bindHost b _ _) space
  | composite c =>
      simp only [bindOwnHost]
      cases c.host <;> cases space <;> rfl

theorem types_insertNamed (b : SchemaBuilder) (t : NamedType) (space : Namespace) :
    (b.insertNamed t).types space =
      if t.isFor space then (b.types space).insert t.name t else b.types space := by
  cases space <;> rfl

/-- **All that adding a type can do**: a named type as it stands, of a free name and without
    repetition, goes into the namespaces that it is for. -/
theorem addType_cases {b b' : SchemaBuilder} {u : SchemaType} (h : b.addType u = .ok b') :
    ∃ t, u = .named t false ∧ b.hasType t.name = false ∧ t.repeated? = none ∧
      b' = (b.bindOwnHost t).insertNamed t := by
  unfold addType at h
  split at h
  · rename_i t
    split at h
    · cases h
    · rename_i hfree
      split at h
      · cases h
      · rename_i hnone
        cases h
        exact ⟨t, rfl, by simpa using hfree, hnone, rfl⟩
  · cases h

theorem types_addDirective {b b' : SchemaBuilder} {d : DirectiveType}
    (h : b.addDirective d = .ok b') : b'.types = b.types := by
  unfold addDirective at h
  split at h
  · cases h
  · cases h
    funext space
    cases space <;> rfl

/-- **All that a step can do to the types**: nothing, or one type of a free name is added. -/
theorem types_apply {b b' : SchemaBuilder} {s : Step} (h : b.apply s = .ok b') :
    b'.types = b.types ∨
      ∃ t : NamedType, b.hasType t.name = false ∧ t.repeated? = none ∧ ∀ space, b'.types space =
        if t.isFor space then (b.types space).insert t.name t else b.types space := by
  cases s with
  | query name | mutation name | subscription name | limits l =>
      cases h
      exact .inl (funext fun space => by cases space <;> rfl)
  | host host t =>
      cases h
      exact .inl (types_bindHost b host t)
  | directive d => exact .inl (types_addDirective h)
  | type u =>
      obtain ⟨t, -, hfree, hnone, rfl⟩ := addType_cases h
      refine .inr ⟨t, hfree, hnone, fun space => ?_⟩
      rw [types_insertNamed, types_bindOwnHost]

/-! ## 2. The invariant -/

/-- Every type stands as a namespace may hold it. -/
def Orderly (b : SchemaBuilder) : Prop :=
  ∀ space name t, (b.types space).find? name = some t → t.StandsIn space name

/-- One more type without repetition keeps the order. -/
theorem Orderly.insert {b b' : SchemaBuilder} (hb : b.Orderly) {t : NamedType}
    (hnone : t.repeated? = none)
    (h : ∀ space, b'.types space =
      if t.isFor space then (b.types space).insert t.name t else b.types space) :
    b'.Orderly := by
  intro space name u hu
  rw [h space] at hu
  split at hu
  · rename_i hfor
    rw [Table.find?_insert] at hu
    split at hu
    · rename_i hname
      cases hu
      exact ⟨hname.symm, hfor, hnone⟩
    · exact hb space name u hu
  · exact hb space name u hu

/-- **A step keeps the order.** -/
theorem orderly_apply {b b' : SchemaBuilder} (hb : b.Orderly) {s : Step}
    (h : b.apply s = .ok b') : b'.Orderly := by
  obtain hsame | ⟨t, -, hnone, hadded⟩ := types_apply h
  · unfold Orderly
    rw [hsame]
    exact hb
  · exact hb.insert hnone hadded

/-- What every step that succeeds keeps is kept by a run, whatever fails in it. -/
theorem run_induction {p : SchemaBuilder → Prop}
    (hstep : ∀ {b b' : SchemaBuilder} {s : Step}, p b → b.apply s = .ok b' → p b')
    {b : SchemaBuilder} (hb : p b) (steps : List Step) : p (b.run steps) := by
  unfold run
  induction steps generalizing b with
  | nil => exact hb
  | cons s rest ih =>
      refine ih ?_
      unfold step
      split
      · rename_i b' h
        exact hstep hb h
      · exact hb

/-- A new builder is in order: it has the built-in scalars alone. -/
theorem orderly_new : new.Orderly := by
  have hscalars : ∀ (scalars : List ScalarType) (b : SchemaBuilder), b.Orderly →
      (scalars.foldl (fun b s => b.insertNamed (.scalar s)) b).Orderly := by
    intro scalars
    induction scalars with
    | nil => exact fun b hb => hb
    | cons s rest ih =>
        intro b hb
        exact ih _ (hb.insert (t := .scalar s) rfl (types_insertNamed b _))
  have hblank : blank.Orderly := by
    intro space name t h
    cases space <;> cases h
  -- the bindings and the directives that follow leave the types alone
  have hnew : new.types =
      (ScalarType.builtin.foldl (fun b s => b.insertNamed (.scalar s)) blank).types := by
    funext space
    cases space <;> rfl
  unfold Orderly
  rw [hnew]
  exact hscalars _ blank hblank

/-- **A run keeps the order**, from whatever builder it starts. -/
theorem orderly_run {b : SchemaBuilder} (hb : b.Orderly) (steps : List Step) :
    (b.run steps).Orderly :=
  run_induction (fun hb h => orderly_apply hb h) hb steps

/-- **All that building asks and gives**: the roots are there, every reference mentions a name that
    is, and the schema has what the builder has. -/
theorem build_cases {b : SchemaBuilder} {s : Schema} (h : b.build = .ok s) :
    b.root b.queryType = .ok s.queryType ∧ b.root? b.mutationType = .ok s.mutationType ∧
      b.root? b.subscriptionType = .ok s.subscriptionType ∧
      (∀ r ∈ b.references, b.knows r = true) ∧
      s.inputTypes = b.inputTypes ∧ s.outputTypes = b.outputTypes ∧
      s.inputHosts = b.inputHosts ∧ s.outputHosts = b.outputHosts ∧
      s.directives = b.directives ∧ s.limits = b.limits := by
  unfold build at h
  simp only [bind, Except.bind] at h
  cases hquery : b.root b.queryType with
  | error e => simp only [hquery] at h; cases h
  | ok query =>
      cases hmutation : b.root? b.mutationType with
      | error e => simp only [hquery, hmutation] at h; cases h
      | ok mutation =>
          cases hsubscription : b.root? b.subscriptionType with
          | error e => simp only [hquery, hmutation, hsubscription] at h; cases h
          | ok subscription =>
              simp only [hquery, hmutation, hsubscription] at h
              split at h
              · cases h
              · rename_i hknown
                cases h
                refine ⟨rfl, rfl, rfl, fun r hr => ?_, rfl, rfl, rfl, rfl, rfl, rfl⟩
                simpa using List.find?_eq_none.1 hknown r hr

/-- The schema has the types of its builder. -/
theorem types_build {b : SchemaBuilder} {s : Schema} (h : b.build = .ok s) :
    s.types = b.types := by
  obtain ⟨-, -, -, -, hinput, houtput, -⟩ := build_cases h
  funext space
  cases space with
  | input => exact hinput
  | output => exact houtput

/-- Other limits give a schema that differs in its limits alone. -/
theorem build_limits {b : SchemaBuilder} {s : Schema} (h : b.build = .ok s) (l : Limits) :
    { b with limits := l }.build = .ok { s with limits := l } := by
  -- none of the checks looks at the limits
  have hroot : ∀ name, { b with limits := l }.root name = b.root name := fun _ => rfl
  have hroot? : ∀ name, { b with limits := l }.root? name = b.root? name := by
    intro name
    cases name <;> rfl
  have hreferences : { b with limits := l }.references = b.references := rfl
  have hknows : ∀ r, { b with limits := l }.knows r = b.knows r := fun _ => rfl
  unfold build at h ⊢
  simp only [bind, Except.bind, hroot, hroot?, hreferences, hknows] at h ⊢
  cases hquery : b.root b.queryType with
  | error e => simp only [hquery] at h; cases h
  | ok query =>
      cases hmutation : b.root? b.mutationType with
      | error e => simp only [hquery, hmutation] at h; cases h
      | ok mutation =>
          cases hsubscription : b.root? b.subscriptionType with
          | error e => simp only [hquery, hmutation, hsubscription] at h; cases h
          | ok subscription =>
              simp only [hquery, hmutation, hsubscription] at h ⊢
              split at h
              · cases h
              · cases h
                rfl

end SchemaBuilder

namespace Schema

/-- **The invariant on a built schema.** -/
theorem Built.orderly {s : Schema} (hs : s.Built) {space : Namespace} {name : String}
    {t : NamedType} (h : s.named? space name = some t) : t.StandsIn space name := by
  obtain ⟨steps, hbuild⟩ := hs
  unfold named? at h
  rw [SchemaBuilder.types_build hbuild] at h
  exact SchemaBuilder.orderly_run SchemaBuilder.orderly_new steps space name t h

/-- No input object of a built schema has two fields of one name. -/
theorem Built.distinct_fields {s : Schema} (hs : s.Built) {space : Namespace} {name : String}
    {o : InputObjectType} (h : s.named? space name = some (.inputObject o)) :
    (o.fields.map (·.name)).Nodup :=
  ((firstRepeated_eq_none_iff [] _).1 (hs.orderly h).distinct).1

/-! ## 3. Schema texts -/

open TypeSystem SchemaBuilder

/-- What a definition adds is one step, or none. -/
theorem exists_steps_of_addDefinition {implementers : String → List String}
    {b b' : SchemaBuilder} {d : TypeSystem.Definition}
    (h : addDefinition implementers b d = .ok b') : ∃ steps, b.run steps = b' := by
  have hstep : ∀ s : Step, b.apply s = .ok b' → b.run [s] = b' := by
    intro s hs
    simp [run, step, hs]
  cases d with
  | type t =>
      simp only [addDefinition] at h
      split at h
      · rename_i type _
        exact ⟨[.type (.named type false)], hstep _ h⟩
      · cases h
        exact ⟨[], rfl⟩
  | directive d =>
      simp only [addDefinition] at h
      split at h
      · cases h
        exact ⟨[], rfl⟩
      · exact ⟨[.directive d.toDirective], hstep _ h⟩
  | schema _ =>
      cases h
      exact ⟨[], rfl⟩
  | typeExtension =>
      cases h
      exact ⟨[], rfl⟩

theorem run_append (b : SchemaBuilder) (first second : List Step) :
    b.run (first ++ second) = (b.run first).run second :=
  List.foldl_append

theorem exists_steps_of_definitions {implementers : String → List String}
    {definitions : List TypeSystem.Definition} {b b' : SchemaBuilder}
    (h : definitions.foldlM (addDefinition implementers) b = .ok b') :
    ∃ steps, b.run steps = b' := by
  induction definitions generalizing b with
  | nil =>
      cases h
      exact ⟨[], rfl⟩
  | cons d rest ih =>
      simp only [List.foldlM_cons, bind, Except.bind] at h
      split at h
      · cases h
      · rename_i middle hd
        obtain ⟨first, rfl⟩ := exists_steps_of_addDefinition hd
        obtain ⟨second, rfl⟩ := ih h
        exact ⟨first ++ second, run_append b first second⟩

/-- Naming the roots is three steps at most. -/
theorem exists_steps_of_setRoots (b : SchemaBuilder) (roots : Roots) :
    ∃ steps, b.run steps = setRoots b roots := by
  refine ⟨Step.query (roots.query.getD b.queryType) ::
    (roots.mutation.toList.map Step.mutation ++
      roots.subscription.toList.map Step.subscription), ?_⟩
  obtain ⟨query, mutation, subscription⟩ := roots
  cases mutation <;> cases subscription <;> rfl

/-- **A schema of definitions is built by steps.** -/
theorem built_of_ofDefinitions {definitions : List TypeSystem.Definition} {s : Schema}
    (h : ofDefinitions definitions = .ok s) : s.Built := by
  simp only [ofDefinitions, bind, Except.bind] at h
  split at h
  · cases h
  · rename_i b hb
    obtain ⟨first, rfl⟩ := exists_steps_of_definitions hb
    obtain ⟨second, hroots⟩ := exists_steps_of_setRoots (new.run first) _
    refine ⟨first ++ second, ?_⟩
    rw [run_append, hroots]
    exact h

/-! ## 4. Limits -/

/-- The schema with another depth limit. -/
def withMaxDepth (s : Schema) (m : Nat) : Schema := { s with limits := ⟨m⟩ }

/-- **A built schema is built with every depth limit.** -/
theorem Built.withMaxDepth {s : Schema} (hs : s.Built) (m : Nat) : (s.withMaxDepth m).Built := by
  obtain ⟨steps, h⟩ := hs
  refine ⟨steps ++ [.limits ⟨m⟩], ?_⟩
  rw [run_append]
  exact build_limits h ⟨m⟩

/-! ## 5. A schema of points -/

/-- A point has a coordinate and tags. -/
def point : InputObjectType where
  name := "Point"
  description := none
  fields := [⟨"x", none, .nonNull (.named "Int"), none⟩,
    ⟨"tags", none, .list (.named "String"), none⟩]
  record := .dynamic

/-- Points, and a query root with one field. -/
def pointSteps : List Step :=
  [.type (.named (.inputObject point) false),
   .type (.named (.composite ⟨"Query", none, .object,
      [⟨"origin", none, .named "Boolean", [], none⟩], [], [], none⟩) false)]

/-- A schema in which points can be asked for. -/
def points : Schema := (new.run pointSteps).build.toOption.get (by rfl)

theorem built_points : points.Built := ⟨pointSteps, rfl⟩

/-- The point is the only input object. -/
theorem eq_point_of_named? {name : String} {o : InputObjectType}
    (h : points.named? .input name = some (.inputObject o)) : o = point := by
  have hvalues : (points.types .input).values = [.scalar .int, .scalar .float, .scalar .string,
      .scalar .boolean, .scalar .id, .inputObject point] := rfl
  have hmember := Table.mem_values_of_find? h
  rw [hvalues] at hmember
  simpa using hmember

end Schema

end TypedQuery
