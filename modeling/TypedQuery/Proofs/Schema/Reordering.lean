import TypedQuery.Proofs.Introspection.Closure
import TypedQuery.Proofs.Schema.Loading

/-!
# The order of definitions

A list of definitions with one schema definition at most loads the same schema in every order. The
possible types of an interface come in the order in which the objects are defined, and nothing else
of a type depends on it.

* `NamedType.Alike` -- the same type, an interface with its possible types in any order;
* `SchemaBuilder.Reordered` -- builders that hold the same under every name;
* `SchemaBuilder.Reordered.buildable` -- **what the one asks for building, the other has**;
* `SchemaBuilder.exists_reordered` -- a permutation loads such a builder;
* `Schema.Reordered` -- the same schema: by name, by root and by what is listed;
* `Schema.ofDefinitions_perm` -- **both orders are accepted or neither, with the same schema**.

Of the bindings of host types nothing is said: all input objects of a schema text share one host
type, and the last of them takes it over.
-/

namespace TypedQuery

/-! ## 1. Types -/

/-- **The same type, an interface with its possible types in any order.** -/
inductive NamedType.Alike : NamedType → NamedType → Prop
  | same (t : NamedType) : Alike t t
  | interface {c : CompositeType} {possible : List String} (kind : c.kind = .interface)
      (order : c.possibleTypes.Perm possible) :
      Alike (.composite c) (.composite { c with possibleTypes := possible })

namespace NamedType.Alike

variable {t u : NamedType}

theorem symm (h : t.Alike u) : u.Alike t := by
  cases h with
  | same => exact .same t
  | @interface c possible hkind horder =>
      exact .interface (c := { c with possibleTypes := possible }) hkind horder.symm

theorem name_eq (h : t.Alike u) : u.name = t.name := by
  cases h <;> rfl

theorem isFor_eq (h : t.Alike u) (space : Namespace) : u.isFor space = t.isFor space := by
  cases h <;> cases space <;> rfl

theorem repeated?_eq (h : t.Alike u) : u.repeated? = t.repeated? := by
  cases h <;> rfl

/-- What is alike to a composite type is one. -/
theorem exists_composite {c : CompositeType} (h : (NamedType.composite c).Alike u) :
    ∃ c', u = .composite c' := by
  cases h with
  | same => exact ⟨c, rfl⟩
  | interface _ _ => exact ⟨_, rfl⟩

theorem mem_outputReferences (h : t.Alike u) {r : SchemaBuilder.Reference}
    (hr : r ∈ SchemaBuilder.outputReferences u) : r ∈ SchemaBuilder.outputReferences t := by
  cases h with
  | same => exact hr
  | interface hkind horder =>
      simp only [SchemaBuilder.outputReferences, List.map_append, List.mem_append] at hr ⊢
      refine hr.imp_right (Or.imp_right fun hr => ?_)
      exact (horder.map _).mem_iff.2 hr

theorem mem_inputReferences (h : t.Alike u) {r : SchemaBuilder.Reference}
    (hr : r ∈ SchemaBuilder.inputReferences u) : r ∈ SchemaBuilder.inputReferences t := by
  cases h with
  | same => exact hr
  | interface _ _ => exact hr

/-- Lookups that find alike types are those where each finds what the other finds. -/
theorem rel_iff {x y : Option NamedType} :
    Option.Rel Alike x y ↔ (∀ t, x = some t → ∃ u, y = some u ∧ t.Alike u) ∧
      ∀ u, y = some u → ∃ t, x = some t ∧ u.Alike t := by
  constructor
  · intro h
    cases h with
    | none => exact ⟨fun _ ht => (by cases ht), fun _ hu => (by cases hu)⟩
    | @some t u halike =>
        exact ⟨fun _ ht => by cases ht; exact ⟨u, rfl, halike⟩,
          fun _ hu => by cases hu; exact ⟨t, rfl, halike.symm⟩⟩
  · rintro ⟨hforward, hbackward⟩
    cases x with
    | some t =>
        obtain ⟨u, rfl, halike⟩ := hforward t rfl
        exact .some halike
    | none =>
        cases y with
        | none => exact .none
        | some u =>
            obtain ⟨t, ht, -⟩ := hbackward u rfl
            cases ht

end NamedType.Alike

/-! ## 2. Builders -/

namespace SchemaBuilder

/-- **Builders that hold the same**: alike types and the same directives under every name, the same
    roots by name, the same limits. -/
structure Reordered (b b' : SchemaBuilder) : Prop where
  types : ∀ space name,
    Option.Rel NamedType.Alike ((b.types space).find? name) ((b'.types space).find? name)
  directives : ∀ name, b'.directives.find? name = b.directives.find? name
  queryType : b'.queryType = b.queryType
  mutationType : b'.mutationType = b.mutationType
  subscriptionType : b'.subscriptionType = b.subscriptionType
  limits : b'.limits = b.limits

variable {b b' : SchemaBuilder}

theorem Reordered.exists_of_find? (h : b.Reordered b') {space : Namespace} {name : String}
    {t : NamedType} (ht : (b.types space).find? name = some t) :
    ∃ u, (b'.types space).find? name = some u ∧ t.Alike u :=
  (NamedType.Alike.rel_iff.1 (h.types space name)).1 t ht

theorem Reordered.symm (h : b.Reordered b') : b'.Reordered b where
  types space name :=
    NamedType.Alike.rel_iff.2 (NamedType.Alike.rel_iff.1 (h.types space name)).symm
  directives name := (h.directives name).symm
  queryType := h.queryType.symm
  mutationType := h.mutationType.symm
  subscriptionType := h.subscriptionType.symm
  limits := h.limits.symm

theorem Reordered.isSome_find? (h : b.Reordered b') (space : Namespace) (name : String) :
    ((b'.types space).find? name).isSome = ((b.types space).find? name).isSome := by
  have hrel := h.types space name
  generalize (b.types space).find? name = x, (b'.types space).find? name = y at hrel
  cases hrel <;> rfl

theorem Reordered.hasType_eq (h : b.Reordered b') : b'.hasType = b.hasType := by
  funext name
  have hinput := h.isSome_find? .input name
  have houtput := h.isSome_find? .output name
  exact congrArg₂ (· || ·) hinput houtput

/-- A reference of the one stands in the other. -/
theorem Reordered.references (h : b.Reordered b') {r : Reference} (hr : b'.References r) :
    b.References r := by
  cases hr with
  | output hu hmember =>
      obtain ⟨t, ht, halike⟩ := h.symm.exists_of_find? hu
      exact .output ht (halike.symm.mem_outputReferences hmember)
  | input hu hmember =>
      obtain ⟨t, ht, halike⟩ := h.symm.exists_of_find? hu
      exact .input ht (halike.symm.mem_inputReferences hmember)
  | directive hd hmember =>
      rw [h.directives] at hd
      exact .directive hd hmember

/-- **Where the one can be built, so can the other.** -/
theorem Reordered.buildable (h : b.Reordered b') (hb : b.Buildable) : b'.Buildable := by
  have hroot : ∀ {name c}, (b.types .output).find? name = some (.composite c) →
      ∃ c', (b'.types .output).find? name = some (.composite c') := by
    intro name c hc
    obtain ⟨u, hu, halike⟩ := h.exists_of_find? hc
    obtain ⟨c', rfl⟩ := halike.exists_composite
    exact ⟨c', hu⟩
  constructor
  · obtain ⟨c, hc⟩ := hb.query
    rw [h.queryType]
    exact hroot hc
  · intro name hname
    rw [h.mutationType] at hname
    obtain ⟨c, hc⟩ := hb.mutation name hname
    exact hroot hc
  · intro name hname
    rw [h.subscriptionType] at hname
    obtain ⟨c, hc⟩ := hb.subscription name hname
    exact hroot hc
  · intro r hr
    rw [h.isSome_find?]
    exact hb.known r (h.references hr)

end SchemaBuilder

/-! ## 3. What the definitions add -/

namespace TypeSystem

variable {definitions definitions' : List Definition} {im im' : String → List String}

/-- An interface is implemented by the same objects. -/
theorem implementers_perm (h : definitions.Perm definitions') (interface : String) :
    (implementers definitions interface).Perm (implementers definitions' interface) :=
  h.flatMap_right _

/-- Of what a definition adds, only the possible types of an interface depend on the others. -/
theorem Definition.alike_type? (him : ∀ interface, (im interface).Perm (im' interface))
    (d : Definition) : Option.Rel NamedType.Alike (d.type? im) (d.type? im') := by
  cases d with
  | schema _ | directive _ | typeExtension => exact .none
  | type x =>
      obtain ⟨description, name, body⟩ := x
      cases body with
      | interface fields => exact .some (.interface rfl (him name))
      | scalar =>
          simp only [Definition.type?, TypeDefinition.toType?]
          split
          · exact .none
          · exact .some (.same _)
      | object _ _ | union _ | enum _ | inputObject _ => exact .some (.same _)

/-- The name of what a definition adds depends on nothing else. -/
theorem Definition.map_name_type? (him : ∀ interface, (im interface).Perm (im' interface))
    (d : Definition) : (d.type? im').map NamedType.name = (d.type? im).map NamedType.name := by
  have hrel := d.alike_type? him
  generalize d.type? im = added, d.type? im' = added' at hrel
  cases hrel with
  | none => rfl
  | some halike => exact congrArg some halike.name_eq

/-- The types that a permutation adds are those that are added, up to their possible types. -/
theorem exists_alike_of_perm (h : definitions.Perm definitions') {t : NamedType}
    (ht : t ∈ definitions.filterMap (·.type? (implementers definitions))) :
    ∃ u ∈ definitions'.filterMap (·.type? (implementers definitions')), t.Alike u := by
  obtain ⟨d, hd, htype⟩ := List.mem_filterMap.1 ht
  have hrel := NamedType.Alike.rel_iff.1 (d.alike_type? (implementers_perm h))
  obtain ⟨u, hu, halike⟩ := hrel.1 t htype
  exact ⟨u, List.mem_filterMap.2 ⟨d, h.mem_iff.1 hd, hu⟩, halike⟩

/-- They have the same names. -/
theorem names_perm (h : definitions.Perm definitions') :
    ((definitions.filterMap (·.type? (implementers definitions))).map NamedType.name).Perm
      ((definitions'.filterMap (·.type? (implementers definitions'))).map NamedType.name) := by
  rw [List.map_filterMap, List.map_filterMap]
  simp only [Definition.map_name_type? (implementers_perm h)]
  exact h.filterMap _

/-! ## 4. The roots that are named -/

/-- The roots that a schema definition names. -/
def Definition.roots? : Definition → Option Roots
  | .schema roots => some roots
  | .type _ | .directive _ | .typeExtension => none

/-- The last schema definition counts. -/
theorem explicitRoots?_eq (definitions : List Definition) :
    explicitRoots? definitions = (definitions.filterMap Definition.roots?).getLast? := by
  rw [← List.head?_reverse, ← List.filterMap_reverse, List.head?_filterMap]
  refine congrFun (congrArg List.findSome? (funext fun d => ?_)) _
  cases d <;> rfl

/-- Where there is one schema definition at most, its place does not matter. -/
theorem explicitRoots?_perm (h : definitions.Perm definitions')
    (hone : (definitions.filterMap Definition.roots?).length ≤ 1) :
    explicitRoots? definitions' = explicitRoots? definitions := by
  have hperm := h.filterMap Definition.roots?
  rw [explicitRoots?_eq, explicitRoots?_eq]
  match hroots : definitions.filterMap Definition.roots?, hone with
  | [], _ =>
      rw [hroots, List.nil_perm] at hperm
      rw [hperm]
  | [roots], _ =>
      rw [hroots, List.singleton_perm] at hperm
      rw [← hperm]

end TypeSystem

namespace SchemaBuilder

open TypeSystem

variable {b₀ b b' : SchemaBuilder} {definitions definitions' : List TypeSystem.Definition}

/-! ## 5. Loading a permutation -/

/-- What can be added can be added in every order. -/
theorem Addable.perm (h : definitions.Perm definitions')
    (ha : b₀.Addable (definitions.filterMap (·.type? (implementers definitions)))
      (definitions.filterMap (·.directive?))) :
    b₀.Addable (definitions'.filterMap (·.type? (implementers definitions')))
      (definitions'.filterMap (·.directive?)) := by
  have hdirectives := h.filterMap (·.directive?)
  constructor
  · intro u hu
    obtain ⟨t, ht, halike⟩ := exists_alike_of_perm h.symm hu
    rw [← halike.name_eq]
    exact ha.free t ht
  · intro u hu
    obtain ⟨t, ht, halike⟩ := exists_alike_of_perm h.symm hu
    rw [← halike.repeated?_eq]
    exact ha.distinct t ht
  · exact (names_perm h).nodup_iff.1 ha.once
  · exact fun d hd => ha.freeDirective d (hdirectives.mem_iff.2 hd)
  · exact (hdirectives.map _).nodup_iff.1 ha.onceDirective

/-- What was added under a name has, in the other order, been added alike. -/
theorem Adds.exists_alike (h : definitions.Perm definitions')
    (ha : b₀.Adds (definitions.filterMap (·.type? (implementers definitions)))
      (definitions.filterMap (·.directive?)) b)
    (ha' : b₀.Adds (definitions'.filterMap (·.type? (implementers definitions')))
      (definitions'.filterMap (·.directive?)) b')
    {space : Namespace} {name : String} {t : NamedType}
    (ht : (b.types space).find? name = some t) :
    ∃ u, (b'.types space).find? name = some u ∧ t.Alike u := by
  rcases ha.type.1 ht with hold | ⟨hmem, hfor, hname⟩
  · exact ⟨t, ha'.type.2 (.inl hold), .same t⟩
  · obtain ⟨u, hu, halike⟩ := exists_alike_of_perm h hmem
    refine ⟨u, ha'.type.2 (.inr ⟨hu, ?_, ?_⟩), halike⟩
    · rw [halike.isFor_eq, hfor]
    · rw [halike.name_eq, hname]

/-- **What loads, loads in every order**, and the builders hold the same. -/
theorem exists_reordered (h : definitions.Perm definitions')
    (hload : definitions.foldlM (addDefinition (implementers definitions)) b₀ = .ok b) :
    ∃ b', definitions'.foldlM (addDefinition (implementers definitions')) b₀ = .ok b' ∧
      b.Reordered b' := by
  obtain ⟨haddable, hadds⟩ := foldlM_addDefinition_cases hload
  obtain ⟨b', hload'⟩ := exists_foldlM_addDefinition (haddable.perm h)
  have hadds' := (foldlM_addDefinition_cases hload').2
  refine ⟨b', hload', ?_⟩
  constructor
  case types =>
    exact fun space name => NamedType.Alike.rel_iff.2
      ⟨fun _ ht => hadds.exists_alike h hadds' ht,
        fun _ hu => hadds'.exists_alike h.symm hadds hu⟩
  case directives =>
    intro name
    refine Option.ext fun d => ?_
    rw [hadds.directive, hadds'.directive, (h.filterMap (·.directive?)).mem_iff]
  all_goals rw [hadds.rest, hadds'.rest]

/-- Roots that are named alike keep builders alike. -/
theorem Reordered.setRoots (h : b.Reordered b') (roots : Roots) :
    (TypeSystem.setRoots b roots).Reordered (TypeSystem.setRoots b' roots) := by
  constructor
  case types =>
    rw [Schema.types_setRoots, Schema.types_setRoots]
    exact h.types
  case directives => exact h.directives
  case queryType => exact congrArg (roots.query.getD ·) h.queryType
  case mutationType => exact congrArg (roots.mutation.or ·) h.mutationType
  case subscriptionType => exact congrArg (roots.subscription.or ·) h.subscriptionType
  case limits => exact h.limits

end SchemaBuilder

/-! ## 6. Schemas -/

namespace Schema

open TypeSystem

/-- **The same schema**, up to the order of possible types of interfaces and to the order of all
    types. -/
structure Reordered (s s' : Schema) : Prop where
  /-- A name resolves to the same type, in either namespace. -/
  named : ∀ space name,
    Option.Rel NamedType.Alike (s.named? space name) (s'.named? space name)
  /-- An operation has the same root. -/
  root : ∀ kind, Option.Rel (fun c c' => (NamedType.composite c).Alike (.composite c'))
    (s.root? kind) (s'.root? kind)
  /-- The directives are the same, by name. -/
  directives : ∀ name, s'.directives.find? name = s.directives.find? name
  /-- The limits are the same. -/
  limits : s'.limits = s.limits
  /-- All types are listed in both. -/
  listed : ∀ t ∈ s.allTypes, ∃ u ∈ s'.allTypes, t.Alike u
  /-- No others are listed. -/
  listed' : ∀ u ∈ s'.allTypes, ∃ t ∈ s.allTypes, u.Alike t

variable {s s' : Schema} {b b' : SchemaBuilder}

/-- What lookups find alike is listed alike. -/
theorem exists_alike_of_mem_allTypes (hs : s.Built) (hs' : s'.Built)
    (h : ∀ space name, Option.Rel NamedType.Alike (s.named? space name) (s'.named? space name))
    {t : NamedType} (ht : t ∈ s.allTypes) : ∃ u ∈ s'.allTypes, t.Alike u := by
  have hany : Option.Rel NamedType.Alike (s.anyNamed? t.name) (s'.anyNamed? t.name) := by
    have houtput := h .output t.name
    have hinput := h .input t.name
    unfold anyNamed?
    generalize s.named? .output t.name = x, s'.named? .output t.name = x' at houtput
    cases houtput with
    | none => exact hinput
    | some halike => exact .some halike
  rw [hs.mem_allTypes_iff.1 ht] at hany
  obtain ⟨u, hu, halike⟩ := (NamedType.Alike.rel_iff.1 hany).1 t rfl
  refine ⟨u, hs'.mem_allTypes_iff.2 ?_, halike⟩
  rw [halike.name_eq, hu]

/-- Builders that hold the same build the same schema. -/
theorem reordered_of_build (h : b.Reordered b') (hs : s.Built) (hs' : s'.Built)
    (hbuild : b.build = .ok s) (hbuild' : b'.build = .ok s') : s.Reordered s' := by
  have hnamed : ∀ space name,
      Option.Rel NamedType.Alike (s.named? space name) (s'.named? space name) := by
    intro space name
    rw [named?, named?, SchemaBuilder.types_build hbuild, SchemaBuilder.types_build hbuild']
    exact h.types space name
  obtain ⟨hquery, hmutation, hsubscription, -, -, -, -, -, hdirectives, hlimits⟩ :=
    SchemaBuilder.build_cases hbuild
  obtain ⟨hquery', hmutation', hsubscription', -, -, -, -, -, hdirectives', hlimits'⟩ :=
    SchemaBuilder.build_cases hbuild'
  -- one name leads to alike composites in both builders
  have hroot : ∀ {name c c'}, b.root name = .ok c → b'.root name = .ok c' →
      (NamedType.composite c).Alike (.composite c') := by
    intro name c c' hc hc'
    have hrel := h.types .output name
    rw [SchemaBuilder.root_eq_ok_iff.1 hc, SchemaBuilder.root_eq_ok_iff.1 hc'] at hrel
    cases hrel with
    | some halike => exact halike
  have hroot? : ∀ {name root root'}, b.root? name = .ok root → b'.root? name = .ok root' →
      Option.Rel (fun c c' => (NamedType.composite c).Alike (.composite c')) root root' := by
    intro name root root' h₁ h₂
    cases name with
    | none =>
        cases h₁
        cases h₂
        exact .none
    | some name =>
        obtain ⟨c, hc, rfl⟩ := map_eq_ok.1 h₁
        obtain ⟨c', hc', rfl⟩ := map_eq_ok.1 h₂
        exact .some (hroot hc hc')
  rw [h.queryType] at hquery'
  rw [h.mutationType] at hmutation'
  rw [h.subscriptionType] at hsubscription'
  constructor
  case named => exact hnamed
  case root =>
    intro kind
    cases kind with
    | query => exact .some (hroot hquery hquery')
    | mutation => exact hroot? hmutation hmutation'
    | subscription => exact hroot? hsubscription hsubscription'
  case directives =>
    intro name
    rw [hdirectives, hdirectives', h.directives]
  case limits => rw [hlimits, hlimits', h.limits]
  case listed => exact fun t ht => exists_alike_of_mem_allTypes hs hs' hnamed ht
  case listed' =>
    refine fun u hu => exists_alike_of_mem_allTypes hs' hs (fun space name => ?_) hu
    exact NamedType.Alike.rel_iff.2 (NamedType.Alike.rel_iff.1 (hnamed space name)).symm

/-- **What one order gives, every other gives**, if there is one schema definition at most. -/
theorem exists_of_perm {definitions definitions' : List TypeSystem.Definition}
    (hperm : definitions.Perm definitions')
    (hone : (definitions.filterMap Definition.roots?).length ≤ 1)
    (h : ofDefinitions definitions = .ok s) :
    ∃ s', ofDefinitions definitions' = .ok s' ∧ s.Reordered s' := by
  obtain ⟨b, hload, hbuild⟩ := exists_of_ofDefinitions h
  obtain ⟨b', hload', hsame⟩ := SchemaBuilder.exists_reordered hperm hload
  have hroots : (explicitRoots? definitions').getD (usualRoots b'.hasType) =
      (explicitRoots? definitions).getD (usualRoots b.hasType) := by
    rw [explicitRoots?_perm hperm hone, hsame.hasType_eq]
  have hsame' := hsame.setRoots ((explicitRoots? definitions).getD (usualRoots b.hasType))
  obtain ⟨s', hbuild'⟩ := SchemaBuilder.build_eq_ok_iff.2
    (hsame'.buildable (SchemaBuilder.build_eq_ok_iff.1 ⟨s, hbuild⟩))
  have h' : ofDefinitions definitions' = .ok s' := by
    unfold ofDefinitions
    refine bind_eq_ok.2 ⟨b', hload', ?_⟩
    rw [hroots]
    exact hbuild'
  exact ⟨s', h', reordered_of_build hsame' (built_of_ofDefinitions h) (built_of_ofDefinitions h')
    hbuild hbuild'⟩

/-- **The order of definitions does not matter**: with one schema definition at most, a permutation
    is accepted exactly if the definitions are, and gives the same schema. -/
theorem ofDefinitions_perm {definitions definitions' : List TypeSystem.Definition}
    (hperm : definitions.Perm definitions')
    (hone : (definitions.filterMap Definition.roots?).length ≤ 1) :
    ((∃ s, ofDefinitions definitions = .ok s) ↔ ∃ s', ofDefinitions definitions' = .ok s') ∧
      ∀ s s', ofDefinitions definitions = .ok s → ofDefinitions definitions' = .ok s' →
        s.Reordered s' := by
  have hone' : (definitions'.filterMap Definition.roots?).length ≤ 1 := by
    rw [← (hperm.filterMap Definition.roots?).length_eq]
    exact hone
  constructor
  · constructor
    · rintro ⟨s, h⟩
      obtain ⟨s', h', -⟩ := exists_of_perm hperm hone h
      exact ⟨s', h'⟩
    · rintro ⟨s', h'⟩
      obtain ⟨s, h, -⟩ := exists_of_perm hperm.symm hone' h'
      exact ⟨s, h⟩
  · intro s s' h h'
    obtain ⟨s'', h'', hsame⟩ := exists_of_perm hperm hone h
    rw [h'] at h''
    cases h''
    exact hsame

/-- A schema definition, an interface, and two objects that implement it. -/
def treeDefinitions : List TypeSystem.Definition :=
  [.schema ⟨some "Branch", none, none⟩,
   .type ⟨none, "Tree", .interface [⟨none, "size", [], .named "Int"⟩]⟩,
   .type ⟨none, "Leaf", .object ["Tree"] [⟨none, "size", [], .named "Int"⟩]⟩,
   .type ⟨none, "Branch", .object ["Tree"] [⟨none, "size", [], .named "Int"⟩]⟩]

/-- The schema of these definitions. -/
def trees : Schema := (ofDefinitions treeDefinitions).toOption.get (by rfl)

/-- The schema of the same definitions from the last to the first. -/
def treesReversed : Schema := (ofDefinitions treeDefinitions.reverse).toOption.get (by rfl)

/-- From the last to the first they give the same schema, in which the interface may be a branch
    first. -/
theorem reordered_trees :
    treeDefinitions.Perm treeDefinitions.reverse ∧
      (treeDefinitions.filterMap Definition.roots?).length ≤ 1 ∧
      trees.Reordered treesReversed ∧
      (trees.describe? "Tree").bind (·.possibleTypes) =
        some [.reference .object "Leaf", .reference .object "Branch"] ∧
      (treesReversed.describe? "Tree").bind (·.possibleTypes) =
        some [.reference .object "Branch", .reference .object "Leaf"] := by
  have hperm : treeDefinitions.Perm treeDefinitions.reverse := (List.reverse_perm _).symm
  have hone : (treeDefinitions.filterMap Definition.roots?).length ≤ 1 := by decide
  have hload : ofDefinitions treeDefinitions = .ok trees := rfl
  have hload' : ofDefinitions treeDefinitions.reverse = .ok treesReversed := rfl
  exact ⟨hperm, hone, (ofDefinitions_perm hperm hone).2 _ _ hload hload', rfl, rfl⟩

end Schema

end TypedQuery
