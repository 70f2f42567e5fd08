import TypedQuery.Proofs.Coercion.Members
import TypedQuery.Proofs.Schema.Registration

/-!
# What a list of definitions loads

The definitions of a schema text are added to a new builder one after the other. Where no addition
fails, what the builder holds in the end can be said without the order of the additions.

* `TypeSystem.Definition.type?`, `Definition.directive?` -- what one definition adds;
* `SchemaBuilder.Addable` -- **when no addition fails**: every name is free and comes once;
* `SchemaBuilder.Adds` -- what the builder then holds: what it held, and what was added;
* `SchemaBuilder.foldlM_addDefinition_cases`, `SchemaBuilder.exists_foldlM_addDefinition` -- the two
  together are what loading comes to;
* `SchemaBuilder.build_eq_ok_iff` -- what building asks, said by lookups;
* `Schema.named?_of_ofDefinitions` -- **the types of a loaded schema**: the built-in scalars, and
  those that its definitions declare.
-/

namespace TypedQuery

namespace TypeSystem

/-! ## 1. What one definition adds -/

/-- The type that a definition adds. -/
def Definition.type? (implementers : String → List String) : Definition → Option NamedType
  | .type t => t.toType? implementers
  | .directive _ | .schema _ | .typeExtension => none

/-- The directive that a definition adds. -/
def Definition.directive? : Definition → Option DirectiveType
  | .directive d => if isStandardDirective d.name then none else some d.toDirective
  | .type _ | .schema _ | .typeExtension => none

variable {im : String → List String} {d : Definition}

theorem addDefinition_of_type {t : NamedType} (h : d.type? im = some t) (b : SchemaBuilder) :
    addDefinition im b d = b.addType (.named t false) := by
  cases d with
  | type x =>
      simp only [Definition.type?] at h
      simp only [addDefinition, h]
  | directive _ | schema _ | typeExtension => cases h

theorem addDefinition_of_directive {x : DirectiveType} (h : d.directive? = some x)
    (b : SchemaBuilder) : addDefinition im b d = b.addDirective x := by
  cases d with
  | directive y =>
      simp only [Definition.directive?] at h
      split at h
      · cases h
      · rename_i hnew
        cases h
        simp only [addDefinition, hnew, Bool.false_eq_true, if_false]
  | type _ | schema _ | typeExtension => cases h

theorem addDefinition_of_neither (htype : d.type? im = none) (hdirective : d.directive? = none)
    (b : SchemaBuilder) : addDefinition im b d = .ok b := by
  cases d with
  | type x =>
      simp only [Definition.type?] at htype
      simp only [addDefinition, htype]
  | directive y =>
      simp only [Definition.directive?] at hdirective
      split at hdirective
      · rename_i hold
        simp only [addDefinition, hold, if_true]
      · cases hdirective
  | schema _ | typeExtension => rfl

/-- A definition adds one thing at most. -/
theorem Definition.directive?_of_type {t : NamedType} (h : d.type? im = some t) :
    d.directive? = none := by
  cases d with
  | type x => rfl
  | directive _ | schema _ | typeExtension => cases h

/-- A type has the name of its definition. -/
theorem TypeDefinition.name_of_toType? {x : TypeDefinition} {t : NamedType}
    (h : x.toType? im = some t) : t.name = x.name := by
  unfold toType? at h
  split at h
  · split at h
    · cases h
    · cases h
      rfl
  all_goals
    cases h
    rfl

end TypeSystem

namespace SchemaBuilder

open TypeSystem

/-! ## 2. Additions -/

/-- **Types and directives that can be added one after the other**: each under a free name of its
    own, no type repeating a name inside. -/
structure Addable (b : SchemaBuilder) (types : List NamedType) (directives : List DirectiveType) :
    Prop where
  free : ∀ t ∈ types, b.hasType t.name = false
  distinct : ∀ t ∈ types, t.repeated? = none
  once : (types.map NamedType.name).Nodup
  freeDirective : ∀ d ∈ directives, b.directives.contains d.name = false
  onceDirective : (directives.map (·.name)).Nodup

/-- **The builder with types and directives added**: each is found under its name, and all else is
    as it was; of the bindings of host types nothing is said. -/
structure Adds (b : SchemaBuilder) (types : List NamedType) (directives : List DirectiveType)
    (b' : SchemaBuilder) : Prop where
  type : ∀ {space name t}, (b'.types space).find? name = some t ↔
    (b.types space).find? name = some t ∨ t ∈ types ∧ t.isFor space = true ∧ t.name = name
  directive : ∀ {name d}, b'.directives.find? name = some d ↔
    b.directives.find? name = some d ∨ d ∈ directives ∧ d.name = name
  rest : b' = { b with
    inputTypes := b'.inputTypes, outputTypes := b'.outputTypes
    inputHosts := b'.inputHosts, outputHosts := b'.outputHosts, directives := b'.directives }

variable {b b' : SchemaBuilder} {types : List NamedType} {directives : List DirectiveType}

theorem adds_nil (b : SchemaBuilder) : b.Adds [] [] b :=
  ⟨by simp, by simp, rfl⟩

/-- Under a free name that is its own a type is found, and nothing else changes. -/
theorem find?_of_addType {t : NamedType} (h : b.addType (.named t false) = .ok b')
    (space : Namespace) (name : String) :
    (b'.types space).find? name =
      if t.isFor space = true ∧ name = t.name then some t else (b.types space).find? name := by
  obtain ⟨u, hu, -, -, rfl⟩ := addType_cases h
  cases hu
  refine find?_of_added (fun space => ?_) space name
  rw [types_insertNamed, types_bindOwnHost]

theorem hasType_of_addType_iff {t : NamedType} (h : b.addType (.named t false) = .ok b')
    (name : String) :
    b'.hasType name = false ↔ b.hasType name = false ∧ name ≠ t.name := by
  obtain ⟨space, hfor⟩ := (addsType_of_addType h).somewhere
  simp only [hasType_eq_false_iff, find?_of_addType h]
  constructor
  · intro hnone
    have hname : name ≠ t.name := by
      rintro rfl
      have hfound := hnone space
      rw [if_pos ⟨hfor, rfl⟩] at hfound
      cases hfound
    refine ⟨fun other => ?_, hname⟩
    rw [← hnone other, if_neg fun hc => hname hc.2]
  · rintro ⟨hnone, hname⟩ other
    rw [if_neg fun hc => hname hc.2]
    exact hnone other

/-- **One type first, then the rest.** -/
theorem addable_cons_type {t : NamedType} (h : b.addType (.named t false) = .ok b') :
    b.Addable (t :: types) directives ↔ b'.Addable types directives := by
  obtain ⟨u, hu, hfree, hnone, hb'⟩ := addType_cases h
  cases hu
  have hdirectives : b'.directives = b.directives := hb' ▸ directives_bindOwnHost b t
  have hfree' : ∀ u : NamedType, b'.hasType u.name = false ↔
      b.hasType u.name = false ∧ u.name ≠ t.name := fun u => hasType_of_addType_iff h u.name
  constructor
  · intro ha
    have honce := List.nodup_cons.1 ha.once
    constructor
    · intro u hu
      refine (hfree' u).2 ⟨ha.free u (List.mem_cons_of_mem _ hu), fun hname => honce.1 ?_⟩
      exact hname ▸ List.mem_map_of_mem hu
    · exact fun u hu => ha.distinct u (List.mem_cons_of_mem _ hu)
    · exact honce.2
    · rw [hdirectives]
      exact ha.freeDirective
    · exact ha.onceDirective
  · intro ha
    constructor
    · intro u hu
      rcases List.mem_cons.1 hu with rfl | hu
      · exact hfree
      · exact ((hfree' u).1 (ha.free u hu)).1
    · intro u hu
      rcases List.mem_cons.1 hu with rfl | hu
      · exact hnone
      · exact ha.distinct u hu
    · refine List.nodup_cons.2 ⟨fun hmem => ?_, ha.once⟩
      obtain ⟨u, hu, hname⟩ := List.mem_map.1 hmem
      exact ((hfree' u).1 (ha.free u hu)).2 hname
    · rw [← hdirectives]
      exact ha.freeDirective
    · exact ha.onceDirective

theorem contains_of_addDirective {d : DirectiveType} (h : b.addDirective d = .ok b')
    (name : String) :
    b'.directives.contains name = false ↔ b.directives.contains name = false ∧ name ≠ d.name := by
  obtain ⟨-, rfl⟩ := addDirective_cases h
  simp only [Table.contains, Table.find?_insert]
  by_cases hname : name = d.name <;> simp [hname]

theorem hasType_of_addDirective {d : DirectiveType} (h : b.addDirective d = .ok b')
    (name : String) : b'.hasType name = b.hasType name := by
  obtain ⟨-, rfl⟩ := addDirective_cases h
  rfl

/-- **One directive first, then the rest.** -/
theorem addable_cons_directive {d : DirectiveType} (h : b.addDirective d = .ok b') :
    b.Addable types (d :: directives) ↔ b'.Addable types directives := by
  have hfree := (addDirective_cases h).1
  have hcontains := fun x : DirectiveType => contains_of_addDirective h x.name
  have hhas : ∀ t : NamedType, b'.hasType t.name = b.hasType t.name :=
    fun t => hasType_of_addDirective h t.name
  constructor
  · intro ha
    have honce := List.nodup_cons.1 ha.onceDirective
    refine ⟨fun t ht => (hhas t).trans (ha.free t ht), ha.distinct, ha.once, fun x hx => ?_,
      honce.2⟩
    refine (hcontains x).2 ⟨ha.freeDirective x (List.mem_cons_of_mem _ hx), fun hname =>
      honce.1 ?_⟩
    exact List.mem_map.2 ⟨x, hx, hname⟩
  · intro ha
    refine ⟨fun t ht => (hhas t).symm.trans (ha.free t ht), ha.distinct, ha.once, ?_, ?_⟩
    · intro x hx
      rcases List.mem_cons.1 hx with rfl | hx
      · exact hfree
      · exact ((hcontains x).1 (ha.freeDirective x hx)).1
    · refine List.nodup_cons.2 ⟨fun hmem => ?_, ha.onceDirective⟩
      obtain ⟨x, hx, hname⟩ := List.mem_map.1 hmem
      exact ((hcontains x).1 (ha.freeDirective x hx)).2 hname

theorem adds_cons_type {t : NamedType} {b'' : SchemaBuilder}
    (h : b.addType (.named t false) = .ok b') (hrest : b'.Adds types directives b'') :
    b.Adds (t :: types) directives b'' := by
  have hadded := addsType_of_addType h
  have hfree := hadded.free
  have hdirectives : b'.directives = b.directives := by rw [hadded.rest]
  constructor
  · intro space name u
    rw [hrest.type, find?_of_addType h]
    by_cases ht : t.isFor space = true ∧ name = t.name
    · -- the name was free, so nothing else is found under it
      obtain ⟨hfor, rfl⟩ := ht
      have hnone := hasType_eq_false_iff.1 hfree space
      rw [if_pos ⟨hfor, rfl⟩, hnone]
      constructor
      · rintro (hu | ⟨hmem, hfor', hname⟩)
        · cases hu
          exact .inr ⟨List.mem_cons_self, hfor, rfl⟩
        · exact .inr ⟨List.mem_cons_of_mem _ hmem, hfor', hname⟩
      · rintro (hu | ⟨hmem, hfor', hname⟩)
        · cases hu
        · rcases List.mem_cons.1 hmem with rfl | hmem
          · exact .inl rfl
          · exact .inr ⟨hmem, hfor', hname⟩
    · rw [if_neg ht]
      refine or_congr Iff.rfl ⟨fun hu => ⟨List.mem_cons_of_mem _ hu.1, hu.2⟩, ?_⟩
      rintro ⟨hmem, hfor', hname⟩
      rcases List.mem_cons.1 hmem with rfl | hmem
      · exact absurd ⟨hfor', hname.symm⟩ ht
      · exact ⟨hmem, hfor', hname⟩
  · intro name d
    rw [hrest.directive, hdirectives]
  · rw [hrest.rest, hadded.rest]

theorem adds_cons_directive {d : DirectiveType} {b'' : SchemaBuilder}
    (h : b.addDirective d = .ok b') (hrest : b'.Adds types directives b'') :
    b.Adds types (d :: directives) b'' := by
  obtain ⟨hfree, rfl⟩ := addDirective_cases h
  constructor
  · intro space name u
    rw [hrest.type]
    cases space <;> rfl
  · intro name x
    rw [hrest.directive, Table.find?_insert]
    by_cases hname : name = d.name
    · subst hname
      have hnone : b.directives.find? d.name = none := by simpa [Table.contains] using hfree
      rw [if_pos rfl, hnone]
      constructor
      · rintro (hx | ⟨hmem, hx⟩)
        · cases hx
          exact .inr ⟨List.mem_cons_self, rfl⟩
        · exact .inr ⟨List.mem_cons_of_mem _ hmem, hx⟩
      · rintro (hx | ⟨hmem, hx⟩)
        · cases hx
        · rcases List.mem_cons.1 hmem with rfl | hmem
          · exact .inl rfl
          · exact .inr ⟨hmem, hx⟩
    · rw [if_neg hname]
      refine or_congr Iff.rfl ⟨fun hx => ⟨List.mem_cons_of_mem _ hx.1, hx.2⟩, ?_⟩
      rintro ⟨hmem, hx⟩
      rcases List.mem_cons.1 hmem with rfl | hmem
      · exact absurd hx.symm hname
      · exact ⟨hmem, hx⟩
  · rw [hrest.rest]

/-! ## 3. Loading -/

variable {im : String → List String} {definitions : List TypeSystem.Definition}

/-- **All that loading can do**: what the definitions declare can be added, and it is added. -/
theorem foldlM_addDefinition_cases (h : definitions.foldlM (addDefinition im) b = .ok b') :
    b.Addable (definitions.filterMap (·.type? im)) (definitions.filterMap (·.directive?)) ∧
      b.Adds (definitions.filterMap (·.type? im)) (definitions.filterMap (·.directive?)) b' := by
  induction definitions generalizing b with
  | nil =>
      cases h
      exact ⟨⟨by simp, by simp, List.nodup_nil, by simp, List.nodup_nil⟩, adds_nil _⟩
  | cons d rest ih =>
      rw [List.foldlM_cons] at h
      obtain ⟨middle, hmiddle, hrest⟩ := bind_eq_ok.1 h
      obtain ⟨haddable, hadds⟩ := ih hrest
      cases htype : d.type? im with
      | some t =>
          rw [addDefinition_of_type htype] at hmiddle
          rw [List.filterMap_cons_some htype,
            List.filterMap_cons_none (Definition.directive?_of_type htype)]
          exact ⟨(addable_cons_type hmiddle).2 haddable, adds_cons_type hmiddle hadds⟩
      | none =>
          rw [List.filterMap_cons_none htype]
          cases hdirective : d.directive? with
          | some x =>
              rw [addDefinition_of_directive hdirective] at hmiddle
              rw [List.filterMap_cons_some hdirective]
              exact ⟨(addable_cons_directive hmiddle).2 haddable,
                adds_cons_directive hmiddle hadds⟩
          | none =>
              rw [addDefinition_of_neither htype hdirective] at hmiddle
              cases hmiddle
              rw [List.filterMap_cons_none hdirective]
              exact ⟨haddable, hadds⟩

/-- **What can be added is added**: no definition fails. -/
theorem exists_foldlM_addDefinition
    (h : b.Addable (definitions.filterMap (·.type? im)) (definitions.filterMap (·.directive?))) :
    ∃ b', definitions.foldlM (addDefinition im) b = .ok b' := by
  induction definitions generalizing b with
  | nil => exact ⟨b, rfl⟩
  | cons d rest ih =>
      -- the first definition leads to a builder from which the others go on
      obtain ⟨middle, hmiddle, haddable⟩ : ∃ middle, addDefinition im b d = .ok middle ∧
          middle.Addable (rest.filterMap (·.type? im)) (rest.filterMap (·.directive?)) := by
        cases htype : d.type? im with
        | some t =>
            rw [List.filterMap_cons_some htype,
              List.filterMap_cons_none (Definition.directive?_of_type htype)] at h
            have hfree := h.free t List.mem_cons_self
            have hdistinct := NamedType.repeated?_eq_none_iff.1 (h.distinct t List.mem_cons_self)
            obtain ⟨middle, hmiddle⟩ := (addsWhole b).accepted hfree hdistinct
            exact ⟨middle, (addDefinition_of_type htype b).trans hmiddle,
              (addable_cons_type hmiddle).1 h⟩
        | none =>
            rw [List.filterMap_cons_none htype] at h
            cases hdirective : d.directive? with
            | some x =>
                rw [List.filterMap_cons_some hdirective] at h
                have hfree := h.freeDirective x List.mem_cons_self
                obtain ⟨middle, hmiddle⟩ := (addsWhole b).acceptedDirective hfree
                exact ⟨middle, (addDefinition_of_directive hdirective b).trans hmiddle,
                  (addable_cons_directive hmiddle).1 h⟩
            | none =>
                rw [List.filterMap_cons_none hdirective] at h
                exact ⟨b, addDefinition_of_neither htype hdirective b, h⟩
      obtain ⟨b', hb'⟩ := ih haddable
      exact ⟨b', by rw [List.foldlM_cons]; exact bind_eq_ok.2 ⟨middle, hmiddle, hb'⟩⟩

/-! ## 4. Building -/

/-- What a reference mentions is known if its name is found in its namespace. -/
theorem knows_eq (b : SchemaBuilder) (r : Reference) :
    b.knows r = ((b.types r.space).find? r.type.innerName).isSome := by
  obtain ⟨type, space, referrer⟩ := r
  cases space <;> rfl

/-- A reference stands in a type of one of the namespaces, or in a directive. -/
inductive References (b : SchemaBuilder) (r : Reference) : Prop
  | output {name : String} {t : NamedType} (found : (b.types .output).find? name = some t)
      (member : r ∈ outputReferences t)
  | input {name : String} {t : NamedType} (found : (b.types .input).find? name = some t)
      (member : r ∈ inputReferences t)
  | directive {name : String} {d : DirectiveType} (found : b.directives.find? name = some d)
      (member : r ∈ directiveReferences d)

theorem mem_references_iff {r : Reference} : r ∈ b.references ↔ b.References r := by
  have hvalues : ∀ {α : Type} {table : Table α} {x : α},
      x ∈ table.values ↔ ∃ name, table.find? name = some x := by
    intro α table x
    simp only [Table.values, List.mem_map, Prod.exists, exists_eq_right, Table.find?_eq_some_iff]
  simp only [references, List.mem_append, List.mem_flatMap, hvalues]
  constructor
  · rintro ((⟨t, ⟨name, ht⟩, hr⟩ | ⟨t, ⟨name, ht⟩, hr⟩) | ⟨d, ⟨name, hd⟩, hr⟩)
    · exact .output ht hr
    · exact .input ht hr
    · exact .directive hd hr
  · rintro (⟨ht, hr⟩ | ⟨ht, hr⟩ | ⟨hd, hr⟩)
    · exact .inl (.inl ⟨_, ⟨_, ht⟩, hr⟩)
    · exact .inl (.inr ⟨_, ⟨_, ht⟩, hr⟩)
    · exact .inr ⟨_, ⟨_, hd⟩, hr⟩

/-- **What building asks**: the roots that are named are objects, interfaces or unions, and every
    reference mentions a name of its namespace. -/
structure Buildable (b : SchemaBuilder) : Prop where
  query : ∃ c, (b.types .output).find? b.queryType = some (.composite c)
  mutation : ∀ name ∈ b.mutationType, ∃ c, (b.types .output).find? name = some (.composite c)
  subscription : ∀ name ∈ b.subscriptionType,
    ∃ c, (b.types .output).find? name = some (.composite c)
  known : ∀ r, b.References r → ((b.types r.space).find? r.type.innerName).isSome = true

theorem root_eq_ok_iff {name : String} {c : CompositeType} :
    b.root name = .ok c ↔ (b.types .output).find? name = some (.composite c) := by
  show _ ↔ b.outputTypes.find? name = some (.composite c)
  unfold root
  split
  · rename_i c' hc'
    rw [hc']
    simp
  · rename_i hno
    simp only [reduceCtorEq, false_iff]
    exact hno c

theorem root?_eq_ok_iff {name : Option String} {root : Option CompositeType} :
    b.root? name = .ok root ↔
      match name with
      | none => root = none
      | some name => ∃ c, root = some c ∧ (b.types .output).find? name = some (.composite c) := by
  cases name with
  | none =>
      simp only [root?, Except.ok.injEq]
      exact eq_comm
  | some name =>
      simp only [root?, map_eq_ok, root_eq_ok_iff]
      constructor
      · rintro ⟨c, hc, rfl⟩
        exact ⟨c, rfl, hc⟩
      · rintro ⟨c, rfl, hc⟩
        exact ⟨c, hc, rfl⟩

/-- **Building succeeds exactly where nothing is missing.** -/
theorem build_eq_ok_iff : (∃ s, b.build = .ok s) ↔ b.Buildable := by
  constructor
  · rintro ⟨s, h⟩
    obtain ⟨hquery, hmutation, hsubscription, hknown, -⟩ := build_cases h
    have hroot : ∀ {name : Option String} {root}, b.root? name = .ok root → ∀ n ∈ name,
        ∃ c, (b.types .output).find? n = some (.composite c) := by
      intro name root hroot n hn
      cases hn
      obtain ⟨c, -, hc⟩ := root?_eq_ok_iff.1 hroot
      exact ⟨c, hc⟩
    refine ⟨⟨_, root_eq_ok_iff.1 hquery⟩, hroot hmutation, hroot hsubscription, fun r hr => ?_⟩
    rw [← knows_eq]
    exact hknown r (mem_references_iff.2 hr)
  · intro h
    have hroot : ∀ name : Option String,
        (∀ n ∈ name, ∃ c, (b.types .output).find? n = some (.composite c)) →
        ∃ root, b.root? name = .ok root := by
      intro name hname
      cases name with
      | none => exact ⟨none, rfl⟩
      | some n =>
          obtain ⟨c, hc⟩ := hname n rfl
          exact ⟨some c, root?_eq_ok_iff.2 ⟨c, rfl, hc⟩⟩
    obtain ⟨query, hquery⟩ := h.query
    obtain ⟨mutation, hmutation⟩ := hroot _ h.mutation
    obtain ⟨subscription, hsubscription⟩ := hroot _ h.subscription
    have hnone : b.references.find? (fun r => !b.knows r) = none := by
      refine List.find?_eq_none.2 fun r hr => ?_
      rw [knows_eq, h.known r (mem_references_iff.1 hr)]
      decide
    unfold build
    simp only [root_eq_ok_iff.2 hquery, hmutation, hsubscription, hnone, bind, Except.bind]
    exact ⟨_, rfl⟩

end SchemaBuilder

namespace Schema

open TypeSystem

variable {definitions : List TypeSystem.Definition} {s : Schema}

/-- The builder that definitions load, with the roots that they name. -/
theorem exists_of_ofDefinitions (h : ofDefinitions definitions = .ok s) :
    ∃ b, definitions.foldlM (addDefinition (implementers definitions)) SchemaBuilder.new = .ok b ∧
      (setRoots b ((explicitRoots? definitions).getD (usualRoots b.hasType))).build = .ok s :=
  bind_eq_ok.1 h

theorem types_setRoots (b : SchemaBuilder) (roots : Roots) :
    (setRoots b roots).types = b.types := by
  funext space
  cases space <;> rfl

/-- **The types of a loaded schema**: the built-in scalars, and what its definitions declare. -/
theorem named?_of_ofDefinitions (h : ofDefinitions definitions = .ok s) {space : Namespace}
    {name : String} {t : NamedType} :
    s.named? space name = some t ↔
      (∃ k ∈ ScalarType.builtin, k.name = name ∧ t = .scalar k) ∨
      ∃ d ∈ definitions, d.type? (implementers definitions) = some t ∧ t.isFor space = true ∧
        t.name = name := by
  obtain ⟨b, hload, hbuild⟩ := exists_of_ofDefinitions h
  have hadds := (SchemaBuilder.foldlM_addDefinition_cases hload).2
  have hnew : (SchemaBuilder.new.types space).find? name = some t ↔
      ∃ k ∈ ScalarType.builtin, k.name = name ∧ t = .scalar k := by
    simp only [Table.find?_eq_some_iff, SchemaBuilder.entries_types_new, List.mem_map,
      Prod.mk.injEq]
    exact exists_congr fun k => and_congr_right fun _ => and_congr_right fun _ => eq_comm
  rw [named?, SchemaBuilder.types_build hbuild, types_setRoots, hadds.type, hnew]
  simp only [List.mem_filterMap]
  constructor
  · rintro (hk | ⟨⟨d, hd, ht⟩, hfor, hname⟩)
    · exact .inl hk
    · exact .inr ⟨d, hd, ht, hfor, hname⟩
  · rintro (hk | ⟨d, hd, ht, hfor, hname⟩)
    · exact .inl hk
    · exact .inr ⟨⟨d, hd, ht⟩, hfor, hname⟩

end Schema

end TypedQuery
