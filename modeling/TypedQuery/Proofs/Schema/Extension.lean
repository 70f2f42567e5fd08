import TypedQuery.Proofs.Schema.Loading

/-!
# One definition more

Definitions without a schema definition are followed by one of a scalar, an enumeration, a union or
an input object that they do not mention.

* `OperationKind.usualRoot` -- the type that answers a kind of operation, by its name;
* `Schema.root?_eq_some_iff` -- **without a schema definition the roots are found by these names**;
* `TypeSystem.TypeDefinition.Unrelated` -- a definition that the others have no part in;
* `Schema.ofDefinitions_append` -- **it is accepted, and everything stays**, unless it takes the
  name of a root: a union becomes this root, and all else is refused.
-/

namespace TypedQuery

/-- The name of the root of a kind of operation where nothing else is said. -/
def OperationKind.usualRoot : OperationKind → String
  | .query => "Query"
  | .mutation => "Mutation"
  | .subscription => "Subscription"

namespace TypeSystem

/-! ## 1. Definitions that others have no part in -/

/-- Whether a type has fields for output. -/
def TypeBody.isFielded : TypeBody → Bool
  | .object _ _ | .interface _ => true
  | .scalar | .enum _ | .union _ | .inputObject _ => false

/-- What a union or an input object mentions, and where that is looked up. -/
inductive TypeDefinition.Mentions (x : TypeDefinition) : Namespace → String → Prop
  | member {members : List String} {name : String} (body : x.body = .union members)
      (member : name ∈ members) : Mentions x .output name
  | field {fields : List InputValue} {f : InputValue} (body : x.body = .inputObject fields)
      (member : f ∈ fields) : Mentions x .input f.type.innerName

/-- **A definition that is unrelated to others**: a scalar, an enumeration, a union or an input
    object of a new name, that repeats no field and mentions what is there, or itself. -/
structure TypeDefinition.Unrelated (x : TypeDefinition) (definitions : List Definition)
    (s : Schema) : Prop where
  body : x.body.isFielded = false
  new : ∀ y, .type y ∈ definitions → y.name ≠ x.name
  notBuiltin : ∀ k ∈ ScalarType.builtin, k.name ≠ x.name
  distinct : ∀ fields, x.body = .inputObject fields → (fields.map (·.name)).Nodup
  known : ∀ {space name}, x.Mentions space name →
    (s.named? space name).isSome = true ∨ name = x.name

/-- Whether a definition can stand next to roots of the usual names: it is a union, which can be a
    root itself, or it has none of these names. -/
def TypeDefinition.SparesRoots (x : TypeDefinition) : Prop :=
  (∃ members, x.body = .union members) ∨ ∀ kind : OperationKind, x.name ≠ kind.usualRoot

variable {x : TypeDefinition} {t : NamedType} {im im' : String → List String}
  {definitions : List Definition}

/-- A type without fields for output implements nothing. -/
theorem implementers_append (hbody : x.body.isFielded = false) :
    implementers (definitions ++ [Definition.type x]) = implementers definitions := by
  funext interface
  obtain ⟨description, name, body⟩ := x
  cases body with
  | object _ _ | interface _ => cases hbody
  | scalar | union _ | enum _ | inputObject _ => simp [implementers]

/-- **What such a definition declares**, whatever implements what. -/
structure TypeDefinition.Declares (x : TypeDefinition) (t : NamedType) : Prop where
  type : ∀ im, x.toType? im = some t
  name : t.name = x.name
  distinct : t.Distinct
  /-- What the type refers to, the definition mentions, and in a namespace that the type is for. -/
  mentions : ∀ {r : SchemaBuilder.Reference},
    r ∈ SchemaBuilder.outputReferences t ∨ r ∈ SchemaBuilder.inputReferences t →
      x.Mentions r.space r.type.innerName ∧ t.isFor r.space = true
  /-- Only a union can be a root. -/
  composite : (∃ c, t = .composite c) ↔ ∃ members, x.body = .union members

theorem TypeDefinition.Unrelated.exists_declares {s : Schema} (h : x.Unrelated definitions s) :
    ∃ t, x.Declares t := by
  obtain ⟨description, name, body⟩ := x
  obtain ⟨hbody, -, hbuiltin, hdistinct, -⟩ := h
  cases body with
  | object _ _ | interface _ => cases hbody
  | scalar =>
      have hnone : ScalarType.builtin? name = none :=
        List.find?_eq_none.2 fun k hk => by simpa using hbuiltin k hk
      refine ⟨.scalar (.custom name description), fun im => ?_, rfl, trivial, ?_, by simp⟩
      · simp [toType?, hnone]
      · simp [SchemaBuilder.outputReferences, SchemaBuilder.inputReferences]
  | enum values =>
      refine ⟨_, fun im => rfl, rfl, trivial, ?_, by simp⟩
      simp [SchemaBuilder.outputReferences, SchemaBuilder.inputReferences]
  | union members =>
      refine ⟨_, fun im => rfl, rfl, ⟨List.nodup_nil, by simp⟩, fun hr => ?_, by simp⟩
      simp only [SchemaBuilder.outputReferences, SchemaBuilder.inputReferences, List.flatMap_nil,
        List.nil_append, List.mem_map, List.not_mem_nil, or_false] at hr
      obtain ⟨n, hn, rfl⟩ := hr
      exact ⟨.member rfl hn, rfl⟩
  | inputObject fields =>
      refine ⟨_, fun im => rfl, rfl, ?_, fun hr => ?_, by simp⟩
      · have hfields := hdistinct fields rfl
        simpa [NamedType.Distinct, Function.comp_def, InputValue.toInputField] using hfields
      · simp only [SchemaBuilder.outputReferences, SchemaBuilder.inputReferences, List.map_map,
          List.mem_map, List.not_mem_nil, false_or] at hr
        obtain ⟨f, hf, rfl⟩ := hr
        exact ⟨.field rfl hf, rfl⟩

end TypeSystem

/-! ## 2. Roots of the usual names -/

namespace SchemaBuilder

open TypeSystem

variable {b b' : SchemaBuilder}

/-- What building asks where no roots are named: a root for queries, none of the usual names on a
    type that cannot be a root, and no unknown reference. -/
structure UsuallyBuildable (b : SchemaBuilder) : Prop where
  query : b.hasType OperationKind.query.usualRoot = true
  root : ∀ kind : OperationKind, b.hasType kind.usualRoot = true →
    ∃ c, (b.types .output).find? kind.usualRoot = some (.composite c)
  known : ∀ r, b.References r → ((b.types r.space).find? r.type.innerName).isSome = true

theorem hasType_of_find? {space : Namespace} {name : String} {t : NamedType}
    (h : (b.types space).find? name = some t) : b.hasType name = true := by
  by_contra hno
  have hnone := hasType_eq_false_iff.1 (Bool.eq_false_iff.2 hno) space
  rw [h] at hnone
  cases hnone

theorem references_setRoots (roots : Roots) {r : Reference} :
    (setRoots b roots).References r ↔ b.References r := by
  constructor
  · intro h
    cases h with
    | output hu hr => exact .output hu hr
    | input hu hr => exact .input hu hr
    | directive hd hr => exact .directive hd hr
  · intro h
    cases h with
    | output hu hr => exact .output hu hr
    | input hu hr => exact .input hu hr
    | directive hd hr => exact .directive hd hr

/-- The roots that a builder has after the definitions, if none of them names a root. -/
theorem buildable_usualRoots (hmutation : b.mutationType = none)
    (hsubscription : b.subscriptionType = none) :
    (setRoots b (usualRoots b.hasType)).Buildable ↔ b.UsuallyBuildable := by
  have hname : ∀ {usual name : String},
      name ∈ (if b.hasType usual then some usual else none) ↔
        b.hasType usual = true ∧ usual = name := by
    intro usual name
    split <;> simp_all
  constructor
  · intro h
    have hquery : ∃ c, (b.types .output).find? "Query" = some (.composite c) := h.query
    refine ⟨?_, fun kind hkind => ?_, fun r hr => ?_⟩
    · obtain ⟨c, hc⟩ := hquery
      exact hasType_of_find? hc
    · cases kind with
      | query => exact hquery
      | mutation =>
          refine h.mutation _ ?_
          simp [setRoots, usualRoots, show b.hasType "Mutation" = true from hkind,
            OperationKind.usualRoot]
      | subscription =>
          refine h.subscription _ ?_
          simp [setRoots, usualRoots, show b.hasType "Subscription" = true from hkind,
            OperationKind.usualRoot]
    · have hknown := h.known r ((references_setRoots _).2 hr)
      rw [Schema.types_setRoots] at hknown
      exact hknown
  · intro h
    refine ⟨?_, fun name hn => ?_, fun name hn => ?_, fun r hr => ?_⟩
    · exact h.root .query h.query
    · simp only [setRoots, usualRoots, hmutation, Option.or_none] at hn
      obtain ⟨hhas, rfl⟩ := hname.1 hn
      exact h.root .mutation hhas
    · simp only [setRoots, usualRoots, hsubscription, Option.or_none] at hn
      obtain ⟨hhas, rfl⟩ := hname.1 hn
      exact h.root .subscription hhas
    · rw [Schema.types_setRoots]
      exact h.known r ((references_setRoots _).1 hr)

end SchemaBuilder

namespace Schema

open TypeSystem

variable {definitions : List TypeSystem.Definition} {s s' : Schema}

/-- Without a schema definition no root is named. -/
theorem explicitRoots?_eq_none (hno : ∀ roots, Definition.schema roots ∉ definitions) :
    explicitRoots? definitions = none := by
  refine List.findSome?_eq_none_iff.2 fun d hd => ?_
  cases d with
  | schema roots => exact absurd (List.mem_reverse.1 hd) (hno roots)
  | type _ | directive _ | typeExtension => rfl

/-- Without a schema definition the builder is one whose roots have their usual names. -/
theorem ofDefinitions_eq_ok_iff (hno : ∀ roots, Definition.schema roots ∉ definitions) :
    ofDefinitions definitions = .ok s ↔
      ∃ b, definitions.foldlM (addDefinition (implementers definitions)) SchemaBuilder.new =
        .ok b ∧ (setRoots b (usualRoots b.hasType)).build = .ok s := by
  unfold ofDefinitions
  rw [explicitRoots?_eq_none hno]
  exact bind_eq_ok

/-- Definitions name no roots of a builder. -/
theorem roots_of_foldlM {im : String → List String} {b : SchemaBuilder}
    (h : definitions.foldlM (addDefinition im) SchemaBuilder.new = .ok b) :
    b.queryType = "Query" ∧ b.mutationType = none ∧ b.subscriptionType = none := by
  rw [(SchemaBuilder.foldlM_addDefinition_cases h).2.rest]
  exact ⟨rfl, rfl, rfl⟩

/-- **Without a schema definition the roots are found by their usual names.** -/
theorem root?_eq_some_iff (hno : ∀ roots, Definition.schema roots ∉ definitions)
    (h : ofDefinitions definitions = .ok s) (kind : OperationKind) {c : CompositeType} :
    s.root? kind = some c ↔ s.named? .output kind.usualRoot = some (.composite c) := by
  obtain ⟨b, hload, hbuild⟩ := (ofDefinitions_eq_ok_iff hno).1 h
  obtain ⟨-, hnomutation, hnosubscription⟩ := roots_of_foldlM hload
  obtain ⟨hquery, hmutation, hsubscription, -⟩ := SchemaBuilder.build_cases hbuild
  rw [named?, SchemaBuilder.types_build hbuild, types_setRoots]
  -- a root that need not be set is named exactly if there is a type of the name
  have hroot? : ∀ {name : String} {root},
      (setRoots b (usualRoots b.hasType)).root? (if b.hasType name then some name else none) =
        .ok root → (root = some c ↔ (b.types .output).find? name = some (.composite c)) := by
    intro name root hroot
    split at hroot
    · obtain ⟨c', rfl, hc'⟩ := SchemaBuilder.root?_eq_ok_iff.1 hroot
      rw [types_setRoots] at hc'
      rw [hc']
      simp
    · rename_i hfree
      cases hroot
      have hnone := SchemaBuilder.hasType_eq_false_iff.1 (Bool.eq_false_iff.2 hfree) .output
      simp [hnone]
  cases kind with
  | query =>
      have hc : (b.types .output).find? "Query" = some (.composite s.queryType) :=
        SchemaBuilder.root_eq_ok_iff.1 hquery
      rw [OperationKind.usualRoot, hc]
      simp [root?]
  | mutation =>
      simp only [setRoots, usualRoots, hnomutation, Option.or_none] at hmutation
      exact hroot? hmutation
  | subscription =>
      simp only [setRoots, usualRoots, hnosubscription, Option.or_none] at hsubscription
      exact hroot? hsubscription

/-! ## 3. One definition more -/

variable {x : TypeDefinition} {t : NamedType}

/-- A type is no schema definition. -/
theorem schema_notMem_append (hno : ∀ roots, Definition.schema roots ∉ definitions)
    (roots : Roots) : Definition.schema roots ∉ definitions ++ [Definition.type x] := by
  intro hmem
  rcases List.mem_append.1 hmem with hmem | hmem
  · exact hno roots hmem
  · cases List.mem_singleton.1 hmem

/-- Loading one definition more is adding what it declares. -/
theorem foldlM_append (hx : x.Unrelated definitions s) (ht : x.Declares t)
    {b' : SchemaBuilder} :
    (definitions ++ [Definition.type x]).foldlM
        (addDefinition (implementers (definitions ++ [Definition.type x])))
        SchemaBuilder.new = .ok b' ↔
      ∃ b, definitions.foldlM (addDefinition (implementers definitions)) SchemaBuilder.new =
        .ok b ∧ b.addType (.named t false) = .ok b' := by
  rw [implementers_append hx.body, List.foldlM_append]
  refine bind_eq_ok.trans (exists_congr fun b => and_congr_right fun _ => ?_)
  have hadd : addDefinition (implementers definitions) b (.type x) =
      b.addType (.named t false) :=
    addDefinition_of_type (d := .type x) (ht.type _) b
  simp [hadd]

end Schema

namespace SchemaBuilder

open TypeSystem

variable {b b' : SchemaBuilder} {x : TypeDefinition} {t : NamedType}

/-- What was found is found after an addition. -/
theorem find?_of_addType_of_find? (hadd : b.addType (.named t false) = .ok b') {space : Namespace}
    {name : String} {u : NamedType} (hu : (b.types space).find? name = some u) :
    (b'.types space).find? name = some u := by
  rw [find?_of_addType hadd, if_neg, hu]
  rintro ⟨-, rfl⟩
  rw [hasType_eq_false_iff.1 (addsType_of_addType hadd).free space] at hu
  cases hu

/-- No reference is unknown after the addition of a type that mentions what is there. -/
theorem known_of_addType (hadd : b.addType (.named t false) = .ok b') (ht : x.Declares t)
    (hknown : ∀ r, b.References r → ((b.types r.space).find? r.type.innerName).isSome = true)
    (hmentions : ∀ {space name}, x.Mentions space name →
      ((b.types space).find? name).isSome = true ∨ name = x.name)
    {r : Reference} (hr : b'.References r) :
    ((b'.types r.space).find? r.type.innerName).isSome = true := by
  have hkept : ∀ {space name}, ((b.types space).find? name).isSome = true →
      ((b'.types space).find? name).isSome = true := by
    intro space name h
    obtain ⟨u, hu⟩ := Option.isSome_iff_exists.1 h
    rw [find?_of_addType_of_find? hadd hu]
    rfl
  have hnew : r ∈ outputReferences t ∨ r ∈ inputReferences t →
      ((b'.types r.space).find? r.type.innerName).isSome = true := by
    intro hmember
    obtain ⟨hmention, hfor⟩ := ht.mentions hmember
    rcases hmentions hmention with hthere | hitself
    · exact hkept hthere
    · rw [find?_of_addType hadd, if_pos ⟨hfor, hitself.trans ht.name.symm⟩]
      rfl
  cases hr with
  | output hu hmember =>
      rw [find?_of_addType hadd] at hu
      split at hu
      · cases hu
        exact hnew (.inl hmember)
      · exact hkept (hknown r (.output hu hmember))
  | input hu hmember =>
      rw [find?_of_addType hadd] at hu
      split at hu
      · cases hu
        exact hnew (.inr hmember)
      · exact hkept (hknown r (.input hu hmember))
  | directive hd hmember =>
      rw [(addsType_of_addType hadd).rest] at hd
      exact hkept (hknown r (.directive hd hmember))

/-- **What one definition more asks** of a builder that can be built. -/
theorem usuallyBuildable_of_addType (hb : b.UsuallyBuildable)
    (hadd : b.addType (.named t false) = .ok b') (ht : x.Declares t)
    (hmentions : ∀ {space name}, x.Mentions space name →
      ((b.types space).find? name).isSome = true ∨ name = x.name) :
    b'.UsuallyBuildable ↔ x.SparesRoots := by
  have hfree := (addsType_of_addType hadd).free
  constructor
  · intro h
    by_cases hkind : ∀ kind : OperationKind, x.name ≠ kind.usualRoot
    · exact .inr hkind
    · -- what answers the kind now is the type that was added
      push Not at hkind
      obtain ⟨kind, hname⟩ := hkind
      rw [← ht.name] at hname
      obtain ⟨c, hc⟩ := h.root kind (hname ▸ hasType_of_addType hadd)
      rw [← hname, find?_of_addType hadd, hasType_eq_false_iff.1 hfree .output] at hc
      split at hc
      · cases hc
        exact .inl (ht.composite.1 ⟨c, rfl⟩)
      · cases hc
  · intro h
    constructor
    · obtain ⟨c, hc⟩ := hb.root .query hb.query
      exact hasType_of_find? (find?_of_addType_of_find? hadd hc)
    · intro kind hhas
      by_cases hname : kind.usualRoot = t.name
      · have hunion := h.resolve_right fun hno => hno kind (ht.name.symm.trans hname.symm)
        obtain ⟨c, rfl⟩ := ht.composite.2 hunion
        exact ⟨c, by rw [find?_of_addType hadd, if_pos ⟨rfl, hname⟩]⟩
      · have hold : b.hasType kind.usualRoot = true := by
          by_contra hno
          have hnew := (hasType_of_addType_iff hadd kind.usualRoot).2
            ⟨Bool.eq_false_iff.2 hno, hname⟩
          rw [hhas] at hnew
          cases hnew
        obtain ⟨c, hc⟩ := hb.root kind hold
        exact ⟨c, find?_of_addType_of_find? hadd hc⟩
    · exact fun r hr => known_of_addType hadd ht hb.known hmentions hr

end SchemaBuilder

namespace Schema

open TypeSystem

variable {definitions : List TypeSystem.Definition} {s s' : Schema} {x : TypeDefinition}

/-- **A schema with one type more**: what was found is found, and the roots are those that were
    there, except that one of the usual name may have come. -/
structure ExtendedBy (s : Schema) (x : TypeDefinition) (s' : Schema) : Prop where
  /-- A name that resolves resolves to the same type. -/
  named : ∀ {space name t}, s.named? space name = some t → s'.named? space name = some t
  /-- The name of the definition resolves to what it declares. -/
  added : ∃ t, x.Declares t ∧ ∀ space, t.isFor space = true → s'.named? space x.name = some t
  /-- The root of queries stays. -/
  query : s'.queryType = s.queryType
  /-- A root of another name stays. -/
  root : ∀ kind : OperationKind, x.name ≠ kind.usualRoot → s'.root? kind = s.root? kind
  /-- A root of this name was not there, and is the union now. -/
  rootAdded : ∀ kind : OperationKind, x.name = kind.usualRoot → s.root? kind = none ∧
    ∃ c, x.Declares (.composite c) ∧ s'.root? kind = some c

/-- The name of an unrelated definition is free. -/
theorem named?_of_unrelated (h : ofDefinitions definitions = .ok s)
    (hx : x.Unrelated definitions s) (space : Namespace) : s.named? space x.name = none := by
  refine Option.eq_none_iff_forall_ne_some.2 fun u hu => ?_
  rcases (named?_of_ofDefinitions h).1 hu with ⟨k, hk, hname, -⟩ | ⟨d, hd, hdeclared, -, hname⟩
  · exact hx.notBuiltin k hk hname
  · cases d with
    | type y => exact hx.new y hd ((TypeDefinition.name_of_toType? hdeclared).symm.trans hname)
    | schema _ | directive _ | typeExtension => cases hdeclared

/-- The schema of the builder with the addition. -/
theorem extendedBy_of_addType {b b' : SchemaBuilder} {t : NamedType}
    (hadd : b.addType (.named t false) = .ok b') (ht : x.Declares t)
    (hspares : x.SparesRoots) (htypes : s.types = b.types) (htypes' : s'.types = b'.types)
    (hroot : ∀ (kind : OperationKind) (c : CompositeType),
      s.root? kind = some c ↔ s.named? .output kind.usualRoot = some (.composite c))
    (hroot' : ∀ (kind : OperationKind) (c : CompositeType),
      s'.root? kind = some c ↔ s'.named? .output kind.usualRoot = some (.composite c)) :
    s.ExtendedBy x s' := by
  have hfound : ∀ space name, s'.named? space name =
      if t.isFor space = true ∧ name = x.name then some t else s.named? space name := by
    intro space name
    rw [named?, named?, htypes, htypes', SchemaBuilder.find?_of_addType hadd, ht.name]
  have hfree : ∀ space, s.named? space x.name = none := by
    intro space
    rw [named?, htypes, ← ht.name]
    exact SchemaBuilder.hasType_eq_false_iff.1 (SchemaBuilder.addsType_of_addType hadd).free space
  have hold : ∀ kind : OperationKind, x.name ≠ kind.usualRoot → s'.root? kind = s.root? kind := by
    intro kind hname
    refine Option.ext fun c => ?_
    rw [hroot, hroot', hfound, if_neg fun hc => hname hc.2.symm]
  have hnone : ∀ kind : OperationKind, x.name = kind.usualRoot → s.root? kind = none := by
    intro kind hname
    refine Option.eq_none_iff_forall_ne_some.2 fun c hc => ?_
    rw [hroot, ← hname, hfree] at hc
    cases hc
  constructor
  case named =>
    intro space name u hu
    rw [hfound, if_neg, hu]
    rintro ⟨-, rfl⟩
    rw [hfree] at hu
    cases hu
  case added => exact ⟨t, ht, fun space hfor => by rw [hfound, if_pos ⟨hfor, rfl⟩]⟩
  case query =>
    have hquery := hold .query fun hname => by cases hnone .query hname
    exact Option.some.inj hquery
  case root => exact hold
  case rootAdded =>
    intro kind hname
    refine ⟨hnone kind hname, ?_⟩
    obtain ⟨c, rfl⟩ := ht.composite.2 (hspares.resolve_right fun hno => hno kind hname)
    refine ⟨c, ht, (hroot' kind c).2 ?_⟩
    rw [hfound, if_pos ⟨rfl, hname.symm⟩]

/-- **Loading one definition more** is loading the others, adding what it declares and building. -/
theorem exists_addition (hno : ∀ roots, Definition.schema roots ∉ definitions)
    (h : ofDefinitions definitions = .ok s) (hx : x.Unrelated definitions s) {t : NamedType}
    (ht : x.Declares t) : ∃ b b' : SchemaBuilder, b.addType (.named t false) = .ok b' ∧
      s.types = b.types ∧ b.UsuallyBuildable ∧ b'.mutationType = none ∧
      b'.subscriptionType = none ∧
      ∀ s', ofDefinitions (definitions ++ [Definition.type x]) = .ok s' ↔
        (setRoots b' (usualRoots b'.hasType)).build = .ok s' := by
  obtain ⟨b, hload, hbuild⟩ := (ofDefinitions_eq_ok_iff hno).1 h
  have htypes : s.types = b.types := by rw [SchemaBuilder.types_build hbuild, types_setRoots]
  have hfree : b.hasType t.name = false := by
    refine SchemaBuilder.hasType_eq_false_iff.2 fun space => ?_
    rw [ht.name, ← htypes]
    exact named?_of_unrelated h hx space
  obtain ⟨b', hadd⟩ := (SchemaBuilder.addsWhole b).accepted hfree ht.distinct
  have hload' := (foldlM_append hx ht).2 ⟨b, hload, hadd⟩
  obtain ⟨-, hmutation, hsubscription⟩ := roots_of_foldlM hload
  obtain ⟨-, hmutation', hsubscription'⟩ := roots_of_foldlM hload'
  have hb := (SchemaBuilder.buildable_usualRoots hmutation hsubscription).1
    (SchemaBuilder.build_eq_ok_iff.1 ⟨s, hbuild⟩)
  refine ⟨b, b', hadd, htypes, hb, hmutation', hsubscription', fun s' => ?_⟩
  rw [ofDefinitions_eq_ok_iff (schema_notMem_append hno)]
  constructor
  · rintro ⟨b'', hload'', hbuild'⟩
    rw [hload'] at hload''
    cases hload''
    exact hbuild'
  · exact fun hbuild' => ⟨b', hload', hbuild'⟩

/-- **One definition more**: after definitions without a schema definition, an unrelated scalar,
    enumeration, union or input object is accepted exactly if it is a union or has not the usual
    name of a root; and then everything stays, but for the root that a union of such a name
    becomes. -/
theorem ofDefinitions_append (hno : ∀ roots, Definition.schema roots ∉ definitions)
    (h : ofDefinitions definitions = .ok s) (hx : x.Unrelated definitions s) :
    ((∃ s', ofDefinitions (definitions ++ [Definition.type x]) = .ok s') ↔ x.SparesRoots) ∧
      ∀ s', ofDefinitions (definitions ++ [Definition.type x]) = .ok s' → s.ExtendedBy x s' := by
  obtain ⟨t, ht⟩ := hx.exists_declares
  obtain ⟨b, b', hadd, htypes, hb, hmutation, hsubscription, hiff⟩ := exists_addition hno h hx ht
  have hmentions : ∀ {space name}, x.Mentions space name →
      ((b.types space).find? name).isSome = true ∨ name = x.name := by
    rw [← htypes]
    exact hx.known
  have haccepted : (∃ s', ofDefinitions (definitions ++ [Definition.type x]) = .ok s') ↔
      x.SparesRoots := by
    simp only [hiff]
    rw [SchemaBuilder.build_eq_ok_iff,
      SchemaBuilder.buildable_usualRoots hmutation hsubscription]
    exact SchemaBuilder.usuallyBuildable_of_addType hb hadd ht hmentions
  refine ⟨haccepted, fun s' h' => ?_⟩
  have htypes' : s'.types = b'.types := by
    rw [SchemaBuilder.types_build ((hiff s').1 h'), types_setRoots]
  exact extendedBy_of_addType hadd ht (haccepted.1 ⟨s', h'⟩) htypes htypes'
    (fun kind c => root?_eq_some_iff hno h kind)
    (fun kind c => root?_eq_some_iff (schema_notMem_append hno) h' kind)

/-- A query root. -/
def pingDefinitions : List TypeSystem.Definition :=
  [.type ⟨none, "Query", .object [] [⟨none, "ok", [], .named "Boolean"⟩]⟩]

/-- Its schema. -/
def ping : Schema := (ofDefinitions pingDefinitions).toOption.get (by rfl)

/-- An input object that mentions itself. -/
def filterDefinition : TypeDefinition :=
  ⟨none, "Filter", .inputObject [⟨none, "not", .named "Filter", none⟩]⟩

/-- The query root with the input object is accepted. -/
theorem extendedBy_filter :
    (∀ roots, Definition.schema roots ∉ pingDefinitions) ∧
      ofDefinitions pingDefinitions = .ok ping ∧
      filterDefinition.Unrelated pingDefinitions ping ∧
      ∃ s', ofDefinitions (pingDefinitions ++ [Definition.type filterDefinition]) = .ok s' ∧
        ping.ExtendedBy filterDefinition s' := by
  have hno : ∀ roots, Definition.schema roots ∉ pingDefinitions := by
    intro roots hmem
    cases List.mem_singleton.1 hmem
  have hload : ofDefinitions pingDefinitions = .ok ping := rfl
  have hunrelated : filterDefinition.Unrelated pingDefinitions ping := by
    constructor
    · rfl
    · intro y hy
      cases List.mem_singleton.1 hy
      decide
    · decide
    · intro fields hfields
      cases hfields
      decide
    · rintro space name (⟨hbody, -⟩ | ⟨hbody, hf⟩)
      · cases hbody
      · cases hbody
        cases List.mem_singleton.1 hf
        exact .inr rfl
  have hspares : filterDefinition.SparesRoots := .inr fun kind => by cases kind <;> decide
  obtain ⟨haccepted, hextended⟩ := ofDefinitions_append hno hload hunrelated
  obtain ⟨s', hs'⟩ := haccepted.2 hspares
  exact ⟨hno, hload, hunrelated, s', hs', hextended s' hs'⟩

/-- **A scalar of the name of a root is refused**, and a union of this name becomes the root, though
    neither is mentioned by what was there. -/
theorem scalar_mutation_refused :
    ofDefinitions pingDefinitions = .ok ping ∧
      TypeDefinition.Unrelated ⟨none, "Mutation", .scalar⟩ pingDefinitions ping ∧
      ofDefinitions (pingDefinitions ++ [Definition.type ⟨none, "Mutation", .scalar⟩]) =
        .error (.unknownReference "Mutation" "schema") ∧
      TypeDefinition.Unrelated ⟨none, "Mutation", .union ["Query"]⟩ pingDefinitions ping ∧
      ping.root? .mutation = none ∧
      ∃ s', ofDefinitions
          (pingDefinitions ++ [Definition.type ⟨none, "Mutation", .union ["Query"]⟩]) = .ok s' ∧
        (s'.root? .mutation).isSome = true := by
  have hnew : ∀ {body : TypeBody}, ∀ y, Definition.type y ∈ pingDefinitions →
      y.name ≠ (TypeDefinition.mk none "Mutation" body).name := by
    intro body y hy
    cases List.mem_singleton.1 hy
    simp
  refine ⟨rfl, ⟨rfl, hnew, by decide, fun fields hfields => ?_, ?_⟩, rfl,
    ⟨rfl, hnew, by decide, fun fields hfields => ?_, ?_⟩, rfl, _, rfl, rfl⟩
  · cases hfields
  · rintro space name (⟨hbody, -⟩ | ⟨hbody, -⟩) <;> cases hbody
  · cases hfields
  · rintro space name (⟨hbody, hn⟩ | ⟨hbody, -⟩)
    · cases hbody
      cases List.mem_singleton.1 hn
      exact .inl rfl
    · cases hbody

end Schema

end TypedQuery
