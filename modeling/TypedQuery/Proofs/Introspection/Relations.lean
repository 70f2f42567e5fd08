import TypedQuery.Proofs.Introspection.Closure
import TypedQuery.Proofs.Schema.Loading

/-!
# Interfaces and possible types in a description

What an object implements is described as an interface, and what an interface or union may be is
described as an object. The description does not look the names up for that.

* `SchemaDescription.Truthful` -- **what is told of relations is listed so**;
* `Schema.Hierarchical` -- objects implement interfaces, and possible types are objects;
* `Schema.Built.truthful_iff` -- the description is the one exactly if the schema is the other;
* `Schema.object_of_implementer` -- the possible types of a loaded interface are objects;
* `Schema.describe_relations` -- **all that such an entry tells, in every built schema**;
* `Schema.scalar_told_as_interface` -- a builder admits other types where interfaces should stand.
-/

namespace TypedQuery

open Introspection

/-- **What is told of relations is listed so**: a type under `interfaces` as an interface, a type
    under `possibleTypes` as an object. -/
structure Introspection.SchemaDescription.Truthful (d : SchemaDescription) : Prop where
  interface : ∀ {p t u interfaces}, d.Occurs p t → t.interfaces = some interfaces →
    u ∈ interfaces →
      u.kind = .interface ∧ ∃ entry ∈ d.types, entry.name = u.name ∧ entry.kind = u.kind
  possibleType : ∀ {p t u possible}, d.Occurs p t → t.possibleTypes = some possible →
    u ∈ possible → ∃ entry ∈ d.types, entry.name = u.name ∧ entry.kind = .object

namespace Schema

/-- **Objects implement interfaces, and possible types are objects.** -/
structure Hierarchical (s : Schema) : Prop where
  interface : ∀ {name c}, s.named? .output name = some (.composite c) → c.kind = .object →
    ∀ n ∈ c.interfaces, ∃ i, s.named? .output n = some (.composite i) ∧ i.kind = .interface
  possibleType : ∀ {name c}, s.named? .output name = some (.composite c) → c.kind ≠ .object →
    ∀ n ∈ c.possibleTypes, ∃ o, s.named? .output n = some (.composite o) ∧ o.kind = .object

variable {s : Schema}

/-! ## 1. The one type of a name -/

/-- A type for output is listed. -/
theorem Built.mem_allTypes_of_output (hs : s.Built) {name : String} {t : NamedType}
    (h : s.named? .output name = some t) : t.name = name ∧ t ∈ s.allTypes := by
  refine hs.listed_of_anyNamed? ?_
  rw [anyNamed?, h, Option.some_or]

/-- **The entry of a name** describes the type that is registered under it for output. -/
theorem Built.entry_iff (hs : s.Built) {name : String} {t : NamedType}
    (h : s.named? .output name = some t) {entry : TypeDescription} :
    entry ∈ s.describe.types ∧ entry.name = some name ↔ entry = s.describeNamed t := by
  have hany : s.anyNamed? name = some t := by rw [anyNamed?, h, Option.some_or]
  rw [← hs.listsTypes.entry, describe?, hany, Option.map_some, Option.some.injEq]
  exact eq_comm

/-- What is described as an interface is one. -/
theorem kind_eq_interface_iff {t : NamedType} :
    t.kind = .interface ↔ ∃ i, t = .composite i ∧ i.kind = .interface := by
  cases t with
  | scalar _ | enum _ | inputObject _ => simp [NamedType.kind]
  | composite c => cases hkind : c.kind <;> simp [NamedType.kind, CompositeType.typeKind, hkind]

/-- What is described as an object is one. -/
theorem kind_eq_object_iff {t : NamedType} :
    t.kind = .object ↔ ∃ o, t = .composite o ∧ o.kind = .object := by
  cases t with
  | scalar _ | enum _ | inputObject _ => simp [NamedType.kind]
  | composite c => cases hkind : c.kind <;> simp [NamedType.kind, CompositeType.typeKind, hkind]

/-! ## 2. What is told of relations -/

/-- **What a related type is told as**: by a kind that the place decides, and by the name of the one
    type that is listed and registered for output under it. -/
def TellsRelated (s : Schema) (kind : TypeKind) (u : TypeDescription) : Prop :=
  ∃ t, u = .reference kind t.name ∧ s.named? .output t.name = some t ∧
    ∀ entry, entry ∈ s.describe.types ∧ entry.name = u.name ↔ entry = s.describeNamed t

theorem Built.tellsRelated (hs : s.Built) {name other : String} {c : CompositeType}
    (howner : s.named? .output name = some (.composite c))
    (h : other ∈ c.interfaces ++ c.possibleTypes) (kind : TypeKind) :
    s.TellsRelated kind (.reference kind other) := by
  obtain ⟨t, ht⟩ := Option.isSome_iff_exists.1
    (hs.isSome_named_of_refers (.related howner h))
  obtain rfl : t.name = other := (hs.orderly ht).ownName
  exact ⟨t, rfl, ht, fun entry => hs.entry_iff ht⟩

/-- An interface that is told is one of an object that the schema has. -/
theorem Built.exists_of_interface (hs : s.Built) {p : Standing} {t u : TypeDescription}
    {interfaces : List TypeDescription} (h : s.describe.Occurs p t)
    (htold : t.interfaces = some interfaces) (hu : u ∈ interfaces) :
    ∃ c, s.named? .output c.name = some (.composite c) ∧ t = s.describeNamed (.composite c) ∧
      c.kind = .object ∧ ∃ n ∈ c.interfaces, u = .reference .interface n := by
  obtain ⟨c, hc, rfl, hkind, rfl⟩ := (hs.placed_of_occurs h).exists_of_interfaces htold
  obtain ⟨n, hn, rfl⟩ := List.mem_map.1 hu
  exact ⟨c, hs.named_composite hc, rfl, hkind, n, hn, rfl⟩

/-- A possible type that is told is one of an interface or union that the schema has. -/
theorem Built.exists_of_possibleType (hs : s.Built) {p : Standing} {t u : TypeDescription}
    {possible : List TypeDescription} (h : s.describe.Occurs p t)
    (htold : t.possibleTypes = some possible) (hu : u ∈ possible) :
    ∃ c, s.named? .output c.name = some (.composite c) ∧ t = s.describeNamed (.composite c) ∧
      c.kind ≠ .object ∧ ∃ n ∈ c.possibleTypes, u = .reference .object n := by
  obtain ⟨c, hc, rfl, hkind, rfl⟩ := (hs.placed_of_occurs h).exists_of_possibleTypes htold
  obtain ⟨n, hn, rfl⟩ := List.mem_map.1 hu
  exact ⟨c, hs.named_composite hc, rfl, hkind, n, hn, rfl⟩

/-- The entry of a type for output. -/
theorem Built.occurs_describeNamed (hs : s.Built) {name : String} {t : NamedType}
    (h : s.named? .output name = some t) : s.describe.Occurs .entry (s.describeNamed t) :=
  .entry (List.mem_map_of_mem (hs.mem_allTypes_of_output h).2)

/-- **A description is truthful exactly if the schema is hierarchical.** -/
theorem Built.truthful_iff (hs : s.Built) : s.describe.Truthful ↔ s.Hierarchical := by
  constructor
  · intro htruthful
    constructor
    · intro name c hc hkind n hn
      have htold : (s.describeNamed (.composite c)).interfaces =
          some (c.interfaces.map (.reference .interface)) := if_pos hkind
      obtain ⟨-, entry, hentry, hname, hentryKind⟩ :=
        htruthful.interface (hs.occurs_describeNamed hc) htold (List.mem_map_of_mem hn)
      obtain ⟨t, ht⟩ := Option.isSome_iff_exists.1
        (hs.isSome_named_of_refers (.related hc (List.mem_append_left _ hn)))
      obtain rfl := (hs.entry_iff ht).1 ⟨hentry, hname⟩
      rw [kind_describeNamed] at hentryKind
      obtain ⟨i, rfl, hi⟩ := kind_eq_interface_iff.1 hentryKind
      exact ⟨i, ht, hi⟩
    · intro name c hc hkind n hn
      have htold : (s.describeNamed (.composite c)).possibleTypes =
          some (c.possibleTypes.map (.reference .object)) := if_neg hkind
      obtain ⟨entry, hentry, hname, hentryKind⟩ :=
        htruthful.possibleType (hs.occurs_describeNamed hc) htold (List.mem_map_of_mem hn)
      obtain ⟨t, ht⟩ := Option.isSome_iff_exists.1
        (hs.isSome_named_of_refers (.related hc (List.mem_append_right _ hn)))
      obtain rfl := (hs.entry_iff ht).1 ⟨hentry, hname⟩
      rw [kind_describeNamed] at hentryKind
      obtain ⟨o, rfl, ho⟩ := kind_eq_object_iff.1 hentryKind
      exact ⟨o, ht, ho⟩
  · intro hhierarchical
    constructor
    · intro p t u interfaces h htold hu
      obtain ⟨c, hc, -, hkind, n, hn, rfl⟩ := hs.exists_of_interface h htold hu
      obtain ⟨i, hi, hinterface⟩ := hhierarchical.interface hc hkind n hn
      obtain ⟨hentry, hname⟩ := (hs.entry_iff hi).2 rfl
      exact ⟨rfl, _, hentry, hname, kind_eq_interface_iff.2 ⟨i, rfl, hinterface⟩⟩
    · intro p t u possible h htold hu
      obtain ⟨c, hc, -, hkind, n, hn, rfl⟩ := hs.exists_of_possibleType h htold hu
      obtain ⟨o, ho, hobject⟩ := hhierarchical.possibleType hc hkind n hn
      obtain ⟨hentry, hname⟩ := (hs.entry_iff ho).2 rfl
      exact ⟨_, hentry, hname, kind_eq_object_iff.2 ⟨o, rfl, hobject⟩⟩

/-! ## 3. Loaded schemas -/

open TypeSystem

/-- What implements an interface is defined as an object. -/
theorem exists_of_mem_implementers {definitions : List TypeSystem.Definition}
    {interface name : String} (h : name ∈ implementers definitions interface) :
    ∃ description interfaces fields,
      .type ⟨description, name, .object interfaces fields⟩ ∈ definitions := by
  obtain ⟨d, hd, hname⟩ := List.mem_flatMap.1 h
  split at hname
  · rename_i description name' interfaces fields
    obtain ⟨-, -, rfl⟩ := List.mem_map.1 hname
    exact ⟨description, interfaces, fields, hd⟩
  · cases hname

/-- An interface that is declared has its implementers as possible types. -/
theorem possibleTypes_of_type? {im : String → List String} {d : TypeSystem.Definition}
    {c : CompositeType} (h : d.type? im = some (.composite c)) (hkind : c.kind = .interface) :
    c.possibleTypes = im c.name := by
  cases d with
  | type x =>
      obtain ⟨description, name, body⟩ := x
      cases body with
      | scalar =>
          simp only [Definition.type?, TypeDefinition.toType?] at h
          split at h <;> cases h
      | enum _ | inputObject _ => cases h
      | object _ _ | union _ =>
          cases h
          cases hkind
      | interface _ =>
          cases h
          rfl
  | directive _ | schema _ | typeExtension => cases h

/-- **The possible types of a loaded interface are objects.** -/
theorem object_of_implementer {definitions : List TypeSystem.Definition}
    (h : ofDefinitions definitions = .ok s) {name : String} {c : CompositeType}
    (hc : s.named? .output name = some (.composite c)) (hkind : c.kind = .interface) :
    ∀ n ∈ c.possibleTypes, ∃ o, s.named? .output n = some (.composite o) ∧ o.kind = .object := by
  intro n hn
  have hdeclared : ∃ d ∈ definitions, d.type? (implementers definitions) = some (.composite c) := by
    rcases (named?_of_ofDefinitions h).1 hc with ⟨k, -, -, hk⟩ | ⟨d, hd, ht, -, -⟩
    · cases hk
    · exact ⟨d, hd, ht⟩
  obtain ⟨d, -, ht⟩ := hdeclared
  rw [possibleTypes_of_type? ht hkind] at hn
  obtain ⟨description, interfaces, fields, hmem⟩ := exists_of_mem_implementers hn
  exact ⟨_, (named?_of_ofDefinitions h).2 (.inr ⟨_, hmem, rfl, rfl, rfl⟩), rfl⟩

/-! ## 4. All of it -/

/-- **What a built schema tells of relations.** A type under `interfaces` is told as an interface
    and one under `possibleTypes` as an object, each by the name of the one type listed under it;
    that this type is listed with the same kind holds of all of them exactly if the schema is
    hierarchical, and in any case of the possible types of the interfaces of a loaded schema. -/
theorem describe_relations (hs : s.Built) :
    (∀ {p t u interfaces}, s.describe.Occurs p t → t.interfaces = some interfaces →
      u ∈ interfaces → s.TellsRelated .interface u) ∧
    (∀ {p t u possible}, s.describe.Occurs p t → t.possibleTypes = some possible →
      u ∈ possible → s.TellsRelated .object u) ∧
    (s.describe.Truthful ↔ s.Hierarchical) ∧
    ∀ {definitions}, ofDefinitions definitions = .ok s →
      ∀ {p t u possible}, s.describe.Occurs p t → t.kind = .interface →
        t.possibleTypes = some possible → u ∈ possible →
          ∃ entry ∈ s.describe.types, entry.name = u.name ∧ entry.kind = .object := by
  refine ⟨fun h htold hu => ?_, fun h htold hu => ?_, hs.truthful_iff, ?_⟩
  · obtain ⟨c, hc, -, -, n, hn, rfl⟩ := hs.exists_of_interface h htold hu
    exact hs.tellsRelated hc (List.mem_append_left _ hn) _
  · obtain ⟨c, hc, -, -, n, hn, rfl⟩ := hs.exists_of_possibleType h htold hu
    exact hs.tellsRelated hc (List.mem_append_right _ hn) _
  · intro definitions hload p t u possible h hinterface htold hu
    obtain ⟨c, hc, rfl, -, n, hn, rfl⟩ := hs.exists_of_possibleType h htold hu
    rw [kind_describeNamed] at hinterface
    obtain ⟨i, heq, hkind⟩ := kind_eq_interface_iff.1 hinterface
    cases heq
    obtain ⟨o, ho, hobject⟩ := object_of_implementer hload hc hkind n hn
    obtain ⟨hentry, hname⟩ := (hs.entry_iff ho).2 rfl
    exact ⟨_, hentry, hname, kind_eq_object_iff.2 ⟨o, rfl, hobject⟩⟩

/-- An interface, and a query root that implements it. -/
def nodeDefinitions : List TypeSystem.Definition :=
  [.type ⟨none, "Node", .interface [⟨none, "id", [], .named "ID"⟩]⟩,
   .type ⟨none, "Query", .object ["Node"] [⟨none, "id", [], .named "ID"⟩]⟩]

/-- The schema of these two types. -/
def nodes : Schema := (ofDefinitions nodeDefinitions).toOption.get (by rfl)

/-- What nodes are told to implement, and to be, is listed so. -/
theorem describe_relations_nodes : nodes.Built ∧ nodes.describe.Truthful := by
  have hload : ofDefinitions nodeDefinitions = .ok nodes := rfl
  have hbuilt : nodes.Built := built_of_ofDefinitions hload
  have hcomposite : ∀ {name c}, nodes.named? .output name = some (.composite c) →
      (c.kind = .object → c.interfaces = ["Node"]) ∧
        (c.kind ≠ .object → c.possibleTypes = ["Query"]) := by
    intro name c h
    have hmem := Table.mem_values_of_find? h
    have hvalues : (nodes.types .output).values = [.scalar .int, .scalar .float, .scalar .string,
        .scalar .boolean, .scalar .id,
        .composite ⟨"Node", none, .interface, [⟨"id", none, .named "ID", [], none⟩], [], ["Query"],
          none⟩,
        .composite ⟨"Query", none, .object, [⟨"id", none, .named "ID", [], none⟩], ["Node"], [],
          none⟩] := rfl
    rw [hvalues] at hmem
    simp only [List.mem_cons, reduceCtorEq, NamedType.composite.injEq, List.not_mem_nil, or_false,
      false_or] at hmem
    rcases hmem with rfl | rfl <;> simp
  refine ⟨hbuilt, (describe_relations hbuilt).2.2.1.2 ⟨?_, ?_⟩⟩
  · intro name c h hkind n hn
    rw [(hcomposite h).1 hkind, List.mem_singleton] at hn
    subst hn
    exact ⟨_, rfl, rfl⟩
  · intro name c h hkind n hn
    rw [(hcomposite h).2 hkind, List.mem_singleton] at hn
    subst hn
    exact ⟨_, rfl, rfl⟩

/-- A query root that implements a scalar, and a union of it. -/
def scalarRelations : List TypeSystem.Definition :=
  [.type ⟨none, "Query", .object ["Int"] [⟨none, "ok", [], .named "Boolean"⟩]⟩,
   .type ⟨none, "Any", .union ["Int"]⟩]

/-- The schema of these two types. -/
def scalarRelated : Schema := (ofDefinitions scalarRelations).toOption.get (by rfl)

/-- **A scalar is told as an interface**, and as an object that a union may be: building asks no
    more of either than that the name is known for output. -/
theorem scalar_told_as_interface :
    ofDefinitions scalarRelations = .ok scalarRelated ∧ ¬ scalarRelated.describe.Truthful ∧
      (scalarRelated.describe? "Query").bind (·.interfaces) =
        some [.reference .interface "Int"] ∧
      (scalarRelated.describe? "Any").bind (·.possibleTypes) = some [.reference .object "Int"] ∧
      (scalarRelated.describe? "Int").map (·.kind) = some .scalar := by
  have hload : ofDefinitions scalarRelations = .ok scalarRelated := rfl
  refine ⟨hload, fun htruthful => ?_, rfl, rfl, rfl⟩
  have hhierarchical := (built_of_ofDefinitions hload).truthful_iff.1 htruthful
  have hquery : scalarRelated.named? .output "Query" =
      some (.composite scalarRelated.queryType) := rfl
  obtain ⟨i, hi, -⟩ := hhierarchical.interface hquery rfl "Int" List.mem_cons_self
  cases hi

end Schema

end TypedQuery
