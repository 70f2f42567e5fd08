import TypedQuery.Proofs.Schema.References
import TypedQuery.Proofs.Schema.Registration
import TypedQuery.Schema.Meta

/-!
# A description is closed

What a built schema tells about itself mentions no name that it does not also describe.

* `SchemaDescription.Occurs` -- every description of a type inside that of a schema: as an entry,
  where a type is used, and as an interface or a possible type, of which the kind is fixed;
* `Schema.Built.placed_of_occurs` -- **where it comes from**: an entry describes a type, and what is
  used describes an expression whose name is known;
* `SchemaDescription.Closed` -- each name that occurs is the name of an entry, of the same kind
  where a type is used;
* `Schema.ListsTypes` -- each registered name is listed once, and asking for it gives its entry;
* `Schema.describe_closed` -- **all of it, of every built schema**.
-/

namespace TypedQuery

/-- A member of a JSON object. -/
def Json.member? (key : String) : Json → Option Json
  | .object members => members.lookup key
  | _ => none

namespace Introspection

/-- How the description of a type stands in that of a schema. -/
inductive Standing
  /-- One of the types of the schema. -/
  | entry
  /-- A root, or the type of a field, an argument or an input field, or a layer of it. -/
  | use
  /-- An interface or a possible type: the place says the kind, not the type. -/
  | related
deriving DecidableEq

/-- **Every description of a type inside the description of a schema**, however deep. -/
inductive SchemaDescription.Occurs (d : SchemaDescription) : Standing → TypeDescription → Prop
  | entry {t : TypeDescription} (listed : t ∈ d.types) : Occurs d .entry t
  | queryRoot : Occurs d .use d.queryType
  | mutationRoot {t : TypeDescription} (root : d.mutationType = some t) : Occurs d .use t
  | subscriptionRoot {t : TypeDescription} (root : d.subscriptionType = some t) : Occurs d .use t
  | directiveArgument {x : DirectiveDescription} {a : InputValueDescription}
      (directive : x ∈ d.directives) (argument : a ∈ x.args) : Occurs d .use a.type
  | field {p : Standing} {t : TypeDescription} {fields : List FieldDescription}
      {f : FieldDescription} (outer : Occurs d p t) (told : t.fields = some fields)
      (member : f ∈ fields) : Occurs d .use f.type
  | argument {p : Standing} {t : TypeDescription} {fields : List FieldDescription}
      {f : FieldDescription} {a : InputValueDescription} (outer : Occurs d p t)
      (told : t.fields = some fields) (member : f ∈ fields) (argument : a ∈ f.args) :
      Occurs d .use a.type
  | inputField {p : Standing} {t : TypeDescription} {fields : List InputValueDescription}
      {f : InputValueDescription} (outer : Occurs d p t) (told : t.inputFields = some fields)
      (member : f ∈ fields) : Occurs d .use f.type
  | interface {p : Standing} {t u : TypeDescription} {interfaces : List TypeDescription}
      (outer : Occurs d p t) (told : t.interfaces = some interfaces) (member : u ∈ interfaces) :
      Occurs d .related u
  | possibleType {p : Standing} {t u : TypeDescription} {possible : List TypeDescription}
      (outer : Occurs d p t) (told : t.possibleTypes = some possible) (member : u ∈ possible) :
      Occurs d .related u
  | ofType {p : Standing} {t u : TypeDescription} (outer : Occurs d p t)
      (told : t.ofType = some u) : Occurs d .use u

/-- **A description in which no name is left open.** -/
structure SchemaDescription.Closed (d : SchemaDescription) : Prop where
  /-- A name that occurs is the name of an entry, which has the kind told where the type is used. -/
  named : ∀ {p t name}, d.Occurs p t → t.name = some name →
    ∃ entry ∈ d.types, entry.name = some name ∧ (p ≠ .related → entry.kind = t.kind)
  /-- What has no name is a layer around a type. -/
  layered : ∀ {p t}, d.Occurs p t → t.name = none →
    (t.kind = .list ∨ t.kind = .nonNull) ∧ ∃ inner, t.ofType = some inner

end Introspection

open Introspection

namespace Schema

variable {s : Schema}

/-! ## 1. The types that are listed -/

theorem isSome_anyNamed? {space : Namespace} {name : String}
    (h : (s.named? space name).isSome = true) : (s.anyNamed? name).isSome = true := by
  rw [anyNamed?, Option.isSome_or]
  cases space <;> simp [h]

theorem exists_named_of_anyNamed? {name : String} {t : NamedType}
    (h : s.anyNamed? name = some t) : ∃ space, s.named? space name = some t := by
  rw [anyNamed?, Option.or_eq_some_iff] at h
  obtain houtput | ⟨-, hinput⟩ := h
  · exact ⟨.output, houtput⟩
  · exact ⟨.input, hinput⟩

/-- **A type stands in every namespace that it is for**, and no other type has its name. -/
theorem Built.named?_of_named? (hs : s.Built) {space : Namespace} {name : String} {t : NamedType}
    (h : s.named? space name = some t) (other : Namespace) :
    s.named? other name = if t.isFor other then some t else none := by
  obtain ⟨steps, hbuild⟩ := hs
  have hshared : (SchemaBuilder.new.run steps).Shared :=
    SchemaBuilder.run_induction (fun hb h => SchemaBuilder.shared_apply hb h)
      SchemaBuilder.shared_new steps
  unfold named? at h ⊢
  rw [SchemaBuilder.types_build hbuild] at h ⊢
  exact hshared space name t h other

/-- A type of either namespace is what its name stands for. -/
theorem Built.anyNamed?_of_named? (hs : s.Built) {space : Namespace} {name : String}
    {t : NamedType} (h : s.named? space name = some t) : s.anyNamed? name = some t := by
  have hfor := (hs.orderly h).isFor
  rw [anyNamed?, hs.named?_of_named? h .output, hs.named?_of_named? h .input]
  cases space with
  | output => rw [if_pos hfor, Option.some_or]
  | input =>
      rw [if_pos hfor]
      split <;> rfl

/-- Where each type stands under its own name, the names of the types are the names of the
    table. -/
theorem map_name_of_ownName {entries : List (String × NamedType)}
    (h : ∀ p ∈ entries, p.2.name = p.1) :
    (entries.map (·.2)).map NamedType.name = entries.map (·.1) := by
  rw [List.map_map]
  exact List.map_congr_left h

theorem Built.ownName (hs : s.Built) (space : Namespace) {p : String × NamedType}
    (h : p ∈ (s.types space).entries) : p.2.name = p.1 :=
  (hs.orderly (Table.find?_eq_some_iff.2 h)).ownName

/-- The names that are listed: those for output, then those for input alone. -/
theorem Built.map_name_allTypes (hs : s.Built) :
    s.allTypes.map NamedType.name =
      s.outputTypes.names ++ s.inputTypes.names.filter fun n => !s.outputTypes.contains n := by
  have hfilter : s.inputTypes.names.filter (fun n => !s.outputTypes.contains n) =
      (s.inputTypes.entries.filter fun p => !s.outputTypes.contains p.1).map (·.1) :=
    List.filter_map
  rw [allTypes, List.map_append, Table.values, hfilter]
  congr 1
  · exact map_name_of_ownName fun p hp => hs.ownName .output hp
  · exact map_name_of_ownName fun p hp => hs.ownName .input (List.mem_filter.1 hp).1

/-- **No name is listed twice.** -/
theorem Built.nodup_map_name_allTypes (hs : s.Built) :
    (s.allTypes.map NamedType.name).Nodup := by
  rw [hs.map_name_allTypes]
  refine List.nodup_append.2 ⟨s.outputTypes.distinct, s.inputTypes.distinct.filter _, ?_⟩
  rintro n houtput m hm rfl
  have hfree := (List.mem_filter.1 hm).2
  rw [Table.contains_eq] at hfree
  simp [houtput] at hfree

/-- **What is listed is what a name stands for.** -/
theorem Built.mem_allTypes_iff (hs : s.Built) {t : NamedType} :
    t ∈ s.allTypes ↔ s.anyNamed? t.name = some t := by
  have hfound : ∀ space {p}, p ∈ (s.types space).entries →
      s.named? space p.2.name = some p.2 := by
    intro space p hp
    rw [hs.ownName space hp]
    exact Table.find?_eq_some_iff.2 hp
  rw [allTypes, List.mem_append, Table.values, List.mem_map, List.mem_map, anyNamed?,
    Option.or_eq_some_iff]
  constructor
  · rintro (⟨p, hp, rfl⟩ | ⟨p, hp, rfl⟩)
    · exact .inl (hfound .output hp)
    · obtain ⟨hmem, hfree⟩ := List.mem_filter.1 hp
      refine .inr ⟨?_, hfound .input hmem⟩
      rw [hs.ownName .input hmem]
      simpa [Table.contains, Schema.named?, Schema.types] using hfree
  · rintro (houtput | ⟨hnone, hinput⟩)
    · exact .inl ⟨_, Table.find?_eq_some_iff.1 houtput, rfl⟩
    · refine .inr ⟨_, List.mem_filter.2 ⟨Table.find?_eq_some_iff.1 hinput, ?_⟩, rfl⟩
      have hfree : s.outputTypes.find? t.name = none := hnone
      simp [Table.contains, hfree]

/-- A type that is for one namespace alone is listed because it stands there. -/
theorem Built.named_of_mem_allTypes (hs : s.Built) {t : NamedType} {space : Namespace}
    (hspace : ∀ other, t.isFor other = true → other = space) (h : t ∈ s.allTypes) :
    s.named? space t.name = some t := by
  obtain ⟨other, hother⟩ := exists_named_of_anyNamed? (hs.mem_allTypes_iff.1 h)
  obtain rfl := hspace other (hs.orderly hother).isFor
  exact hother

theorem Built.named_composite (hs : s.Built) {c : CompositeType}
    (h : .composite c ∈ s.allTypes) : s.named? .output c.name = some (.composite c) := by
  refine hs.named_of_mem_allTypes (fun other hother => ?_) h
  cases other with
  | input => cases hother
  | output => rfl

theorem Built.named_inputObject (hs : s.Built) {o : InputObjectType}
    (h : .inputObject o ∈ s.allTypes) : s.named? .input o.name = some (.inputObject o) := by
  refine hs.named_of_mem_allTypes (fun other hother => ?_) h
  cases other with
  | input => rfl
  | output => cases hother

/-! ## 2. What the descriptions hold -/

@[simp] theorem name_describeNamed [Text.Repertoire] (t : NamedType) :
    (s.describeNamed t).name = some t.name := by
  cases t <;> rfl

@[simp] theorem kind_describeNamed (t : NamedType) : (s.describeNamed t).kind = t.kind := by
  cases t <;> rfl

@[simp] theorem ofType_describeNamed (t : NamedType) : (s.describeNamed t).ofType = none := by
  cases t <;> rfl

theorem fields_describeNamed {t : NamedType} {fields : List FieldDescription}
    (h : (s.describeNamed t).fields = some fields) :
    ∃ c, t = .composite c ∧ fields = c.fields.map s.describeField := by
  cases t with
  | scalar _ | enum _ | inputObject _ => cases h
  | composite c =>
      simp only [describeNamed, describeComposite] at h
      split at h
      · cases h
      · cases h
        exact ⟨c, rfl, rfl⟩

theorem inputFields_describeNamed {t : NamedType} {fields : List InputValueDescription}
    (h : (s.describeNamed t).inputFields = some fields) :
    ∃ o, t = .inputObject o ∧ fields = o.fields.map s.describeInputField := by
  cases t with
  | scalar _ | enum _ | composite _ => cases h
  | inputObject o =>
      cases h
      exact ⟨o, rfl, rfl⟩

theorem interfaces_describeNamed {t : NamedType} {interfaces : List TypeDescription}
    (h : (s.describeNamed t).interfaces = some interfaces) :
    ∃ c, t = .composite c ∧ c.kind = .object ∧
      interfaces = c.interfaces.map (.reference .interface) := by
  cases t with
  | scalar _ | enum _ | inputObject _ => cases h
  | composite c =>
      simp only [describeNamed, describeComposite] at h
      split at h
      · rename_i hkind
        cases h
        exact ⟨c, rfl, hkind, rfl⟩
      · cases h

theorem possibleTypes_describeNamed {t : NamedType} {possible : List TypeDescription}
    (h : (s.describeNamed t).possibleTypes = some possible) :
    ∃ c, t = .composite c ∧ c.kind ≠ .object ∧
      possible = c.possibleTypes.map (.reference .object) := by
  cases t with
  | scalar _ | enum _ | inputObject _ => cases h
  | composite c =>
      simp only [describeNamed, describeComposite] at h
      split at h
      · cases h
      · rename_i hkind
        cases h
        exact ⟨c, rfl, hkind, rfl⟩

/-- **Where the description of a type comes from**, by how it stands in that of the schema. -/
inductive Placed (s : Schema) : Standing → TypeDescription → Prop
  | entry {t : NamedType} (listed : t ∈ s.allTypes) : Placed s .entry (s.describeNamed t)
  | use {e : TypeExpr} (known : (s.anyNamed? e.innerName).isSome = true) :
      Placed s .use (s.describeReference e)
  | related {kind : TypeKind} {name : String} (known : (s.anyNamed? name).isSome = true) :
      Placed s .related (.reference kind name)

namespace Placed

variable {p : Standing} {d : TypeDescription}

/-- Fields are told of entries alone, and so are all other members. -/
theorem exists_of_fields (h : s.Placed p d) {fields : List FieldDescription}
    (htold : d.fields = some fields) :
    ∃ c, .composite c ∈ s.allTypes ∧ fields = c.fields.map s.describeField := by
  cases h with
  | entry ht =>
      obtain ⟨c, rfl, rfl⟩ := fields_describeNamed htold
      exact ⟨c, ht, rfl⟩
  | @use e _ => cases e <;> cases htold
  | related _ => cases htold

theorem exists_of_inputFields (h : s.Placed p d) {fields : List InputValueDescription}
    (htold : d.inputFields = some fields) :
    ∃ o, .inputObject o ∈ s.allTypes ∧ fields = o.fields.map s.describeInputField := by
  cases h with
  | entry ht =>
      obtain ⟨o, rfl, rfl⟩ := inputFields_describeNamed htold
      exact ⟨o, ht, rfl⟩
  | @use e _ => cases e <;> cases htold
  | related _ => cases htold

theorem exists_of_interfaces (h : s.Placed p d) {interfaces : List TypeDescription}
    (htold : d.interfaces = some interfaces) :
    ∃ c, .composite c ∈ s.allTypes ∧ d = s.describeNamed (.composite c) ∧ c.kind = .object ∧
      interfaces = c.interfaces.map (.reference .interface) := by
  cases h with
  | entry ht =>
      obtain ⟨c, rfl, hkind, rfl⟩ := interfaces_describeNamed htold
      exact ⟨c, ht, rfl, hkind, rfl⟩
  | @use e _ => cases e <;> cases htold
  | related _ => cases htold

theorem exists_of_possibleTypes (h : s.Placed p d) {possible : List TypeDescription}
    (htold : d.possibleTypes = some possible) :
    ∃ c, .composite c ∈ s.allTypes ∧ d = s.describeNamed (.composite c) ∧ c.kind ≠ .object ∧
      possible = c.possibleTypes.map (.reference .object) := by
  cases h with
  | entry ht =>
      obtain ⟨c, rfl, hkind, rfl⟩ := possibleTypes_describeNamed htold
      exact ⟨c, ht, rfl, hkind, rfl⟩
  | @use e _ => cases e <;> cases htold
  | related _ => cases htold

end Placed

/-- What the schema refers to is known in one namespace or the other. -/
theorem Built.isSome_anyNamed_of_refers (hs : s.Built) {space : Namespace} {e : TypeExpr}
    (h : s.Refers space e) : (s.anyNamed? e.innerName).isSome = true :=
  isSome_anyNamed? (hs.isSome_named_of_refers h)

/-- A root stands among the types for output, under its own name. -/
theorem Built.named_of_root (hs : s.Built) {kind : OperationKind} {c : CompositeType}
    (h : s.root? kind = some c) : s.named? .output c.name = some (.composite c) := by
  obtain ⟨steps, hbuild⟩ := id hs
  obtain ⟨hquery, hmutation, hsubscription, -, -, houtput, -⟩ := SchemaBuilder.build_cases hbuild
  -- a root that the builder finds is the type of a name, so of its own
  have hfound : ∀ {name}, (SchemaBuilder.new.run steps).root name = .ok c →
      s.named? .output c.name = some (.composite c) := by
    intro name hroot
    unfold SchemaBuilder.root at hroot
    split at hroot
    · rename_i hname
      cases hroot
      have hnamed : s.named? .output name = some (.composite c) := by
        rw [named?, types, houtput]
        exact hname
      have hown : c.name = name := (hs.orderly hnamed).ownName
      rw [hown]
      exact hnamed
    · cases hroot
  have hfound? : ∀ {name}, (SchemaBuilder.new.run steps).root? name = .ok (some c) →
      s.named? .output c.name = some (.composite c) := by
    intro name hroot
    cases name with
    | none => cases hroot
    | some name =>
        obtain ⟨c', hc', heq⟩ := map_eq_ok.1 hroot
        cases heq
        exact hfound hc'
  cases kind with
  | query =>
      cases h
      exact hfound hquery
  | mutation => exact hfound? (hmutation.trans (congrArg _ h))
  | subscription => exact hfound? (hsubscription.trans (congrArg _ h))

/-- A root is told as a type that is used. -/
theorem Built.placed_root (hs : s.Built) {kind : OperationKind} {c : CompositeType}
    (h : s.root? kind = some c) : s.Placed .use (describeRoot c) := by
  have hnamed : s.anyNamed? c.name = some (.composite c) := by
    rw [anyNamed?, hs.named_of_root h, Option.some_or]
  have hreference : describeRoot c = s.describeReference (.named c.name) := by
    rw [describeReference, hnamed]
    rfl
  rw [hreference]
  exact .use (by rw [TypeExpr.innerName, hnamed]; rfl)

theorem Built.placed_of_refers (hs : s.Built) {space : Namespace} {e : TypeExpr}
    (h : s.Refers space e) : s.Placed .use (s.describeReference e) :=
  .use (hs.isSome_anyNamed_of_refers h)

/-- **Every description inside that of a built schema comes from one of its types**, or from an
    expression whose name is known. -/
theorem Built.placed_of_occurs (hs : s.Built) {p : Standing} {d : TypeDescription}
    (h : s.describe.Occurs p d) : s.Placed p d := by
  induction h with
  | entry hlisted =>
      obtain ⟨t, ht, rfl⟩ := List.mem_map.1 hlisted
      exact .entry ht
  | queryRoot => exact hs.placed_root (show s.root? .query = some s.queryType from rfl)
  | mutationRoot hroot =>
      obtain ⟨c, hc, rfl⟩ := Option.map_eq_some_iff.1 hroot
      exact hs.placed_root (show s.root? .mutation = some c from hc)
  | subscriptionRoot hroot =>
      obtain ⟨c, hc, rfl⟩ := Option.map_eq_some_iff.1 hroot
      exact hs.placed_root (show s.root? .subscription = some c from hc)
  | directiveArgument hdirective hargument =>
      obtain ⟨x, hx, rfl⟩ := List.mem_map.1 hdirective
      obtain ⟨a, ha, rfl⟩ := List.mem_map.1 hargument
      obtain ⟨entry, hentry, rfl⟩ := List.mem_map.1 hx
      exact hs.placed_of_refers (.directiveArgument (Table.find?_eq_some_iff.2 hentry) ha)
  | field _ htold hmember ih =>
      obtain ⟨c, hc, rfl⟩ := ih.exists_of_fields htold
      obtain ⟨f, hf, rfl⟩ := List.mem_map.1 hmember
      exact hs.placed_of_refers (.field (hs.named_composite hc) hf)
  | argument _ htold hmember hargument ih =>
      obtain ⟨c, hc, rfl⟩ := ih.exists_of_fields htold
      obtain ⟨f, hf, rfl⟩ := List.mem_map.1 hmember
      obtain ⟨a, ha, rfl⟩ := List.mem_map.1 hargument
      exact hs.placed_of_refers (.argument (hs.named_composite hc) hf ha)
  | inputField _ htold hmember ih =>
      obtain ⟨o, ho, rfl⟩ := ih.exists_of_inputFields htold
      obtain ⟨f, hf, rfl⟩ := List.mem_map.1 hmember
      exact hs.placed_of_refers (.inputField (hs.named_inputObject ho) hf)
  | interface _ htold hmember ih =>
      obtain ⟨c, hc, -, -, rfl⟩ := ih.exists_of_interfaces htold
      obtain ⟨name, hname, rfl⟩ := List.mem_map.1 hmember
      exact .related (hs.isSome_anyNamed_of_refers
        (.related (hs.named_composite hc) (List.mem_append_left _ hname)))
  | possibleType _ htold hmember ih =>
      obtain ⟨c, hc, -, -, rfl⟩ := ih.exists_of_possibleTypes htold
      obtain ⟨name, hname, rfl⟩ := List.mem_map.1 hmember
      exact .related (hs.isSome_anyNamed_of_refers
        (.related (hs.named_composite hc) (List.mem_append_right _ hname)))
  | ofType _ htold ih =>
      cases ih with
      | entry ht => cases (ofType_describeNamed _).symm.trans htold
      | related hknown => cases htold
      | @use e hknown =>
          cases e with
          | named name => cases htold
          | list of | nonNull of =>
              cases htold
              exact .use hknown

/-! ## 3. What is said of a built schema -/

/-- A known name is the name of a type that is listed. -/
theorem Built.listed_of_anyNamed? (hs : s.Built) {name : String} {t : NamedType}
    (h : s.anyNamed? name = some t) : t.name = name ∧ t ∈ s.allTypes := by
  obtain ⟨space, hspace⟩ := exists_named_of_anyNamed? h
  obtain rfl := (hs.orderly hspace).ownName
  exact ⟨rfl, hs.mem_allTypes_iff.2 h⟩

/-- **The description of a built schema is closed.** -/
theorem Built.closed_describe (hs : s.Built) : s.describe.Closed := by
  constructor
  case named =>
    intro p d name h hname
    cases hs.placed_of_occurs h with
    | entry ht =>
        exact ⟨_, List.mem_map_of_mem ht, hname, fun _ => rfl⟩
    | related hknown =>
        obtain ⟨t, ht⟩ := Option.isSome_iff_exists.1 hknown
        obtain ⟨rfl, hlisted⟩ := hs.listed_of_anyNamed? ht
        exact ⟨_, List.mem_map_of_mem hlisted, (name_describeNamed t).trans hname,
          fun h => absurd rfl h⟩
    | @use e hknown =>
        cases e with
        | list of | nonNull of => cases hname
        | named name' =>
            cases hname
            obtain ⟨t, ht⟩ := Option.isSome_iff_exists.1 hknown
            obtain ⟨rfl, hlisted⟩ := hs.listed_of_anyNamed? ht
            refine ⟨_, List.mem_map_of_mem hlisted, name_describeNamed t, fun _ => ?_⟩
            have hanyNamed : s.anyNamed? t.name = some t := ht
            rw [kind_describeNamed, describeReference, hanyNamed]
            rfl
  case layered =>
    intro p d h hname
    cases hs.placed_of_occurs h with
    | @entry t ht => cases (name_describeNamed t).symm.trans hname
    | related hknown => cases hname
    | @use e hknown =>
        cases e with
        | named name => cases hname
        | list of => exact ⟨.inl rfl, _, rfl⟩
        | nonNull of => exact ⟨.inr rfl, _, rfl⟩

/-- **Each type is listed once, and asked for by its name it gives its entry.** -/
structure ListsTypes (s : Schema) : Prop where
  /-- Every entry has a name, and no two have the same. -/
  once : ∃ names : List String, names.Nodup ∧ s.describe.types.map (·.name) = names.map some
  /-- The names are those of the two namespaces. -/
  listed : ∀ name, some name ∈ s.describe.types.map (·.name) ↔
    ∃ space, (s.named? space name).isSome = true
  /-- What is told of one name is its entry. -/
  entry : ∀ name d, s.describe? name = some d ↔ d ∈ s.describe.types ∧ d.name = some name

theorem map_name_types (s : Schema) :
    s.describe.types.map (·.name) = (s.allTypes.map NamedType.name).map some := by
  simp [describe]

theorem Built.listsTypes (hs : s.Built) : s.ListsTypes := by
  constructor
  case once => exact ⟨_, hs.nodup_map_name_allTypes, map_name_types s⟩
  case listed =>
    intro name
    rw [describe, List.map_map, List.mem_map]
    constructor
    · rintro ⟨t, ht, hname⟩
      obtain ⟨space, hspace⟩ := exists_named_of_anyNamed? (hs.mem_allTypes_iff.1 ht)
      obtain rfl : t.name = name := Option.some.inj ((name_describeNamed t).symm.trans hname)
      exact ⟨space, by rw [hspace]; rfl⟩
    · rintro ⟨space, hspace⟩
      obtain ⟨t, ht⟩ := Option.isSome_iff_exists.1 (isSome_anyNamed? hspace)
      obtain ⟨rfl, hlisted⟩ := hs.listed_of_anyNamed? ht
      exact ⟨t, hlisted, name_describeNamed t⟩
  case entry =>
    intro name d
    rw [describe?, Option.map_eq_some_iff]
    constructor
    · rintro ⟨t, ht, rfl⟩
      obtain ⟨rfl, hlisted⟩ := hs.listed_of_anyNamed? ht
      exact ⟨List.mem_map_of_mem hlisted, name_describeNamed t⟩
    · rintro ⟨hentry, hname⟩
      obtain ⟨t, ht, rfl⟩ := List.mem_map.1 hentry
      rw [name_describeNamed, Option.some.injEq] at hname
      subst hname
      exact ⟨t, hs.mem_allTypes_iff.1 ht, rfl⟩

/-- **What the meta fields answer**: `__schema` with all entries, `__type` with the one entry of the
    name, or with null if there is none. -/
structure AnswersTypes (s : Schema) : Prop where
  /-- The root of queries has both fields. -/
  asked : s.field? (.named (.composite s.queryType) false) "__schema" = some .schemaMeta ∧
    s.field? (.named (.composite s.queryType) false) "__type" = some .typeMeta
  all : ∀ arguments, (FieldType.schemaMeta.resolve s arguments).member? "types" =
    some (.array (s.describe.types.map TypeDescription.toJson))
  one : ∀ arguments name, arguments.find? "name" = some (.string name) →
    (∃ d ∈ s.describe.types, d.name = some name ∧ d.toJson.member? "name" = some (.string name) ∧
      FieldType.typeMeta.resolve s arguments = d.toJson) ∨
    ((∀ d ∈ s.describe.types, d.name ≠ some name) ∧
      FieldType.typeMeta.resolve s arguments = .null)

theorem member?_toJson_of_name {d : TypeDescription} {name : String} (h : d.name = some name) :
    d.toJson.member? "name" = some (.string name) := by
  cases d
  cases h
  rw [TypeDescription.toJson]
  rfl

theorem Built.answersTypes (hs : s.Built) : s.AnswersTypes := by
  constructor
  case asked => simp [field?, namedField?, SchemaType.namedType, isQueryRoot]
  case all =>
    intro arguments
    rw [← typesToJson_eq_map]
    show s.describe.toJson.member? "types" = _
    rw [SchemaDescription.toJson]
    cases s.describe.mutationType <;> cases s.describe.subscriptionType <;> rfl
  case one =>
    intro arguments name hname
    have hanswer : FieldType.typeMeta.resolve s arguments =
        ((s.describe? name).map TypeDescription.toJson).getD .null := by
      simp [FieldType.resolve, FieldType.typeMeta, hname]
    rw [hanswer]
    cases hdescribe : s.describe? name with
    | some d =>
        obtain ⟨hentry, hd⟩ := (hs.listsTypes.entry name d).1 hdescribe
        exact .inl ⟨d, hentry, hd, member?_toJson_of_name hd, rfl⟩
    | none =>
        refine .inr ⟨fun d hentry hd => ?_, rfl⟩
        cases hdescribe.symm.trans ((hs.listsTypes.entry name d).2 ⟨hentry, hd⟩)

/-- **A built schema tells all that it mentions**: each registered name is listed once, a name that
    is asked for is answered with its entry, every name that occurs is that of an entry, of the same
    kind where a type is used, and no reference is to a name that no type has. -/
theorem describe_closed (hs : s.Built) :
    s.ListsTypes ∧ s.AnswersTypes ∧ s.describe.Closed ∧
      ∀ space e, s.Refers space e → (s.anyNamed? e.innerName).isSome = true :=
  ⟨hs.listsTypes, hs.answersTypes, hs.closed_describe, fun _ _ => hs.isSome_anyNamed_of_refers⟩

theorem describe_closed_points :
    points.Built ∧ points.ListsTypes ∧ points.AnswersTypes ∧ points.describe.Closed ∧
      ∀ space e, points.Refers space e → (points.anyNamed? e.innerName).isSome = true :=
  ⟨built_points, describe_closed built_points⟩

end Schema

end TypedQuery
