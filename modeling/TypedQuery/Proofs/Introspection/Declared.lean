import TypedQuery.Proofs.Introspection.DefaultTexts

/-!
# What is declared is told

A schema that was loaded from definitions lists what they declare, in their order, and tells of each
type what its definition says.

* `SchemaBuilder.entries_of_foldlM` -- additions go to the end of both namespaces, in their order;
* `Schema.allTypes_of_ofDefinitions` -- **the types in order**: the built-in scalars, what is
  declared for output, the input objects;
* `TypeDefinition.ToldBy` -- a description says what a definition says, member by member;
* `Schema.describe?_of_declared` -- **every definition is told**;
* `Schema.mem_implementers_iff` -- an object is a possible type of the interfaces that it lists;
* `Schema.Renders`, `Schema.ofDefinitions_renders` -- **all of it, of every loaded schema**.
-/

namespace TypedQuery

namespace TypeSystem

/-! ## 1. Definitions of types -/

/-- The definitions of types, in order. -/
def typeDefinitions (definitions : List Definition) : List TypeDefinition :=
  definitions.filterMap fun
    | .type x => some x
    | .directive _ | .schema _ | .typeExtension => none

/-- A definition of a built-in scalar, which declares nothing. -/
def TypeDefinition.isBuiltin (x : TypeDefinition) : Bool :=
  match x.body with
  | .scalar => (ScalarType.builtin? x.name).isSome
  | .enum _ | .object _ _ | .interface _ | .union _ | .inputObject _ => false

/-- A definition of an input object. -/
def TypeDefinition.isInput (x : TypeDefinition) : Bool :=
  match x.body with
  | .inputObject _ => true
  | .scalar | .enum _ | .object _ _ | .interface _ | .union _ => false

/-- The interfaces that an object lists. -/
def TypeBody.interfaces : TypeBody → List String
  | .object interfaces _ => interfaces
  | .interface _ | .inputObject _ | .scalar | .union _ | .enum _ => []

/-- The definitions that declare a type, in order. -/
def declaredTypes (definitions : List Definition) : List TypeDefinition :=
  (typeDefinitions definitions).filter (!·.isBuiltin)

variable {definitions : List Definition} {x : TypeDefinition} {im : String → List String}

theorem mem_typeDefinitions : x ∈ typeDefinitions definitions ↔ .type x ∈ definitions := by
  rw [typeDefinitions, List.mem_filterMap]
  refine ⟨?_, fun h => ⟨_, h, rfl⟩⟩
  rintro ⟨d, hd, hx⟩
  cases d <;> cases hx
  exact hd

theorem TypeDefinition.toType?_eq_none_iff : x.toType? im = none ↔ x.isBuiltin = true := by
  unfold toType? isBuiltin
  cases x.body with
  | scalar => cases (ScalarType.builtin? x.name).isSome <;> simp
  | enum _ | object _ _ | interface _ | union _ | inputObject _ => simp

/-- A definition that declares something declares a type of its name, for input alone if it is one of
    an input object. -/
theorem TypeDefinition.isOutput_of_toType? {t : NamedType} (h : x.toType? im = some t) :
    t.isOutput = !x.isInput := by
  unfold toType? at h
  unfold isInput
  cases hbody : x.body with
  | scalar =>
      simp only [hbody] at h
      split at h <;> cases h
      rfl
  | enum _ | object _ _ | interface _ | union _ | inputObject _ =>
      simp only [hbody] at h
      cases h
      rfl

theorem filterMap_type? :
    definitions.filterMap (·.type? im) = (typeDefinitions definitions).filterMap (·.toType? im) := by
  rw [typeDefinitions, List.filterMap_filterMap]
  refine congrArg (List.filterMap · definitions) (funext fun d => ?_)
  cases d <;> rfl

theorem mem_declaredTypes_iff (im : String → List String) :
    x ∈ declaredTypes definitions ↔ .type x ∈ definitions ∧ ∃ t, x.toType? im = some t := by
  rw [declaredTypes, List.mem_filter, mem_typeDefinitions, ← Option.ne_none_iff_exists', ne_eq,
    TypeDefinition.toType?_eq_none_iff]
  simp

/-- The names of a part of the types that definitions declare. -/
theorem map_name_filter_filterMap (im : String → List String) (keep : NamedType → Bool)
    (keep' : TypeDefinition → Bool)
    (h : ∀ x t, TypeDefinition.toType? im x = some t → keep t = keep' x)
    (xs : List TypeDefinition) :
    ((xs.filterMap (·.toType? im)).filter keep).map NamedType.name =
      ((xs.filter (!·.isBuiltin)).filter keep').map (·.name) := by
  induction xs with
  | nil => rfl
  | cons x rest ih =>
      cases hx : x.toType? im with
      | none =>
          rw [List.filterMap_cons_none hx, List.filter_cons_of_neg, ih]
          simp [TypeDefinition.toType?_eq_none_iff.1 hx]
      | some t =>
          have hsome : x.toType? im ≠ none := hx ▸ Option.some_ne_none t
          have hnew : x.isBuiltin = false :=
            Bool.not_eq_true _ ▸ mt TypeDefinition.toType?_eq_none_iff.2 hsome
          have hrest : (x :: rest).filter (!·.isBuiltin) = x :: rest.filter (!·.isBuiltin) :=
            List.filter_cons_of_pos (by rw [hnew]; rfl)
          rw [List.filterMap_cons_some hx, hrest, List.filter_cons, List.filter_cons, h x t hx]
          split
          · rw [List.map_cons, List.map_cons, ih, TypeDefinition.name_of_toType? hx]
          · exact ih

/-- The implementers of an interface, object by object. -/
theorem implementers_eq (interface : String) :
    implementers definitions interface = (typeDefinitions definitions).flatMap fun x =>
      List.replicate (x.body.interfaces.count interface) x.name := by
  induction definitions with
  | nil => rfl
  | cons d rest ih =>
      cases d with
      | type x =>
          obtain ⟨description, name, body⟩ := x
          rw [show typeDefinitions (.type ⟨description, name, body⟩ :: rest) =
            ⟨description, name, body⟩ :: typeDefinitions rest from rfl, List.flatMap_cons, ← ih,
            implementers, List.flatMap_cons]
          refine congrArg (· ++ _) ?_
          cases body with
          | object interfaces _ =>
              show (interfaces.filter (· == interface)).map (fun _ => name) = _
              rw [List.filter_beq, List.map_replicate]
              rfl
          | scalar | enum _ | interface _ | union _ | inputObject _ => rfl
      | directive _ | schema _ | typeExtension => exact ih

end TypeSystem

open TypeSystem Introspection

/-! ## 2. The order of the types -/

/-- **Additions go to the end**, in their order, each into the namespaces that it is for. -/
theorem SchemaBuilder.entries_of_foldlM {im : String → List String}
    {definitions : List TypeSystem.Definition} {b b' : SchemaBuilder}
    (h : definitions.foldlM (addDefinition im) b = .ok b') (space : Namespace) :
    (b'.types space).entries = (b.types space).entries ++
      ((definitions.filterMap (·.type? im)).filter (·.isFor space)).map fun t => (t.name, t) := by
  induction definitions generalizing b with
  | nil =>
      cases h
      exact (List.append_nil _).symm
  | cons d rest ih =>
      rw [List.foldlM_cons] at h
      obtain ⟨middle, hmiddle, hrest⟩ := bind_eq_ok.1 h
      rw [ih hrest]
      cases htype : d.type? im with
      | some t =>
          rw [addDefinition_of_type htype] at hmiddle
          rw [(addsType_of_addType hmiddle).entries space, List.filterMap_cons_some htype,
            List.filter_cons]
          split
          · rw [List.map_cons, List.append_assoc, List.singleton_append]
          · rfl
      | none =>
          rw [List.filterMap_cons_none htype]
          cases hdirective : d.directive? with
          | some x =>
              rw [addDefinition_of_directive hdirective] at hmiddle
              rw [types_addDirective hmiddle]
          | none =>
              rw [addDefinition_of_neither htype hdirective] at hmiddle
              cases hmiddle
              rfl

namespace Schema

variable {definitions : List TypeSystem.Definition} {s : Schema}

/-- A namespace of a loaded schema: the built-in scalars, then what is declared for it, in order. -/
theorem entries_of_ofDefinitions (h : ofDefinitions definitions = .ok s) (space : Namespace) :
    (s.types space).entries = (ScalarType.builtin.map fun k => (k.name, .scalar k)) ++
      ((definitions.filterMap (·.type? (implementers definitions))).filter (·.isFor space)).map
        fun t => (t.name, t) := by
  obtain ⟨b, hload, hbuild⟩ := exists_of_ofDefinitions h
  rw [SchemaBuilder.types_build hbuild, types_setRoots, SchemaBuilder.entries_of_foldlM hload,
    SchemaBuilder.entries_types_new]

/-- No name is declared twice, and no name of a built-in scalar is declared. -/
theorem addable_of_ofDefinitions (h : ofDefinitions definitions = .ok s) :
    let declared := definitions.filterMap (·.type? (implementers definitions))
    (declared.map NamedType.name).Nodup ∧
      ∀ t ∈ declared, ∀ k ∈ ScalarType.builtin, k.name ≠ t.name := by
  obtain ⟨b, hload, -⟩ := exists_of_ofDefinitions h
  have haddable := (SchemaBuilder.foldlM_addDefinition_cases hload).1
  refine ⟨haddable.once, fun t ht k hk hname => ?_⟩
  have hfree := SchemaBuilder.hasType_eq_false_iff.1 (haddable.free t ht) .output
  have hfound : (SchemaBuilder.new.types .output).find? k.name = some (.scalar k) := by
    rw [Table.find?_eq_some_iff, SchemaBuilder.entries_types_new]
    exact List.mem_map_of_mem hk
  rw [← hname, hfound] at hfree
  cases hfree

/-- Of what is declared, those types are for output of which the output namespace has the name. -/
theorem contains_outputTypes_of_declared (h : ofDefinitions definitions = .ok s) {t : NamedType}
    (ht : t ∈ definitions.filterMap (·.type? (implementers definitions))) :
    s.outputTypes.contains t.name = t.isOutput := by
  obtain ⟨hdistinct, hnew⟩ := addable_of_ofDefinitions h
  have hnames : s.outputTypes.names = (ScalarType.builtin.map (·.name)) ++
      ((definitions.filterMap (·.type? (implementers definitions))).filter (·.isOutput)).map
        NamedType.name := by
    show ((s.types .output).entries).map (·.1) = _
    rw [entries_of_ofDefinitions h, List.map_append, List.map_map, List.map_map]
    rfl
  rw [Table.contains_eq, hnames, Bool.eq_iff_iff, List.contains_iff_mem, List.mem_append,
    List.mem_map, List.mem_map]
  constructor
  · rintro (⟨k, hk, hname⟩ | ⟨u, hu, hname⟩)
    · exact absurd hname (hnew t ht k hk)
    · obtain ⟨hu, hout⟩ := List.mem_filter.1 hu
      obtain rfl := List.inj_on_of_nodup_map hdistinct hu ht hname
      exact hout
  · exact fun hout => .inr ⟨t, List.mem_filter.2 ⟨ht, hout⟩, rfl⟩

/-- **The types of a loaded schema in order**: the built-in scalars, what is declared for output, and
    what is declared for input alone. -/
theorem allTypes_of_ofDefinitions (h : ofDefinitions definitions = .ok s) :
    let declared := definitions.filterMap (·.type? (implementers definitions))
    s.allTypes = ScalarType.builtin.map .scalar ++ declared.filter (·.isOutput) ++
      declared.filter (!·.isOutput) := by
  intro declared
  have hbuiltin : ∀ k ∈ ScalarType.builtin, s.outputTypes.contains k.name = true := by
    intro k hk
    have hfound : s.named? .output k.name = some (.scalar k) :=
      (named?_of_ofDefinitions h).2 (.inl ⟨k, hk, rfl, rfl⟩)
    show (s.named? .output k.name).isSome = true
    rw [hfound, Option.isSome_some]
  have houtput : s.outputTypes.values =
      ScalarType.builtin.map .scalar ++ declared.filter (·.isOutput) := by
    show ((s.types .output).entries).map (·.2) = _
    rw [entries_of_ofDefinitions h, List.map_append, List.map_map, List.map_map]
    exact congrArg _ (List.map_id _)
  have hinput : s.inputTypes.entries.filter (fun p => !s.outputTypes.contains p.1) =
      (declared.filter (!·.isOutput)).map fun t => (t.name, t) := by
    show (s.types .input).entries.filter _ = _
    rw [entries_of_ofDefinitions h, List.filter_append, List.filter_eq_nil_iff.2, List.nil_append,
      List.filter_map, List.filter_filter]
    · refine congrArg _ (List.filter_congr fun t ht => ?_)
      show (!s.outputTypes.contains t.name && t.isInput) = !t.isOutput
      rw [contains_outputTypes_of_declared h ht]
      cases t <;> rfl
    · intro p hp
      obtain ⟨k, hk, rfl⟩ := List.mem_map.1 hp
      rw [hbuiltin k hk]
      decide
  rw [allTypes, houtput, hinput, List.map_map]
  exact congrArg _ (List.map_id _)

/-- **The names of a loaded schema in order.** -/
theorem map_name_allTypes_of_ofDefinitions (h : ofDefinitions definitions = .ok s) :
    s.allTypes.map NamedType.name = ScalarType.builtin.map (·.name) ++
      ((declaredTypes definitions).filter (!·.isInput)).map (·.name) ++
      ((declaredTypes definitions).filter (·.isInput)).map (·.name) := by
  rw [allTypes_of_ofDefinitions h, filterMap_type?, List.map_append, List.map_append,
    List.map_map,
    map_name_filter_filterMap _ _ (!·.isInput) fun x t => TypeDefinition.isOutput_of_toType?,
    map_name_filter_filterMap _ _ (·.isInput) fun x t hx => by
      rw [TypeDefinition.isOutput_of_toType? hx, Bool.not_not]]
  rfl

end Schema

/-! ## 3. What is told of a definition -/

/-- **A description says what a type expression says**, layer by layer down to the name. -/
def TypeExpr.ToldBy : TypeExpr → TypeDescription → Prop
  | .named name, t => t.name = some name ∧ t.ofType = none ∧ t.kind ≠ .list ∧ t.kind ≠ .nonNull
  | .list of, t => t.kind = .list ∧ t.name = none ∧ ∃ u, t.ofType = some u ∧ of.ToldBy u
  | .nonNull of, t => t.kind = .nonNull ∧ t.name = none ∧ ∃ u, t.ofType = some u ∧ of.ToldBy u

namespace TypeSystem

/-- **A description says what the definition of an argument or input field says**, its default as a
    text. -/
structure InputValue.ToldBy (v : InputValue) (d : InputValueDescription) : Prop where
  name : d.name = v.name
  description : d.description = v.description
  type : v.type.ToldBy d.type
  default : d.defaultValue = v.default.map Literal.text

/-- **A description says what the definition of a field says**, argument by argument. -/
structure FieldDefinition.ToldBy (f : FieldDefinition) (d : FieldDescription) : Prop where
  name : d.name = f.name
  description : d.description = f.description
  type : f.type.ToldBy d.type
  arguments : List.Forall₂ InputValue.ToldBy f.arguments d.args

/-- **A description says what the definition of an enumeration value says.** -/
structure EnumValueDefinition.ToldBy (v : EnumValueDefinition) (d : EnumValueDescription) :
    Prop where
  name : d.name = v.name
  description : d.description = v.description

/-- **A description lists the members of a definition**, in order. What an interface may be is not
    among them. -/
inductive TypeBody.ToldBy : TypeBody → TypeDescription → Prop
  | scalar {t : TypeDescription} (kind : t.kind = .scalar) : ToldBy .scalar t
  | enum {t : TypeDescription} {values : List EnumValueDefinition}
      {told : List EnumValueDescription} (kind : t.kind = .enum) (values_eq : t.enumValues = some told)
      (all : List.Forall₂ EnumValueDefinition.ToldBy values told) : ToldBy (.enum values) t
  | object {t : TypeDescription} {interfaces : List String} {fields : List FieldDefinition}
      {told : List FieldDescription} {related : List TypeDescription} (kind : t.kind = .object)
      (fields_eq : t.fields = some told) (all : List.Forall₂ FieldDefinition.ToldBy fields told)
      (interfaces_eq : t.interfaces = some related)
      (names : related.map (·.name) = interfaces.map some) : ToldBy (.object interfaces fields) t
  | interface {t : TypeDescription} {fields : List FieldDefinition} {told : List FieldDescription}
      (kind : t.kind = .interface) (fields_eq : t.fields = some told)
      (all : List.Forall₂ FieldDefinition.ToldBy fields told) : ToldBy (.interface fields) t
  | union {t : TypeDescription} {members : List String} {related : List TypeDescription}
      (kind : t.kind = .union) (possible_eq : t.possibleTypes = some related)
      (names : related.map (·.name) = members.map some) : ToldBy (.union members) t
  | inputObject {t : TypeDescription} {fields : List InputValue}
      {told : List InputValueDescription} (kind : t.kind = .inputObject)
      (fields_eq : t.inputFields = some told) (all : List.Forall₂ InputValue.ToldBy fields told) :
      ToldBy (.inputObject fields) t

/-- **A description says what the definition of a type says.** The definition of a built-in scalar
    describes nothing: the scalar keeps its own description. -/
structure TypeDefinition.ToldBy (x : TypeDefinition) (t : TypeDescription) : Prop where
  name : t.name = some x.name
  description : x.isBuiltin = false → t.description = x.description
  body : x.body.ToldBy t

end TypeSystem

namespace Schema

variable {definitions : List TypeSystem.Definition} {s : Schema}

/-- The kind of a named type is none of a layer. -/
theorem kind_ne_layer (t : NamedType) : t.kind ≠ .list ∧ t.kind ≠ .nonNull := by
  cases t with
  | composite c => cases hkind : c.kind <;> simp [NamedType.kind, CompositeType.typeKind, hkind]
  | scalar _ | enum _ | inputObject _ => simp [NamedType.kind]

/-- What a schema refers to is told as it is written. -/
theorem toldBy_describeReference (s : Schema) (e : TypeExpr) : e.ToldBy (s.describeReference e) := by
  induction e with
  | named name =>
      have hkind : (s.describeReference (.named name)).kind ≠ .list ∧
          (s.describeReference (.named name)).kind ≠ .nonNull := by
        simp only [describeReference, TypeDescription.reference]
        cases s.anyNamed? name with
        | none => exact ⟨by decide, by decide⟩
        | some t => exact kind_ne_layer t
      exact ⟨rfl, rfl, hkind⟩
  | list of ih => exact ⟨rfl, rfl, _, rfl, ih⟩
  | nonNull of ih => exact ⟨rfl, rfl, _, rfl, ih⟩

/-- What is told of each member of a list is told of the list. -/
theorem forall₂_map_of_told {α β γ : Type} {told : α → γ → Prop} {convert : α → β} {tell : β → γ}
    (h : ∀ a, told a (tell (convert a))) (as : List α) :
    List.Forall₂ told as ((as.map convert).map tell) := by
  rw [List.map_map, List.forall₂_map_right_iff]
  exact List.forall₂_same.2 fun a _ => h a

theorem toldBy_describeArgument (s : Schema) (v : InputValue) :
    v.ToldBy (s.describeArgument v.toArgument) :=
  ⟨rfl, rfl, s.toldBy_describeReference v.type, rfl⟩

theorem toldBy_describeInputField (s : Schema) (v : InputValue) :
    v.ToldBy (s.describeInputField v.toInputField) :=
  ⟨rfl, rfl, s.toldBy_describeReference v.type, rfl⟩

theorem toldBy_describeField (s : Schema) (f : FieldDefinition) :
    f.ToldBy (s.describeField f.toField) :=
  ⟨rfl, rfl, s.toldBy_describeReference f.type,
    forall₂_map_of_told s.toldBy_describeArgument f.arguments⟩

/-- The names of references are the names referred to. -/
theorem map_name_references (kind : TypeKind) (names : List String) :
    (names.map (TypeDescription.reference kind)).map (·.name) = names.map some := by
  rw [List.map_map]
  rfl

/-- **What a definition declares is told as it is declared**, in whatever schema. -/
theorem toldBy_describeNamed (s : Schema) {im : String → List String} {x : TypeDefinition}
    {t : NamedType} (h : x.toType? im = some t) : x.ToldBy (s.describeNamed t) := by
  obtain ⟨description, name, body⟩ := x
  cases body with
  | scalar =>
      simp only [TypeDefinition.toType?] at h
      split at h
      · cases h
      · cases h
        exact ⟨rfl, fun _ => rfl, .scalar rfl⟩
  | enum values =>
      cases h
      exact ⟨rfl, fun _ => rfl, .enum rfl rfl (forall₂_map_of_told (fun _ => ⟨rfl, rfl⟩) values)⟩
  | object interfaces fields =>
      cases h
      exact ⟨rfl, fun _ => rfl, .object rfl rfl (forall₂_map_of_told s.toldBy_describeField fields)
        rfl (map_name_references _ interfaces)⟩
  | interface fields =>
      cases h
      exact ⟨rfl, fun _ => rfl,
        .interface rfl rfl (forall₂_map_of_told s.toldBy_describeField fields)⟩
  | union members =>
      cases h
      exact ⟨rfl, fun _ => rfl, .union rfl rfl (map_name_references _ members)⟩
  | inputObject fields =>
      cases h
      exact ⟨rfl, fun _ => rfl,
        .inputObject rfl rfl (forall₂_map_of_told s.toldBy_describeInputField fields)⟩

/-- The type that a definition declares is described under its name. -/
theorem describe?_of_toType? (h : ofDefinitions definitions = .ok s) {x : TypeDefinition}
    (hx : .type x ∈ definitions) {t : NamedType}
    (ht : x.toType? (implementers definitions) = some t) :
    s.describe? x.name = some (s.describeNamed t) := by
  obtain ⟨space, hspace⟩ := t.exists_isFor
  have hnamed : s.named? space t.name = some t :=
    (named?_of_ofDefinitions h).2 (.inr ⟨_, hx, ht, hspace, rfl⟩)
  rw [← TypeDefinition.name_of_toType? ht, describe?,
    (built_of_ofDefinitions h).anyNamed?_of_named? hnamed, Option.map_some]

/-- **Every definition is told.** -/
theorem describe?_of_declared (h : ofDefinitions definitions = .ok s) {x : TypeDefinition}
    (hx : .type x ∈ definitions) : ∃ t, s.describe? x.name = some t ∧ x.ToldBy t := by
  cases ht : x.toType? (implementers definitions) with
  | some t => exact ⟨_, describe?_of_toType? h hx ht, s.toldBy_describeNamed ht⟩
  | none =>
      -- the built-in scalar of the name is there
      have hbuiltin := TypeDefinition.toType?_eq_none_iff.1 ht
      obtain ⟨description, name, body⟩ := x
      cases body with
      | scalar =>
          obtain ⟨k, hk⟩ := Option.isSome_iff_exists.1 hbuiltin
          have hname : k.name = name := by simpa using List.find?_some hk
          have hnamed : s.named? .output name = some (.scalar k) :=
            (named?_of_ofDefinitions h).2 (.inl ⟨k, List.mem_of_find?_eq_some hk, hname, rfl⟩)
          refine ⟨s.describeNamed (.scalar k), ?_, ⟨congrArg some hname, ?_, .scalar rfl⟩⟩
          · rw [describe?, (built_of_ofDefinitions h).anyNamed?_of_named? hnamed, Option.map_some]
          · intro hnew
            rw [hbuiltin] at hnew
            cases hnew
      | enum _ | object _ _ | interface _ | union _ | inputObject _ => cases hbuiltin

/-! ## 4. Interfaces and their objects -/

/-- The names that are told under the interfaces of the type of a name. -/
def interfacesOf (s : Schema) (name : String) : List (Option String) :=
  (((s.describe? name).bind (·.interfaces)).getD []).map (·.name)

/-- The names that are told under the possible types of the type of a name. -/
def possibleTypesOf (s : Schema) (name : String) : List (Option String) :=
  (((s.describe? name).bind (·.possibleTypes)).getD []).map (·.name)

/-- No name is declared twice. -/
theorem nodup_declaredTypes (h : ofDefinitions definitions = .ok s) :
    ((declaredTypes definitions).map (·.name)).Nodup := by
  have hnames := map_name_filter_filterMap (implementers definitions) (fun _ => true)
    (fun _ => true) (fun _ _ _ => rfl) (typeDefinitions definitions)
  rw [List.filter_true, List.filter_true, ← filterMap_type?] at hnames
  rw [declaredTypes, ← hnames]
  exact (addable_of_ofDefinitions h).1

/-- The definition of an object declares a type. -/
theorem mem_declaredTypes_of_object {x : TypeDefinition} {interfaces : List String}
    {fields : List FieldDefinition} (hx : .type x ∈ definitions)
    (hbody : x.body = .object interfaces fields) : x ∈ declaredTypes definitions := by
  refine List.mem_filter.2 ⟨mem_typeDefinitions.2 hx, ?_⟩
  simp only [TypeDefinition.isBuiltin, hbody, Bool.not_false]

/-- Objects alone list interfaces. -/
theorem exists_object_of_mem_interfaces {body : TypeBody} {interface : String}
    (h : interface ∈ body.interfaces) : ∃ interfaces fields, body = .object interfaces fields := by
  cases body with
  | object interfaces fields => exact ⟨interfaces, fields, rfl⟩
  | scalar | enum _ | interface _ | union _ | inputObject _ => cases h

/-- **What implements an interface lists it**: of the definition of an object. -/
theorem mem_implementers_iff (h : ofDefinitions definitions = .ok s) {x : TypeDefinition}
    {interfaces : List String} {fields : List FieldDefinition} (hx : .type x ∈ definitions)
    (hbody : x.body = .object interfaces fields) (interface : String) :
    x.name ∈ implementers definitions interface ↔ interface ∈ interfaces := by
  have hinterfaces : x.body.interfaces = interfaces := by rw [hbody]; rfl
  simp only [implementers_eq, List.mem_flatMap, mem_typeDefinitions, List.mem_replicate, ne_eq,
    List.count_eq_zero, not_not]
  constructor
  · rintro ⟨y, hy, hmem, hname⟩
    -- two definitions of one name are one definition
    obtain ⟨_, _, hobject⟩ := exists_object_of_mem_interfaces hmem
    obtain rfl := List.inj_on_of_nodup_map (nodup_declaredTypes h)
      (mem_declaredTypes_of_object hx hbody) (mem_declaredTypes_of_object hy hobject) hname
    exact hinterfaces ▸ hmem
  · exact fun hmem => ⟨x, hx, hinterfaces ▸ hmem, rfl⟩

theorem interfacesOf_of_object (h : ofDefinitions definitions = .ok s) {x : TypeDefinition}
    {interfaces : List String} {fields : List FieldDefinition} (hx : .type x ∈ definitions)
    (hbody : x.body = .object interfaces fields) :
    s.interfacesOf x.name = interfaces.map some := by
  obtain ⟨description, name, body⟩ := x
  obtain rfl : body = .object interfaces fields := hbody
  rw [interfacesOf, describe?_of_toType? h hx rfl]
  exact map_name_references _ interfaces

theorem possibleTypesOf_of_interface (h : ofDefinitions definitions = .ok s) {x : TypeDefinition}
    {fields : List FieldDefinition} (hx : .type x ∈ definitions)
    (hbody : x.body = .interface fields) :
    s.possibleTypesOf x.name = (implementers definitions x.name).map some := by
  obtain ⟨description, name, body⟩ := x
  obtain rfl : body = .interface fields := hbody
  rw [possibleTypesOf, describe?_of_toType? h hx rfl]
  exact map_name_references _ _

/-! ## 5. All of it -/

/-- **A schema that says what definitions say.** -/
structure Renders (s : Schema) (definitions : List TypeSystem.Definition) : Prop where
  /-- The names of either namespace are those of the built-in scalars and of the definitions that
      declare a type. -/
  names : ∀ name, (∃ space t, s.named? space name = some t) ↔
    name ∈ ScalarType.builtin.map (·.name) ++ (declaredTypes definitions).map (·.name)
  /-- None of these stands twice. -/
  once : (ScalarType.builtin.map (·.name) ++ (declaredTypes definitions).map (·.name)).Nodup
  /-- The types are listed in this order. -/
  order : s.allTypes.map NamedType.name = ScalarType.builtin.map (·.name) ++
    ((declaredTypes definitions).filter (!·.isInput)).map (·.name) ++
    ((declaredTypes definitions).filter (·.isInput)).map (·.name)
  /-- Each definition is told under its name. -/
  told : ∀ x, .type x ∈ definitions → ∃ t, s.describe? x.name = some t ∧ x.ToldBy t
  /-- An object lists an interface exactly if the interface lists the object. -/
  related : ∀ x y interfaces fields fields', .type x ∈ definitions → .type y ∈ definitions →
    x.body = .object interfaces fields → y.body = .interface fields' →
      (some y.name ∈ s.interfacesOf x.name ↔ some x.name ∈ s.possibleTypesOf y.name)
  /-- The possible types of an interface stand in the order of the objects, each as often as it lists
      the interface. -/
  possible : ∀ y fields, .type y ∈ definitions → y.body = .interface fields →
    s.possibleTypesOf y.name = (typeDefinitions definitions).flatMap fun x =>
      List.replicate (x.body.interfaces.count y.name) (some x.name)

theorem exists_named_iff (h : ofDefinitions definitions = .ok s) (name : String) :
    (∃ space t, s.named? space name = some t) ↔
      name ∈ ScalarType.builtin.map (·.name) ++ (declaredTypes definitions).map (·.name) := by
  simp only [named?_of_ofDefinitions h, List.mem_append, List.mem_map]
  constructor
  · rintro ⟨space, t, ⟨k, hk, hname, -⟩ | ⟨d, hd, ht, -, hname⟩⟩
    · exact .inl ⟨k, hk, hname⟩
    · cases d with
      | type x =>
          exact .inr ⟨x, (mem_declaredTypes_iff _).2 ⟨hd, t, ht⟩,
            (TypeDefinition.name_of_toType? ht).symm.trans hname⟩
      | directive _ | schema _ | typeExtension => cases ht
  · rintro (⟨k, hk, hname⟩ | ⟨x, hx, hname⟩)
    · exact ⟨.output, _, .inl ⟨k, hk, hname, rfl⟩⟩
    · obtain ⟨hx, t, ht⟩ := (mem_declaredTypes_iff _).1 hx
      obtain ⟨space, hspace⟩ := t.exists_isFor
      exact ⟨space, t, .inr ⟨_, hx, ht, hspace, (TypeDefinition.name_of_toType? ht).trans hname⟩⟩

/-- **A loaded schema says what its definitions say**: it has the types that they declare, each once,
    in their order, and tells of each what is declared; and its objects and interfaces list each
    other. -/
theorem ofDefinitions_renders (h : ofDefinitions definitions = .ok s) : s.Renders definitions := by
  constructor
  case names => exact exists_named_iff h
  case once =>
    obtain ⟨-, hnew⟩ := addable_of_ofDefinitions h
    refine List.nodup_append.2 ⟨by decide, nodup_declaredTypes h, ?_⟩
    rintro name hbuiltin name' hdeclared rfl
    obtain ⟨k, hk, hname⟩ := List.mem_map.1 hbuiltin
    obtain ⟨x, hx, hname'⟩ := List.mem_map.1 hdeclared
    obtain ⟨hx, t, ht⟩ := (mem_declaredTypes_iff _).1 hx
    refine hnew t (List.mem_filterMap.2 ⟨_, hx, ht⟩) k hk ?_
    rw [hname, TypeDefinition.name_of_toType? ht, hname']
  case order => exact map_name_allTypes_of_ofDefinitions h
  case told => exact fun x hx => describe?_of_declared h hx
  case related =>
    intro x y interfaces fields fields' hx hy hobject hinterface
    rw [interfacesOf_of_object h hx hobject, possibleTypesOf_of_interface h hy hinterface,
      List.mem_map_of_injective (Option.some_injective _),
      List.mem_map_of_injective (Option.some_injective _), mem_implementers_iff h hx hobject]
  case possible =>
    intro y fields hy hinterface
    rw [possibleTypesOf_of_interface h hy hinterface, implementers_eq, List.map_flatMap]
    simp only [List.map_replicate]

/-- Pets with an interface, a union and a filter, which is defined first; a built-in scalar is defined
    once more, and an extension adds nothing. -/
def petDefinitions : List TypeSystem.Definition :=
  let name : FieldDefinition := ⟨none, "name", [], .named "String"⟩
  [.type ⟨some "Counts.", "Int", .scalar⟩,
   .type ⟨none, "Filter", .inputObject [⟨some "At most.", "limit", .nonNull (.named "Int"),
      some (.int 10)⟩]⟩,
   .type ⟨none, "Named", .interface [name]⟩,
   .type ⟨some "Barks.", "Dog", .object ["Named"] [name]⟩,
   .typeExtension,
   .type ⟨none, "Query", .object [] [⟨none, "pets", [⟨none, "filter", .named "Filter", none⟩],
      .list (.named "Pet")⟩]⟩,
   .type ⟨none, "Cat", .object ["Named"] [name]⟩,
   .type ⟨none, "Pet", .union ["Dog", "Cat"]⟩,
   .type ⟨none, "Colour", .enum [⟨none, "RED"⟩, ⟨some "Go.", "GREEN"⟩]⟩]

/-- The filter comes last, and the named pets in the order of the text. -/
theorem ofDefinitions_renders_pets :
    ∃ s, ofDefinitions petDefinitions = .ok s ∧ s.Renders petDefinitions ∧
      s.allTypes.map NamedType.name = ["Int", "Float", "String", "Boolean", "ID", "Named", "Dog",
        "Query", "Cat", "Pet", "Colour", "Filter"] ∧
      s.possibleTypesOf "Named" = [some "Dog", some "Cat"] := by
  obtain ⟨s, hs⟩ : ∃ s, ofDefinitions petDefinitions = .ok s := ⟨_, rfl⟩
  have hrenders := ofDefinitions_renders hs
  have hnamed : .type ⟨none, "Named", .interface [⟨none, "name", [], .named "String"⟩]⟩ ∈
      petDefinitions := by simp [petDefinitions]
  exact ⟨s, hs, hrenders, hrenders.order.trans rfl, (hrenders.possible _ _ hnamed rfl).trans rfl⟩

end Schema

end TypedQuery
