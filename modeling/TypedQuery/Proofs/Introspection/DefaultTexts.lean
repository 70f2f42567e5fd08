import Mathlib.Data.List.Nodup
import TypedQuery.Proofs.Introspection.Closure
import TypedQuery.Proofs.Schema.Loading
import TypedQuery.Proofs.Syntax.Defaults

/-!
# The texts of defaults

A schema tells the default of an argument or input field as a text. Where the schema was loaded from
a text of its own, what is told is the default that was declared there.

* `TypeSystem.declaredAt` -- what definitions declare at a place;
* `SchemaDescription.Tells` -- what a description tells of it;
* `Schema.tells_iff_of_declared` -- **the one is the other**, with the default as a text;
* `Schema.default_read_back` -- **the text is read as the default exactly if the default is plain**,
  whichever characters show.
-/

namespace TypedQuery

/-! ## 1. Places -/

/-- Where a value is declared that may have a default. -/
inductive InputPlace
  | argument (type field name : String)
  | inputField (type name : String)
  | directiveArgument (directive name : String)
deriving DecidableEq

namespace TypeSystem

/-- The fields of an object or interface. -/
def TypeBody.fields : TypeBody → List FieldDefinition
  | .object _ fields | .interface fields => fields
  | .inputObject _ | .scalar | .union _ | .enum _ => []

/-- The fields of an input object. -/
def TypeBody.inputFields : TypeBody → List InputValue
  | .inputObject fields => fields
  | .object _ _ | .interface _ | .scalar | .union _ | .enum _ => []

/-- The types of a name that definitions declare. -/
def typesNamed (definitions : List Definition) (name : String) : List TypeDefinition :=
  (definitions.filterMap fun
    | .type t => some t
    | .directive _ | .schema _ | .typeExtension => none).filter (·.name == name)

/-- The directives of a name that definitions declare. Those that every schema has are not declared
    again. -/
def directivesNamed (definitions : List Definition) (name : String) : List DirectiveDefinition :=
  (definitions.filterMap fun
    | .directive d => if isStandardDirective d.name then none else some d
    | .type _ | .schema _ | .typeExtension => none).filter (·.name == name)

/-- **What definitions declare at a place.** Of the arguments of a directive the last one of a name
    counts. -/
def declaredAt (definitions : List Definition) : InputPlace → List InputValue
  | .argument type field name =>
      let fields := (typesNamed definitions type).flatMap (·.body.fields)
      ((fields.filter (·.name == field)).flatMap (·.arguments)).filter (·.name == name)
  | .inputField type name =>
      ((typesNamed definitions type).flatMap (·.body.inputFields)).filter (·.name == name)
  | .directiveArgument directive name =>
      (directivesNamed definitions directive).filterMap fun d =>
        d.arguments.reverse.find? (·.name == name)

section

variable {definitions : List Definition} {v : InputValue}

theorem mem_typesNamed {name : String} {t : TypeDefinition} :
    t ∈ typesNamed definitions name ↔ .type t ∈ definitions ∧ t.name = name := by
  rw [typesNamed, List.mem_filter, List.mem_filterMap, beq_iff_eq]
  refine and_congr_left fun _ => ⟨?_, fun h => ⟨_, h, rfl⟩⟩
  rintro ⟨d, hd, hsome⟩
  cases d <;> cases hsome
  exact hd

theorem mem_directivesNamed {name : String} {d : DirectiveDefinition} :
    d ∈ directivesNamed definitions name ↔
      .directive d ∈ definitions ∧ isStandardDirective d.name = false ∧ d.name = name := by
  rw [directivesNamed, List.mem_filter, List.mem_filterMap, beq_iff_eq, ← and_assoc]
  refine and_congr_left fun _ => ⟨?_, fun ⟨h, hnew⟩ => ⟨_, h, by simp [hnew]⟩⟩
  rintro ⟨e, he, hsome⟩
  cases e with
  | directive e =>
      by_cases hstandard : isStandardDirective e.name = true
      · simp [hstandard] at hsome
      · simp only [hstandard, Bool.false_eq_true, if_false, Option.some.injEq] at hsome
        subst hsome
        exact ⟨he, Bool.eq_false_iff.2 hstandard⟩
  | type _ | schema _ | typeExtension => cases hsome

theorem mem_declaredAt_argument {type field name : String} :
    v ∈ declaredAt definitions (.argument type field name) ↔ ∃ t f, .type t ∈ definitions ∧
      t.name = type ∧ f ∈ t.body.fields ∧ f.name = field ∧ v ∈ f.arguments ∧ v.name = name := by
  simp only [declaredAt, List.mem_filter, List.mem_flatMap, mem_typesNamed, beq_iff_eq]
  constructor
  · rintro ⟨⟨f, ⟨⟨t, ⟨ht, htname⟩, hf⟩, hfname⟩, hv⟩, hname⟩
    exact ⟨t, f, ht, htname, hf, hfname, hv, hname⟩
  · rintro ⟨t, f, ht, htname, hf, hfname, hv, hname⟩
    exact ⟨⟨f, ⟨⟨t, ⟨ht, htname⟩, hf⟩, hfname⟩, hv⟩, hname⟩

theorem mem_declaredAt_inputField {type name : String} :
    v ∈ declaredAt definitions (.inputField type name) ↔ ∃ t, .type t ∈ definitions ∧
      t.name = type ∧ v ∈ t.body.inputFields ∧ v.name = name := by
  simp only [declaredAt, List.mem_filter, List.mem_flatMap, mem_typesNamed, beq_iff_eq]
  constructor
  · rintro ⟨⟨t, ⟨ht, htname⟩, hv⟩, hname⟩
    exact ⟨t, ht, htname, hv, hname⟩
  · rintro ⟨t, ht, htname, hv, hname⟩
    exact ⟨⟨t, ⟨ht, htname⟩, hv⟩, hname⟩

theorem mem_declaredAt_directiveArgument {directive name : String} :
    v ∈ declaredAt definitions (.directiveArgument directive name) ↔ ∃ d before after,
      .directive d ∈ definitions ∧ isStandardDirective d.name = false ∧ d.name = directive ∧
        d.arguments = before ++ v :: after ∧ v.name = name ∧ ∀ w ∈ after, w.name ≠ name := by
  simp only [declaredAt, List.mem_filterMap, mem_directivesNamed, List.find?_eq_some_iff_append,
    beq_iff_eq, Bool.not_eq_true', beq_eq_false_iff_ne]
  constructor
  · rintro ⟨d, ⟨hd, hnew, hdname⟩, hname, after, before, hsplit, hafter⟩
    refine ⟨d, before.reverse, after.reverse, hd, hnew, hdname, ?_, hname, fun w hw =>
      hafter w (List.mem_reverse.1 hw)⟩
    rw [List.reverse_eq_iff.1 hsplit, List.reverse_append, List.reverse_cons, List.append_assoc]
    rfl
  · rintro ⟨d, before, after, hd, hnew, hdname, hsplit, hname, hafter⟩
    refine ⟨d, ⟨hd, hnew, hdname⟩, hname, after.reverse, before.reverse, ?_, fun w hw =>
      hafter w (List.mem_reverse.1 hw)⟩
    rw [hsplit, List.reverse_append, List.reverse_cons, List.append_assoc]
    rfl

end

end TypeSystem

namespace Introspection

/-- **What a description tells of a place.** -/
def SchemaDescription.Tells (d : SchemaDescription) : InputPlace → InputValueDescription → Prop
  | .argument type field name, a => ∃ t ∈ d.types, t.name = some type ∧ ∃ fs, t.fields = some fs ∧
      ∃ f ∈ fs, f.name = field ∧ a ∈ f.args ∧ a.name = name
  | .inputField type name, a => ∃ t ∈ d.types, t.name = some type ∧ ∃ fs, t.inputFields = some fs ∧
      a ∈ fs ∧ a.name = name
  | .directiveArgument directive name, a => ∃ x ∈ d.directives, x.name = directive ∧ a ∈ x.args ∧
      a.name = name

end Introspection

open Introspection TypeSystem

/-! ## 2. What is declared is listed -/

/-- A type is for input or for output. -/
theorem NamedType.exists_isFor (t : NamedType) : ∃ space, t.isFor space = true := by
  cases t with
  | scalar _ | enum _ | composite _ => exact ⟨.output, rfl⟩
  | inputObject _ => exact ⟨.input, rfl⟩

namespace TypeSystem

variable {x : TypeDefinition} (im : String → List String)

/-- Fields belong to an object or interface. -/
theorem TypeDefinition.exists_composite {f : FieldDefinition} (hf : f ∈ x.body.fields) :
    ∃ c, x.toType? im = some (.composite c) ∧ c.kind ≠ .union ∧
      c.fields = x.body.fields.map FieldDefinition.toField := by
  unfold toType?
  cases hbody : x.body with
  | object _ _ | interface _ => exact ⟨_, rfl, by simp, rfl⟩
  | scalar | union _ | enum _ | inputObject _ =>
      rw [hbody] at hf
      cases hf

/-- Fields of an input object belong to one. -/
theorem TypeDefinition.exists_inputObject {v : InputValue} (hv : v ∈ x.body.inputFields) :
    ∃ o, x.toType? im = some (.inputObject o) ∧
      o.fields = x.body.inputFields.map InputValue.toInputField := by
  unfold toType?
  cases hbody : x.body with
  | inputObject _ => exact ⟨_, rfl, rfl⟩
  | scalar | union _ | enum _ | object _ _ | interface _ =>
      rw [hbody] at hv
      cases hv

end TypeSystem

namespace Schema

variable {definitions : List TypeSystem.Definition} {s : Schema}

/-- **The type that a definition declares is listed**, and no other type of its name is. -/
theorem mem_allTypes_iff_of_declared (h : ofDefinitions definitions = .ok s)
    {x : TypeDefinition} (hx : .type x ∈ definitions) {t : NamedType}
    (ht : x.toType? (implementers definitions) = some t) {u : NamedType} (hname : u.name = x.name) :
    u ∈ s.allTypes ↔ u = t := by
  have hs := built_of_ofDefinitions h
  have htname := TypeDefinition.name_of_toType? ht
  obtain ⟨space, hspace⟩ := t.exists_isFor
  have hany : s.anyNamed? t.name = some t :=
    hs.anyNamed?_of_named? ((named?_of_ofDefinitions h).2 (.inr ⟨_, hx, ht, hspace, rfl⟩))
  rw [hs.mem_allTypes_iff, hname, ← htname, hany, Option.some.injEq]
  exact eq_comm

/-- **The directive that a definition declares is there**, and no other directive of its name. -/
theorem mem_directives_iff_of_declared (h : ofDefinitions definitions = .ok s)
    {d : DirectiveDefinition} (hd : .directive d ∈ definitions)
    (hnew : isStandardDirective d.name = false) {y : DirectiveType} (hname : y.name = d.name) :
    y ∈ s.directives.values ↔ y = d.toDirective := by
  obtain ⟨b, hload, hbuild⟩ := exists_of_ofDefinitions h
  obtain ⟨haddable, hadds⟩ := SchemaBuilder.foldlM_addDefinition_cases hload
  have hdirectives : s.directives = b.directives := by
    obtain ⟨-, -, -, -, -, -, -, -, hdirectives, -⟩ := SchemaBuilder.build_cases hbuild
    exact hdirectives
  have hdeclared : d.toDirective ∈ definitions.filterMap (·.directive?) :=
    List.mem_filterMap.2 ⟨_, hd, by simp [Definition.directive?, hnew]⟩
  rw [hdirectives]
  constructor
  · intro hy
    obtain ⟨⟨key, y⟩, hentry, rfl⟩ := List.mem_map.1 hy
    rcases hadds.directive.1 (Table.find?_eq_some_iff.2 hentry) with hold | ⟨hmem, -⟩
    · -- the directives of every schema have other names
      have hstandard : isStandardDirective y.name = true := by
        simp only [SchemaBuilder.new, Table.find?_insert] at hold
        split at hold
        · cases hold
          rfl
        · split at hold
          · cases hold
            rfl
          · cases hold
      rw [hname, hnew] at hstandard
      cases hstandard
    · exact List.inj_on_of_nodup_map haddable.onceDirective hmem hdeclared hname
  · rintro rfl
    exact Table.mem_values_of_find? (hadds.directive.2 (.inr ⟨hdeclared, rfl⟩))

/-! ## 3. What is declared is told -/

variable [Text.Repertoire]

/-- What is told of a declared value. -/
def describeInput (s : Schema) (v : InputValue) : InputValueDescription :=
  ⟨v.name, v.description, s.describeReference v.type, v.default.map Literal.text⟩

theorem tells_argument_iff (h : ofDefinitions definitions = .ok s) {x : TypeDefinition}
    {f : FieldDefinition} {v : InputValue} (hx : .type x ∈ definitions) (hf : f ∈ x.body.fields)
    (hv : v ∈ f.arguments) (a : InputValueDescription) :
    s.describe.Tells (.argument x.name f.name v.name) a ↔ a = s.describeInput v := by
  have hs := built_of_ofDefinitions h
  obtain ⟨c, hc, hkind, hfields⟩ := TypeDefinition.exists_composite (implementers definitions) hf
  have hname : (NamedType.composite c).name = x.name := TypeDefinition.name_of_toType? hc
  have hlisted : .composite c ∈ s.allTypes :=
    (mem_allTypes_iff_of_declared h hx hc hname).2 rfl
  have htold : (s.describeNamed (.composite c)).fields = some (c.fields.map s.describeField) :=
    if_neg hkind
  obtain ⟨hdistinct, hdistinctArguments⟩ : FieldType.AllDistinct c.fields :=
    NamedType.repeated?_eq_none_iff.1 (hs.orderly (hs.named_composite hlisted)).distinct
  have hmember : f.toField ∈ c.fields := by
    rw [hfields]
    exact List.mem_map_of_mem hf
  constructor
  · rintro ⟨t, ht, htname, fs, hfs, f', hf', hfname, ha, haname⟩
    obtain ⟨u, hu, rfl⟩ := List.mem_map.1 ht
    have huname : u.name = x.name := by
      rw [name_describeNamed, Option.some.injEq] at htname
      exact htname
    obtain rfl := (mem_allTypes_iff_of_declared h hx hc huname).1 hu
    rw [htold, Option.some.injEq] at hfs
    subst hfs
    obtain ⟨g, hg, rfl⟩ := List.mem_map.1 hf'
    obtain rfl : g = f.toField := List.inj_on_of_nodup_map hdistinct hg hmember hfname
    obtain ⟨w, hw, rfl⟩ := List.mem_map.1 ha
    obtain rfl : w = v.toArgument :=
      List.inj_on_of_nodup_map (hdistinctArguments _ hmember) hw (List.mem_map_of_mem hv) haname
    rfl
  · rintro rfl
    refine ⟨_, List.mem_map_of_mem hlisted, ?_, _, htold, s.describeField f.toField,
      List.mem_map_of_mem hmember, rfl, ?_, rfl⟩
    · rw [name_describeNamed]
      exact congrArg some hname
    · exact List.mem_map_of_mem (List.mem_map_of_mem hv)

theorem tells_inputField_iff (h : ofDefinitions definitions = .ok s) {x : TypeDefinition}
    {v : InputValue} (hx : .type x ∈ definitions) (hv : v ∈ x.body.inputFields)
    (a : InputValueDescription) :
    s.describe.Tells (.inputField x.name v.name) a ↔ a = s.describeInput v := by
  have hs := built_of_ofDefinitions h
  obtain ⟨o, ho, hfields⟩ := TypeDefinition.exists_inputObject (implementers definitions) hv
  have hname : (NamedType.inputObject o).name = x.name := TypeDefinition.name_of_toType? ho
  have hlisted : .inputObject o ∈ s.allTypes :=
    (mem_allTypes_iff_of_declared h hx ho hname).2 rfl
  have hdistinct : (o.fields.map (·.name)).Nodup := hs.distinct_fields (hs.named_inputObject hlisted)
  have hmember : v.toInputField ∈ o.fields := by
    rw [hfields]
    exact List.mem_map_of_mem hv
  constructor
  · rintro ⟨t, ht, htname, fs, hfs, ha, haname⟩
    obtain ⟨u, hu, rfl⟩ := List.mem_map.1 ht
    have huname : u.name = x.name := by
      rw [name_describeNamed, Option.some.injEq] at htname
      exact htname
    obtain rfl := (mem_allTypes_iff_of_declared h hx ho huname).1 hu
    cases hfs
    obtain ⟨w, hw, rfl⟩ := List.mem_map.1 ha
    obtain rfl : w = v.toInputField := List.inj_on_of_nodup_map hdistinct hw hmember haname
    rfl
  · rintro rfl
    refine ⟨_, List.mem_map_of_mem hlisted, ?_, _, rfl, List.mem_map_of_mem hmember, rfl⟩
    rw [name_describeNamed]
    exact congrArg some hname

theorem tells_directiveArgument_iff (h : ofDefinitions definitions = .ok s)
    {d : DirectiveDefinition} {v : InputValue} {before after : List InputValue}
    (hd : .directive d ∈ definitions) (hnew : isStandardDirective d.name = false)
    (hv : d.arguments = before ++ v :: after) (hlast : ∀ w ∈ after, w.name ≠ v.name)
    (a : InputValueDescription) :
    s.describe.Tells (.directiveArgument d.name v.name) a ↔ a = s.describeInput v := by
  have hlisted : d.toDirective ∈ s.directives.values :=
    (mem_directives_iff_of_declared h hd hnew rfl).2 rfl
  have hfind : ∀ name w, d.toDirective.arguments.find? name = some w ↔
      (d.arguments.map fun v => (v.name, v.toArgument)).reverse.lookup name = some w := by
    intro name w
    rw [DirectiveDefinition.toDirective, DirectiveType.tableOf, Table.find?_ofList, List.map_map]
    rfl
  have hfound : d.toDirective.arguments.find? v.name = some v.toArgument := by
    rw [hfind, hv, List.map_append, List.map_cons, List.reverse_append, List.reverse_cons,
      List.append_assoc, List.lookup_eq_some_iff]
    refine ⟨_, _, rfl, fun p hp => ?_⟩
    obtain ⟨w, hw, rfl⟩ := List.mem_map.1 (List.mem_reverse.1 hp)
    simpa using (hlast w hw).symm
  constructor
  · rintro ⟨x, hx, hxname, ha, haname⟩
    obtain ⟨y, hy, rfl⟩ := List.mem_map.1 hx
    obtain rfl := (mem_directives_iff_of_declared h hd hnew hxname).1 hy
    obtain ⟨w, hw, rfl⟩ := List.mem_map.1 ha
    obtain ⟨⟨key, w⟩, hentry, rfl⟩ := List.mem_map.1 hw
    have hkey := Table.find?_eq_some_iff.2 hentry
    -- an argument stands under its own name
    have hown : key = w.name := by
      have hmem := Entries.mem_of_lookup ((hfind key w).1 hkey)
      obtain ⟨u, -, hu⟩ := List.mem_map.1 (List.mem_reverse.1 hmem)
      cases hu
      rfl
    rw [hown, show w.name = v.name from haname, hfound, Option.some.injEq] at hkey
    subst hkey
    rfl
  · rintro rfl
    exact ⟨_, List.mem_map_of_mem hlisted, rfl,
      List.mem_map_of_mem (Table.mem_values_of_find? hfound), rfl⟩

/-- **What is told of a declared place** is what is declared there, the default as a text. -/
theorem tells_iff_of_declared (h : ofDefinitions definitions = .ok s) {place : InputPlace}
    {v : InputValue} (hv : v ∈ declaredAt definitions place) (a : InputValueDescription) :
    s.describe.Tells place a ↔ a = s.describeInput v := by
  cases place with
  | argument type field name =>
      obtain ⟨x, f, hx, rfl, hf, rfl, hvf, rfl⟩ := mem_declaredAt_argument.1 hv
      exact tells_argument_iff h hx hf hvf a
  | inputField type name =>
      obtain ⟨x, hx, rfl, hvx, rfl⟩ := mem_declaredAt_inputField.1 hv
      exact tells_inputField_iff h hx hvx a
  | directiveArgument directive name =>
      obtain ⟨d, before, after, hd, hnew, rfl, hsplit, rfl, hlast⟩ :=
        mem_declaredAt_directiveArgument.1 hv
      exact tells_directiveArgument_iff h hd hnew hsplit hlast a

end Schema

/-- A default that is declared at a place is a default of a definition. -/
theorem TypeSystem.exists_mem_defaults {definitions : List TypeSystem.Definition}
    {place : InputPlace} {v : InputValue} (hv : v ∈ declaredAt definitions place) {V : Literal}
    (hV : v.default = some V) : ∃ d ∈ definitions, V ∈ d.defaults := by
  have hmem : ∀ {vs : List InputValue}, v ∈ vs → V ∈ defaultsOf vs :=
    fun h => List.mem_filterMap.2 ⟨v, h, hV⟩
  cases place with
  | argument type field name =>
      obtain ⟨x, f, hx, -, hf, -, hv, -⟩ := mem_declaredAt_argument.1 hv
      refine ⟨_, hx, ?_⟩
      have hfields : V ∈ x.body.fields.flatMap fun f => defaultsOf f.arguments :=
        List.mem_flatMap.2 ⟨f, hf, hmem hv⟩
      show V ∈ x.body.defaults
      cases hbody : x.body <;> rw [hbody] at hfields
      case object | interface => exact hfields
      all_goals cases hfields
  | inputField type name =>
      obtain ⟨x, hx, -, hv, -⟩ := mem_declaredAt_inputField.1 hv
      refine ⟨_, hx, ?_⟩
      show V ∈ x.body.defaults
      cases hbody : x.body <;> rw [hbody] at hv
      case inputObject => exact hmem hv
      all_goals cases hv
  | directiveArgument directive name =>
      obtain ⟨d, before, after, hd, -, -, hv, -⟩ := mem_declaredAt_directiveArgument.1 hv
      refine ⟨_, hd, hmem ?_⟩
      rw [hv]
      exact List.mem_append_right _ List.mem_cons_self

namespace Schema

/-! ## 4. Reading back -/

/-- What a text is parsed as is what it loads. -/
theorem ofDefinitions_of_parse {source : String} (h : Schema.parse source = .ok s)
    (hparse : TypeSystem.parse source = some definitions) : ofDefinitions definitions = .ok s := by
  rw [Schema.parse, hparse] at h
  exact h

/-- **The text of a default is read as the default exactly if the default is plain.** At its place
    this text is told, and nothing else. This holds of every repertoire of characters that show. -/
theorem default_read_back [Text.Repertoire] {source : String} (h : Schema.parse source = .ok s)
    (hparse : TypeSystem.parse source = some definitions) {place : InputPlace} {v : InputValue}
    (hv : v ∈ declaredAt definitions place) {V : Literal} (hV : v.default = some V) :
    (∀ a, s.describe.Tells place a ↔
        a = ⟨v.name, v.description, s.describeReference v.type, some V.text⟩) ∧
      (Literal.ofText V.text = some V ↔ V.isPlain = true) := by
  obtain ⟨d, hd, hmem⟩ := exists_mem_defaults hv hV
  refine ⟨fun a => ?_, Literal.ofText_text_eq_iff (constant_of_parse hparse hd hmem)⟩
  rw [tells_iff_of_declared (ofDefinitions_of_parse h hparse) hv, describeInput, hV]
  rfl

/-- A default of which something holds can be had from a text that loads and declares one there. -/
theorem exists_declared (source : String) (place : InputPlace) (p : Literal → Bool)
    (hload : (Schema.parse source).toOption.isSome = true)
    (hdeclared : (TypeSystem.parse source).any (fun definitions =>
      (declaredAt definitions place).any fun v => v.default.any p) = true) :
    ∃ s definitions v V, Schema.parse source = .ok s ∧ TypeSystem.parse source = some definitions ∧
      v ∈ declaredAt definitions place ∧ v.default = some V ∧ p V = true := by
  cases hs : Schema.parse source with
  | error _ =>
      rw [hs] at hload
      cases hload
  | ok s =>
      cases hparse : TypeSystem.parse source with
      | none =>
          rw [hparse] at hdeclared
          cases hdeclared
      | some definitions =>
          rw [hparse, Option.any_some, List.any_eq_true] at hdeclared
          obtain ⟨v, hv, hp⟩ := hdeclared
          obtain ⟨V, hV, hp⟩ := (Option.any_eq_true _ _).1 hp
          exact ⟨s, definitions, v, V, rfl, rfl, hv, hV, hp⟩

/-- A field with a default that is a list of a fraction and a string of two lines. -/
def plainDefault : String :=
  "scalar Any type Query \x7b f(a: Any = [0.5, \"x\\ny\"]): Int \x7d"

/-- The default of this argument is told by a text that is read as it. -/
theorem default_read_back_plain : ∃ s a V, Schema.parse plainDefault = .ok s ∧
    s.describe.Tells (.argument "Query" "f" "a") a ∧
    a.defaultValue = some "[0.5, \"x\\ny\"]" ∧ V.text = "[0.5, \"x\\ny\"]" ∧
    Literal.ofText "[0.5, \"x\\ny\"]" = some V := by
  obtain ⟨s, definitions, v, V, hs, hparse, hv, hV, hp⟩ :=
    exists_declared plainDefault (.argument "Query" "f" "a")
      (fun V => V.text == "[0.5, \"x\\ny\"]" && V.isPlain) (by decide +kernel) (by decide +kernel)
  rw [Bool.and_eq_true, beq_iff_eq] at hp
  obtain ⟨htext, hplain⟩ := hp
  obtain ⟨htells, hread⟩ := default_read_back hs hparse hv hV
  rw [htext] at htells hread
  exact ⟨s, _, V, hs, (htells _).2 rfl, rfl, htext, hread.2 hplain⟩

/-- A field with a default that is a rubout. -/
def ruboutDefault : String := "type Query \x7b f(a: String = \"\\u007f\"): Int \x7d"

/-- **A rubout is told by its number in braces**, and no string is written so. -/
theorem default_rubout_lost : ∃ s definitions v, Schema.parse ruboutDefault = .ok s ∧
    TypeSystem.parse ruboutDefault = some definitions ∧
    v ∈ declaredAt definitions (.argument "Query" "f" "a") ∧
    v.default = some (.string "\x7f") ∧
    (∀ a, s.describe.Tells (.argument "Query" "f" "a") a →
      a.defaultValue = some "\"\\u\x7b7f\x7d\"") ∧
    Literal.ofText "\"\\u\x7b7f\x7d\"" = none := by
  obtain ⟨s, definitions, v, V, hs, hparse, hv, hV, hp⟩ :=
    exists_declared ruboutDefault (.argument "Query" "f" "a")
      (fun | .string text => text == "\x7f" | _ => false) (by decide +kernel) (by decide +kernel)
  obtain rfl : V = .string "\x7f" := by
    split at hp
    · rw [beq_iff_eq.1 hp]
    · cases hp
  have htext : (Literal.string "\x7f").text = "\"\\u\x7b7f\x7d\"" := by decide +kernel
  refine ⟨s, definitions, v, hs, hparse, hv, hV, fun a ha => ?_, ?_⟩
  · rw [(tells_iff_of_declared (ofDefinitions_of_parse hs hparse) hv a).1 ha, describeInput, hV,
      ← htext]
    rfl
  · exact Option.isNone_iff_eq_none.1 (by decide +kernel)

end Schema

end TypedQuery
