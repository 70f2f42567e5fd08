import TypedQuery.Proofs.Schema.Built

/-!
# What registration keeps

A builder registers types and directives one at a time, and whatever the steps were, failing ones
among them, the same is true of what it holds.

* `NamedType.Distinct`, `NamedType.FirstRepeats` -- a type repeats no name, and the first name that
  it does repeat, both said of its fields and their arguments;
* `SchemaBuilder.InPlace.perform_eq` -- **a step in place does all of it or nothing**: it has the
  outcome of `SchemaBuilder.apply`, and where that fails the builder is the one before;
* `SchemaBuilder.Shared` -- the invariant of the two namespaces: a type that one of them holds is
  in the other too if it is for that, and otherwise its name is free there;
* `SchemaBuilder.Extends` -- a step only adds entries;
* `SchemaBuilder.run_inOrder` -- **after any steps** the namespaces are in order
  (`SchemaBuilder.InOrder`), and the next addition is one name more or nothing
  (`SchemaBuilder.AddsWhole`); `SchemaBuilder.taken_name_first` -- what is told of a type with two
  faults, and a host type that is bound again.
-/

namespace TypedQuery

open Introspection

/-! ## 1. Repetitions -/

/-- No two of the fields have one name, and no two arguments of any of them. -/
def FieldType.AllDistinct (fields : List FieldType) : Prop :=
  (fields.map (·.name)).Nodup ∧ ∀ f ∈ fields, (f.arguments.map (·.name)).Nodup

/-- **A type repeats no name**, neither of its fields nor of the arguments of one. -/
def NamedType.Distinct : NamedType → Prop
  | .composite c => FieldType.AllDistinct c.fields
  | .inputObject o => (o.fields.map (·.name)).Nodup
  | .scalar _ | .enum _ => True

/-- What a field repeats: its own name, if an earlier field has it, and otherwise the first name
    that its arguments repeat, told with the field. -/
inductive FieldType.Repeats (earlier : List String) (f : FieldType) : String → Prop
  | ownName (repeated : f.name ∈ earlier) : Repeats earlier f f.name
  | argument {before after : List ArgumentType} {a : ArgumentType} (new : f.name ∉ earlier)
      (arguments : f.arguments = before ++ a :: after) (distinct : (before.map (·.name)).Nodup)
      (repeated : a.name ∈ before.map (·.name)) :
      Repeats earlier f (f.name ++ "(" ++ a.name ++ ":)")

/-- **The first name that a type repeats**: that of the first field, in the order of declaration,
    that repeats one. -/
inductive NamedType.FirstRepeats : NamedType → String → Prop
  | field {c : CompositeType} {before after : List FieldType} {f : FieldType} {fault : String}
      (fields : c.fields = before ++ f :: after) (distinct : FieldType.AllDistinct before)
      (repeats : f.Repeats (before.map (·.name)) fault) : FirstRepeats (.composite c) fault
  | inputField {o : InputObjectType} {before after : List InputField} {f : InputField}
      (fields : o.fields = before ++ f :: after) (distinct : (before.map (·.name)).Nodup)
      (repeated : f.name ∈ before.map (·.name)) : FirstRepeats (.inputObject o) f.name

theorem FieldType.Repeats.congr {earlier earlier' : List String} {f : FieldType} {fault : String}
    (h : f.Repeats earlier fault) (hsame : ∀ name, name ∈ earlier ↔ name ∈ earlier') :
    f.Repeats earlier' fault := by
  cases h with
  | ownName hrepeated => exact .ownName ((hsame _).1 hrepeated)
  | argument hnew harguments hdistinct hrepeated =>
      exact .argument (fun hm => hnew ((hsame _).2 hm)) harguments hdistinct hrepeated

/-- A repeated name is the name of the first member that repeats one. -/
theorem exists_of_firstRepeated_map {α : Type} {nameOf : α → String} {members : List α}
    {name : String} (h : firstRepeated [] (members.map nameOf) = some name) :
    ∃ before member after, members = before ++ member :: after ∧ (before.map nameOf).Nodup ∧
      nameOf member ∈ before.map nameOf ∧ name = nameOf member := by
  obtain ⟨names, names', hnames, hdistinct, -, hname⟩ := exists_of_firstRepeated h
  obtain ⟨before, rest, rfl, rfl, hrest⟩ := List.map_eq_append_iff.1 hnames
  obtain ⟨member, after, rfl, rfl, -⟩ := List.map_eq_cons_iff.1 hrest
  exact ⟨before, member, after, rfl, hdistinct, hname.resolve_left List.not_mem_nil, rfl⟩

theorem FieldType.allDistinct_cons {f : FieldType} {rest : List FieldType} :
    AllDistinct (f :: rest) ↔
      (∀ g ∈ rest, g.name ≠ f.name) ∧ (f.arguments.map (·.name)).Nodup ∧ AllDistinct rest := by
  simp only [AllDistinct, List.map_cons, List.nodup_cons, List.mem_map, not_exists, not_and,
    List.forall_mem_cons]
  constructor
  · rintro ⟨⟨hname, hnames⟩, harguments, hrest⟩
    exact ⟨hname, harguments, hnames, hrest⟩
  · rintro ⟨hname, harguments, hnames, hrest⟩
    exact ⟨⟨hname, hnames⟩, harguments, hrest⟩

namespace CompositeType

theorem repeatedIn_eq_none_iff {seen : List String} {fields : List FieldType} :
    repeatedIn seen fields = none ↔
      FieldType.AllDistinct fields ∧ ∀ f ∈ fields, f.name ∉ seen := by
  induction fields generalizing seen with
  | nil => simp [repeatedIn, FieldType.AllDistinct]
  | cons f rest ih =>
      rw [FieldType.allDistinct_cons, List.forall_mem_cons]
      by_cases hf : f.name ∈ seen
      · simp [repeatedIn, hf]
      · have harguments := firstRepeated_eq_none_iff [] (f.arguments.map (·.name))
        simp only [List.not_mem_nil, not_false_eq_true, implies_true, and_true] at harguments
        cases hargument : firstRepeated [] (f.arguments.map (·.name)) with
        | some argument =>
            have hrepeated : ¬ (f.arguments.map (·.name)).Nodup := fun hnodup => by
              rw [harguments.2 hnodup] at hargument
              cases hargument
            simp [repeatedIn, hf, hargument, hrepeated]
        | none =>
            simp only [repeatedIn, List.contains_iff_mem, hf, if_false, hargument, ih,
              List.mem_cons, not_or]
            constructor
            · rintro ⟨hrest, hnew⟩
              exact ⟨⟨fun g hg => (hnew g hg).1, harguments.1 hargument, hrest⟩, not_false,
                fun g hg => (hnew g hg).2⟩
            · rintro ⟨⟨hname, -, hrest⟩, -, hnew⟩
              exact ⟨hrest, fun g hg => ⟨hname g hg, hnew g hg⟩⟩

/-- What is repeated is told of the first field that repeats a name. -/
theorem exists_of_repeatedIn {seen : List String} {fields : List FieldType} {fault : String}
    (h : repeatedIn seen fields = some fault) :
    ∃ before f after, fields = before ++ f :: after ∧ FieldType.AllDistinct before ∧
      (∀ g ∈ before, g.name ∉ seen) ∧ f.Repeats (seen ++ before.map (·.name)) fault := by
  induction fields generalizing seen with
  | nil => cases h
  | cons f rest ih =>
      have hnil : FieldType.AllDistinct [] := ⟨List.nodup_nil, by simp⟩
      by_cases hf : f.name ∈ seen
      · simp only [repeatedIn, List.contains_iff_mem, hf, if_true, Option.some.injEq] at h
        subst h
        exact ⟨[], f, rest, rfl, hnil, by simp, .ownName (by simpa using hf)⟩
      · simp only [repeatedIn, List.contains_iff_mem, hf, if_false] at h
        cases hargument : firstRepeated [] (f.arguments.map (·.name)) with
        | some argument =>
            simp only [hargument, Option.some.injEq] at h
            subst h
            obtain ⟨before, a, after, harguments, hdistinct, hrepeated, rfl⟩ :=
              exists_of_firstRepeated_map hargument
            exact ⟨[], f, rest, rfl, hnil, by simp,
              .argument (by simpa using hf) harguments hdistinct hrepeated⟩
        | none =>
            simp only [hargument] at h
            obtain ⟨before, g, after, rfl, hrest, hnew, hrepeats⟩ := ih h
            -- `f` comes first of the fields that repeat nothing
            have hclean : repeatedIn seen (f :: before) = none := by
              simp only [repeatedIn, List.contains_iff_mem, hf, if_false, hargument]
              exact repeatedIn_eq_none_iff.2 ⟨hrest, hnew⟩
            obtain ⟨hdistinct, hseen⟩ := repeatedIn_eq_none_iff.1 hclean
            refine ⟨f :: before, g, after, rfl, hdistinct, hseen, hrepeats.congr fun name => ?_⟩
            simp only [List.map_cons, List.mem_append, List.mem_cons, List.cons_append]
            exact or_left_comm

end CompositeType

namespace NamedType

/-- A type repeats a name unless all are distinct. -/
theorem repeated?_eq_none_iff {t : NamedType} : t.repeated? = none ↔ t.Distinct := by
  cases t with
  | scalar _ => simp [repeated?, Distinct]
  | enum _ => simp [repeated?, Distinct]
  | composite c =>
      show CompositeType.repeatedIn [] c.fields = none ↔ FieldType.AllDistinct c.fields
      simp [CompositeType.repeatedIn_eq_none_iff]
  | inputObject o =>
      show firstRepeated [] (o.fields.map (·.name)) = none ↔ (o.fields.map (·.name)).Nodup
      simp [firstRepeated_eq_none_iff]

/-- **What is told as repeated is the first name that the type repeats.** -/
theorem firstRepeats_of_repeated? {t : NamedType} {fault : String}
    (h : t.repeated? = some fault) : t.FirstRepeats fault := by
  cases t with
  | scalar _ => cases h
  | enum _ => cases h
  | composite c =>
      have hrepeated : CompositeType.repeatedIn [] c.fields = some fault := h
      obtain ⟨before, f, after, hfields, hdistinct, -, hrepeats⟩ :=
        CompositeType.exists_of_repeatedIn hrepeated
      exact .field hfields hdistinct hrepeats
  | inputObject o =>
      have hfirst : firstRepeated [] (o.fields.map (·.name)) = some fault := h
      obtain ⟨before, f, after, hfields, hdistinct, hrepeated, rfl⟩ :=
        exists_of_firstRepeated_map hfirst
      exact .inputField hfields hdistinct hrepeated

end NamedType

/-- The host type that a type brings along for a namespace. -/
def NamedType.ownHost? : NamedType → Namespace → Option HostType
  | .inputObject o, .input => some o.record.host
  | .composite c, .output => c.host
  | _, _ => none

namespace SchemaBuilder

/-! ## 2. Steps in place -/

namespace InPlace

/-- A type that is added in place: the checks change nothing. -/
theorem addType_eq (u : SchemaType) (b : SchemaBuilder) :
    (addType u).run b =
      match b.addType u with
      | .ok b' => .ok () b'
      | .error e => .error e b := by
  match u with
  | .list of required => rfl
  | .named t true => rfl
  | .named t false =>
      by_cases htaken : b.hasType t.name = true
      · simp [addType, SchemaBuilder.addType, htaken]
      · cases hrepeated : t.repeated? <;>
          simp [addType, SchemaBuilder.addType, htaken, hrepeated]

theorem addDirective_eq (d : DirectiveType) (b : SchemaBuilder) :
    (addDirective d).run b =
      match b.addDirective d with
      | .ok b' => .ok () b'
      | .error e => .error e b := by
  by_cases htaken : b.directives.contains d.name = true <;>
    simp [addDirective, SchemaBuilder.addDirective, htaken]

/-- **A step in place does all of it or nothing.** -/
theorem perform_eq (s : Step) (b : SchemaBuilder) :
    (perform s).run b =
      match b.apply s with
      | .ok b' => .ok () b'
      | .error e => .error e b := by
  cases s with
  | query name | mutation name | subscription name | limits l | host host t =>
      exact EStateM.run_modify _ b
  | type u => exact addType_eq u b
  | directive d => exact addDirective_eq d b

end InPlace

/-! ## 3. One name more -/

/-- The bindings of host types. -/
def hosts (b : SchemaBuilder) : Namespace → Table TypeExpr
  | .input => b.inputHosts
  | .output => b.outputHosts

theorem hasType_eq_false_iff {b : SchemaBuilder} {name : String} :
    b.hasType name = false ↔ ∀ space, (b.types space).find? name = none := by
  rw [hasType, Bool.or_eq_false_iff, Table.contains, Table.contains, Option.isSome_eq_false_iff,
    Option.isSome_eq_false_iff, Option.isNone_iff_eq_none, Option.isNone_iff_eq_none]
  constructor
  · rintro ⟨hinput, houtput⟩ space
    cases space with
    | input => exact hinput
    | output => exact houtput
  · exact fun h => ⟨h .input, h .output⟩

/-- What a lookup finds once a type is put where it is for. -/
theorem find?_of_added {b b' : SchemaBuilder} {t : NamedType}
    (h : ∀ space, b'.types space =
      if t.isFor space then (b.types space).insert t.name t else b.types space)
    (space : Namespace) (name : String) :
    (b'.types space).find? name =
      if t.isFor space = true ∧ name = t.name then some t else (b.types space).find? name := by
  rw [h space]
  by_cases hfor : t.isFor space = true
  · simp [hfor]
  · simp [hfor]

@[simp] theorem directives_bindOwnHost (b : SchemaBuilder) (t : NamedType) :
    (b.bindOwnHost t).directives = b.directives := by
  cases t with
  | scalar _ | enum _ | inputObject _ => rfl
  | composite c =>
      simp only [bindOwnHost]
      cases c.host <;> rfl

theorem addDirective_cases {b b' : SchemaBuilder} {d : DirectiveType}
    (h : b.addDirective d = .ok b') :
    b.directives.contains d.name = false ∧
      b' = { b with directives := b.directives.insert d.name d } := by
  unfold addDirective at h
  split at h
  · cases h
  · rename_i hfree
    cases h
    exact ⟨by simpa using hfree, rfl⟩

/-- All that a step can do to the directives: nothing, or one of a free name is added. -/
theorem directives_apply {b b' : SchemaBuilder} {s : Step} (h : b.apply s = .ok b') :
    b'.directives = b.directives ∨
      ∃ d, b.directives.contains d.name = false ∧
        b'.directives = b.directives.insert d.name d := by
  cases s with
  | query name | mutation name | subscription name | limits l | host host t =>
      cases h
      exact .inl rfl
  | type u =>
      obtain ⟨t, -, -, -, rfl⟩ := addType_cases h
      exact .inl (directives_bindOwnHost b t)
  | directive d =>
      obtain ⟨hfree, rfl⟩ := addDirective_cases h
      exact .inr ⟨d, hfree, rfl⟩

/-! ## 4. The invariants -/

/-- **A namespace holds what is for it**: the type of a name in one namespace is the type of the
    name in the other, or the name is free there. -/
def Shared (b : SchemaBuilder) : Prop :=
  ∀ space name t, (b.types space).find? name = some t →
    ∀ other, (b.types other).find? name = if t.isFor other then some t else none

/-- **Every entry is kept**, of the types and of the directives. -/
structure Extends (b b' : SchemaBuilder) : Prop where
  types : ∀ {space name t}, (b.types space).find? name = some t →
    (b'.types space).find? name = some t
  directives : ∀ {name d}, b.directives.find? name = some d → b'.directives.find? name = some d

theorem Extends.trans {b₁ b₂ b₃ : SchemaBuilder} (h : b₁.Extends b₂) (h' : b₂.Extends b₃) :
    b₁.Extends b₃ :=
  ⟨fun ht => h'.types (h.types ht), fun hd => h'.directives (h.directives hd)⟩

theorem shared_apply {b b' : SchemaBuilder} (hb : b.Shared) {s : Step}
    (h : b.apply s = .ok b') : b'.Shared := by
  obtain hsame | ⟨t, hfree, -, hadded⟩ := types_apply h
  · unfold Shared
    rw [hsame]
    exact hb
  · intro space name u hu other
    rw [find?_of_added hadded] at hu ⊢
    by_cases hname : name = t.name
    · subst hname
      have hnone := hasType_eq_false_iff.1 hfree
      by_cases hfor : t.isFor space = true
      · rw [if_pos ⟨hfor, rfl⟩] at hu
        cases hu
        by_cases hother : t.isFor other = true <;> simp [hother, hnone other]
      · rw [if_neg (fun hc => hfor hc.1), hnone space] at hu
        cases hu
    · rw [if_neg (fun hc => hname hc.2)] at hu ⊢
      exact hb space name u hu other

theorem extends_apply {b b' : SchemaBuilder} {s : Step} (h : b.apply s = .ok b') :
    b.Extends b' := by
  constructor
  · intro space name t ht
    obtain hsame | ⟨u, hfree, -, hadded⟩ := types_apply h
    · rw [hsame]
      exact ht
    · rw [find?_of_added hadded, if_neg]
      · exact ht
      · rintro ⟨-, rfl⟩
        rw [hasType_eq_false_iff.1 hfree space] at ht
        cases ht
  · intro name d hd
    obtain hsame | ⟨e, hfree, hadded⟩ := directives_apply h
    · rw [hsame]
      exact hd
    · rw [hadded, Table.find?_insert, if_neg]
      · exact hd
      · rintro rfl
        rw [Table.contains, hd] at hfree
        cases hfree

theorem extends_run (b : SchemaBuilder) (steps : List Step) : b.Extends (b.run steps) :=
  run_induction (p := b.Extends) (fun hb h => hb.trans (extends_apply h)) ⟨id, id⟩ steps

theorem entries_types_new (space : Namespace) :
    (new.types space).entries = ScalarType.builtin.map fun k => (k.name, .scalar k) := by
  cases space <;> rfl

theorem shared_new : new.Shared := by
  intro space name t ht other
  rw [Table.find?_eq_some_iff, entries_types_new] at ht
  obtain ⟨k, -, hk⟩ := List.mem_map.1 ht
  have hfor : t.isFor other = true := by
    cases hk
    cases other <;> rfl
  rw [if_pos hfor, Table.find?_eq_some_iff, entries_types_new]
  exact ht

/-- **The namespaces and the table of directives are in order.** -/
structure InOrder (b : SchemaBuilder) : Prop where
  /-- The types for input, each under its own name. -/
  input : ∀ {name t}, b.inputTypes.find? name = some t →
    t.name = name ∧ t.kind ∈ [.scalar, .enum, .inputObject]
  /-- The types for output, each under its own name. -/
  output : ∀ {name t}, b.outputTypes.find? name = some t →
    t.name = name ∧ t.kind ∈ [.scalar, .enum, .object, .interface, .union]
  /-- A name is in both namespaces exactly if it is the name of a scalar or an enumeration. -/
  both : ∀ {space name t}, (b.types space).find? name = some t →
    ((b.inputTypes.contains name = true ∧ b.outputTypes.contains name = true) ↔
      t.kind ∈ [.scalar, .enum])
  /-- Then both hold the same type. -/
  same : ∀ {name t u}, b.inputTypes.find? name = some t → b.outputTypes.find? name = some u →
    t = u
  /-- No type repeats the name of a field or of an argument. -/
  distinct : ∀ {space name t}, (b.types space).find? name = some t → t.Distinct
  /-- The built-in scalars are there. -/
  scalars : ∀ k ∈ ScalarType.builtin, ∀ space,
    (b.types space).find? k.name = some (.scalar k)
  /-- The directives of every schema are there. -/
  selections : b.directives.find? "skip" = some .skip ∧
    b.directives.find? "include" = some .includeOnly

/-- **The invariants of every run of a new builder**, put together. -/
theorem inOrder_run (steps : List Step) : (new.run steps).InOrder := by
  have horderly := orderly_run orderly_new steps
  have hshared : (new.run steps).Shared :=
    run_induction (fun hb h => shared_apply hb h) shared_new steps
  have hextends := extends_run new steps
  constructor
  case input =>
    intro name t ht
    have hstands := horderly .input name t ht
    refine ⟨hstands.ownName, ?_⟩
    cases t with
    | composite c => cases hstands.isFor
    | scalar _ | enum _ | inputObject _ => simp [NamedType.kind]
  case output =>
    intro name t ht
    have hstands := horderly .output name t ht
    refine ⟨hstands.ownName, ?_⟩
    cases t with
    | inputObject o => cases hstands.isFor
    | scalar _ | enum _ => simp [NamedType.kind]
    | composite c => cases hkind : c.kind <;> simp [NamedType.kind, CompositeType.typeKind, hkind]
  case both =>
    intro space name t ht
    have hfound : ∀ other, ((new.run steps).types other).contains name = t.isFor other := by
      intro other
      rw [Table.contains, hshared space name t ht other]
      cases t.isFor other <;> rfl
    have hinput : (new.run steps).inputTypes.contains name = t.isInput := hfound .input
    have houtput : (new.run steps).outputTypes.contains name = t.isOutput := hfound .output
    rw [hinput, houtput]
    cases t with
    | scalar _ | enum _ | inputObject _ =>
        simp [NamedType.isInput, NamedType.isOutput, NamedType.kind]
    | composite c =>
        cases hkind : c.kind <;>
          simp [NamedType.isInput, NamedType.kind, CompositeType.typeKind, hkind]
  case same =>
    intro name t u ht hu
    have hother := hshared .input name t ht .output
    split at hother
    · exact Option.some.inj (hother.symm.trans hu)
    · cases hother.symm.trans hu
  case distinct =>
    intro space name t ht
    exact NamedType.repeated?_eq_none_iff.1 (horderly space name t ht).distinct
  case scalars =>
    intro k hk space
    refine hextends.types ?_
    rw [Table.find?_eq_some_iff, entries_types_new]
    exact List.mem_map_of_mem hk
  case selections => exact ⟨hextends.directives rfl, hextends.directives rfl⟩

/-! ## 5. What an addition changes -/

theorem hosts_bindOwnHost (b : SchemaBuilder) (t : NamedType) (space : Namespace) :
    (b.bindOwnHost t).hosts space =
      match t.ownHost? space with
      | some host => (b.hosts space).insert host.name (.named t.name)
      | none => b.hosts space := by
  cases t with
  | scalar _ | enum _ | inputObject _ => cases space <;> rfl
  | composite c =>
      simp only [bindOwnHost, NamedType.ownHost?]
      cases hhost : c.host <;> cases space <;> simp [hosts, NamedType.name, hhost]

/-- **One type more**: under a name that was free, behind the earlier entries of each namespace that
    it is for. Its own host type is bound to it, and nothing else changes. -/
structure AddsType (b : SchemaBuilder) (t : NamedType) (b' : SchemaBuilder) : Prop where
  free : b.hasType t.name = false
  distinct : t.Distinct
  somewhere : ∃ space, t.isFor space = true
  entries : ∀ space, (b'.types space).entries =
    if t.isFor space then (b.types space).entries ++ [(t.name, t)] else (b.types space).entries
  hosts : ∀ space, b'.hosts space =
    match t.ownHost? space with
    | some host => (b.hosts space).insert host.name (.named t.name)
    | none => b.hosts space
  rest : b' = { b with
    inputTypes := b'.inputTypes, outputTypes := b'.outputTypes
    inputHosts := b'.inputHosts, outputHosts := b'.outputHosts }

/-- **One directive more**, under a name that was free. -/
structure AddsDirective (b : SchemaBuilder) (d : DirectiveType) (b' : SchemaBuilder) : Prop where
  free : b.directives.contains d.name = false
  entries : b'.directives.entries = b.directives.entries ++ [(d.name, d)]
  rest : b' = { b with directives := b'.directives }

/-- **An addition is made as a whole or not at all.** -/
structure AddsWhole (b : SchemaBuilder) : Prop where
  /-- A type that is added is one entry more. -/
  type : ∀ {u b'}, b.addType u = .ok b' → ∃ t, u = .named t false ∧ b.AddsType t b'
  /-- A directive that is added is one entry more. -/
  directive : ∀ {d b'}, b.addDirective d = .ok b' → b.AddsDirective d b'
  /-- Under a free name, a type that repeats nothing is added. -/
  accepted : ∀ {t : NamedType}, b.hasType t.name = false → t.Distinct →
    ∃ b', b.addType (.named t false) = .ok b'
  /-- Under a free name a directive is added. -/
  acceptedDirective : ∀ {d}, b.directives.contains d.name = false → ∃ b', b.addDirective d = .ok b'
  /-- A name that is taken is refused, whatever else is wrong. -/
  taken : ∀ {t : NamedType}, b.hasType t.name = true →
    b.addType (.named t false) = .error (.duplicateType t.name)
  /-- Under a free name the first repetition is told. -/
  repeated : ∀ {t : NamedType}, b.hasType t.name = false → ¬ t.Distinct →
    ∃ fault, t.FirstRepeats fault ∧
      b.addType (.named t false) = .error (.duplicateField t.name fault)
  /-- A step in place that succeeds is the step. -/
  done : ∀ {s b'}, (InPlace.perform s).run b = .ok () b' → b.step s = b'
  /-- A step in place that fails leaves the builder as it was, and so does the step. -/
  undone : ∀ {s e b'}, (InPlace.perform s).run b = .error e b' → b' = b ∧ b.step s = b

theorem addsType_of_addType {b b' : SchemaBuilder} {t : NamedType}
    (h : b.addType (.named t false) = .ok b') : b.AddsType t b' := by
  obtain ⟨u, hu, hfree, hnone, rfl⟩ := addType_cases h
  cases hu
  constructor
  case free => exact hfree
  case distinct => exact NamedType.repeated?_eq_none_iff.1 hnone
  case somewhere =>
    cases t with
    | scalar _ | enum _ | inputObject _ => exact ⟨.input, rfl⟩
    | composite _ => exact ⟨.output, rfl⟩
  case entries =>
    intro space
    have hnew : (b.types space).contains t.name = false := by
      rw [Table.contains, hasType_eq_false_iff.1 hfree space]
      rfl
    rw [types_insertNamed, types_bindOwnHost]
    split
    · exact Table.entries_insert_of_free hnew t
    · rfl
  case hosts =>
    intro space
    rw [← hosts_bindOwnHost]
    cases space <;> rfl
  case rest =>
    cases t with
    | scalar _ | enum _ | inputObject _ => rfl
    | composite c => cases hhost : c.host <;> simp [bindOwnHost, insertNamed, hhost]

theorem addsWhole (b : SchemaBuilder) : b.AddsWhole := by
  constructor
  case type =>
    intro u b' h
    obtain ⟨t, rfl, -⟩ := addType_cases h
    exact ⟨t, rfl, addsType_of_addType h⟩
  case directive =>
    intro d b' h
    obtain ⟨hfree, rfl⟩ := addDirective_cases h
    exact ⟨hfree, Table.entries_insert_of_free hfree d, rfl⟩
  case accepted =>
    intro t hfree hdistinct
    refine ⟨(b.bindOwnHost t).insertNamed t, ?_⟩
    simp [addType, hfree, NamedType.repeated?_eq_none_iff.2 hdistinct]
  case acceptedDirective =>
    intro d hfree
    refine ⟨{ b with directives := b.directives.insert d.name d }, ?_⟩
    simp [addDirective, hfree]
  case taken =>
    intro t htaken
    simp [addType, htaken]
  case repeated =>
    intro t hfree hrepeats
    cases hfault : t.repeated? with
    | none => exact absurd (NamedType.repeated?_eq_none_iff.1 hfault) hrepeats
    | some fault =>
        exact ⟨fault, NamedType.firstRepeats_of_repeated? hfault, by simp [addType, hfree, hfault]⟩
  case done =>
    intro s b' h
    rw [InPlace.perform_eq] at h
    split at h
    · rename_i hdone
      cases h
      simp [step, hdone]
    · cases h
  case undone =>
    intro s e b' h
    rw [InPlace.perform_eq] at h
    split at h
    · cases h
    · rename_i herror
      cases h
      exact ⟨rfl, step_of_error herror⟩

/-- **After any steps, failing ones among them**, the namespaces are in order, and the next
    addition is made as a whole or not at all. -/
theorem run_inOrder (steps : List Step) :
    (new.run steps).InOrder ∧ (new.run steps).AddsWhole :=
  ⟨inOrder_run steps, addsWhole _⟩

/-- An input object with the name of a scalar, two fields of which have one name. -/
def secondInt : InputObjectType where
  name := "Int"
  description := none
  fields := [⟨"a", none, .named "Int", none⟩, ⟨"a", none, .named "Int", none⟩]
  record := .dynamic

/-- A taken name is told and not the repetition; and the second input object that shares a host type
    takes the binding over. -/
theorem taken_name_first :
    ((NamedType.inputObject secondInt).FirstRepeats "a" ∧
      ∀ fault, new.addType (.named (.inputObject secondInt) false) ≠
        .error (.duplicateField "Int" fault)) ∧
    (new.run Schema.pointSteps).inputHosts.find? HostType.dynamic.name = some (.named "Point") ∧
    ∃ b, (new.run Schema.pointSteps).addType
        (.named (.inputObject { Schema.point with name := "Vector" }) false) = .ok b ∧
      b.inputHosts.find? HostType.dynamic.name = some (.named "Vector") := by
  refine ⟨⟨?_, fun fault h => ?_⟩, rfl, _, rfl, rfl⟩
  · let a : InputField := ⟨"a", none, .named "Int", none⟩
    have hfields : secondInt.fields = [a] ++ a :: [] := rfl
    exact .inputField hfields (by decide) (by decide)
  · have htaken : new.addType (.named (.inputObject secondInt) false) =
        .error (.duplicateType "Int") := rfl
    rw [htaken] at h
    cases h

end SchemaBuilder

/-- The built-in scalars of a built schema. -/
theorem Schema.Built.named_builtin {s : Schema} (hs : s.Built) (space : Namespace)
    {k : ScalarType} (hk : k ∈ ScalarType.builtin) : s.named? space k.name = some (.scalar k) := by
  obtain ⟨steps, hbuild⟩ := hs
  rw [Schema.named?, SchemaBuilder.types_build hbuild]
  exact (SchemaBuilder.inOrder_run steps).scalars k hk space

end TypedQuery
