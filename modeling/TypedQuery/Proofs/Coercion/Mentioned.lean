import TypedQuery.Proofs.Coercion.Agreement

/-!
# Variables that a literal mentions

Of the variables of an operation the coercion of a literal sees those alone that stand in it: of
each the first definition and the supplied value. The default of a definition is no way out, since
it is read where no variable is bound.

* `Resolver.AgreesOn` -- two resolvers know the same of a name; `Resolver.resolve_congr` -- the name
  then stands for the same value, or fails alike;
* `Resolver.agreesOn_without`, `Resolver.agreesOn_supply` -- what changes nothing at a name;
* `Repository.coerce_mentioned` -- **a coercion sees only the variables that its literal mentions**.
-/

namespace TypedQuery

namespace Resolver

/-- **Two resolvers know the same of a name**: its first definitions declare the same type and the
    same default, or there is none, and the same value is supplied for it, or none. -/
structure AgreesOn (first second : Resolver) (name : String) : Prop where
  declared : (first.definition? name).map (fun d => (d.type, d.default)) =
    (second.definition? name).map fun d => (d.type, d.default)
  supplied : first.supplied.find? name = second.supplied.find? name

variable {first second : Resolver} {name : String}

/-- A declared type is read in the schema alone. -/
theorem declaredType_congr (h : first.schema = second.schema) (e : TypeExpr) :
    first.declaredType e = second.declaredType e := by
  induction e with
  | named name => simp only [declaredType, h]
  | list of ih => simp only [declaredType, ih]
  | nonNull of ih => simp only [declaredType, ih]

/-- **A name stands for the same** where the same is known of it, in one schema. -/
theorem resolve_congr (hschema : first.schema = second.schema) (h : first.AgreesOn second name) :
    first.resolve name = second.resolve name := by
  have hdeclared := h.declared
  unfold resolve
  rw [h.supplied, hschema]
  cases hfirst : first.definition? name with
  | none =>
      rw [hfirst, Option.map_none, eq_comm, Option.map_eq_none_iff] at hdeclared
      rw [hdeclared]
  | some d =>
      rw [hfirst, Option.map_some, eq_comm, Option.map_eq_some_iff] at hdeclared
      obtain ⟨d', hsecond, heq⟩ := hdeclared
      obtain ⟨htype, hdefault⟩ := Prod.mk.inj heq
      rw [hsecond]
      simp only [declaredType_congr hschema, htype, hdefault]

/-! ## What changes nothing -/

/-- The resolver with other definitions. -/
def withDefinitions (r : Resolver) (definitions : List VariableDefinition) : Resolver :=
  { r with definitions := definitions }

/-- The resolver with one more value supplied. -/
def supply (r : Resolver) (name : String) (raw : Raw) : Resolver :=
  { r with supplied := r.supplied.insert name raw }

/-- A definition of another name, and one that comes after another of its name, is not looked at. -/
theorem agreesOn_without {r : Resolver} {before after : List VariableDefinition}
    {d : VariableDefinition} (hsplit : r.definitions = before ++ d :: after)
    (h : d.name ≠ name ∨ ∃ earlier ∈ before, earlier.name = d.name) :
    r.AgreesOn (r.withDefinitions (before ++ after)) name := by
  have hfound : r.definition? name = (r.withDefinitions (before ++ after)).definition? name := by
    show r.definitions.find? _ = (before ++ after).find? _
    rw [hsplit, List.find?_append, List.find?_append, List.find?_cons]
    by_cases hname : d.name = name
    · -- an earlier definition is found in both
      obtain hother | ⟨earlier, hearlier, heq⟩ := h
      · exact absurd hname hother
      · have hsome : (before.find? fun x => x.name == name).isSome = true :=
          List.find?_isSome.2 ⟨earlier, hearlier, by simp [heq, hname]⟩
        obtain ⟨x, hx⟩ := Option.isSome_iff_exists.1 hsome
        rw [hx, Option.some_or, Option.some_or]
    · rw [beq_false_of_ne hname]
  exact ⟨congrArg _ hfound, rfl⟩

/-- A value for another name is not looked at. -/
theorem agreesOn_supply (r : Resolver) {other : String} (h : name ≠ other) (raw : Raw) :
    r.AgreesOn (r.supply other raw) name :=
  ⟨rfl, by rw [supply, Table.find?_insert, if_neg h]⟩

end Resolver

namespace Repository

variable {s : Schema} {t : SchemaType} {l : Literal}

/-- **A coercion sees only the variables that its literal mentions**. Two resolvers that know the
    same of each variable in the literal give the same outcome, value or failure. So a definition of
    another variable, a later definition of the same one and a value for another variable may be
    there or not; and a literal without variables needs no resolver. -/
theorem coerce_mentioned :
    (∀ first second : Resolver, first.schema = s → second.schema = s →
      (∀ name ∈ l.variableNames, first.AgreesOn second name) →
        coerce ⟨s, some first⟩ t l = coerce ⟨s, some second⟩ t l) ∧
    (∀ r : Resolver, r.schema = s → ∀ before d after, r.definitions = before ++ d :: after →
      (d.name ∉ l.variableNames ∨ ∃ earlier ∈ before, earlier.name = d.name) →
        coerce ⟨s, some r⟩ t l = coerce ⟨s, some (r.withDefinitions (before ++ after))⟩ t l) ∧
    (∀ r : Resolver, r.schema = s → ∀ other raw, other ∉ l.variableNames →
      coerce ⟨s, some r⟩ t l = coerce ⟨s, some (r.supply other raw)⟩ t l) ∧
    (l.variableNames = [] → ∀ r, coerce ⟨s, some r⟩ t l = coerce ⟨s, none⟩ t l) := by
  have hagree : ∀ first second : Resolver, first.schema = s → second.schema = s →
      (∀ name ∈ l.variableNames, first.AgreesOn second name) →
        coerce ⟨s, some first⟩ t l = coerce ⟨s, some second⟩ t l := by
    intro first second hfirst hsecond h
    exact coerceLiteral_congr fun name hname =>
      Resolver.resolve_congr (hfirst.trans hsecond.symm) (h name hname)
  refine ⟨hagree, fun r hr before d after hsplit h => ?_, fun r hr other raw hother => ?_,
    fun hnone r => ?_⟩
  · refine hagree r _ hr hr fun name hname => Resolver.agreesOn_without hsplit ?_
    exact h.imp_left fun hd heq => hd (heq ▸ hname)
  · refine hagree r _ hr hr fun name hname => r.agreesOn_supply ?_ raw
    rintro rfl
    exact hother hname
  · refine coerceLiteral_congr fun name hname => ?_
    rw [hnone] at hname
    cases hname

/-- A point with two variables, one of them left to its default, and a third under a key that points
    do not have. The resolvers differ in other definitions, in a later one and in what is supplied
    for others. -/
theorem coerce_mentioned_points :
    let t : SchemaType := .named (.inputObject Schema.point) true
    let l : Literal := .object [("x", .variable "a"), ("tags", .list [.variable "b"]),
      ("colour", .variable "c")]
    let declare (column : Nat) (name type : String) (default : Option Literal) :
      VariableDefinition := ⟨⟨1, column⟩, name, .named type, default⟩
    let first : Resolver := ⟨Schema.points, Table.ofList [("b", .string "far"), ("z", .int 9)],
      [declare 7 "a" "Int" (some (.int 3)), declare 20 "b" "String" none,
        declare 30 "a" "String" none]⟩
    let second : Resolver := ⟨Schema.points, Table.ofList [("b", .string "far")],
      [declare 7 "z" "Nowhere" none, declare 20 "a" "Int" (some (.int 3)),
        declare 40 "b" "String" none]⟩
    let v : Coerced := .object "Point" (.dynamic [("x", .int 3), ("tags", .list [.string "far"])])
    coerce ⟨Schema.points, some first⟩ t l = .ok v ∧
      coerce ⟨Schema.points, some second⟩ t l = .ok v ∧
      coerce ⟨Schema.points, some (first.withDefinitions [first.definitions.head (by simp [first]),
        declare 20 "b" "String" none])⟩ t l = .ok v ∧
      coerce ⟨Schema.points, some (first.supply "y" .null)⟩ t l = .ok v ∧
      coerce ⟨Schema.points, none⟩ t (.object [("x", .int 1)]) =
        coerce ⟨Schema.points, some first⟩ t (.object [("x", .int 1)]) := by
  intro t l declare first second v
  have hvalue : coerce ⟨Schema.points, some first⟩ t l = .ok v := rfl
  obtain ⟨hagree, hwithout, hsupply, -⟩ := coerce_mentioned (s := Schema.points) (t := t) (l := l)
  have hnames : l.variableNames = ["a", "b", "c"] := rfl
  refine ⟨hvalue, (hagree first second rfl rfl ?_).symm.trans hvalue,
    (hwithout first rfl [declare 7 "a" "Int" (some (.int 3)), declare 20 "b" "String" none]
      (declare 30 "a" "String" none) [] rfl (.inr ⟨_, List.mem_cons_self, rfl⟩)).symm.trans hvalue,
    (hsupply first rfl "y" .null (by rw [hnames]; decide)).symm.trans hvalue,
    (coerce_mentioned.2.2.2 rfl first).symm⟩
  intro name hname
  rw [hnames] at hname
  rcases List.mem_cons.1 hname with rfl | hname
  · exact ⟨rfl, rfl⟩
  rcases List.mem_cons.1 hname with rfl | hname
  · exact ⟨rfl, rfl⟩
  obtain rfl := List.mem_singleton.1 hname
  exact ⟨rfl, rfl⟩

end Repository

end TypedQuery
