import TypedQuery.Proofs.Coercion.Mentioned

/-!
# All variables of an operation

The values of all variables are those of each of them. Of the names that a request supplies, some
are declared and the others are unused, and an unused one makes no difference.

* `Resolver.resolveAll_eq_ok`, `Resolver.resolveAll_eq_error_iff` -- what the table of all variables
  holds, and as which definition it fails;
* `Resolver.mem_declared_or_unused` -- a supplied name is declared or unused, never both;
* `Resolver.agreesOn_withoutUnused` -- what is left without the unused names;
* `Resolver.resolveAll_pointwise` -- **all variables are resolved exactly as each of them is**, and
  what is unused may be there or not.
-/

namespace TypedQuery

/-! ## 1. Tables with fewer names -/

namespace Table

variable {α : Type} (keep : String → Bool)

/-- The entries under names that are kept. -/
def restrict (t : Table α) : Table α where
  entries := t.entries.filter fun p => keep p.1
  distinct := t.distinct.sublist (List.filter_sublist.map _)

theorem names_restrict (t : Table α) : (t.restrict keep).names = t.names.filter keep :=
  List.filter_map.symm

theorem find?_restrict (t : Table α) {name : String} (h : keep name = true) :
    (t.restrict keep).find? name = t.find? name := by
  refine Option.ext fun value => ?_
  rw [find?_eq_some_iff, find?_eq_some_iff, restrict, List.mem_filter]
  exact and_iff_left h

end Table

namespace Resolver

/-! ## 2. The table of all variables -/

/-- The declared names, in the order of the definitions. -/
def declared (r : Resolver) : List String := r.definitions.map (·.name)

variable {r : Resolver}

/-- The value of a definition, with its name. -/
def pairOf (r : Resolver) (d : VariableDefinition) : Except ResolutionError (String × Coerced) :=
  (r.resolve d.name).map fun v => (d.name, v)

theorem resolveAll_eq (r : Resolver) :
    r.resolveAll = (r.definitions.mapM r.pairOf).map Table.ofList := by
  have hpair : r.pairOf = fun d => do return (d.name, ← r.resolve d.name) := by
    funext d
    rw [pairOf]
    cases r.resolve d.name <;> rfl
  rw [resolveAll, hpair]
  rfl

theorem pairOf_eq_ok {d : VariableDefinition} {p : String × Coerced} :
    r.pairOf d = .ok p ↔ p.1 = d.name ∧ r.resolve d.name = .ok p.2 := by
  rw [pairOf, map_eq_ok]
  constructor
  · rintro ⟨v, hv, rfl⟩
    exact ⟨rfl, hv⟩
  · rintro ⟨hname, hv⟩
    exact ⟨p.2, hv, Prod.ext hname.symm rfl⟩

/-- **What the table holds**: each declared name once, where it is declared first, with its
    value. -/
theorem resolveAll_eq_ok {t : Table Coerced} (h : r.resolveAll = .ok t) :
    t.names = r.declared.eraseDups ∧
      ∀ name ∈ r.declared, ∃ v, t.find? name = some v ∧ r.resolve name = .ok v := by
  rw [resolveAll_eq] at h
  obtain ⟨pairs, hpairs, rfl⟩ := map_eq_ok.1 h
  have hnames : Entries.names pairs = r.declared := by
    have hall := mapM_eq_ok_iff.1 hpairs
    rw [declared]
    clear hpairs h
    generalize r.definitions = definitions at hall ⊢
    induction hall with
    | nil => rfl
    | cons hp _ ih => rw [Entries.names_cons, ih, List.map_cons, (pairOf_eq_ok.1 hp).1]
  refine ⟨by rw [Table.names_ofList, hnames], fun name hname => ?_⟩
  -- the last pair of the name is found, and it was read as every pair of the name is
  obtain ⟨v, hv⟩ : ∃ v, (Table.ofList pairs).find? name = some v := by
    rw [← Option.isSome_iff_exists, Table.find?_ofList, Entries.isSome_lookup, Entries.names,
      List.map_reverse]
    simpa [← hnames, Entries.names] using hname
  rw [Table.find?_ofList] at hv
  obtain ⟨d, -, hd⟩ := exists_of_mem_mapM hpairs (List.mem_reverse.1 (Entries.mem_of_lookup hv))
  obtain ⟨hdname, hvalue⟩ := pairOf_eq_ok.1 hd
  have hdname : name = d.name := hdname
  exact ⟨v, by rw [Table.find?_ofList, hv], hdname ▸ hvalue⟩

/-- **The table fails as the first definition does whose name fails.** -/
theorem resolveAll_eq_error_iff {e : ResolutionError} :
    r.resolveAll = .error e ↔ ∃ before d after, r.definitions = before ++ d :: after ∧
      (∀ d' ∈ before, ∃ v, r.resolve d'.name = .ok v) ∧ r.resolve d.name = .error e := by
  have hok : ∀ d, (∃ p, r.pairOf d = .ok p) ↔ ∃ v, r.resolve d.name = .ok v := fun d =>
    ⟨fun ⟨p, hp⟩ => ⟨p.2, (pairOf_eq_ok.1 hp).2⟩,
      fun ⟨v, hv⟩ => ⟨(d.name, v), pairOf_eq_ok.2 ⟨rfl, hv⟩⟩⟩
  have herror : ∀ d, r.pairOf d = .error e ↔ r.resolve d.name = .error e := fun d => map_eq_error
  simp only [resolveAll_eq, map_eq_error, mapM_eq_error_iff, hok, herror]

/-- The table is there if every name has a value. -/
theorem exists_resolveAll_iff :
    (∃ t, r.resolveAll = .ok t) ↔ ∀ name ∈ r.declared, ∃ v, r.resolve name = .ok v := by
  constructor
  · rintro ⟨t, ht⟩ name hname
    obtain ⟨v, -, hv⟩ := (resolveAll_eq_ok ht).2 name hname
    exact ⟨v, hv⟩
  · intro h
    cases hall : r.resolveAll with
    | ok t => exact ⟨t, rfl⟩
    | error e =>
        obtain ⟨before, d, after, hsplit, -, hfailed⟩ := resolveAll_eq_error_iff.1 hall
        have hd : d ∈ r.definitions := hsplit ▸ List.mem_append_right before List.mem_cons_self
        obtain ⟨v, hv⟩ := h d.name (List.mem_map_of_mem hd)
        cases hv.symm.trans hfailed

/-! ## 3. Unused names -/

theorem definition?_eq_none_iff {name : String} :
    r.definition? name = none ↔ name ∉ r.declared := by
  simp [definition?, declared]

/-- **A supplied name is declared or unused, never both.** -/
theorem mem_declared_or_unused {name : String} (h : name ∈ r.supplied.names) :
    name ∈ r.declared ↔ name ∉ r.unused := by
  rw [mem_unused_iff, definition?_eq_none_iff, and_iff_right h, not_not]

/-- The resolver without the values for unused names. -/
def withoutUnused (r : Resolver) : Resolver :=
  { r with supplied := r.supplied.restrict fun name => !r.unused.contains name }

/-- Of a declared name the same is known without the unused ones. -/
theorem agreesOn_withoutUnused {name : String} (h : name ∈ r.declared) :
    r.withoutUnused.AgreesOn r name := by
  refine ⟨rfl, Table.find?_restrict _ r.supplied ?_⟩
  have hused : name ∉ r.unused := fun hunused =>
    definition?_eq_none_iff.1 ((mem_unused_iff r name).1 hunused).2 h
  simpa using hused

/-- A name has the same outcome without the values for unused ones. -/
theorem resolve_withoutUnused (r : Resolver) (name : String) :
    r.withoutUnused.resolve name = r.resolve name := by
  by_cases hname : name ∈ r.declared
  · exact resolve_congr rfl (agreesOn_withoutUnused hname)
  · have hnone := definition?_eq_none_iff.2 hname
    have hnone' : r.withoutUnused.definition? name = none := hnone
    rw [resolve, resolve, hnone, hnone']

/-- **All variables are resolved exactly as each of them is.** The table of all variables is there
    exactly if each declared name has a value. It has the declared names in the order in which they
    are declared first, each with its value. Otherwise the first definition whose name fails tells
    why. A supplied name is either declared or unused; the unused ones are in the order of supply,
    and whether they are supplied makes no difference. -/
theorem resolveAll_pointwise (r : Resolver) :
    ((∃ t, r.resolveAll = .ok t) ↔ ∀ name ∈ r.declared, ∃ v, r.resolve name = .ok v) ∧
    (∀ t, r.resolveAll = .ok t → t.names = r.declared.eraseDups ∧
      ∀ name ∈ r.declared, ∃ v, t.find? name = some v ∧ r.resolve name = .ok v) ∧
    (∀ e, r.resolveAll = .error e ↔ ∃ before d after, r.definitions = before ++ d :: after ∧
      (∀ d' ∈ before, ∃ v, r.resolve d'.name = .ok v) ∧ r.resolve d.name = .error e) ∧
    (∀ name ∈ r.supplied.names, name ∈ r.declared ↔ name ∉ r.unused) ∧
    (∀ name ∈ r.unused, name ∈ r.supplied.names) ∧ r.unused.Sublist r.supplied.names ∧
    r.withoutUnused.supplied.names = r.supplied.names.filter (fun name => !r.unused.contains name) ∧
    (∀ name, r.withoutUnused.resolve name = r.resolve name) ∧
    r.withoutUnused.resolveAll = r.resolveAll := by
  refine ⟨exists_resolveAll_iff, fun t => resolveAll_eq_ok, fun e => resolveAll_eq_error_iff,
    fun name => mem_declared_or_unused, fun name hname => ((mem_unused_iff r name).1 hname).1,
    List.filter_sublist, Table.names_restrict _ _, resolve_withoutUnused r, ?_⟩
  have hpair : r.withoutUnused.pairOf = r.pairOf := by
    funext d
    rw [pairOf, pairOf, resolve_withoutUnused]
  rw [resolveAll_eq, resolveAll_eq, hpair]
  rfl

/-- A name that is declared twice, with two types, counts as it is declared first; a third one has
    its default, and one that is supplied is not declared. With a required variable that is not
    supplied, this one tells why there is no table, and not the unknown type behind it. -/
theorem resolveAll_pointwise_points :
    let declare (column : Nat) (name : String) (type : TypeExpr) (default : Option Literal) :
      VariableDefinition := ⟨⟨1, column⟩, name, type, default⟩
    let first := declare 7 "a" (.named "Int") none
    let required := declare 40 "c" (.nonNull (.named "Int")) none
    let r : Resolver := ⟨Schema.points, Table.ofList [("z", .boolean true), ("a", .int 3)],
      [first, declare 20 "b" (.named "String") (some (.string "x")),
        declare 30 "a" (.named "String") none]⟩
    let failing := r.withDefinitions [first, required, declare 50 "d" (.named "Nowhere") none]
    (∃ t, r.resolveAll = .ok t ∧ t.names = ["a", "b"] ∧ t.find? "a" = some (.int 3)) ∧
      r.unused = ["z"] ∧ r.withoutUnused.supplied.names = ["a"] ∧
      r.withoutUnused.resolveAll = r.resolveAll ∧
      failing.resolveAll = .error (.missingVariable "c" "Int!") := by
  intro declare first required r failing
  obtain ⟨⟨-, hexists⟩, htable, -, -, -, -, hnames, -, hwithout⟩ := resolveAll_pointwise r
  have hvalues : ∀ name ∈ r.declared, ∃ v, r.resolve name = .ok v := by
    intro name hname
    have hname : name ∈ ["a", "b", "a"] := hname
    rcases List.mem_cons.1 hname with rfl | hname
    · exact ⟨_, rfl⟩
    rcases List.mem_cons.1 hname with rfl | hname
    · exact ⟨_, rfl⟩
    obtain rfl := List.mem_singleton.1 hname
    exact ⟨_, rfl⟩
  obtain ⟨t, ht⟩ := hexists hvalues
  obtain ⟨ht', hfound⟩ := htable t ht
  obtain ⟨v, hv, hvalue⟩ := hfound "a" List.mem_cons_self
  cases hvalue
  refine ⟨⟨t, ht, ht', hv⟩, rfl, hnames, hwithout, ?_⟩
  refine ((resolveAll_pointwise failing).2.2.1 _).2 ⟨[first], required, _, rfl, ?_, rfl⟩
  exact List.forall_mem_singleton.2 ⟨_, rfl⟩

end Resolver

end TypedQuery
