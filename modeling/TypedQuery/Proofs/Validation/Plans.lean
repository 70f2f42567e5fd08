import TypedQuery.Proofs.Validation.Accepted

/-!
# Plans of rules

A plan is a list of rules that walk through a document one after the other. A walk comes back to
where it started and no rule has a part in how it ends, so a rule neither sees nor changes what the
rules before it did.

* `Rule.complaints` -- what one rule on its own says of a document;
* `Rule.run_of_goesThrough`, `Rule.run_of_breaks` -- **all that running a plan comes to**: the
  complaints of its rules in order, or the error of the walk;
* `Document.validate_append` -- one plan after another is validation with the one and then with the
  other;
* `Document.validate_plans` -- **plans compose, and fail alike**.
-/

namespace TypedQuery

namespace Rule

/-- What a rule on its own says of a document. -/
def complaints (rule : Rule) (d : Document) (c : Context) : List Complaint :=
  rule.visitor.replay (d.trace c).events []

variable {d : Document} {c : Context} {rules : List Rule}

/-- A rule that reports adds its complaints to those that are there. -/
theorem replay_trace {rule : Rule} (hrule : ∃ report, rule.visitor.Reports report)
    (before : List Complaint) :
    rule.visitor.replay (d.trace c).events before = before ++ rule.complaints d c := by
  obtain ⟨report, hreport⟩ := hrule
  rw [complaints, hreport.replay, hreport.replay, List.nil_append]

/-- **Where a walk goes through**, a plan gives the complaints of its rules, rule by rule. -/
theorem run_of_goesThrough (hd : (d.trace c).error = none)
    (hrules : ∀ rule ∈ rules, ∃ report, rule.visitor.Reports report) (before : List Complaint) :
    run d rules ⟨c, before⟩ = .done ⟨c, before ++ rules.flatMap (·.complaints d c)⟩ := by
  induction rules generalizing before with
  | nil => rw [List.flatMap_nil, List.append_nil, run]
  | cons rule rest ih =>
      have hwalk : d.walk rule.visitor ⟨c, before⟩ = .done ⟨c, before ++ rule.complaints d c⟩ := by
        rw [Document.walk_eq, ← replay_trace (hrules rule List.mem_cons_self)]
        show Outcome.mk ⟨c, rule.visitor.replay (d.trace c).events before⟩ (d.trace c).error = _
        rw [hd]
        rfl
      rw [run, hwalk, Outcome.andThen_done,
        ih fun other hother => hrules other (List.mem_cons_of_mem _ hother), List.flatMap_cons,
        List.append_assoc]

/-- **Where a walk is broken off**, the first rule breaks every plan off, whatever it is. -/
theorem run_of_breaks {e : ResolutionError} (hd : (d.trace c).error = some e) (hne : rules ≠ [])
    (before : List Complaint) : (run d rules ⟨c, before⟩).error = some e := by
  cases rules with
  | nil => exact absurd rfl hne
  | cons rule rest =>
      rw [run, Document.walk_eq]
      show (Outcome.andThen ⟨_, (d.trace c).error⟩ (run d rest)).error = some e
      rw [hd]
      rfl

/-- The rules there are report. -/
theorem reports_of_mem_defaults {rule : Rule} (h : rule ∈ defaults) :
    ∃ report, rule.visitor.Reports report := by
  rcases mem_defaults.1 h with rfl | rfl
  · exact ⟨_, reports_leafFieldSelections⟩
  · exact ⟨_, reports_fieldsOnCorrectType⟩

end Rule

namespace Document

variable {d : Document} {s : Schema} {rules : List Rule}

theorem validate_of_goesThrough (hd : (d.trace (Context.start s d)).error = none)
    (hrules : ∀ rule ∈ rules, ∃ report, rule.visitor.Reports report) :
    d.validate s rules = .ok (rules.flatMap (·.complaints d (Context.start s d))) := by
  unfold validate
  rw [Rule.run_of_goesThrough hd hrules]
  rfl

theorem validate_of_breaks {e : ResolutionError}
    (hd : (d.trace (Context.start s d)).error = some e) (hne : rules ≠ []) :
    d.validate s rules = .error e := by
  simp only [validate, Rule.run_of_breaks hd hne]

/-- A plan fails where its first walk does, so it is not empty then. -/
theorem error_of_validate (hrules : ∀ rule ∈ rules, ∃ report, rule.visitor.Reports report)
    {e : ResolutionError} (h : d.validate s rules = .error e) :
    (d.trace (Context.start s d)).error = some e := by
  cases hd : (d.trace (Context.start s d)).error with
  | none =>
      rw [validate_of_goesThrough hd hrules] at h
      cases h
  | some e' =>
      by_cases hne : rules = []
      · subst hne
        cases h
      · rw [validate_of_breaks hd hne] at h
        cases h
        rfl

/-- **One plan after another**: validation with the first, then with the second, unless the first
    fails; the complaints come in this order. -/
theorem validate_append {first second : List Rule}
    (hfirst : ∀ rule ∈ first, ∃ report, rule.visitor.Reports report)
    (hsecond : ∀ rule ∈ second, ∃ report, rule.visitor.Reports report) :
    d.validate s (first ++ second) =
      (d.validate s first).bind fun p => (d.validate s second).map fun q => p ++ q := by
  cases hd : (d.trace (Context.start s d)).error with
  | none =>
      have hboth : ∀ rule ∈ first ++ second, ∃ report, rule.visitor.Reports report :=
        fun rule hrule => (List.mem_append.1 hrule).elim (hfirst rule) (hsecond rule)
      rw [validate_of_goesThrough hd hboth, validate_of_goesThrough hd hfirst,
        validate_of_goesThrough hd hsecond, List.flatMap_append]
      rfl
  | some e =>
      by_cases hne : first = []
      · -- nothing has been collected yet
        subst hne
        show d.validate s second = (d.validate s second).map ([] ++ ·)
        cases d.validate s second <;> rfl
      · rw [validate_of_breaks hd hne, validate_of_breaks hd (List.append_ne_nil_of_left_ne_nil hne _)]
        rfl

/-- **Plans compose, and fail alike**: two plans of the rules there are, in any order and number,
    collect together what they collect apart; and if one fails, so does every other that has a rule,
    with the same error. -/
theorem validate_plans {first second : List Rule} (hfirst : ∀ rule ∈ first, rule ∈ Rule.defaults)
    (hsecond : ∀ rule ∈ second, rule ∈ Rule.defaults) :
    (∀ p q, d.validate s first = .ok p → d.validate s second = .ok q →
      d.validate s (first ++ second) = .ok (p ++ q)) ∧
    ∀ e, d.validate s first = .error e → second ≠ [] → d.validate s second = .error e := by
  have hreports := fun rule hrule => Rule.reports_of_mem_defaults (hfirst rule hrule)
  have hreports' := fun rule hrule => Rule.reports_of_mem_defaults (hsecond rule hrule)
  constructor
  · intro p q hp hq
    rw [validate_append hreports hreports', hp, hq]
    rfl
  · intro e he hne
    exact validate_of_breaks (error_of_validate hreports he) hne

/-- Two plans on a document with both kinds of faults, and on one that no walk goes through. -/
theorem validate_plans_points :
    let first := [Rule.fieldsOnCorrectType, Rule.leafFieldSelections]
    let second := [Rule.leafFieldSelections]
    let selected : SelectionSet := ⟨⟨1, 1⟩, [
      .field ⟨⟨1, 3⟩, none, "origin", [], [], some ⟨⟨1, 10⟩, [
        .field ⟨⟨1, 12⟩, none, "deep", [], [], none⟩]⟩⟩,
      .field ⟨⟨1, 20⟩, none, "nope", [], [], none⟩]⟩
    let d (kind : OperationKind) : Document := ⟨[.operation ⟨⟨1, 1⟩, kind, none, [], [], selected⟩]⟩
    let leaf := Complaint.leafWithSubselection "origin" "Boolean" ⟨1, 10⟩
    let unknown := Complaint.unknownField "nope" "Query" ⟨1, 20⟩
    ((d .query).validate Schema.points first = .ok [unknown, leaf] ∧
      (d .query).validate Schema.points second = .ok [leaf] ∧
      (d .query).validate Schema.points (first ++ second) = .ok [unknown, leaf, leaf]) ∧
    (d .mutation).validate Schema.points first = .error (.unsupportedOperation "mutation") ∧
      (d .mutation).validate Schema.points second = .error (.unsupportedOperation "mutation") := by
  intro first second selected d leaf unknown
  have hfirst : ∀ rule ∈ first, rule ∈ Rule.defaults := by simp [first, Rule.mem_defaults]
  have hsecond : ∀ rule ∈ second, rule ∈ Rule.defaults := by simp [second, Rule.mem_defaults]
  have hone : (d .query).validate Schema.points first = .ok [unknown, leaf] := rfl
  have hother : (d .query).validate Schema.points second = .ok [leaf] := rfl
  have hbroken : (d .mutation).validate Schema.points first =
      .error (.unsupportedOperation "mutation") := rfl
  exact ⟨⟨hone, hother, (validate_plans hfirst hsecond).1 _ _ hone hother⟩, hbroken,
    (validate_plans hfirst hsecond).2 _ hbroken (List.cons_ne_nil _ _)⟩

end Document

end TypedQuery
