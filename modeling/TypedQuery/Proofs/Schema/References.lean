import TypedQuery.Proofs.Schema.Built
import TypedQuery.Proofs.Schema.Resolve

/-!
# References inside a schema

The types of a schema refer to each other by expressions. A builder looks at the innermost name of
each expression; what the name is wrapped in is looked at only when the expression is resolved.

* `Schema.Refers` -- the expressions of a schema, each with the namespace that it is meant for;
* `Schema.Built.isSome_named_of_refers` -- **no name dangles**: in a built schema each expression
  mentions a name of its namespace;
* `Schema.Built.isSome_resolve_of_refers` -- so an expression resolves exactly if no `!` stands on
  a `!` in it.
-/

namespace TypedQuery

namespace Schema

/-- **A type expression to which the schema refers**, in the namespace that it is meant for. -/
inductive Refers (s : Schema) : Namespace → TypeExpr → Prop
  /-- The type of a field of an object, interface or union. -/
  | field {name : String} {c : CompositeType} {f : FieldType}
      (owner : s.named? .output name = some (.composite c)) (member : f ∈ c.fields) :
      Refers s .output f.type
  /-- The type of an argument of such a field. -/
  | argument {name : String} {c : CompositeType} {f : FieldType} {a : ArgumentType}
      (owner : s.named? .output name = some (.composite c)) (member : f ∈ c.fields)
      (argument : a ∈ f.arguments) : Refers s .input a.type
  /-- An interface of an object, or a possible type of an interface or union. -/
  | related {name other : String} {c : CompositeType}
      (owner : s.named? .output name = some (.composite c))
      (related : other ∈ c.interfaces ++ c.possibleTypes) : Refers s .output (.named other)
  /-- The type of a field of an input object. -/
  | inputField {name : String} {o : InputObjectType} {f : InputField}
      (owner : s.named? .input name = some (.inputObject o)) (member : f ∈ o.fields) :
      Refers s .input f.type
  /-- The type of an argument of a directive. -/
  | directiveArgument {name : String} {d : DirectiveType} {a : ArgumentType}
      (owner : s.directives.find? name = some d) (argument : a ∈ d.arguments.values) :
      Refers s .input a.type

variable {s : Schema} {space : Namespace} {e : TypeExpr}

/-- What a schema refers to is among the references that its builder has checked. -/
theorem Refers.exists_reference {b : SchemaBuilder} (hb : b.build = .ok s)
    (h : s.Refers space e) : ∃ referrer, ⟨e, space, referrer⟩ ∈ b.references := by
  obtain ⟨-, -, -, -, hinput, houtput, -, -, hdirectives, -⟩ := SchemaBuilder.build_cases hb
  -- the three parts of `SchemaBuilder.references`, by the table that is gone through
  have hofOutput : ∀ {name t r}, s.named? .output name = some t →
      r ∈ SchemaBuilder.outputReferences t → r ∈ b.references := by
    intro name t r ht hr
    have hmem : t ∈ b.outputTypes.values := houtput ▸ Table.mem_values_of_find? ht
    exact List.mem_append_left _ (List.mem_append_left _ (List.mem_flatMap.2 ⟨t, hmem, hr⟩))
  have hofInput : ∀ {name t r}, s.named? .input name = some t →
      r ∈ SchemaBuilder.inputReferences t → r ∈ b.references := by
    intro name t r ht hr
    have hmem : t ∈ b.inputTypes.values := hinput ▸ Table.mem_values_of_find? ht
    exact List.mem_append_left _ (List.mem_append_right _ (List.mem_flatMap.2 ⟨t, hmem, hr⟩))
  have hofField : ∀ {name c f r}, s.named? .output name = some (.composite c) → f ∈ c.fields →
      r ∈ SchemaBuilder.fieldReferences c.name f → r ∈ b.references := fun howner hf hr =>
    hofOutput howner (List.mem_append_left _ (List.mem_flatMap.2 ⟨_, hf, hr⟩))
  cases h with
  | field howner hf => exact ⟨_, hofField howner hf List.mem_cons_self⟩
  | argument howner hf ha =>
      exact ⟨_, hofField howner hf (List.mem_cons_of_mem _ (List.mem_map_of_mem ha))⟩
  | related howner hother =>
      exact ⟨_, hofOutput howner (List.mem_append_right _ (List.mem_map_of_mem hother))⟩
  | inputField howner hf => exact ⟨_, hofInput howner (List.mem_map_of_mem hf)⟩
  | directiveArgument howner ha =>
      have hmem := hdirectives ▸ Table.mem_values_of_find? howner
      exact ⟨_, List.mem_append_right _
        (List.mem_flatMap.2 ⟨_, hmem, List.mem_map_of_mem ha⟩)⟩

/-- **No name dangles** in a built schema. -/
theorem Built.isSome_named_of_refers (hs : s.Built) (h : s.Refers space e) :
    (s.named? space e.innerName).isSome = true := by
  obtain ⟨steps, hbuild⟩ := hs
  obtain ⟨referrer, hr⟩ := h.exists_reference hbuild
  obtain ⟨-, -, -, hknown, -⟩ := SchemaBuilder.build_cases hbuild
  have hknows := hknown _ hr
  unfold named?
  rw [SchemaBuilder.types_build hbuild]
  cases space with
  | input => exact hknows
  | output => exact hknows

/-- **What a built schema refers to resolves** exactly if it excludes null once a layer. -/
theorem Built.isSome_resolve_of_refers (hs : s.Built) (h : s.Refers space e) :
    (s.resolve space e).isSome = e.excludesNullOnce := by
  rw [isSome_resolve, hs.isSome_named_of_refers h, Bool.true_and]

end Schema

end TypedQuery
