import TypedQuery.Proofs.Schema.Built
import TypedQuery.Proofs.Schema.Resolve

/-!
# Positions inside a literal

The type that each part of a literal is to have, read off the literal and the schema alone:

* the literal itself has the type it is read at;
* an item of a list literal has the member type;
* the value of a declared key has the type of the field, lists around the input object looked
  through; under a key that no field declares there is no type.

`Literal.uses` collects the variables of a literal with their positions; `Schema.entryType` is the
type of a key. Coercion does not always meet a part at the type of its position, but at one that
lies `Within` it, with some of the outer lists taken off.
-/

namespace TypedQuery

/-! ## 1. Types inside types -/

namespace SchemaType

/-- A type, with some of its outer lists taken off. -/
inductive Within (t : SchemaType) : SchemaType → Prop
  | refl : Within t t
  | inside {of : SchemaType} {required : Bool} (h : Within t of) : Within t (.list of required)

namespace Within

variable {t u of : SchemaType} {required : Bool}

/-- One list more is taken off. -/
theorem member (h : Within (.list of required) u) : Within of u := by
  induction h with
  | refl => exact .inside .refl
  | inside _ ih => exact .inside ih

/-- The member of a list within a list lies within its member. -/
theorem member? (h : Within (.list of required) u) :
    ∃ inner, u.member? = some inner ∧ Within of inner := by
  cases h with
  | refl => exact ⟨of, rfl, .refl⟩
  | @inside inner _ hin => exact ⟨inner, rfl, hin.member⟩

theorem namedType_eq (h : Within t u) : t.namedType = u.namedType := by
  induction h with
  | refl => rfl
  | inside _ ih => exact ih

end Within

end SchemaType

namespace Schema

variable {s : Schema} {t : SchemaType}

/-- The schema has the named type under all lists of a type, in the namespace for input. -/
def Knows (s : Schema) (t : SchemaType) : Prop :=
  ∃ name, s.named? .input name = some t.namedType

theorem knows_of_resolve {e : TypeExpr} (h : s.resolve .input e = some t) : s.Knows t :=
  ⟨e.innerName, namedType_of_resolve h⟩

/-- With a list its member is known. -/
theorem Knows.member {inner : SchemaType} (h : s.Knows t) (hinner : t.member? = some inner) :
    s.Knows inner := by
  obtain ⟨name, hname⟩ := h
  cases t with
  | named t required => cases hinner
  | list of required =>
      cases hinner
      exact ⟨name, hname⟩

/-- The fields of an input object that a built schema knows are distinct. -/
theorem Built.distinct_of_knows (hs : s.Built) {o : InputObjectType} (h : s.Knows t)
    (ho : t.namedType = .inputObject o) : (o.fields.map (·.name)).Nodup := by
  obtain ⟨name, hname⟩ := h
  rw [ho] at hname
  exact hs.distinct_fields hname

/-- The type of the entry of a key, lists around the input object looked through. -/
def entryType (s : Schema) (t : SchemaType) (key : String) : Option SchemaType :=
  match t.namedType with
  | .inputObject o => (o.field? key).bind fun f => s.resolve .input f.type
  | _ => none

end Schema

/-- Among distinct fields each is found by its name. -/
theorem InputObjectType.field?_of_mem {o : InputObjectType} {f : InputField}
    (hdistinct : (o.fields.map (·.name)).Nodup) (hf : f ∈ o.fields) :
    o.field? f.name = some f := by
  unfold field?
  generalize o.fields = fields at hdistinct hf ⊢
  induction fields with
  | nil => cases hf
  | cons g rest ih =>
      rw [List.map_cons, List.nodup_cons] at hdistinct
      rcases List.mem_cons.1 hf with rfl | hrest
      · simp
      · have hne : (g.name == f.name) = false := by
          refine beq_false_of_ne fun heq => hdistinct.1 ?_
          rw [heq]
          exact List.mem_map_of_mem hrest
        rw [List.find?_cons, hne]
        exact ih hdistinct.2 hrest

/-- The type of a declared key. -/
theorem Schema.entryType_of_mem {s : Schema} {t : SchemaType} {o : InputObjectType}
    {f : InputField} (ho : t.namedType = .inputObject o)
    (hdistinct : (o.fields.map (·.name)).Nodup) (hf : f ∈ o.fields) :
    s.entryType t f.name = s.resolve .input f.type := by
  unfold entryType
  rw [ho]
  show (o.field? f.name).bind (fun f => s.resolve .input f.type) = _
  rw [InputObjectType.field?_of_mem hdistinct hf]
  rfl

/-! ## 2. Variables and their positions -/

/-- A variable in a literal, with its position. -/
structure VariableUse where
  name : String
  /-- The type of the position, if it has one. -/
  type : Option SchemaType

namespace Literal

mutual

/-- The variables of a literal that stands at a position. -/
def uses (s : Schema) (t : Option SchemaType) : Literal → List VariableUse
  | .variable name => [⟨name, t⟩]
  | .list items => usesOfItems s (t.bind SchemaType.member?) items
  | .object entries => usesOfEntries s t entries
  | .int _ | .float _ | .string _ | .boolean _ | .enum _ | .null => []

/-- The variables of the items of a list. -/
def usesOfItems (s : Schema) (t : Option SchemaType) : List Literal → List VariableUse
  | [] => []
  | item :: rest => item.uses s t ++ usesOfItems s t rest

/-- The variables of the entries of an object at a type. -/
def usesOfEntries (s : Schema) (t : Option SchemaType) :
    List (String × Literal) → List VariableUse
  | [] => []
  | (key, value) :: rest =>
    value.uses s (t.bind (s.entryType · key)) ++ usesOfEntries s t rest

end

section Parts

variable {s : Schema} {position inner : SchemaType}

/-- The variables of an item are variables of the list. -/
theorem uses_item {items : List Literal} {item : Literal} (hitem : item ∈ items)
    (hinner : position.member? = some inner) :
    item.uses s (some inner) ⊆ (Literal.list items).uses s (some position) := by
  rw [uses]
  show item.uses s (some inner) ⊆ usesOfItems s position.member? items
  rw [hinner]
  induction items with
  | nil => cases hitem
  | cons first rest ih =>
      intro u hu
      rw [usesOfItems, List.mem_append]
      rcases List.mem_cons.1 hitem with rfl | hrest
      · exact .inl hu
      · exact .inr (ih hrest hu)

/-- The variables of the first value of a declared key are variables of the object. -/
theorem uses_entry {o : InputObjectType} (ho : position.namedType = .inputObject o)
    (hdistinct : (o.fields.map (·.name)).Nodup) {f : InputField} (hf : f ∈ o.fields)
    (ht : s.resolve .input f.type = some inner) {entries : List (String × Literal)}
    {value : Literal} (hvalue : entries.lookup f.name = some value) :
    value.uses s (some inner) ⊆ (Literal.object entries).uses s (some position) := by
  have htype : s.entryType position f.name = some inner :=
    (Schema.entryType_of_mem ho hdistinct hf).trans ht
  rw [uses]
  induction entries with
  | nil => cases hvalue
  | cons p rest ih =>
      obtain ⟨other, held⟩ := p
      intro u hu
      rw [usesOfEntries, List.mem_append]
      by_cases hkey : f.name = other
      · subst hkey
        rw [List.lookup_cons_self] at hvalue
        cases hvalue
        refine .inl ?_
        show u ∈ value.uses s (s.entryType position f.name)
        rw [htype]
        exact hu
      · rw [List.lookup_cons, beq_false_of_ne hkey] at hvalue
        exact .inr (ih hvalue hu)

end Parts

end Literal

end TypedQuery
