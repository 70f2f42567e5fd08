import Mathlib.Data.List.Nodup
import TypedQuery.Proofs.Coercion.Cases
import TypedQuery.Proofs.Schema.Built
import TypedQuery.Proofs.Schema.Resolve

/-!
# Values of a type

What it is for a coerced value to be of a type. Input objects may refer to themselves, so the
relation is inductive: a value conforms by finitely many steps.

* `Conforms` -- **a value is of a type**;
* `Conforms.isNull_of_isNonNull` -- a value of a type that excludes null is not null;
* `SchemaType.Stricter`, `Conforms.of_stricter` -- a value of a type is one of each type that only
  allows null in more layers;
* `Conforms.of_nullable` -- null is all that a `!` takes away;
* `Conforms.of_assemble` -- **an input object whose fields are read to values of their types is one
  of its own**; here the fields of the type must be distinct, which a built schema gives.
-/

namespace TypedQuery

/-- **A value is of a type**: null where the type allows it, and otherwise what the constructors
    of the type call for. -/
inductive Conforms (s : Schema) : SchemaType → Coerced → Prop
  | null {t : SchemaType} (nullable : t.isNonNull = false) : Conforms s t .null
  | scalar {k : ScalarType} {required : Bool} {v : Coerced} (admitted : k.kind.admits v) :
      Conforms s (.named (.scalar k) required) v
  | enum {e : EnumType} {required : Bool} {name : String} (declared : e.has name = true) :
      Conforms s (.named (.enum e) required) (.enum name)
  | list {of : SchemaType} {required : Bool} {items : List Coerced}
      (each : ∀ v ∈ items, Conforms s of v) : Conforms s (.list of required) (.list items)
  /-- A typed record is of the host type that the input object is bound to. -/
  | typed {o : InputObjectType} {required : Bool} {host : HostType} {members : List Member}
      {setters : List (String × Member)} {held : List (String × HostValue)}
      (shape : o.record = .typed host members setters) :
      Conforms s (.named (.inputObject o) required) (.object o.name (.typed host held))
  /-- The keys of a dynamic record are declared fields, each once and in the order of their
      declaration, and each value is of the type that its field declares. -/
  | dynamic {o : InputObjectType} {required : Bool} {entries : List (String × Coerced)}
      (shape : o.record = .dynamic)
      (ordered : (Entries.names entries).Sublist (o.fields.map (·.name)))
      (distinct : (Entries.names entries).Nodup)
      (resolved : ∀ f ∈ o.fields, f.name ∈ Entries.names entries →
        (s.resolve .input f.type).isSome = true)
      (each : ∀ f ∈ o.fields, ∀ value t, (f.name, value) ∈ entries →
        s.resolve .input f.type = some t → Conforms s t value) :
      Conforms s (.named (.inputObject o) required) (.object o.name (.dynamic entries))

/-! ## 1. Null -/

namespace Conforms

variable {s : Schema} {t u : SchemaType} {v : Coerced}

/-- A value of a type that excludes null is not null. -/
theorem isNull_of_isNonNull (h : Conforms s t v) (ht : t.isNonNull = true) : v.isNull = false := by
  cases h with
  | null hnull =>
      rw [ht] at hnull
      cases hnull
  | scalar hadmits => exact ScalarKind.isNull_of_admits hadmits
  | enum _ => rfl
  | list _ => rfl
  | typed _ => rfl
  | dynamic _ _ _ _ _ => rfl

end Conforms

/-- A type that differs from another only by excluding null in more layers. -/
inductive SchemaType.Stricter : SchemaType → SchemaType → Prop
  | named {t : NamedType} {strict loose : Bool} (null : loose = true → strict = true) :
      Stricter (.named t strict) (.named t loose)
  | list {of of' : SchemaType} {strict loose : Bool} (null : loose = true → strict = true)
      (inside : Stricter of of') : Stricter (.list of strict) (.list of' loose)

namespace SchemaType.Stricter

variable {t u : SchemaType}

theorem refl (t : SchemaType) : Stricter t t := by
  induction t with
  | named t required => exact .named id
  | list of required ih => exact .list id ih

theorem nullable (t : SchemaType) : Stricter t t.nullable := by
  cases t with
  | named t required => exact .named (fun h => by cases h)
  | list of required => exact .list (fun h => by cases h) (refl of)

/-- Where the stricter type allows null, so does the other. -/
theorem isNonNull_eq_false (h : Stricter t u) (ht : t.isNonNull = false) :
    u.isNonNull = false := by
  have hle : u.isNonNull = true → t.isNonNull = true := by
    cases h with
    | named hnull => exact hnull
    | list hnull _ => exact hnull
  cases hu : u.isNonNull with
  | false => rfl
  | true => exact (hle hu).symm.trans ht

end SchemaType.Stricter

namespace Conforms

variable {s : Schema} {t u : SchemaType} {v : Coerced}

/-- **A value of a stricter type** is one of the type. -/
theorem of_stricter (hle : t.Stricter u) (h : Conforms s t v) : Conforms s u v := by
  induction hle generalizing v with
  | named hnull =>
      cases h with
      | null hnullable => exact .null ((SchemaType.Stricter.named hnull).isNonNull_eq_false hnullable)
      | scalar hadmits => exact .scalar hadmits
      | enum hdeclared => exact .enum hdeclared
      | typed shape => exact .typed shape
      | dynamic shape ordered distinct resolved each =>
          exact .dynamic shape ordered distinct resolved each
  | list hnull inside ih =>
      cases h with
      | null hnullable =>
          exact .null ((SchemaType.Stricter.list hnull inside).isNonNull_eq_false hnullable)
      | list each => exact .list fun w hw => ih (each w hw)

/-- **Null is all that a `!` takes away.** -/
theorem of_nullable (h : Conforms s t.nullable v) (hv : v.isNull = true → t.isNonNull = false) :
    Conforms s t v := by
  cases hnull : v.isNull with
  | true =>
      cases v with
      | null => exact .null (hv rfl)
      | _ => cases hnull
  | false =>
      cases t with
      | named t required =>
          cases h with
          | null _ => cases hnull
          | scalar hadmits => exact .scalar hadmits
          | enum hdeclared => exact .enum hdeclared
          | typed shape => exact .typed shape
          | dynamic shape ordered distinct resolved each =>
              exact .dynamic shape ordered distinct resolved each
      | list of required =>
          cases h with
          | null _ => cases hnull
          | list each => exact .list each

/-! ## 2. Input objects -/

variable {α : Type} {coerce : SchemaType → α → Except ResolutionError Coerced}
  {entries : List (String × α)}

/-- An entry that is read comes from the field of its name. -/
theorem readEntry_of_mem {o : InputObjectType} (hdistinct : (o.fields.map (·.name)).Nodup)
    {f : InputField} (hf : f ∈ o.fields) {value : Coerced}
    (h : (f.name, value) ∈
      o.fields.filterMap (InputObjectType.entryOf (s.readEntry coerce entries))) :
    s.readEntry coerce entries f = .ok (some value) := by
  obtain ⟨g, hg, hentry⟩ := List.mem_filterMap.1 h
  obtain ⟨hname, hread⟩ := InputObjectType.entryOf_eq_some.1 hentry
  have hgf : g = f := List.inj_on_of_nodup_map hdistinct hg hf hname
  exact hgf ▸ hread

/-- **An input object whose fields are read to values of their types is one of its own.** -/
theorem of_assemble {o : InputObjectType} (required : Bool)
    (hdistinct : (o.fields.map (·.name)).Nodup)
    (hread : ∀ f ∈ o.fields, ∀ value t w, entries.lookup f.name = some value →
      s.resolve .input f.type = some t → coerce t value = .ok w → Conforms s t w)
    (h : o.assemble (s.readEntry coerce entries) = .ok v) :
    Conforms s (.named (.inputObject o) required) v := by
  match hshape : o.record with
  | .typed host members setters =>
      obtain ⟨held, rfl⟩ := InputObjectType.assemble_typed hshape h
      exact .typed hshape
  | .dynamic =>
      rw [InputObjectType.assemble_dynamic hshape hdistinct h]
      have hordered :=
        InputObjectType.names_entries_sublist (s.readEntry coerce entries) o.fields
      refine .dynamic hshape hordered (hordered.nodup hdistinct) ?_ ?_
      · intro f hf hname
        obtain ⟨⟨key, value⟩, hmem, hkey⟩ := List.mem_map.1 hname
        have hkey : key = f.name := hkey
        subst hkey
        obtain ⟨-, t, -, ht, -⟩ :=
          Schema.readEntry_eq_some.1 (readEntry_of_mem hdistinct hf hmem)
        rw [ht]
        rfl
      · intro f hf value t hmem ht
        obtain ⟨given, t', hgiven, ht', hvalue⟩ :=
          Schema.readEntry_eq_some.1 (readEntry_of_mem hdistinct hf hmem)
        obtain rfl : t' = t := Option.some.inj (ht'.symm.trans ht)
        exact hread f hf given t' value hgiven ht' hvalue

end Conforms

end TypedQuery
