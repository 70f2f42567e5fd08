import TypedQuery.Coercion.Variable
import TypedQuery.Proofs.Coercion.Members

/-!
# What a type expression stands for

The layers of a type expression are the layers of the type that it resolves to.

* `Schema.namedType_of_resolve` -- the named type under all layers is the one of the inner name;
* `Schema.resolve_nonNull` -- a `!` excludes null from a type that admits it;
* `Schema.member?_of_resolve` -- a list of a type is a list of what its member stands for;
* `Schema.isSome_resolve` -- **what resolves**: an expression whose name is known and in which no
  `!` stands on a `!`;
* `Resolver.declaredType_eq_ok_iff` -- **a variable's declared type is what the schema resolves**;
* `Resolver.resolve_cases` -- all ways in which a variable has a value.
-/

namespace TypedQuery

/-- The type of the items, if the expression is a list, with `!` or without. -/
def TypeExpr.member? : TypeExpr → Option TypeExpr
  | .list of => some of
  | .nonNull (.list of) => some of
  | _ => none

/-- Whether no `!` stands directly on a `!`. -/
def TypeExpr.excludesNullOnce : TypeExpr → Bool
  | .named _ => true
  | .list of => of.excludesNullOnce
  | .nonNull of => !of.isNonNull && of.excludesNullOnce

namespace SchemaType

/-- The type with null admitted. -/
def nullable : SchemaType → SchemaType
  | .named t _ => .named t false
  | .list of _ => .list of false

@[simp] theorem isNonNull_nullable (t : SchemaType) : t.nullable.isNonNull = false := by
  cases t <;> rfl

@[simp] theorem namedType_nullable (t : SchemaType) : t.nullable.namedType = t.namedType := by
  cases t <;> rfl

@[simp] theorem member?_nullable (t : SchemaType) : t.nullable.member? = t.member? := by
  cases t <;> rfl

/-- The items of a list have the named type of the list. -/
theorem namedType_of_member? {t inner : SchemaType} (h : t.member? = some inner) :
    t.namedType = inner.namedType := by
  cases t with
  | named t required => cases h
  | list of required =>
      cases h
      rfl

/-- Null is excluded from a type that admits it, and nothing else changes. -/
theorem nonNull?_eq_ok_iff {t u : SchemaType} :
    t.nonNull? = .ok u ↔ t.isNonNull = false ∧ u.isNonNull = true ∧ t = u.nullable := by
  match t, u with
  | .named t false, .named u true => simp [nonNull?, isNonNull, nullable]
  | .list t false, .list u true => simp [nonNull?, isNonNull, nullable]
  | .named t true, u => simp [nonNull?, isNonNull]
  | .list t true, u => simp [nonNull?, isNonNull]
  | .named t false, .named u false => simp [nonNull?, isNonNull]
  | .list t false, .list u false => simp [nonNull?, isNonNull]
  | .named t false, .list u r => simp [nonNull?, nullable]
  | .list t false, .named u r => simp [nonNull?, nullable]

end SchemaType

namespace Schema

variable {s : Schema} {space : Namespace}

/-- A `!` resolves where the type under it resolves and admits null. -/
theorem resolve_nonNull {of : TypeExpr} {t : SchemaType} :
    s.resolve space (.nonNull of) = some t ↔
      ∃ u, s.resolve space of = some u ∧ u.nonNull? = .ok t := by
  unfold resolve
  rw [TypeExpr.resolve]
  cases of.resolve (s.named? space) with
  | none => simp
  | some u => cases hu : u.nonNull? <;> simp [hu]

/-- **The named type under all layers** is the one of the inner name. -/
theorem namedType_of_resolve {e : TypeExpr} {t : SchemaType}
    (h : s.resolve space e = some t) : s.named? space e.innerName = some t.namedType := by
  induction e generalizing t with
  | named name =>
      rw [resolve_named, Option.map_eq_some_iff] at h
      obtain ⟨u, hu, rfl⟩ := h
      exact hu
  | list of ih =>
      rw [resolve_list, Option.map_eq_some_iff] at h
      obtain ⟨u, hu, rfl⟩ := h
      rw [TypeExpr.innerName, SchemaType.namedType]
      exact ih hu
  | nonNull of ih =>
      obtain ⟨u, hu, hnonNull⟩ := resolve_nonNull.1 h
      obtain ⟨-, -, rfl⟩ := SchemaType.nonNull?_eq_ok_iff.1 hnonNull
      rw [TypeExpr.innerName, ← SchemaType.namedType_nullable t]
      exact ih hu

/-- A type excludes null where its expression does. -/
theorem isNonNull_of_resolve {e : TypeExpr} {t : SchemaType} (h : s.resolve space e = some t) :
    t.isNonNull = e.isNonNull := by
  cases e with
  | named name =>
      rw [resolve_named, Option.map_eq_some_iff] at h
      obtain ⟨u, -, rfl⟩ := h
      rfl
  | list of =>
      rw [resolve_list, Option.map_eq_some_iff] at h
      obtain ⟨u, -, rfl⟩ := h
      rfl
  | nonNull of =>
      obtain ⟨u, -, hnonNull⟩ := resolve_nonNull.1 h
      exact (SchemaType.nonNull?_eq_ok_iff.1 hnonNull).2.1

/-- A `!` resolves where what is under it does and is no `!` itself. -/
theorem isSome_resolve_nonNull (s : Schema) (space : Namespace) (of : TypeExpr) :
    (s.resolve space (.nonNull of)).isSome = (!of.isNonNull && (s.resolve space of).isSome) := by
  cases hof : s.resolve space of with
  | none =>
      rw [Option.isSome_none, Bool.and_false, Option.isSome_eq_false_iff, Option.isNone_iff_eq_none,
        Option.eq_none_iff_forall_ne_some]
      intro t ht
      obtain ⟨u, hu, -⟩ := resolve_nonNull.1 ht
      rw [hof] at hu
      cases hu
  | some u =>
      rw [← isNonNull_of_resolve hof, Option.isSome_some, Bool.and_true, Bool.eq_iff_iff,
        Option.isSome_iff_exists]
      constructor
      · rintro ⟨t, ht⟩
        obtain ⟨u', hu', hnonNull⟩ := resolve_nonNull.1 ht
        obtain rfl : u = u' := Option.some.inj (hof.symm.trans hu')
        simp [(SchemaType.isNonNull_of_nonNull? hnonNull).1]
      · intro hnull
        cases u with
        | named t required =>
            cases required with
            | false => exact ⟨.named t true, resolve_nonNull.2 ⟨_, hof, rfl⟩⟩
            | true => cases hnull
        | list of required =>
            cases required with
            | false => exact ⟨.list of true, resolve_nonNull.2 ⟨_, hof, rfl⟩⟩
            | true => cases hnull

/-- **What resolves**: an expression whose name is known and that excludes null once a layer. -/
theorem isSome_resolve (s : Schema) (space : Namespace) (e : TypeExpr) :
    (s.resolve space e).isSome =
      ((s.named? space e.innerName).isSome && e.excludesNullOnce) := by
  induction e with
  | named name =>
      rw [resolve_named, Option.isSome_map]
      exact (Bool.and_true _).symm
  | list of ih =>
      rw [resolve_list, Option.isSome_map]
      exact ih
  | nonNull of ih =>
      rw [isSome_resolve_nonNull, ih, TypeExpr.innerName, TypeExpr.excludesNullOnce]
      exact Bool.and_left_comm _ _ _

/-- **The member of a list** is what the member of its expression stands for. -/
theorem member?_of_resolve {e : TypeExpr} {t : SchemaType} (h : s.resolve space e = some t) :
    t.member? = e.member?.bind (s.resolve space) := by
  have hlist : ∀ {of : TypeExpr} {u : SchemaType}, s.resolve space (.list of) = some u →
      u.member? = s.resolve space of := by
    intro of u hu
    rw [resolve_list, Option.map_eq_some_iff] at hu
    obtain ⟨member, hmember, rfl⟩ := hu
    exact hmember.symm
  match e, h with
  | .named name, h =>
      rw [resolve_named, Option.map_eq_some_iff] at h
      obtain ⟨u, hu, rfl⟩ := h
      rfl
  | .list of, h => exact hlist h
  | .nonNull of, h =>
      obtain ⟨u, hu, hnonNull⟩ := resolve_nonNull.1 h
      obtain ⟨hnull, -, rfl⟩ := SchemaType.nonNull?_eq_ok_iff.1 hnonNull
      match of, hu with
      | .named name, hu =>
          rw [resolve_named, Option.map_eq_some_iff] at hu
          obtain ⟨v, hv, heq⟩ := hu
          rw [← SchemaType.member?_nullable, ← heq]
          rfl
      | .list of, hu => exact (SchemaType.member?_nullable t).symm.trans (hlist hu)
      | .nonNull of, hu =>
          -- a second `!` has no type to stand on
          obtain ⟨v, -, hv⟩ := resolve_nonNull.1 hu
          have := (SchemaType.nonNull?_eq_ok_iff.1 hv).2.1
          simp at this

end Schema

/-- **A variable's declared type is what the schema resolves.** -/
theorem Resolver.declaredType_eq_ok_iff {r : Resolver} {e : TypeExpr} {t : SchemaType} :
    r.declaredType e = .ok t ↔ r.schema.resolve .input e = some t := by
  induction e generalizing t with
  | named name =>
      rw [declaredType, Schema.resolve_named]
      cases r.schema.named? .input name <;> simp
  | list of ih =>
      rw [declaredType, Schema.resolve_list, bind_eq_ok, Option.map_eq_some_iff]
      constructor
      · rintro ⟨u, hu, heq⟩
        cases heq
        exact ⟨u, ih.1 hu, rfl⟩
      · rintro ⟨u, hu, rfl⟩
        exact ⟨u, ih.2 hu, rfl⟩
  | nonNull of ih =>
      rw [declaredType, Schema.resolve_nonNull, bind_eq_ok]
      constructor
      · rintro ⟨u, hu, heq⟩
        split at heq
        · rename_i hnonNull
          cases heq
          exact ⟨u, ih.1 hu, hnonNull⟩
        · cases heq
      · rintro ⟨u, hu, hnonNull⟩
        refine ⟨u, ih.2 hu, ?_⟩
        rw [hnonNull]
        rfl

/-- **All ways in which a variable has a value**, given its definition and its type. -/
inductive Resolver.ValueStep (r : Resolver) (name : String) (d : VariableDefinition)
    (t : SchemaType) : Coerced → Prop
  | supplied {raw : Raw} {v : Coerced} (found : r.supplied.find? name = some raw)
      (read : r.schema.coerceRaw t raw = .ok v) : ValueStep r name d t v
  /-- No variable is bound in a default. -/
  | default {l : Literal} {v : Coerced} (missing : r.supplied.find? name = none)
      (declared : d.default = some l) (read : r.schema.coerceLiteral .none t l = .ok v) :
      ValueStep r name d t v
  | isNull (missing : r.supplied.find? name = none) (nullable : t.isNonNull = false) :
      ValueStep r name d t .null

/-- **A variable that has a value** is defined, with a type that resolves, and has its value in one
    of these ways. -/
theorem Resolver.resolve_cases {r : Resolver} {name : String} {v : Coerced}
    (h : r.resolve name = .ok v) :
    ∃ d t, r.definition? name = some d ∧ r.schema.resolve .input d.type = some t ∧
      r.ValueStep name d t v := by
  unfold resolve at h
  cases hd : r.definition? name with
  | none =>
      rw [hd] at h
      cases h
  | some d =>
      rw [hd] at h
      obtain ⟨t, ht, hvalue⟩ := bind_eq_ok.1 h
      refine ⟨d, t, rfl, declaredType_eq_ok_iff.1 ht, ?_⟩
      split at hvalue
      · rename_i hfound
        exact .supplied hfound hvalue
      · rename_i hmissing hdefault
        exact .default hmissing hdefault hvalue
      · rename_i hmissing hdefault
        split at hvalue
        · cases hvalue
        · rename_i hnull
          cases hvalue
          exact .isNull hmissing (Bool.eq_false_iff.2 hnull)

end TypedQuery
