import TypedQuery.Proofs.Coercion.Conforms
import TypedQuery.Proofs.Coercion.Position

/-!
# The two coercions agree

A literal without variables has a raw image, in which an enumeration value is the string of its
name. Where no list stands directly in a list, reading the image gives what reading the literal
gives: only the depth limit may come in between, since the two count the levels differently.

* `coerceLiteral_congr` -- coercion looks up only the variables that stand in the literal;
* `Schema.Flat` -- no list directly in a list, in a type expression and in all input fields that
  are reached from it;
* `coerceRaw_yields` -- **the raw image of a literal gives the value of the literal**, up to the
  depth limit.
-/

namespace TypedQuery

open SchemaType

/-! ## 1. Variables of a literal -/

namespace Literal

mutual

/-- The names of the variables in a literal. -/
def variableNames : Literal → List String
  | .variable name => [name]
  | .list items => namesOfItems items
  | .object entries => namesOfEntries entries
  | .int _ | .float _ | .string _ | .boolean _ | .enum _ | .null => []

/-- The names of the variables in items. -/
def namesOfItems : List Literal → List String
  | [] => []
  | item :: rest => item.variableNames ++ namesOfItems rest

/-- The names of the variables in the values of entries. -/
def namesOfEntries : List (String × Literal) → List String
  | [] => []
  | (_, value) :: rest => value.variableNames ++ namesOfEntries rest

end

theorem mem_namesOfItems {items : List Literal} {item : Literal} (hitem : item ∈ items)
    {name : String} (hname : name ∈ item.variableNames) : name ∈ namesOfItems items := by
  induction items with
  | nil => cases hitem
  | cons first rest ih =>
      rw [namesOfItems, List.mem_append]
      rcases List.mem_cons.1 hitem with rfl | hrest
      · exact .inl hname
      · exact .inr (ih hrest)

theorem mem_namesOfEntries {entries : List (String × Literal)} {key : String} {value : Literal}
    (hvalue : entries.lookup key = some value) {name : String}
    (hname : name ∈ value.variableNames) : name ∈ namesOfEntries entries := by
  obtain ⟨before, after, rfl, -⟩ := List.lookup_eq_some_iff.1 hvalue
  clear hvalue
  induction before with
  | nil =>
      rw [List.nil_append, namesOfEntries, List.mem_append]
      exact .inl hname
  | cons p before ih =>
      obtain ⟨other, held⟩ := p
      rw [List.cons_append, namesOfEntries, List.mem_append]
      exact .inr ih

/-- The items of a list without variables have none. -/
theorem constant_of_mem {items : List Literal} (h : (Literal.list items).variableNames = [])
    {item : Literal} (hitem : item ∈ items) : item.variableNames = [] := by
  refine List.eq_nil_iff_forall_not_mem.2 fun name hname => ?_
  have hmem := mem_namesOfItems hitem hname
  rw [variableNames] at h
  rw [h] at hmem
  cases hmem

/-- The values of an object without variables have none. -/
theorem constant_of_lookup {entries : List (String × Literal)}
    (h : (Literal.object entries).variableNames = []) {key : String} {value : Literal}
    (hvalue : entries.lookup key = some value) : value.variableNames = [] := by
  refine List.eq_nil_iff_forall_not_mem.2 fun name hname => ?_
  have hmem := mem_namesOfEntries hvalue hname
  rw [variableNames] at h
  rw [h] at hmem
  cases hmem

end Literal

section Congruence

variable {s : Schema} {lookup lookup' : VariableLookup}

/-- A literal at a list type, if neither its reading as a member nor that of its items changes. -/
theorem coerceLiteral_list_congr {room : Nat} {of : SchemaType} {required : Bool} {l : Literal}
    (hl : l.isProper = true)
    (hprobe : coerceLiteral s lookup room of l = coerceLiteral s lookup' room of l)
    (hitems : ∀ items, l = .list items → items.mapM (coerceLiteral s lookup room of) =
      items.mapM (coerceLiteral s lookup' room of)) :
    coerceLiteral s lookup (room + 1) (.list of required) l =
      coerceLiteral s lookup' (room + 1) (.list of required) l := by
  cases hattempt : coerceLiteral s lookup room of l with
  | ok v =>
      have hv := isNull_of_isProper hl hattempt
      rw [coerceLiteral_single required hl hattempt hv,
        coerceLiteral_single required hl (hprobe.symm.trans hattempt) hv]
  | error e =>
      have hattempt' := hprobe.symm.trans hattempt
      cases hlist : l.isList with
      | false =>
          rw [coerceLiteral_probeFails required hl hlist hattempt,
            coerceLiteral_probeFails required hl hlist hattempt']
      | true =>
          cases l with
          | list items =>
              rw [coerceLiteral_items required (fun v hv => by rw [hattempt] at hv; cases hv),
                coerceLiteral_items required (fun v hv => by rw [hattempt'] at hv; cases hv),
                hitems items rfl]
          | _ => cases hlist

/-- **Only the variables that stand in a literal are looked up.** -/
theorem coerceLiteral_congr {room : Nat} {t : SchemaType} {l : Literal}
    (h : ∀ name ∈ l.variableNames, lookup name = lookup' name) :
    coerceLiteral s lookup room t l = coerceLiteral s lookup' room t l := by
  induction room generalizing t l with
  | zero => rfl
  | succ room ih =>
      cases hl : l.isProper with
      | false =>
          cases l with
          | «variable» name =>
              have hname : lookup name = lookup' name := h name List.mem_cons_self
              simp only [coerceLiteral, hname]
          | null => rfl
          | _ => cases hl
      | true =>
          cases t with
          | list of required =>
              refine coerceLiteral_list_congr hl (ih h) ?_
              rintro items rfl
              refine sequential_eq.items fun item hitem => ih fun name hname => ?_
              exact h name (Literal.mem_namesOfItems hitem hname)
          | named t required =>
              cases t with
              | inputObject o =>
                  cases l with
                  | object entries =>
                      rw [coerceLiteral_object, coerceLiteral_object]
                      refine Schema.assemble_readEntry_related sequential_eq ?_
                      intro f _ value ft hvalue _
                      exact ih fun name hname => h name (Literal.mem_namesOfEntries hvalue hname)
                  | «variable» _ => cases hl
                  | null => cases hl
                  | _ => rfl
              | _ => cases l <;> first | rfl | cases hl

end Congruence

/-! ## 2. Raw images -/

namespace Literal

mutual

/-- The raw value with the same content: an enumeration value is the string of its name. A
    variable has no content of its own and counts as null. -/
def raw : Literal → Raw
  | .variable _ => .null
  | .int n => .int n
  | .float x => .float x
  | .string s => .string s
  | .boolean b => .boolean b
  | .enum name => .string name
  | .null => .null
  | .list items => .list (rawOfItems items)
  | .object entries => .object (rawOfEntries entries)

/-- The images of items. -/
def rawOfItems : List Literal → List Raw
  | [] => []
  | item :: rest => item.raw :: rawOfItems rest

/-- The images of entries, under their keys. -/
def rawOfEntries : List (String × Literal) → List (String × Raw)
  | [] => []
  | (key, value) :: rest => (key, value.raw) :: rawOfEntries rest

end

theorem rawOfItems_eq (items : List Literal) : rawOfItems items = items.map raw := by
  induction items with
  | nil => rfl
  | cons item rest ih => rw [rawOfItems, ih, List.map_cons]

theorem lookup_rawOfEntries (entries : List (String × Literal)) (key : String) :
    (rawOfEntries entries).lookup key = (entries.lookup key).map raw := by
  induction entries with
  | nil => rfl
  | cons p rest ih =>
      obtain ⟨other, value⟩ := p
      rw [rawOfEntries, List.lookup_cons, List.lookup_cons, ih]
      cases key == other <;> rfl

end Literal

/-- A scalar reads the image of a literal as it reads the literal. -/
theorem ScalarKind.ofRaw?_raw {kind : ScalarKind} {l : Literal} {v : Coerced}
    (hl : l.isProper = true) (h : kind.ofLiteral? l = some v) : kind.ofRaw? l.raw = some v := by
  cases l with
  | «variable» _ => cases hl
  | null => cases hl
  | _ => cases kind <;> first | exact h | cases h

/-! ## 3. Lists directly in lists -/

/-- How many lists stand around the inner name. -/
def TypeExpr.listLayers : TypeExpr → Nat
  | .named _ => 0
  | .list of => of.listLayers + 1
  | .nonNull of => of.listLayers

namespace SchemaType

/-- How many lists stand around the named type. -/
def listLayers : SchemaType → Nat
  | .named _ _ => 0
  | .list of _ => of.listLayers + 1

theorem listLayers_nullable (t : SchemaType) : t.nullable.listLayers = t.listLayers := by
  cases t <;> rfl

theorem Within.listLayers_le {t u : SchemaType} (h : Within t u) :
    t.listLayers ≤ u.listLayers := by
  induction h with
  | refl => exact Nat.le_refl _
  | inside _ ih =>
      rw [listLayers]
      omega

/-- A list within a type of one list layer is that type, and its member is a named type. -/
theorem Within.eq_of_listLayers_le_one {of u : SchemaType} {required : Bool}
    (h : Within (.list of required) u) (hu : u.listLayers ≤ 1) :
    .list of required = u ∧ ∃ t required', of = .named t required' := by
  have hle := h.listLayers_le
  rw [listLayers] at hle
  refine ⟨?_, ?_⟩
  · cases h with
    | refl => rfl
    | inside hin =>
        have hin := hin.listLayers_le
        rw [listLayers] at hin hu
        omega
  · cases of with
    | named t required' => exact ⟨t, required', rfl⟩
    | list of required' =>
        rw [listLayers] at hle
        omega

end SchemaType

namespace Schema

variable {s : Schema} {space : Namespace} {e e' : TypeExpr} {t : SchemaType}

theorem listLayers_of_resolve (h : s.resolve space e = some t) :
    t.listLayers = e.listLayers := by
  induction e generalizing t with
  | named name =>
      rw [resolve_named, Option.map_eq_some_iff] at h
      obtain ⟨u, -, rfl⟩ := h
      rfl
  | list of ih =>
      rw [resolve_list, Option.map_eq_some_iff] at h
      obtain ⟨u, hu, rfl⟩ := h
      rw [SchemaType.listLayers, TypeExpr.listLayers, ih hu]
  | nonNull of ih =>
      obtain ⟨u, hu, hnonNull⟩ := resolve_nonNull.1 h
      obtain ⟨-, -, rfl⟩ := SchemaType.nonNull?_eq_ok_iff.1 hnonNull
      rw [TypeExpr.listLayers, ← SchemaType.listLayers_nullable, ih hu]

/-- The type expressions of all input fields that are reached from an expression, and itself. -/
inductive Reaches (s : Schema) : TypeExpr → TypeExpr → Prop
  | refl {e : TypeExpr} : Reaches s e e
  | field {e e' : TypeExpr} {o : InputObjectType} {f : InputField}
      (type : s.inputObject? e.innerName = some o) (declared : f ∈ o.fields)
      (rest : Reaches s f.type e') : Reaches s e e'

/-- **No list stands directly in a list**, in the expression and in all that it reaches. -/
def Flat (s : Schema) (e : TypeExpr) : Prop := ∀ e', s.Reaches e e' → e'.listLayers ≤ 1

namespace Flat

theorem listLayers_le (h : s.Flat e) (he : s.resolve space e = some t) : t.listLayers ≤ 1 := by
  rw [listLayers_of_resolve he]
  exact h e .refl

/-- The fields of a flat input object are flat. -/
theorem field (h : s.Flat e) {o : InputObjectType} (ho : s.inputObject? e.innerName = some o)
    {f : InputField} (hf : f ∈ o.fields) : s.Flat f.type :=
  fun e' he' => h e' (.field ho hf he')

/-- The member of a flat list is flat. -/
theorem member (h : s.Flat e) (hmember : e.member? = some e') : s.Flat e' := by
  have hinner : e'.innerName = e.innerName ∧ e'.listLayers ≤ e.listLayers := by
    match e, hmember with
    | .list of, rfl => exact ⟨rfl, Nat.le_succ _⟩
    | .nonNull (.list of), rfl => exact ⟨rfl, Nat.le_succ _⟩
  intro e'' hreach
  cases hreach with
  | refl => exact Nat.le_trans hinner.2 (h e .refl)
  | field ho hf hrest =>
      rw [hinner.1] at ho
      exact h.field ho hf e'' hrest

/-- A depth limit is no matter of flatness. -/
theorem withMaxDepth (h : s.Flat e) (m : Nat) : (s.withMaxDepth m).Flat e := by
  intro e' hreach
  refine h e' ?_
  clear h
  induction hreach with
  | refl => exact .refl
  | field ho hf _ ih => exact .field ho hf ih

end Flat

theorem inputObject?_eq_some {name : String} {o : InputObjectType} :
    s.inputObject? name = some o ↔ s.named? .input name = some (.inputObject o) := by
  unfold inputObject?
  split <;> simp_all

/-- The input object under all layers of a type that an expression stands for. -/
theorem inputObject?_of_resolve (h : s.resolve .input e = some t) {o : InputObjectType}
    (ho : t.namedType = .inputObject o) : s.inputObject? e.innerName = some o := by
  rw [inputObject?_eq_some, namedType_of_resolve h, ho]

end Schema

/-! ## 4. Agreement -/

section Agreement

variable {s : Schema} {lookup : VariableLookup} {room : Nat}

/-- **How the reading of a record carries over** from one coercion to another: each field that is
    supplied to one is supplied to the other, and what the one gives, the other yields. -/
theorem Schema.assemble_yields {α β : Type} {e : ResolutionError} {o : InputObjectType}
    {coerce : SchemaType → α → Except ResolutionError Coerced} {entries : List (String × α)}
    {coerce' : SchemaType → β → Except ResolutionError Coerced} {entries' : List (String × β)}
    {R : InputField → α → β → Prop} {v : Coerced}
    (hsupplied : ∀ f ∈ o.fields,
      Option.Rel (R f) (entries.lookup f.name) (entries'.lookup f.name))
    (hcoerce : ∀ f ∈ o.fields, ∀ value value' t w, entries.lookup f.name = some value →
      R f value value' → s.resolve .input f.type = some t → coerce t value = .ok w →
        YieldsUpTo e (coerce' t value') w)
    (h : o.assemble (s.readEntry coerce entries) = .ok v) :
    YieldsUpTo e (o.assemble (s.readEntry coerce' entries')) v := by
  refine InputObjectType.assemble_related (sequential_yieldsUpTo e) ?_ v h
  intro f hf found hfound
  have hrel := hsupplied f hf
  cases found with
  | none =>
      have hnone := readEntry_eq_none.1 hfound
      rw [hnone] at hrel
      generalize hlookup : entries'.lookup f.name = looked at hrel
      cases hrel
      exact .inl (readEntry_of_lookup_none hlookup)
  | some w =>
      obtain ⟨value, t, hvalue, ht, hw⟩ := readEntry_eq_some.1 hfound
      rw [hvalue] at hrel
      generalize hlookup : entries'.lookup f.name = looked at hrel
      cases hrel with
      | some hR =>
          rw [readEntry_of_lookup_some hlookup ht]
          exact (hcoerce f hf value _ t w hvalue hR ht hw).map some

/-- A raw value that is neither null nor a list is the only member of a list. -/
theorem coerceRaw_single {of : SchemaType} {required : Bool} {l : Literal}
    (hl : l.isProper = true) (hlist : l.isList = false) :
    coerceRaw s (room + 1) (.list of required) l.raw =
      (coerceRaw s room of l.raw).map fun value => .list [value] := by
  cases l with
  | «variable» _ => cases hl
  | null => cases hl
  | list _ => cases hlist
  | _ => rfl

/-- **The raw image of a literal gives the value of the literal**, up to the depth limit, at each
    type within a flat one. -/
theorem coerceRaw_yields {room' : Nat} {e : TypeExpr} {position t : SchemaType} {l : Literal}
    {v : Coerced} (hposition : s.resolve .input e = some position) (hflat : s.Flat e)
    (hwithin : t.Within position) (hconst : l.variableNames = [])
    (h : coerceLiteral s lookup room t l = .ok v) :
    YieldsUpTo (.depthLimitExceeded s.limits.maxDepth) (coerceRaw s room' t l.raw) v := by
  induction room generalizing room' e position t l v with
  | zero => cases h
  | succ room ih =>
      cases room' with
      | zero => exact .inr rfl
      | succ room' =>
          cases coerceLiteral_cases h with
          | isVariable _ _ => cases hconst
          | isNull hnullable =>
              refine .inl ?_
              show t.ofNull = _
              exact ofNull_eq_ok.2 ⟨hnullable, rfl⟩
          | @scalar k required _ _ hproper hread =>
              refine .inl ?_
              have hscalar : coerceRaw s (room' + 1) (.named (.scalar k) required) l.raw =
                  k.ofRaw l.raw := by
                cases l <;> first | rfl | cases hproper
              rw [hscalar]
              exact orMismatch_eq_ok.2 (ScalarKind.ofRaw?_raw hproper hread)
          | enum hdeclared =>
              exact .inl (orMismatch_eq_ok.2 (EnumType.value?_eq_some.2 ⟨hdeclared, rfl⟩))
          | @object o required entries _ hread =>
              show YieldsUpTo _ (coerceRaw s (room' + 1) (.named (.inputObject o) required)
                (.object (Literal.rawOfEntries entries))) v
              by_cases hroom : room' = 0
              · subst hroom
                exact .inr rfl
              rw [coerceRaw_object o required _ hroom]
              have ho := Schema.inputObject?_of_resolve hposition hwithin.namedType_eq.symm
              refine Schema.assemble_yields (R := fun _ value image => image = value.raw) ?_ ?_ hread
              · intro f _
                rw [Literal.lookup_rawOfEntries]
                cases entries.lookup f.name with
                | none => exact .none
                | some value => exact .some rfl
              · rintro f hf value _ ft w hvalue rfl hft hw
                have hconst' := Literal.constant_of_lookup hconst hvalue
                exact ih hft (hflat.field ho hf) .refl hconst' hw
          | @single of required _ w hproper hread _ =>
              obtain ⟨-, t, required', rfl⟩ :=
                hwithin.eq_of_listLayers_le_one (hflat.listLayers_le hposition)
              cases hlist : l.isList with
              | true =>
                  cases l with
                  | list items => exact absurd hread (coerceLiteral_list_ne_ok t required' items w)
                  | _ => cases hlist
              | false =>
                  rw [coerceRaw_single hproper hlist]
                  exact (ih hposition hflat hwithin.member hconst hread).map
                    fun value => Coerced.list [value]
          | @items of required items values _ hread =>
              show YieldsUpTo _ (((Literal.rawOfItems items).mapM (coerceRaw s room' of)).map
                Coerced.list) _
              refine YieldsUpTo.map (.items ?_) Coerced.list
              rw [Literal.rawOfItems_eq, List.forall₂_map_left_iff]
              have hall := (List.forall₂_and_left items values).2
                ⟨fun item hitem => Literal.constant_of_mem hconst hitem, mapM_eq_ok_iff.1 hread⟩
              refine hall.imp fun item w ⟨hconst', hw⟩ => ?_
              exact ih hposition hflat hwithin.member hconst' hw

end Agreement

end TypedQuery
