import TypedQuery.Proofs.Coercion.Hosting
import TypedQuery.Proofs.Decimal.Widening

/-!
# Values that become one host value

A member of a host record may hold two values of a type as one. A list member takes what is no list
as its only item, null included; so where its items can hold null too, null and a list of one item
become the same. Values are lost in no other way, and whether a member keeps the values of a type
apart can be read off the two.

* `Coerced.Equality`, `HostValue.Alike` -- equal values before and after conversion, where equal may
  be the same or what a comparison finds equal;
* `MemberShape.Plain.convert_eq_ok_iff` -- all that a member makes of a value;
* `apart_of_named` -- the values of a named type are kept apart;
* `MemberShape.tellsApart` -- a test on a member and a type, with `apart_of_tellsApart` and
  `exists_of_not_tellsApart`, which say what it tells;
* `MemberShape.tellsApart_iff` -- **a member keeps the values of a type apart exactly if it passes
  the test**;
* `MemberShape.Fits.tellsApart` -- members that fit their types pass.
-/

namespace TypedQuery

/-! ## 1. Equal values -/

/-- An equality of coerced values. Doubles may be equal without being the same, and need not be
    equal to themselves; all else is equal as its parts are. -/
structure Coerced.Equality (E : Coerced → Coerced → Prop) : Prop where
  null : E .null .null
  int (n : Int64) : E (.int n) (.int n)
  boolean (b : Bool) : E (.boolean b) (.boolean b)
  string (s : String) : E (.string s) (.string s)
  enum (name : String) : E (.enum name) (.enum name)
  float {x y : Float} (h : E (.float x) (.float y)) : Decimal.valueOf x = Decimal.valueOf y
  list {as bs : List Coerced} : E (.list as) (.list bs) ↔ List.Forall₂ E as bs
  eq_null {v : Coerced} (h : E .null v ∨ E v .null) : v = .null

theorem Coerced.equality_eq : Coerced.Equality (· = ·) where
  null := rfl
  int _ := rfl
  boolean _ := rfl
  string _ := rfl
  enum _ := rfl
  float h := by
    cases h
    rfl
  list := by
    intro as bs
    rw [Coerced.list.injEq, List.forall₂_eq_eq_eq]
  eq_null h := by
    rcases h with h | h
    · exact h.symm
    · exact h

theorem Coerced.equality_sameAs (shared : Bool) :
    Coerced.Equality fun a b => a.sameAs shared b = true where
  null := rfl
  int n := by simp [Coerced.sameAs]
  boolean b := by simp [Coerced.sameAs]
  string s := by simp [Coerced.sameAs]
  enum name := by simp [Coerced.sameAs]
  float h := Decimal.valueOf_eq_of_beq h
  list := by
    intro as bs
    show Coerced.sameItems shared as bs = true ↔ _
    induction as generalizing bs with
    | nil => cases bs <;> simp [Coerced.sameItems]
    | cons a as ih => cases bs <;> simp [Coerced.sameItems, ih]
  eq_null h := by
    rename_i v
    cases v with
    | null => rfl
    | object name record => cases record <;> rcases h with h | h <;> cases h
    | _ => rcases h with h | h <;> cases h

/-- **Host values are equal** as far as the coerced values and doubles in them are. -/
inductive HostValue.Alike (E : Coerced → Coerced → Prop) : HostValue → HostValue → Prop
  | int (n : Int64) : Alike E (.int n) (.int n)
  | float {x y : Float} (h : E (.float x) (.float y)) : Alike E (.float x) (.float y)
  | boolean (b : Bool) : Alike E (.boolean b) (.boolean b)
  | text (s : String) : Alike E (.text s) (.text s)
  | coerced {v w : Coerced} (h : E v w) : Alike E (.coerced v) (.coerced w)
  | none : Alike E (.optional none) (.optional none)
  | some {a b : HostValue} (h : Alike E a b) : Alike E (.optional (some a)) (.optional (some b))
  | nil : Alike E (.list []) (.list [])
  | cons {a b : HostValue} {as bs : List HostValue} (h : Alike E a b)
      (rest : Alike E (.list as) (.list bs)) : Alike E (.list (a :: as)) (.list (b :: bs))

namespace HostValue

variable {E : Coerced → Coerced → Prop} {a b : HostValue}

theorem alike_list_iff {as bs : List HostValue} :
    Alike E (.list as) (.list bs) ↔ List.Forall₂ (Alike E) as bs := by
  constructor
  · intro h
    induction as generalizing bs with
    | nil =>
        cases h
        exact .nil
    | cons a as ih =>
        cases h with
        | cons h rest => exact .cons h (ih rest)
  · intro h
    induction h with
    | nil => exact .nil
    | cons h _ ih => exact .cons h ih

theorem eq_of_alike (h : Alike (· = ·) a b) : a = b := by
  induction h with
  | int n => rfl
  | float h =>
      cases h
      rfl
  | boolean b => rfl
  | text s => rfl
  | coerced h => rw [h]
  | none => rfl
  | some _ ih => rw [ih]
  | nil => rfl
  | cons _ _ ih ihrest =>
      cases ihrest
      rw [ih]

end HostValue

/-! ## 2. What a member holds -/

namespace MemberShape

/-- A member made of numbers, truth values, texts and coerced values, optional ones and lists. -/
inductive Plain : MemberShape → Prop
  | int32 : Plain .int32
  | int64 : Plain .int64
  | float : Plain .float
  | boolean : Plain .boolean
  | text : Plain .text
  | coerced : Plain .coerced
  | optional {of : MemberShape} (h : of.Plain) : Plain (.optional of)
  | list {of : MemberShape} (h : of.Plain) : Plain (.list of)

/-- What one layer of a plain member makes of a value. -/
inductive Converts : MemberShape → Coerced → HostValue → Prop
  | int32 {n : Int64} (fits : fitsInt32 n = true) : Converts .int32 (.int n) (.int n)
  | int64 (n : Int64) : Converts .int64 (.int n) (.int n)
  | float (x : Float) : Converts .float (.float x) (.float x)
  | widened (n : Int64) : Converts .float (.int n) (.float (Decimal.ofInt64 n))
  | boolean (b : Bool) : Converts .boolean (.boolean b) (.boolean b)
  | string (s : String) : Converts .text (.string s) (.text s)
  | enum (name : String) : Converts .text (.enum name) (.text name)
  | coerced (v : Coerced) : Converts .coerced v (.coerced v)
  | none {of : MemberShape} : Converts (.optional of) .null (.optional none)
  | some {of : MemberShape} {v : Coerced} {a : HostValue} (present : v ≠ .null)
      (inner : of.convert v = .ok a) : Converts (.optional of) v (.optional (some a))
  | items {of : MemberShape} {vs : List Coerced} {as : List HostValue}
      (each : List.Forall₂ (fun v a => of.convert v = .ok a) vs as) :
      Converts (.list of) (.list vs) (.list as)
  /-- What is no list is the only item. -/
  | single {of : MemberShape} {v : Coerced} {a : HostValue} (single : ∀ vs, v ≠ .list vs)
      (inner : of.convert v = .ok a) : Converts (.list of) v (.list [a])

/-- **All that a plain member makes of a value.** -/
theorem Plain.convert_eq_ok_iff {shape : MemberShape} (h : shape.Plain) {v : Coerced}
    {a : HostValue} : shape.convert v = .ok a ↔ shape.Converts v a := by
  constructor
  · intro hconvert
    cases h with
    | int32 =>
        cases v with
        | int n =>
            simp only [convert] at hconvert
            split at hconvert
            · rename_i hfits
              cases hconvert
              exact .int32 hfits
            · cases hconvert
        | _ => cases hconvert
    | int64 =>
        cases v with
        | int n =>
            cases hconvert
            exact .int64 n
        | _ => cases hconvert
    | float =>
        cases v with
        | int n =>
            cases hconvert
            exact .widened n
        | float x =>
            cases hconvert
            exact .float x
        | _ => cases hconvert
    | boolean =>
        cases v with
        | boolean b =>
            cases hconvert
            exact .boolean b
        | _ => cases hconvert
    | text =>
        cases v with
        | string s =>
            cases hconvert
            exact .string s
        | enum name =>
            cases hconvert
            exact .enum name
        | _ => cases hconvert
    | coerced =>
        cases hconvert
        exact .coerced v
    | optional h =>
        cases v with
        | null =>
            cases hconvert
            exact .none
        | _ =>
            obtain ⟨inner, hinner, rfl⟩ := map_eq_ok.1 hconvert
            exact .some (fun h => by cases h) hinner
    | list h =>
        cases v with
        | list items =>
            obtain ⟨inner, hinner, rfl⟩ := map_eq_ok.1 hconvert
            exact .items (mapM_eq_ok_iff.1 hinner)
        | _ =>
            obtain ⟨inner, hinner, rfl⟩ := map_eq_ok.1 hconvert
            exact .single (fun _ h => by cases h) hinner
  · intro hconverts
    cases hconverts with
    | int32 hfits => rw [convert, if_pos hfits]
    | some hpresent hinner =>
        cases v with
        | null => contradiction
        | _ => exact map_eq_ok.2 ⟨_, hinner, rfl⟩
    | items heach => exact map_eq_ok.2 ⟨_, mapM_eq_ok_iff.2 heach, rfl⟩
    | single hsingle hinner =>
        cases v with
        | list vs => exact absurd rfl (hsingle vs)
        | _ => exact map_eq_ok.2 ⟨_, hinner, rfl⟩
    | _ => rfl

end MemberShape

/-! ## 3. Values of named types -/

/-- Whether a type is a custom scalar, which has values of several kinds. -/
def NamedType.isCustom : NamedType → Bool
  | .scalar k => decide (k.kind = .custom)
  | _ => false

section Conversion

variable {s : Schema} {E : Coerced → Coerced → Prop} {shape : MemberShape}
variable {t : NamedType} {required : Bool} {v w : Coerced} {a b : HostValue}

/-- A list is a value of list types alone. -/
theorem Conforms.exists_list {u : SchemaType} {items : List Coerced}
    (h : Conforms s u (.list items)) :
    ∃ inner required, u = .list inner required ∧ ∀ v ∈ items, Conforms s inner v := by
  cases h with
  | @scalar k _ _ hadmits =>
      cases hkind : k.kind <;> rw [hkind] at hadmits <;> exact hadmits.elim
  | list each => exact ⟨_, _, rfl, each⟩

/-- No value of a named type is a list. -/
theorem Conforms.ne_list (h : Conforms s (.named t required) v) (items : List Coerced) :
    v ≠ .list items := by
  rintro rfl
  obtain ⟨inner, required, heq, -⟩ := h.exists_list
  cases heq

/-- The integers of a type that is no custom scalar have 32 bits. -/
theorem Conforms.fitsInt32 (ht : t.isCustom = false) {n : Int64}
    (h : Conforms s (.named t required) (.int n)) : fitsInt32 n = true := by
  cases h with
  | @scalar k _ _ hadmits =>
      cases hkind : k.kind <;> rw [hkind] at hadmits
      case int => exact hadmits
      case custom => simp [NamedType.isCustom, hkind] at ht
      all_goals exact hadmits.elim

/-- No type has integers and doubles, custom scalars excepted. -/
theorem not_int_and_float (ht : t.isCustom = false) {n : Int64} {x : Float}
    (hn : Conforms s (.named t required) (.int n)) :
    ¬ Conforms s (.named t required) (.float x) := by
  intro hx
  cases hn with
  | @scalar k _ _ hn =>
      cases hx with
      | scalar hx =>
          cases hkind : k.kind <;> rw [hkind] at hn hx
          case int => exact hx
          case custom => simp [NamedType.isCustom, hkind] at ht
          all_goals exact hn

/-- No type has texts and names of enumeration values. -/
theorem not_string_and_enum {text name : String}
    (hs : Conforms s (.named t required) (.string text)) :
    ¬ Conforms s (.named t required) (.enum name) := by
  intro he
  cases hs with
  | @scalar k _ _ hadmits =>
      cases he with
      | scalar hadmits' => cases hkind : k.kind <;> rw [hkind] at hadmits' <;> exact hadmits'

/-- **A plain member tells the values of a named type apart**, custom scalars excepted. -/
theorem apart_of_named (hE : Coerced.Equality E) (hshape : shape.Plain)
    (ht : t.isCustom = false) (hv : Conforms s (.named t required) v)
    (hw : Conforms s (.named t required) w) (ha : shape.convert v = .ok a)
    (hb : shape.convert w = .ok b) (h : a.Alike E b) : E v w := by
  -- doubles of integers are told apart since they are exact up to fifty-three digits
  have hsmall : ∀ {n : Int64}, Conforms s (.named t required) (.int n) →
      n.toInt.natAbs < 2 ^ 53 := by
    intro n hn
    have hfits := hn.fitsInt32 ht
    simp only [fitsInt32, Bool.and_eq_true, decide_eq_true_eq] at hfits
    omega
  induction hshape generalizing a b with
  | int32 | int64 =>
      cases (MemberShape.Plain.convert_eq_ok_iff (by constructor)).1 ha
      cases (MemberShape.Plain.convert_eq_ok_iff (by constructor)).1 hb
      cases h
      exact hE.int _
  | float =>
      cases MemberShape.Plain.float.convert_eq_ok_iff.1 ha with
      | float x =>
          cases MemberShape.Plain.float.convert_eq_ok_iff.1 hb with
          | float y =>
              cases h with
              | float h => exact h
          | widened m => exact absurd hv (not_int_and_float ht hw)
      | widened n =>
          cases MemberShape.Plain.float.convert_eq_ok_iff.1 hb with
          | float y => exact absurd hw (not_int_and_float ht hv)
          | widened m =>
              cases h with
              | float h =>
                  have heq : n = m :=
                    Decimal.eq_of_valueOf_ofInt64 (hsmall hv) (hsmall hw) (hE.float h)
                  rw [heq]
                  exact hE.int m
  | boolean =>
      cases MemberShape.Plain.boolean.convert_eq_ok_iff.1 ha
      cases MemberShape.Plain.boolean.convert_eq_ok_iff.1 hb
      cases h
      exact hE.boolean _
  | text =>
      cases MemberShape.Plain.text.convert_eq_ok_iff.1 ha with
      | string text =>
          cases MemberShape.Plain.text.convert_eq_ok_iff.1 hb with
          | string other =>
              cases h
              exact hE.string _
          | enum name => exact absurd hw (not_string_and_enum hv)
      | enum name =>
          cases MemberShape.Plain.text.convert_eq_ok_iff.1 hb with
          | string text => exact absurd hv (not_string_and_enum hw)
          | enum other =>
              cases h
              exact hE.enum _
  | coerced =>
      cases MemberShape.Plain.coerced.convert_eq_ok_iff.1 ha
      cases MemberShape.Plain.coerced.convert_eq_ok_iff.1 hb
      cases h with
      | coerced h => exact h
  | optional hof ih =>
      cases hof.optional.convert_eq_ok_iff.1 ha with
      | none =>
          cases hof.optional.convert_eq_ok_iff.1 hb with
          | none => exact hE.null
          | some _ _ => cases h
      | some _ hinner =>
          cases hof.optional.convert_eq_ok_iff.1 hb with
          | none => cases h
          | some _ hother =>
              cases h with
              | some h => exact ih hinner hother h
  | list hof ih =>
      cases hof.list.convert_eq_ok_iff.1 ha with
      | items _ => exact absurd rfl (hv.ne_list _)
      | single _ hinner =>
          cases hof.list.convert_eq_ok_iff.1 hb with
          | items _ => exact absurd rfl (hw.ne_list _)
          | single _ hother =>
              cases h with
              | cons h _ => exact ih hinner hother h

end Conversion

/-! ## 4. Null and lists -/

/-- The type without null. -/
def SchemaType.nonNullable : SchemaType → SchemaType
  | .named t _ => .named t true
  | .list of _ => .list of true

namespace MemberShape

/-- Whether a member holds null, on its own or as the only item of a list. -/
def acceptsNull : MemberShape → Bool
  | .coerced => true
  | .optional _ => true
  | .list of => of.acceptsNull
  | _ => false

/-- Whether a member holds null as it holds some value of a type. -/
def confusesNull : MemberShape → SchemaType → Bool
  | .coerced, t => !t.isNonNull
  | .optional _, t => !t.isNonNull
  | .list of, .named _ required => of.acceptsNull && !required
  | .list of, .list inner required => of.acceptsNull && !required || of.confusesNull inner
  | _, _ => false

/-- **Whether a member keeps the values of a type apart**: where a list member meets lists beside
    null, what holds its items must hold null as it holds no item. -/
def tellsApart : MemberShape → SchemaType → Bool
  | .optional of, t => of.tellsApart t.nonNullable
  | .list of, .list inner required => of.tellsApart inner && (required || !of.confusesNull inner)
  | _, _ => true

end MemberShape

section Lists

variable {s : Schema} {E : Coerced → Coerced → Prop} {shape : MemberShape} {t : SchemaType}
variable {v w : Coerced} {a b : HostValue}

namespace SchemaType

theorem namedType_nonNullable (t : SchemaType) : t.nonNullable.namedType = t.namedType := by
  cases t <;> rfl

theorem stricter_nonNullable (t : SchemaType) : t.nonNullable.Stricter t := by
  cases t with
  | named t required => exact .named fun _ => rfl
  | list of required => exact .list (fun _ => rfl) (.refl of)

end SchemaType

/-- A value that is not null is one of the type without null. -/
theorem Conforms.nonNullable (h : Conforms s t v) (hv : v ≠ .null) :
    Conforms s t.nonNullable v := by
  cases h with
  | null _ => contradiction
  | scalar hadmits => exact .scalar hadmits
  | enum hdeclared => exact .enum hdeclared
  | list each => exact .list each
  | typed shape => exact .typed shape
  | dynamic shape ordered distinct resolved each =>
      exact .dynamic shape ordered distinct resolved each

/-- A value of the type without null is not null. -/
theorem Conforms.ne_null (h : Conforms s t.nonNullable v) : v ≠ .null := by
  rintro rfl
  have hnull := h.isNull_of_isNonNull (by cases t <;> rfl)
  cases hnull

theorem null_ne_list (vs : List Coerced) : Coerced.null ≠ .list vs := by
  intro h
  cases h

/-- What is equal to a list of one item is one. -/
theorem eq_singleton_of_alike {bs : List HostValue}
    (h : HostValue.Alike E (.list [a]) (.list bs) ∨ HostValue.Alike E (.list bs) (.list [a])) :
    ∃ b, bs = [b] ∧ (a.Alike E b ∨ b.Alike E a) := by
  rcases h with h | h
  · cases h with
    | cons h rest =>
        cases rest
        exact ⟨_, rfl, .inl h⟩
  · cases h with
    | cons h rest =>
        cases rest
        exact ⟨_, rfl, .inr h⟩

/-- Null is held exactly if the member takes it, and then equal to itself. -/
theorem acceptsNull_of_convert (hshape : shape.Plain) (h : shape.convert .null = .ok a) :
    shape.acceptsNull = true := by
  induction hshape generalizing a with
  | coerced | optional _ _ => rfl
  | list hof ih =>
      cases hof.list.convert_eq_ok_iff.1 h with
      | single _ hinner => exact ih hinner
  | _ => cases h

theorem exists_convert_null (hE : Coerced.Equality E) (hshape : shape.Plain)
    (h : shape.acceptsNull = true) : ∃ a, shape.convert .null = .ok a ∧ a.Alike E a := by
  induction hshape with
  | coerced => exact ⟨_, rfl, .coerced hE.null⟩
  | optional _ _ => exact ⟨_, rfl, .none⟩
  | list hof ih =>
      obtain ⟨a, ha, halike⟩ := ih h
      exact ⟨_, hof.list.convert_eq_ok_iff.2 (.single null_ne_list ha), .cons halike .nil⟩
  | _ => cases h

/-- Null is a value of the types that admit it. -/
theorem Conforms.isNonNull_of_null (h : Conforms s t .null) : t.isNonNull = false :=
  Bool.eq_false_iff.2 fun ht => Bool.noConfusion (h.isNull_of_isNonNull ht)

/-- A list that is held as null is has one item, and the item is held as null is. -/
theorem exists_of_alike_list {of : MemberShape} (hof : of.Plain) {ws : List Coerced}
    (ha : (MemberShape.list of).convert .null = .ok a)
    (hb : (MemberShape.list of).convert (.list ws) = .ok b) (h : a.Alike E b ∨ b.Alike E a) :
    ∃ w a b, ws = [w] ∧ of.convert .null = .ok a ∧ of.convert w = .ok b ∧
      (a.Alike E b ∨ b.Alike E a) := by
  cases hof.list.convert_eq_ok_iff.1 ha with
  | single _ hnull =>
      cases hof.list.convert_eq_ok_iff.1 hb with
      | single hsingle _ => exact absurd rfl (hsingle ws)
      | items each =>
          obtain ⟨b, rfl, halike⟩ := eq_singleton_of_alike h
          cases each with
          | cons hw rest =>
              cases rest
              exact ⟨_, _, b, rfl, hnull, hw, halike⟩

theorem confusesNull_of_acceptsNull (h : shape.acceptsNull = true) (ht : t.isNonNull = false) :
    shape.confusesNull t = true := by
  cases shape with
  | coerced | optional _ =>
      rw [MemberShape.confusesNull, ht]
      rfl
  | list of =>
      have hof : of.acceptsNull = true := h
      cases t with
      | named _ _ => simpa [MemberShape.confusesNull, hof, SchemaType.isNonNull] using ht
      | list _ _ => simpa [MemberShape.confusesNull, hof] using .inl ht
  | _ => cases h

/-- **What is held as null is, the test finds.** -/
theorem confusesNull_of_alike (hE : Coerced.Equality E) (hshape : shape.Plain)
    (ht : t.namedType.isCustom = false) (hw : Conforms s t w) (ha : shape.convert .null = .ok a)
    (hb : shape.convert w = .ok b) (h : a.Alike E b ∨ b.Alike E a) :
    shape.confusesNull t = true := by
  -- along the layers of the member; a list layer goes on with the items where the value is a list,
  -- and with the value itself where it is none
  induction hshape generalizing t w a b with
  | coerced =>
      cases MemberShape.Plain.coerced.convert_eq_ok_iff.1 ha
      cases MemberShape.Plain.coerced.convert_eq_ok_iff.1 hb
      have hnull : E .null w ∨ E w .null := by
        rcases h with h | h <;> cases h with
        | coerced h => simp [h]
      cases hE.eq_null hnull
      exact confusesNull_of_acceptsNull rfl hw.isNonNull_of_null
  | optional hof _ =>
      cases hof.optional.convert_eq_ok_iff.1 ha with
      | some hpresent _ => contradiction
      | none =>
          cases hof.optional.convert_eq_ok_iff.1 hb with
          | none => exact confusesNull_of_acceptsNull rfl hw.isNonNull_of_null
          | some _ _ => rcases h with h | h <;> cases h
  | @list of hof ih =>
      cases hof.list.convert_eq_ok_iff.1 hb with
      | items _ =>
          obtain ⟨w, a, b, rfl, ha, hb, h⟩ := exists_of_alike_list hof ha hb h
          obtain ⟨inner, required, rfl, heach⟩ := hw.exists_list
          have hinner : of.confusesNull inner = true :=
            ih ht (heach w List.mem_cons_self) ha hb h
          rw [MemberShape.confusesNull, hinner, Bool.or_true]
      | single hsingle hother =>
          by_cases hw' : w = .null
          · subst hw'
            exact confusesNull_of_acceptsNull (acceptsNull_of_convert hof.list ha)
              hw.isNonNull_of_null
          · -- a value of a named type is told from null
            cases hof.list.convert_eq_ok_iff.1 ha with
            | single _ hnull =>
                obtain ⟨b, heq, halike⟩ := eq_singleton_of_alike h
                cases heq
                cases t with
                | list inner required =>
                    cases hw with
                    | null _ => contradiction
                    | list _ => exact absurd rfl (hsingle _)
                | named u required =>
                    have hloose : Conforms s (.named u false) w :=
                      hw.of_stricter (SchemaType.Stricter.nullable (.named u required))
                    have hnone : Conforms s (.named u false) .null := .null rfl
                    have hboth : E .null w ∨ E w .null := halike.imp
                      (apart_of_named hE hof ht hnone hloose hnull hother)
                      (apart_of_named hE hof ht hloose hnone hother hnull)
                    exact absurd (hE.eq_null hboth) hw'
  | _ => cases ha

theorem exists_of_acceptsNull (hE : Coerced.Equality E) (hshape : shape.Plain)
    (haccepts : shape.acceptsNull = true) (ht : t.isNonNull = false) :
    ∃ w a b, Conforms s t w ∧ shape.convert .null = .ok a ∧ shape.convert w = .ok b ∧
      a.Alike E b := by
  obtain ⟨a, ha, halike⟩ := exists_convert_null hE hshape haccepts
  exact ⟨.null, a, a, .null ht, ha, ha, halike⟩

/-- **What the test finds is held as null is.** -/
theorem exists_of_confusesNull (hE : Coerced.Equality E) (hshape : shape.Plain)
    (h : shape.confusesNull t = true) :
    ∃ w a b, Conforms s t w ∧ shape.convert .null = .ok a ∧ shape.convert w = .ok b ∧
      a.Alike E b := by
  induction hshape generalizing t with
  | coerced =>
      exact exists_of_acceptsNull hE .coerced rfl (by simpa [MemberShape.confusesNull] using h)
  | optional hof _ =>
      exact exists_of_acceptsNull hE hof.optional rfl (by simpa [MemberShape.confusesNull] using h)
  | @list of hof ih =>
      cases t with
      | named u required =>
          obtain ⟨haccepts, hnullable⟩ := Bool.and_eq_true_iff.1 h
          exact exists_of_acceptsNull hE hof.list haccepts
            (by simpa [SchemaType.isNonNull] using hnullable)
      | list inner required =>
          rcases Bool.or_eq_true_iff.1 h with h | h
          · obtain ⟨haccepts, hnullable⟩ := Bool.and_eq_true_iff.1 h
            exact exists_of_acceptsNull hE hof.list haccepts
              (by simpa [SchemaType.isNonNull] using hnullable)
          · obtain ⟨w, a, b, hw, ha, hb, halike⟩ := ih h
            refine ⟨.list [w], .list [a], .list [b], .list ?_, ?_, ?_, .cons halike .nil⟩
            · exact List.forall_mem_singleton.2 hw
            · exact hof.list.convert_eq_ok_iff.2 (.single null_ne_list ha)
            · exact hof.list.convert_eq_ok_iff.2 (.items (.cons hb .nil))
  | _ => cases h

/-! ## 5. The test -/

/-- Lists are told apart item by item. -/
theorem forall₂_of_forall₂ {α β : Type} {A P : α → β → Prop} {R : β → β → Prop}
    {Q : α → α → Prop} {xs ys : List α} {as bs : List β} (hxs : List.Forall₂ A xs as)
    (hR : List.Forall₂ R as bs) (hys : List.Forall₂ P ys bs)
    (h : ∀ {x y a b}, A x a → R a b → P y b → Q x y) : List.Forall₂ Q xs ys := by
  induction hR generalizing xs ys with
  | nil =>
      cases hxs
      cases hys
      exact .nil
  | cons hab _ ih =>
      cases hxs with
      | cons hxa hxs =>
          cases hys with
          | cons hyb hys => exact .cons (h hxa hab hyb) (ih hxs hys)

/-- **A member that passes the test keeps all values of the type apart.** -/
theorem apart_of_tellsApart (hE : Coerced.Equality E) (hshape : shape.Plain)
    (ht : t.namedType.isCustom = false) (htest : shape.tellsApart t = true)
    (hv : Conforms s t v) (hw : Conforms s t w) (ha : shape.convert v = .ok a)
    (hb : shape.convert w = .ok b) (h : a.Alike E b) : E v w := by
  -- an optional layer takes null, so that what is inside meets the type without null
  induction hshape generalizing t v w a b with
  | coerced =>
      cases MemberShape.Plain.coerced.convert_eq_ok_iff.1 ha
      cases MemberShape.Plain.coerced.convert_eq_ok_iff.1 hb
      cases h with
      | coerced h => exact h
  | optional hof ih =>
      cases hof.optional.convert_eq_ok_iff.1 ha with
      | none =>
          cases hof.optional.convert_eq_ok_iff.1 hb with
          | none => exact hE.null
          | some _ _ => cases h
      | some hpresent hinner =>
          cases hof.optional.convert_eq_ok_iff.1 hb with
          | none => cases h
          | some hother hotherInner =>
              cases h with
              | some h =>
                  exact ih (t.namedType_nonNullable ▸ ht) htest (hv.nonNullable hpresent)
                    (hw.nonNullable hother) hinner hotherInner h
  | @list of hof ih =>
      cases t with
      | named u required => exact apart_of_named hE hof.list ht hv hw ha hb h
      | list inner required =>
          obtain ⟨hinner, hnull⟩ := Bool.and_eq_true_iff.1 htest
          have ht : inner.namedType.isCustom = false := ht
          -- null and a list are told apart where null is admitted
          have hnever : ∀ {ws : List Coerced} {a b : HostValue},
              Conforms s (.list inner required) .null → (∀ w ∈ ws, Conforms s inner w) →
              (MemberShape.list of).convert .null = .ok a →
              (MemberShape.list of).convert (.list ws) = .ok b →
              ¬ (a.Alike E b ∨ b.Alike E a) := by
            intro ws a b hnone heach ha hb h
            obtain ⟨w, a, b, rfl, ha, hb, h⟩ := exists_of_alike_list hof ha hb h
            have hconfuses : of.confusesNull inner = true :=
              confusesNull_of_alike hE hof ht (heach w List.mem_cons_self) ha hb h
            have hrequired : required = false := hnone.isNonNull_of_null
            rw [hrequired, hconfuses] at hnull
            cases hnull
          cases hv with
          | null hnullable =>
              cases hw with
              | null _ => exact hE.null
              | list heach => exact absurd (.inl h) (hnever (.null hnullable) heach ha hb)
          | @list _ _ vs hvs =>
              cases hw with
              | null hnullable => exact absurd (.inr h) (hnever (.null hnullable) hvs hb ha)
              | @list _ _ ws hws =>
                  cases hof.list.convert_eq_ok_iff.1 ha with
                  | single hsingle _ => exact absurd rfl (hsingle vs)
                  | items has =>
                      cases hof.list.convert_eq_ok_iff.1 hb with
                      | single hsingle _ => exact absurd rfl (hsingle ws)
                      | items hbs =>
                          have has := (List.forall₂_and_left vs _).2 ⟨hvs, has⟩
                          have hbs := (List.forall₂_and_left ws _).2 ⟨hws, hbs⟩
                          have hlike := HostValue.alike_list_iff.1 h
                          refine hE.list.2 (forall₂_of_forall₂ has hlike hbs ?_)
                          exact fun hv hab hw => ih ht hinner hv.1 hw.1 hv.2 hw.2 hab
  | int32 | int64 | float | boolean | text =>
      cases t with
      | named u required => exact apart_of_named hE (by constructor) ht hv hw ha hb h
      | list inner required =>
          cases (MemberShape.Plain.convert_eq_ok_iff (by constructor)).1 ha <;> cases hv

/-- **A member that fails the test holds two values of the type as one.** -/
theorem exists_of_not_tellsApart (hE : Coerced.Equality E) (hshape : shape.Plain)
    (htest : shape.tellsApart t = false) :
    ∃ v w a b, Conforms s t v ∧ Conforms s t w ∧ shape.convert v = .ok a ∧
      shape.convert w = .ok b ∧ a.Alike E b ∧ ¬ E v w := by
  induction hshape generalizing t with
  | optional hof ih =>
      obtain ⟨v, w, a, b, hv, hw, ha, hb, h, hne⟩ := ih htest
      refine ⟨v, w, _, _, hv.of_stricter t.stricter_nonNullable,
        hw.of_stricter t.stricter_nonNullable, ?_, ?_, .some h, hne⟩
      · exact hof.optional.convert_eq_ok_iff.2 (.some hv.ne_null ha)
      · exact hof.optional.convert_eq_ok_iff.2 (.some hw.ne_null hb)
  | @list of hof ih =>
      cases t with
      | named u required => cases htest
      | list inner required =>
          rw [MemberShape.tellsApart, Bool.and_eq_false_iff] at htest
          rcases htest with hinner | hnull
          · obtain ⟨v, w, a, b, hv, hw, ha, hb, h, hne⟩ := ih hinner
            refine ⟨.list [v], .list [w], .list [a], .list [b],
              .list (List.forall_mem_singleton.2 hv), .list (List.forall_mem_singleton.2 hw),
              ?_, ?_, .cons h .nil, fun h => hne ?_⟩
            · exact hof.list.convert_eq_ok_iff.2 (.items (.cons ha .nil))
            · exact hof.list.convert_eq_ok_iff.2 (.items (.cons hb .nil))
            · cases hE.list.1 h with
              | cons h _ => exact h
          · rw [Bool.or_eq_false_iff, Bool.not_eq_false'] at hnull
            obtain ⟨w, a, b, hw, ha, hb, h⟩ := exists_of_confusesNull hE hof hnull.2
            refine ⟨.null, .list [w], .list [a], .list [b], .null hnull.1,
              .list (List.forall_mem_singleton.2 hw), ?_, ?_, .cons h .nil, fun h => ?_⟩
            · exact hof.list.convert_eq_ok_iff.2 (.single null_ne_list ha)
            · exact hof.list.convert_eq_ok_iff.2 (.items (.cons hb .nil))
            · cases hE.eq_null (.inl h)
  | _ => cases htest

/-- What a plain member holds is equal to itself, where the values are. -/
theorem alike_refl (hE : ∀ v, E v v) (hshape : shape.Plain) (ha : shape.convert v = .ok a) :
    a.Alike E a := by
  induction hshape generalizing v a with
  | optional hof ih =>
      cases hof.optional.convert_eq_ok_iff.1 ha with
      | none => exact .none
      | some _ hinner => exact .some (ih hinner)
  | list hof ih =>
      cases hof.list.convert_eq_ok_iff.1 ha with
      | single _ hinner => exact .cons (ih hinner) .nil
      | items each =>
          clear ha
          induction each with
          | nil => exact .nil
          | cons hinner _ ihrest => exact .cons (ih hinner) ihrest
  | int32 | int64 | float | boolean | text | coerced =>
      cases (MemberShape.Plain.convert_eq_ok_iff (by constructor)).1 ha <;>
        constructor <;> exact hE _

end Lists

/-- **A plain member keeps the values of a type apart exactly if it passes the test**, whether host
    values are the same or compare equal. -/
theorem MemberShape.tellsApart_iff (s : Schema) {shape : MemberShape} (hshape : shape.Plain)
    {t : SchemaType} (ht : t.namedType.isCustom = false) :
    (shape.tellsApart t = true ↔
      ∀ v w a, Conforms s t v → Conforms s t w → shape.convert v = .ok a →
        shape.convert w = .ok a → v = w) ∧
    ∀ shared, (shape.tellsApart t = true ↔
      ∀ v w a b, Conforms s t v → Conforms s t w → shape.convert v = .ok a →
        shape.convert w = .ok b → a.Alike (fun v w => v.sameAs shared w = true) b →
        v.sameAs shared w = true) := by
  have hfalse : ∀ {E}, Coerced.Equality E →
      (∀ v w a b, Conforms s t v → Conforms s t w → shape.convert v = .ok a →
        shape.convert w = .ok b → a.Alike E b → E v w) → shape.tellsApart t = true := by
    intro E hE hall
    cases htest : shape.tellsApart t with
    | true => rfl
    | false =>
        obtain ⟨v, w, a, b, hv, hw, ha, hb, h, hne⟩ :=
          exists_of_not_tellsApart (s := s) hE hshape htest
        exact absurd (hall v w a b hv hw ha hb h) hne
  refine ⟨⟨fun htest v w a hv hw ha hb => ?_, fun hall => ?_⟩, fun shared => ⟨?_, ?_⟩⟩
  · exact apart_of_tellsApart Coerced.equality_eq hshape ht htest hv hw ha hb
      (alike_refl (fun _ => rfl) hshape ha)
  · refine hfalse Coerced.equality_eq fun v w a b hv hw ha hb h => ?_
    cases HostValue.eq_of_alike h
    exact hall v w a hv hw ha hb
  · exact fun htest v w a b hv hw ha hb h =>
      apart_of_tellsApart (Coerced.equality_sameAs shared) hshape ht htest hv hw ha hb h
  · exact hfalse (Coerced.equality_sameAs shared)

/-- A list of optional integers keeps the lists of a list type apart; where the type admits null, it
    takes null for the list of one null. -/
theorem MemberShape.tellsApart_iff_integers :
    let member : MemberShape := .list (.optional .int32)
    let lists (required : Bool) : SchemaType := .list (.named (.scalar .int) false) required
    member.tellsApart (lists true) = true ∧
      (∀ v w a, Conforms .points (lists true) v → Conforms .points (lists true) w →
        member.convert v = .ok a → member.convert w = .ok a → v = w) ∧
      ¬ ∀ v w a, Conforms .points (lists false) v → Conforms .points (lists false) w →
        member.convert v = .ok a → member.convert w = .ok a → v = w := by
  intro member lists
  have hmember : member.Plain := .list (.optional .int32)
  refine ⟨rfl, (MemberShape.tellsApart_iff .points hmember rfl).1.1 rfl, fun hall => ?_⟩
  have htest := (MemberShape.tellsApart_iff .points hmember rfl).1.2 hall
  cases htest

/-- **Null is held as the list of one null** by a list of optional integers, though both are values
    of the type of lists of integers. -/
theorem null_held_as_list :
    let member : MemberShape := .list (.optional .int32)
    let t : SchemaType := .list (.named (.scalar .int) false) false
    Conforms .points t .null ∧ Conforms .points t (.list [.null]) ∧
      (∃ held, member.convert .null = .ok held ∧ member.convert (.list [.null]) = .ok held) ∧
      Coerced.null ≠ .list [.null] :=
  ⟨.null rfl, .list (List.forall_mem_singleton.2 (.null rfl)), ⟨_, rfl, rfl⟩, null_ne_list _⟩

/-- **Members that fit their types keep all values apart**: a list member fits types without null
    alone. -/
theorem MemberShape.Fits.tellsApart {s : Schema} {shape : MemberShape} {e : TypeExpr}
    (h : shape.Fits s e) {t : SchemaType} (ht : s.resolve .input e = some t) :
    shape.tellsApart t = true := by
  have hcore : ∀ {t : SchemaType}, s.resolve .input e.core = some t.nullable →
      (e.isNonNull = true → t.isNonNull = true) → shape.tellsApart t = true := by
    clear ht
    induction h with
    | optional _ ih | optionalNonNull _ ih =>
        intro t hcore hnull
        refine ih ?_ fun _ => (by cases t <;> rfl)
        cases t <;> exact hcore
    | scalar hholds => cases hholds <;> exact fun _ _ => rfl
    | coerced | textOfEnum _ | object _ | record _ _ => exact fun _ _ => rfl
    | @list of e _ ih =>
        intro t hcore hnull
        have hlist : s.resolve .input (.list e) = some t.nullable := hcore
        rw [Schema.resolve_list, Option.map_eq_some_iff] at hlist
        obtain ⟨u, hu, heq⟩ := hlist
        cases t with
        | named _ _ => cases heq
        | list inner required =>
            cases heq
            have hrequired : required = true := hnull rfl
            have hinner : of.tellsApart u = true :=
              ih (Schema.resolve_core hu) fun he => (Schema.isNonNull_of_resolve hu).trans he
            rw [MemberShape.tellsApart, hinner, hrequired]
            rfl
  exact hcore (Schema.resolve_core ht) fun he => (Schema.isNonNull_of_resolve ht).trans he

end TypedQuery
