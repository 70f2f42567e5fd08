import TypedQuery.Proofs.Coercion.Failures
import TypedQuery.Proofs.Coercion.Soundness
import TypedQuery.Proofs.Schema.Registration

/-!
# Host records hold what coercion gives

A typed input object is read into a record of the embedding program. Where the members of the
records are chosen for the types of their fields, no value is refused by one.

* `MemberShape.Holds`, `MemberShape.Fits` -- a member holds a built-in scalar, and **a member fits a
  type expression**;
* `MemberShape.Fits.exists_convert` -- a member that fits holds every value of the type. Layers that
  exclude null may be stacked while a member is matched to its type, so the values are taken at the
  type under all of them (`TypeExpr.core`);
* `Schema.WellDeclared` -- every member of every typed input object fits its field;
* `Schema.ne_hostConversion` -- **then coercion fails for other reasons alone**.
-/

namespace TypedQuery

/-! ## 1. Members that fit -/

/-- The built-in scalars whose values a member holds. -/
inductive MemberShape.Holds : MemberShape → ScalarType → Prop
  | int32 : Holds .int32 .int
  | int64 : Holds .int64 .int
  | floatOfInt : Holds .float .int
  | float : Holds .float .float
  | boolean : Holds .boolean .boolean
  | text : Holds .text .string
  | textOfId : Holds .text .id

/-- **A member fits a type expression.** A member that is not optional fits types that exclude null
    alone; an optional one fits a type, with null or without, if what it may hold fits the type
    without null. -/
inductive MemberShape.Fits (s : Schema) : MemberShape → TypeExpr → Prop
  | coerced {e : TypeExpr} : Fits s .coerced e
  | optional {of : MemberShape} {e : TypeExpr} (inner : Fits s of (.nonNull e)) :
      Fits s (.optional of) e
  | optionalNonNull {of : MemberShape} {e : TypeExpr} (inner : Fits s of (.nonNull e)) :
      Fits s (.optional of) (.nonNull e)
  | scalar {shape : MemberShape} {k : ScalarType} (holds : shape.Holds k) :
      Fits s shape (.nonNull (.named k.name))
  | textOfEnum {name : String} {e : EnumType} (declared : s.named? .input name = some (.enum e)) :
      Fits s .text (.nonNull (.named name))
  | object {name : String} {o : InputObjectType}
      (declared : s.named? .input name = some (.inputObject o)) :
      Fits s .object (.nonNull (.named name))
  /-- The record is of the host type that the input object is bound to. -/
  | record {name : String} {o : InputObjectType} {host : HostType}
      (declared : s.named? .input name = some (.inputObject o)) (bound : o.record.host = host) :
      Fits s (.record host) (.nonNull (.named name))
  | list {of : MemberShape} {e : TypeExpr} (inner : Fits s of e) :
      Fits s (.list of) (.nonNull (.list e))

/-- The expression without the `!` that it ends in, however many. -/
def TypeExpr.core : TypeExpr → TypeExpr
  | .nonNull of => of.core
  | e => e

theorem SchemaType.nullable_of_isNonNull {t : SchemaType} (h : t.isNonNull = false) :
    t.nullable = t := by
  cases t <;> cases h <;> rfl

namespace Schema

variable {s : Schema} {space : Namespace} {e : TypeExpr}

/-- What an expression stands for, with null admitted, is what its core stands for. -/
theorem resolve_core {t : SchemaType} (h : s.resolve space e = some t) :
    s.resolve space e.core = some t.nullable := by
  induction e generalizing t with
  | named name =>
      rw [TypeExpr.core, h, SchemaType.nullable_of_isNonNull (isNonNull_of_resolve h)]
      exact fun _ hcore => TypeExpr.noConfusion hcore
  | list of _ =>
      rw [TypeExpr.core, h, SchemaType.nullable_of_isNonNull (isNonNull_of_resolve h)]
      exact fun _ hcore => TypeExpr.noConfusion hcore
  | nonNull of ih =>
      obtain ⟨u, hu, hnonNull⟩ := resolve_nonNull.1 h
      obtain ⟨hnull, -, rfl⟩ := SchemaType.nonNull?_eq_ok_iff.1 hnonNull
      rw [TypeExpr.core, ih hu, SchemaType.nullable_of_isNonNull hnull]

end Schema

/-! ## 2. Values that are held -/

section Held

variable {s : Schema} {t : SchemaType} {v : Coerced}

/-- A value of a type that a name stands for is one of the named type. -/
theorem conforms_of_named {name : String} {u : NamedType}
    (hname : s.named? .input name = some u) (ht : s.resolve .input (.named name) = some t)
    (h : Conforms s t v) : Conforms s (.named u false) v := by
  rw [Schema.resolve_named, hname] at ht
  cases ht
  exact h

/-- A value of a built-in scalar. -/
theorem admits_of_builtin (hs : s.Built) {k : ScalarType} (hk : k ∈ ScalarType.builtin)
    (ht : s.resolve .input (.named k.name) = some t) (h : Conforms s t v)
    (hv : v.isNull = false) : k.kind.admits v := by
  cases conforms_of_named (hs.named_builtin .input hk) ht h with
  | null _ => cases hv
  | scalar hadmits => exact hadmits

theorem MemberShape.Holds.mem_builtin {shape : MemberShape} {k : ScalarType}
    (h : shape.Holds k) : k ∈ ScalarType.builtin := by
  cases h <;> simp [ScalarType.builtin]

/-- A member holds every value of its scalars. -/
theorem MemberShape.Holds.exists_convert {shape : MemberShape} {k : ScalarType}
    (h : shape.Holds k) (hv : k.kind.admits v) : ∃ held, shape.convert v = .ok held := by
  cases h with
  | int32 =>
      cases v with
      | int n =>
          have hfits : fitsInt32 n = true := hv
          exact ⟨_, by rw [convert, if_pos hfits]⟩
      | _ => cases hv
  | int64 | floatOfInt =>
      cases v with
      | int n => exact ⟨_, rfl⟩
      | _ => cases hv
  | float =>
      cases v with
      | float x => exact ⟨_, rfl⟩
      | _ => cases hv
  | boolean =>
      cases v with
      | boolean b => exact ⟨_, rfl⟩
      | _ => cases hv
  | text | textOfId =>
      cases v with
      | string text => exact ⟨_, rfl⟩
      | _ => cases hv

/-- A value of an input object holds a record of the host type of the input object. -/
theorem exists_record {o : InputObjectType} (h : Conforms s (.named (.inputObject o) false) v)
    (hv : v.isNull = false) :
    ∃ name record, v = .object name record ∧ record.host = o.record.host := by
  cases h with
  | null _ => cases hv
  | typed hshape => exact ⟨_, _, rfl, by rw [hshape]; rfl⟩
  | dynamic hshape _ _ _ _ => exact ⟨_, _, rfl, by rw [hshape]; rfl⟩

/-- An optional member holds null, and what the member inside holds. -/
theorem exists_convert_optional {of : MemberShape}
    (h : v.isNull = false → ∃ held, of.convert v = .ok held) :
    ∃ held, (MemberShape.optional of).convert v = .ok held := by
  cases v with
  | null => exact ⟨_, rfl⟩
  | _ =>
      obtain ⟨held, hheld⟩ := h rfl
      exact ⟨_, map_eq_ok.2 ⟨held, hheld, rfl⟩⟩

end Held

/-- **A member that fits holds every value of the type**, null apart where the expression excludes
    it. -/
theorem MemberShape.Fits.exists_convert {s : Schema} (hs : s.Built) {shape : MemberShape}
    {e : TypeExpr} (h : shape.Fits s e) {t : SchemaType} {v : Coerced}
    (ht : s.resolve .input e.core = some t) (hconforms : Conforms s t v)
    (hnull : e.isNonNull = true → v.isNull = false) : ∃ held, shape.convert v = .ok held := by
  induction h generalizing t v with
  | coerced => exact ⟨_, rfl⟩
  | optional _ ih => exact exists_convert_optional fun hv => ih ht hconforms fun _ => hv
  | optionalNonNull _ ih => exact exists_convert_optional fun hv => ih ht hconforms fun _ => hv
  | scalar hholds =>
      exact hholds.exists_convert (admits_of_builtin hs hholds.mem_builtin ht hconforms (hnull rfl))
  | textOfEnum hdeclared =>
      cases conforms_of_named hdeclared ht hconforms with
      | null _ => cases hnull rfl
      | enum _ => exact ⟨_, rfl⟩
  | object hdeclared =>
      obtain ⟨name, record, rfl, -⟩ :=
        exists_record (conforms_of_named hdeclared ht hconforms) (hnull rfl)
      exact ⟨_, rfl⟩
  | record hdeclared hbound =>
      obtain ⟨name, record, rfl, hhost⟩ :=
        exists_record (conforms_of_named hdeclared ht hconforms) (hnull rfl)
      refine ⟨.record record, map_eq_ok.2 ⟨record, ?_, rfl⟩⟩
      rw [Coerced.intoHost, if_pos (hhost.trans hbound)]
  | @list of e _ ih =>
      have hlist : s.resolve .input (.list e) = some t := ht
      rw [Schema.resolve_list, Option.map_eq_some_iff] at hlist
      obtain ⟨u, hu, rfl⟩ := hlist
      cases hconforms with
      | null _ => cases hnull rfl
      | @list _ _ items each =>
          have hitems : ∃ held, items.mapM of.convert = .ok held := by
            refine exists_mapM_eq_ok fun item hitem => ?_
            have hitemConforms := each item hitem
            refine ih (Schema.resolve_core hu) (hitemConforms.of_stricter (.nullable u)) fun he => ?_
            exact hitemConforms.isNull_of_isNonNull ((Schema.isNonNull_of_resolve hu).trans he)
          obtain ⟨held, hheld⟩ := hitems
          exact ⟨_, map_eq_ok.2 ⟨held, hheld, rfl⟩⟩

/-! ## 3. Records -/

/-- **Every member of every typed input object fits its field.** -/
def Schema.WellDeclared (s : Schema) : Prop :=
  ∀ name o, s.named? .input name = some (.inputObject o) →
    ∀ f ∈ o.fields, ∀ m ∈ o.record.setter? f.name, m.shape.Fits s f.type

section Records

open SchemaType

variable {s : Schema}

/-- A record takes every value of the type of a field. -/
theorem exists_assign (hs : s.Built) (hwell : s.WellDeclared) {name : String}
    {o : InputObjectType} (ho : s.named? .input name = some (.inputObject o)) {f : InputField}
    (hf : f ∈ o.fields) {record : HostRecord} (hrecord : record.IsOf o.record)
    {t : SchemaType} {v : Coerced} (ht : s.resolve .input f.type = some t)
    (hv : Conforms s t v) : ∃ record', o.assign f record v = .ok record' := by
  unfold InputObjectType.assign
  rw [if_neg (not_not_intro hrecord.host_eq)]
  cases record with
  | dynamic _ => exact ⟨_, rfl⟩
  | typed _ _ =>
      cases hsetter : o.record.setter? f.name with
      | none => exact ⟨_, rfl⟩
      | some m =>
          have hfits := hwell name o ho f hf m hsetter
          obtain ⟨value, hvalue⟩ := hfits.exists_convert hs (Schema.resolve_core ht)
            (hv.of_stricter (.nullable t))
            fun he => hv.isNull_of_isNonNull ((Schema.isNonNull_of_resolve ht).trans he)
          exact ⟨_, map_eq_ok.2 ⟨value, hvalue, rfl⟩⟩

/-- An input object whose fields are read to values of their types is not refused by its record. -/
theorem assemble_ne_hostConversion (hs : s.Built) (hwell : s.WellDeclared) {α : Type}
    {coerce : SchemaType → α → Except ResolutionError Coerced} {entries : List (String × α)}
    {name : String} {o : InputObjectType} (ho : s.named? .input name = some (.inputObject o))
    {expected found : String}
    (hconforms : ∀ f value t w, entries.lookup (InputField.name f) = some value →
      s.resolve .input f.type = some t → coerce t value = .ok w → Conforms s t w)
    (hcoerce : ∀ f value t, entries.lookup (InputField.name f) = some value →
      s.resolve .input f.type = some t →
      coerce t value ≠ .error (.hostConversion expected found)) :
    o.assemble (s.readEntry coerce entries) ≠ .error (.hostConversion expected found) := by
  intro h
  obtain ⟨f, hf, hread | ⟨record, w, hrecord, hread, hassign⟩⟩ :=
    InputObjectType.exists_of_assemble_eq_error h
  · obtain ⟨value, hvalue, ⟨-, he⟩ | ⟨t, ht, hfailed⟩⟩ := Schema.readEntry_eq_error hread
    · cases he
    · exact hcoerce f value t hvalue ht hfailed
  · obtain ⟨value, t, hvalue, ht, hw⟩ := Schema.readEntry_eq_some.1 hread
    obtain ⟨record', hrecord'⟩ :=
      exists_assign hs hwell ho hf hrecord ht (hconforms f value t w hvalue ht hw)
    cases hassign.symm.trans hrecord'

/-! ## 4. Coercion -/

variable {t : SchemaType} {expected found : String}

theorem coerceRaw_ne_hostConversion (hs : s.Built) (hwell : s.WellDeclared) {room : Nat}
    {raw : Raw} (ht : s.Knows t) :
    coerceRaw s room t raw ≠ .error (.hostConversion expected found) := by
  induction room generalizing t raw with
  | zero =>
      intro h
      cases h
  | succ room ih =>
      intro h
      cases coerceRaw_failure h with
      | value hown => cases hown
      | item _ hfailed => exact ih (ht.member rfl) hfailed
      | single _ _ hfailed => exact ih (ht.member rfl) hfailed
      | @object o required entries _ hrecord =>
          by_cases hroom : room = 0
          · simp only [coerceRaw, hroom, if_true] at h
            cases h
          · rw [coerceRaw_object o required entries hroom] at h
            obtain ⟨name, hname⟩ := ht
            refine assemble_ne_hostConversion hs hwell hname ?_ ?_ h
            · exact fun f value u w _ hu hw => coerceRaw_conforms hs (Schema.knows_of_resolve hu) hw
            · exact fun f value u _ hu => ih (Schema.knows_of_resolve hu)

theorem coerceLiteral_none_ne_hostConversion (hs : s.Built) (hwell : s.WellDeclared) {room : Nat}
    {l : Literal} (ht : s.Knows t) :
    coerceLiteral s .none room t l ≠ .error (.hostConversion expected found) := by
  induction room generalizing t l with
  | zero =>
      intro h
      cases h
  | succ room ih =>
      intro h
      cases coerceLiteral_failure h with
      | value hown => cases hown
      | isVariable hfailed => cases hfailed
      | item _ hfailed => exact ih (ht.member rfl) hfailed
      | single _ _ hfailed => exact ih (ht.member rfl) hfailed
      | object hrecord =>
          rw [coerceLiteral_object] at h
          obtain ⟨name, hname⟩ := ht
          refine assemble_ne_hostConversion hs hwell hname ?_ ?_ h
          · exact fun f value u w _ hu hw =>
              coerceLiteral_none_conforms hs (Schema.knows_of_resolve hu) hw
          · exact fun f value u _ hu => ih (Schema.knows_of_resolve hu)

end Records

/-- **Members that fit refuse nothing.** In a built schema in which every member of every typed
    input object fits its field, no raw value and no literal without variables fails to be held by a
    host record, whatever the type. -/
theorem Schema.ne_hostConversion {s : Schema} (hs : s.Built) (hwell : s.WellDeclared)
    {t : SchemaType} (ht : s.Knows t) (expected found : String) :
    (∀ raw, s.coerceRaw t raw ≠ .error (.hostConversion expected found)) ∧
    ∀ (bound : Option Resolver) (l : Literal), l.variableNames = [] →
      (Repository.mk s bound).coerce t l ≠ .error (.hostConversion expected found) := by
  refine ⟨fun raw => coerceRaw_ne_hostConversion hs hwell ht, fun bound l hconst h => ?_⟩
  -- without variables it does not matter what they stand for
  have hnone : s.coerceLiteral .none t l = (Repository.mk s bound).coerce t l := by
    refine coerceLiteral_congr fun name hname => ?_
    rw [hconst] at hname
    cases hname
  exact coerceLiteral_none_ne_hostConversion hs hwell ht (hnone.trans h)

/-- The members of a pixel. -/
def Schema.pixelMembers : List Member :=
  [⟨"x", .int32, .int 0⟩, ⟨"tags", .optional (.list (.optional .text)), .optional none⟩,
    ⟨"next", .optional (.record ⟨"Pixel"⟩), .optional none⟩]

/-- A pixel has a coordinate, tags, and a pixel next to it, each with a member of its name. -/
def Schema.pixel : InputObjectType where
  name := "Pixel"
  description := none
  fields := [⟨"x", none, .nonNull (.named "Int"), none⟩,
    ⟨"tags", none, .list (.named "String"), none⟩, ⟨"next", none, .named "Pixel", none⟩]
  record := .typed ⟨"Pixel"⟩ pixelMembers (pixelMembers.map fun m => (m.name, m))

/-- The pixels beside the points. -/
def Schema.pixelSteps : List SchemaBuilder.Step :=
  .type (.named (.inputObject pixel) false) :: pointSteps

/-- The schema with pixels. -/
def Schema.withPixels : Schema := (SchemaBuilder.new.run pixelSteps).build.toOption.get (by rfl)

/-- The members of a pixel fit. -/
theorem Schema.wellDeclared_withPixels : withPixels.WellDeclared := by
  intro name o ho f hf m hm
  have hvalues : (withPixels.types .input).values = [.scalar .int, .scalar .float,
      .scalar .string, .scalar .boolean, .scalar .id, .inputObject pixel, .inputObject point] := rfl
  have hmember := Table.mem_values_of_find? ho
  rw [hvalues] at hmember
  simp only [List.mem_cons, NamedType.inputObject.injEq, reduceCtorEq, List.not_mem_nil,
    false_or, or_false] at hmember
  obtain rfl | rfl := hmember
  · have hpixel : withPixels.named? .input "Pixel" = some (.inputObject pixel) := rfl
    simp only [pixel, List.mem_cons, List.not_mem_nil, or_false] at hf
    obtain rfl | rfl | rfl := hf <;> cases hm
    · exact .scalar .int32
    · exact .optional (.list (.optional (.scalar .text)))
    · exact .optional (.record hpixel rfl)
  · cases hm

/-- No pixel is refused, neither as a raw value nor as a literal; one next to another is held. -/
theorem Schema.ne_hostConversion_pixels :
    withPixels.Built ∧ withPixels.WellDeclared ∧
      ∃ t, withPixels.resolve .input (.named "Pixel") = some t ∧
        (∃ v, withPixels.coerceRaw t
          (.object [("x", .int 1), ("next", .object [("x", .int 2)])]) = .ok v) ∧
        ∀ expected found,
          (∀ raw, withPixels.coerceRaw t raw ≠ .error (.hostConversion expected found)) ∧
          ∀ n : Int64, (Repository.mk withPixels none).coerce t (.object [("x", .int n)]) ≠
            .error (.hostConversion expected found) := by
  have hbuilt : withPixels.Built := ⟨pixelSteps, rfl⟩
  have hknown : withPixels.Knows (.named (.inputObject pixel) false) := ⟨"Pixel", rfl⟩
  refine ⟨hbuilt, wellDeclared_withPixels, _, rfl, ⟨_, rfl⟩, fun expected found => ?_⟩
  have hnever := ne_hostConversion hbuilt wellDeclared_withPixels hknown expected found
  exact ⟨hnever.1, fun n => hnever.2 none (.object [("x", .int n)]) rfl⟩

end TypedQuery
