import TypedQuery.Proofs.Coercion.Agreement
import TypedQuery.Proofs.Schema.References

/-!
# Why coercion fails

All reasons for which a literal or a raw value may have no value, first of one level, then of all.

* `LiteralFails`, `coerceLiteral_failure` -- **all ways in which a literal fails** in one level;
  `RawFails`, `coerceRaw_failure` -- all ways in which a raw value does; `Schema.RecordFails` -- what
  they share, the ways of an input object;
* `Schema.Fails` -- **the reasons**; of a type that a field declares only that it does not resolve;
* `coerceLiteral_fails`, `coerceRaw_fails` -- coercion fails for one of them;
* `Resolver.unknown_of_resolve` -- a variable of unknown type has an unknown type itself, or a
  field of its type has;
* `Schema.references_resolve` -- **in a built schema a reference resolves exactly if no `!` stands
  on a `!` in it**, and where that holds of the input fields none of them has an unknown type;
  `Schema.doubled_dangles` -- why it has to hold.
-/

namespace TypedQuery

/-! ## 1. Values that a host type does not hold -/

/-- A value that a member does not hold. -/
theorem MemberShape.convert_eq_error {shape : MemberShape} {value : Coerced}
    {e : ResolutionError} (h : shape.convert value = .error e) :
    ∃ expected found, e = .hostConversion expected found := by
  induction shape generalizing value with
  | coerced => cases h
  | int32 =>
      cases value with
      | int n =>
          simp only [convert] at h
          split at h <;> cases h
          exact ⟨_, _, rfl⟩
      | _ => cases h; exact ⟨_, _, rfl⟩
  | int64 | float | boolean | text | object =>
      cases value <;> first | (cases h; done) | (cases h; exact ⟨_, _, rfl⟩)
  | record host =>
      have hinto := map_eq_error.1 h
      cases value with
      | object typeName record =>
          simp only [Coerced.intoHost] at hinto
          split at hinto <;> cases hinto
          exact ⟨_, _, rfl⟩
      | _ => cases hinto; exact ⟨_, _, rfl⟩
  | optional of ih =>
      cases value with
      | null => cases h
      | _ => exact ih (map_eq_error.1 h)
  | list of ih =>
      cases value with
      | list items =>
          obtain ⟨item, -, hitem⟩ := exists_of_mapM_eq_error (map_eq_error.1 h)
          exact ih hitem
      | _ => exact ih (map_eq_error.1 h)

/-- A value that a field's record does not take. -/
theorem InputObjectType.assign_eq_error {o : InputObjectType} {f : InputField}
    {record : HostRecord} {value : Coerced} {e : ResolutionError}
    (h : o.assign f record value = .error e) :
    ∃ expected found, e = .hostConversion expected found := by
  unfold assign at h
  split at h
  · cases h
    exact ⟨_, _, rfl⟩
  · cases record with
    | dynamic _ => cases h
    | typed _ _ =>
        cases hsetter : o.record.setter? f.name with
        | none =>
            simp only [hsetter] at h
            cases h
        | some m =>
            simp only [hsetter] at h
            exact MemberShape.convert_eq_error (map_eq_error.1 h)

/-! ## 2. One level -/

/-- A failure that the value itself is the reason for: the type has no such value. -/
inductive ResolutionError.OfValue : ResolutionError → Prop
  /-- Null meets a type that excludes it. -/
  | nullValue (type : String) : OfValue (.nullValue type)
  | notRepresentable (type found : String) : OfValue (.notRepresentable type found)

/-- **All ways in which the reading of an input object fails.** -/
inductive Schema.RecordFails {α : Type} (s : Schema)
    (coerce : SchemaType → α → Except ResolutionError Coerced) (entries : List (String × α))
    (o : InputObjectType) : ResolutionError → Prop
  /-- A field fails that is supplied. -/
  | field {f : InputField} {value : α} {t : SchemaType} {e : ResolutionError}
      (declared : f ∈ o.fields) (supplied : entries.lookup f.name = some value)
      (type : s.resolve .input f.type = some t) (failed : coerce t value = .error e) :
      s.RecordFails coerce entries o e
  | unknownType {f : InputField} (declared : f ∈ o.fields)
      (unresolved : s.resolve .input f.type = none) :
      s.RecordFails coerce entries o (.unknownType f.type.text)
  /-- The record does not take a value. -/
  | hostConversion (expected found : String) :
      s.RecordFails coerce entries o (.hostConversion expected found)

/-- **An input object that fails to be read does so in one of these ways.** -/
theorem Schema.recordFails_of_assemble {α : Type} {s : Schema}
    {coerce : SchemaType → α → Except ResolutionError Coerced} {entries : List (String × α)}
    {o : InputObjectType} {e : ResolutionError}
    (h : o.assemble (s.readEntry coerce entries) = .error e) :
    s.RecordFails coerce entries o e := by
  obtain ⟨f, hf, hentry | ⟨record, value, -, -, hassign⟩⟩ :=
    InputObjectType.exists_of_assemble_eq_error h
  · obtain ⟨value, hvalue, ⟨hnone, rfl⟩ | ⟨t, ht, hfailed⟩⟩ := readEntry_eq_error hentry
    · exact .unknownType hf hnone
    · exact .field hf hvalue ht hfailed
  · obtain ⟨expected, found, rfl⟩ := InputObjectType.assign_eq_error hassign
    exact .hostConversion expected found

namespace SchemaType

variable {s : Schema} {lookup : VariableLookup} {room : Nat} {e : ResolutionError}

theorem ofValue_of_ofNull {t : SchemaType} (h : t.ofNull = .error e) : e.OfValue := by
  unfold ofNull at h
  split at h
  · cases h
    exact .nullValue _
  · cases h

theorem ofValue_of_ofKnown {t : SchemaType} {v : Coerced} (h : t.ofKnown v = .error e) :
    e.OfValue := by
  unfold ofKnown at h
  split at h
  · cases h
    exact .nullValue _
  · cases h

theorem ofValue_of_orMismatch {found : Option Coerced} {type value : String}
    (h : orMismatch found (.notRepresentable type value) = .error e) : e.OfValue := by
  cases found with
  | some v => cases h
  | none =>
      cases h
      exact .notRepresentable type value

/-- **All ways in which a literal fails** while `room + 1` levels are left. -/
inductive LiteralFails (s : Schema) (lookup : VariableLookup) (room : Nat) :
    SchemaType → Literal → ResolutionError → Prop
  | value {t : SchemaType} {l : Literal} {e : ResolutionError} (own : e.OfValue) :
      LiteralFails s lookup room t l e
  | isVariable {t : SchemaType} {name : String} {e : ResolutionError}
      (failed : lookup name = .error e) : LiteralFails s lookup room t (.variable name) e
  | object {o : InputObjectType} {required : Bool} {entries : List (String × Literal)}
      {e : ResolutionError} (failed : s.RecordFails (coerceLiteral s lookup room) entries o e) :
      LiteralFails s lookup room (.named (.inputObject o) required) (.object entries) e
  /-- A literal that is no list fails to be the only member of one. -/
  | single {of : SchemaType} {required : Bool} {l : Literal} {e : ResolutionError}
      (proper : l.isProper = true) (noList : l.isList = false)
      (failed : coerceLiteral s lookup room of l = .error e) :
      LiteralFails s lookup room (.list of required) l e
  /-- A list literal fails as an item does. That it is no member of the list counts for nothing. -/
  | item {of : SchemaType} {required : Bool} {items : List Literal} {item : Literal}
      {e : ResolutionError} (mem : item ∈ items)
      (failed : coerceLiteral s lookup room of item = .error e) :
      LiteralFails s lookup room (.list of required) (.list items) e

/-- A literal that is neither null nor a variable, at a named type. -/
theorem coerceLiteral_named_failure {t : NamedType} {required : Bool} {l : Literal}
    (hl : l.isProper = true)
    (h : coerceLiteral s lookup (room + 1) (.named t required) l = .error e) :
    LiteralFails s lookup room (.named t required) l e := by
  cases t with
  | scalar k =>
      have hread : k.ofLiteral l = .error e := by
        cases l <;> first | exact h | cases hl
      exact .value (ofValue_of_orMismatch hread)
  | enum k =>
      have hread : k.ofLiteral l = .error e := by
        cases l <;> first | exact h | cases hl
      exact .value (ofValue_of_orMismatch hread)
  | composite c =>
      cases l <;> first | (cases hl; done) | (cases h; exact .value (.notRepresentable _ _))
  | inputObject o =>
      cases l with
      | object entries =>
          rw [coerceLiteral_object] at h
          exact .object (Schema.recordFails_of_assemble h)
      | _ => first | (cases hl; done) | (cases h; exact .value (.notRepresentable _ _))

/-- A literal that is neither null nor a variable, at a list type. -/
theorem coerceLiteral_list_failure {of : SchemaType} {required : Bool} {l : Literal}
    (hl : l.isProper = true)
    (h : coerceLiteral s lookup (room + 1) (.list of required) l = .error e) :
    LiteralFails s lookup room (.list of required) l e := by
  -- the attempt to read the whole literal as the only member comes first
  cases hprobe : coerceLiteral s lookup room of l with
  | ok v =>
      rw [coerceLiteral_single required hl hprobe (isNull_of_isProper hl hprobe)] at h
      cases h
  | error e' =>
      cases hlist : l.isList with
      | false =>
          rw [coerceLiteral_probeFails required hl hlist hprobe] at h
          cases h
          exact .single hl hlist hprobe
      | true =>
          cases l with
          | list items =>
              have hno : ∀ v, coerceLiteral s lookup room of (.list items) ≠ .ok v := by
                intro v hv
                rw [hprobe] at hv
                cases hv
              rw [coerceLiteral_items required hno, map_eq_error] at h
              obtain ⟨item, hitem, hfailed⟩ := exists_of_mapM_eq_error h
              exact .item hitem hfailed
          | _ => cases hlist

/-- **A literal that fails does so in one of these ways.** -/
theorem coerceLiteral_failure {t : SchemaType} {l : Literal}
    (h : coerceLiteral s lookup (room + 1) t l = .error e) :
    LiteralFails s lookup room t l e := by
  cases hl : l.isProper with
  | false =>
      cases l with
      | «variable» name =>
          obtain hfailed | ⟨v, -, hknown⟩ := bind_eq_error.1 h
          · exact .isVariable hfailed
          · exact .value (ofValue_of_ofKnown hknown)
      | null => exact .value (ofValue_of_ofNull h)
      | _ => cases hl
  | true =>
      cases t with
      | named t required => exact coerceLiteral_named_failure hl h
      | list of required => exact coerceLiteral_list_failure hl h

/-- **All ways in which a raw value fails** while `room + 1` levels are left. -/
inductive RawFails (s : Schema) (room : Nat) : SchemaType → Raw → ResolutionError → Prop
  | value {t : SchemaType} {raw : Raw} {e : ResolutionError} (own : e.OfValue) :
      RawFails s room t raw e
  /-- No level is left for the fields of an object. -/
  | tooDeep {o : InputObjectType} {required : Bool} {entries : List (String × Raw)}
      (last : room = 0) :
      RawFails s room (.named (.inputObject o) required) (.object entries)
        (.depthLimitExceeded s.limits.maxDepth)
  | object {o : InputObjectType} {required : Bool} {entries : List (String × Raw)}
      {e : ResolutionError} (failed : s.RecordFails (coerceRaw s room) entries o e) :
      RawFails s room (.named (.inputObject o) required) (.object entries) e
  | item {of : SchemaType} {required : Bool} {items : List Raw} {item : Raw} {e : ResolutionError}
      (mem : item ∈ items) (failed : coerceRaw s room of item = .error e) :
      RawFails s room (.list of required) (.list items) e
  /-- A value that is no list fails to be the only member of one. -/
  | single {of : SchemaType} {required : Bool} {raw : Raw} {e : ResolutionError}
      (notNull : raw.isNull = false) (noList : ∀ items, raw ≠ .list items)
      (failed : coerceRaw s room of raw = .error e) : RawFails s room (.list of required) raw e

/-- **A raw value that fails does so in one of these ways.** -/
theorem coerceRaw_failure {t : SchemaType} {raw : Raw}
    (h : coerceRaw s (room + 1) t raw = .error e) : RawFails s room t raw e := by
  cases hnull : raw.isNull with
  | true =>
      cases raw with
      | null => exact .value (ofValue_of_ofNull h)
      | _ => cases hnull
  | false =>
      match t with
      | .named (.scalar k) required =>
          have hread : k.ofRaw raw = .error e := by
            cases raw <;> first | exact h | cases hnull
          exact .value (ofValue_of_orMismatch hread)
      | .named (.enum k) required =>
          have hread : k.ofRaw raw = .error e := by
            cases raw <;> first | exact h | cases hnull
          exact .value (ofValue_of_orMismatch hread)
      | .named (.composite c) required =>
          cases raw <;> first | (cases hnull; done) | (cases h; exact .value (.notRepresentable _ _))
      | .named (.inputObject o) required =>
          cases raw with
          | object entries =>
              by_cases hroom : room = 0
              · simp only [coerceRaw, hroom, if_true] at h
                cases h
                exact .tooDeep hroom
              · rw [coerceRaw_object o required entries hroom] at h
                exact .object (Schema.recordFails_of_assemble h)
          | _ => first | (cases hnull; done) | (cases h; exact .value (.notRepresentable _ _))
      | .list of required =>
          cases raw with
          | list items =>
              obtain ⟨item, hitem, hfailed⟩ := exists_of_mapM_eq_error (map_eq_error.1 h)
              exact .item hitem hfailed
          | null => cases hnull
          | _ => exact .single hnull (by simp) (map_eq_error.1 h)

end SchemaType

/-! ## 3. The reasons -/

/-- **Why coercion fails.** The failures that variables may pass on are given. -/
inductive Schema.Fails (s : Schema) (passed : ResolutionError → Prop) : ResolutionError → Prop
  /-- The value is nested too deep. -/
  | tooDeep : s.Fails passed (.depthLimitExceeded s.limits.maxDepth)
  /-- Null meets a type that excludes it. -/
  | nullValue (type : String) : s.Fails passed (.nullValue type)
  /-- The type has no such value. -/
  | notRepresentable (type found : String) : s.Fails passed (.notRepresentable type found)
  /-- A host record does not take a value. -/
  | hostConversion (expected found : String) : s.Fails passed (.hostConversion expected found)
  /-- An input object of the schema declares a type that does not resolve for a field. -/
  | unknownType {name : String} {o : InputObjectType} {f : InputField}
      (owner : s.named? .input name = some (.inputObject o)) (member : f ∈ o.fields)
      (unresolved : s.resolve .input f.type = none) : s.Fails passed (.unknownType f.type.text)
  /-- A variable fails. -/
  | variable {e : ResolutionError} (failed : passed e) : s.Fails passed e

section Fails

open SchemaType

variable {s : Schema} {passed : ResolutionError → Prop} {e : ResolutionError}

theorem Schema.Fails.mono {passed' : ResolutionError → Prop} (h : s.Fails passed e)
    (himp : passed e → passed' e) : s.Fails passed' e := by
  cases h with
  | tooDeep => exact .tooDeep
  | nullValue type => exact .nullValue type
  | notRepresentable type found => exact .notRepresentable type found
  | hostConversion expected found => exact .hostConversion expected found
  | unknownType owner member unresolved => exact .unknownType owner member unresolved
  | «variable» failed => exact .variable (himp failed)

theorem ResolutionError.OfValue.fails (h : e.OfValue) : s.Fails passed e := by
  cases h with
  | nullValue type => exact .nullValue type
  | notRepresentable type found => exact .notRepresentable type found

/-- An input object of the schema fails for a reason if its supplied fields do. -/
theorem Schema.RecordFails.fails {α : Type}
    {coerce : SchemaType → α → Except ResolutionError Coerced} {entries : List (String × α)}
    {name : String} {o : InputObjectType} (ho : s.named? .input name = some (.inputObject o))
    (hread : ∀ (f : InputField) value t, entries.lookup f.name = some value →
      s.resolve .input f.type = some t → coerce t value = .error e → s.Fails passed e)
    (h : s.RecordFails coerce entries o e) : s.Fails passed e := by
  cases h with
  | field _ hvalue ht hfailed => exact hread _ _ _ hvalue ht hfailed
  | unknownType hf hnone => exact .unknownType ho hf hnone
  | hostConversion expected found => exact .hostConversion expected found

/-- The failure of a variable that stands in a literal. -/
def Literal.PassesOn (l : Literal) (lookup : VariableLookup) (e : ResolutionError) : Prop :=
  ∃ name ∈ l.variableNames, lookup name = .error e

/-- **A literal fails for one of the reasons**, if the schema has its type. -/
theorem coerceLiteral_fails {lookup : VariableLookup} {room : Nat} {t : SchemaType} {l : Literal}
    (ht : s.Knows t) (h : coerceLiteral s lookup room t l = .error e) :
    s.Fails (l.PassesOn lookup) e := by
  induction room generalizing t l with
  | zero =>
      cases h
      exact .tooDeep
  | succ room ih =>
      cases coerceLiteral_failure h with
      | value hown => exact hown.fails
      | isVariable hfailed => exact .variable ⟨_, List.mem_singleton.2 rfl, hfailed⟩
      | object hrecord =>
          obtain ⟨name, hname⟩ := ht
          refine hrecord.fails hname fun f value ft hvalue hft hfailed => ?_
          refine (ih (Schema.knows_of_resolve hft) hfailed).mono ?_
          rintro ⟨x, hx, hx'⟩
          exact ⟨x, Literal.mem_namesOfEntries hvalue hx, hx'⟩
      | single _ _ hfailed => exact ih (ht.member rfl) hfailed
      | item hitem hfailed =>
          refine (ih (ht.member rfl) hfailed).mono ?_
          rintro ⟨x, hx, hx'⟩
          exact ⟨x, Literal.mem_namesOfItems hitem hx, hx'⟩

/-- **A raw value fails for one of the reasons**, and no variable is among them. -/
theorem coerceRaw_fails {room : Nat} {t : SchemaType} {raw : Raw} (ht : s.Knows t)
    (h : coerceRaw s room t raw = .error e) : s.Fails (fun _ => False) e := by
  induction room generalizing t raw with
  | zero =>
      cases h
      exact .tooDeep
  | succ room ih =>
      cases coerceRaw_failure h with
      | value hown => exact hown.fails
      | tooDeep _ => exact .tooDeep
      | object hrecord =>
          obtain ⟨name, hname⟩ := ht
          refine hrecord.fails hname fun f value ft _ hft hfailed => ?_
          exact ih (Schema.knows_of_resolve hft) hfailed
      | item _ hfailed => exact ih (ht.member rfl) hfailed
      | single _ _ hfailed => exact ih (ht.member rfl) hfailed

end Fails

/-! ## 4. Unknown types -/

/-- A field of an input object declares a type of the text that does not resolve. -/
def Schema.HasUnknownField (s : Schema) (type : String) : Prop :=
  ∃ name o f, s.named? .input name = some (.inputObject o) ∧ f ∈ o.fields ∧
    s.resolve .input f.type = none ∧ type = f.type.text

/-- An unknown type is that of a field, unless a variable passes it on. -/
theorem Schema.Fails.unknown {s : Schema} {passed : ResolutionError → Prop} {type : String}
    (h : s.Fails passed (.unknownType type)) :
    s.HasUnknownField type ∨ passed (.unknownType type) := by
  cases h with
  | unknownType owner member unresolved => exact .inl ⟨_, _, _, owner, member, unresolved, rfl⟩
  | «variable» failed => exact .inr failed

/-- In a built schema such a type has a `!` on a `!`. -/
theorem Schema.Built.exists_doubled {s : Schema} (hs : s.Built) {type : String}
    (h : s.HasUnknownField type) :
    ∃ name o f, s.named? .input name = some (.inputObject o) ∧ f ∈ o.fields ∧
      f.type.excludesNullOnce = false := by
  obtain ⟨name, o, f, ho, hf, hnone, -⟩ := h
  refine ⟨name, o, f, ho, hf, ?_⟩
  rw [← hs.isSome_resolve_of_refers (.inputField ho hf), hnone]
  rfl

/-- **A variable that meets an unknown type** declares it, or a field does. -/
theorem Resolver.unknown_of_resolve {r : Resolver} {name type : String}
    (h : r.resolve name = .error (.unknownType type)) :
    r.schema.HasUnknownField type ∨
      ∃ d, r.definition? name = some d ∧ r.schema.resolve .input d.type = none := by
  unfold resolve at h
  cases hd : r.definition? name with
  | none =>
      rw [hd] at h
      cases h
  | some d =>
      rw [hd] at h
      cases ht : r.schema.resolve .input d.type with
      | none => exact .inr ⟨d, rfl, ht⟩
      | some t =>
          have hknown := Schema.knows_of_resolve ht
          obtain herror | ⟨t', ht', hvalue⟩ := bind_eq_error.1 h
          · cases herror.symm.trans (declaredType_eq_ok_iff.2 ht)
          · cases ht'.symm.trans (declaredType_eq_ok_iff.2 ht)
            split at hvalue
            · exact .inl ((coerceRaw_fails hknown hvalue).unknown.resolve_right id)
            · obtain hfield | ⟨x, -, hx⟩ := (coerceLiteral_fails hknown hvalue).unknown
              · exact .inl hfield
              · cases hx
            · split at hvalue <;> cases hvalue

/-- **References inside a built schema.** One resolves exactly if no `!` stands on a `!` in it. If
    that holds of the types of all input fields, none of them is met as an unknown type: no raw
    value meets an unknown type, and a literal only in a variable that declares it. -/
theorem Schema.references_resolve {s : Schema} (hs : s.Built) :
    (∀ space e, s.Refers space e →
      ((s.resolve space e).isSome = true ↔ e.excludesNullOnce = true)) ∧
    ((∀ name o f, s.named? .input name = some (.inputObject o) → f ∈ o.fields →
        f.type.excludesNullOnce = true) →
      ∀ t, s.Knows t →
        (∀ raw type, s.coerceRaw t raw ≠ .error (.unknownType type)) ∧
        ∀ (bound : Option Resolver) (l : Literal) (type : String),
          (∀ r ∈ bound, r.schema = s) →
          (Repository.mk s bound).coerce t l = .error (.unknownType type) →
          ∃ r ∈ bound, ∃ name ∈ l.variableNames, ∃ d, r.definition? name = some d ∧
            s.resolve .input d.type = none) := by
  refine ⟨fun space e h => by rw [hs.isSome_resolve_of_refers h], fun honce t ht => ?_⟩
  have hno : ∀ type, ¬ s.HasUnknownField type := by
    intro type hunknown
    obtain ⟨name, o, f, ho, hf, hdoubled⟩ := hs.exists_doubled hunknown
    cases hdoubled.symm.trans (honce name o f ho hf)
  refine ⟨fun raw type h => ?_, fun bound l type hsame h => ?_⟩
  · exact ((coerceRaw_fails ht h).unknown.resolve_left (hno type)).elim
  · obtain ⟨name, hname, hlookup⟩ := (coerceLiteral_fails ht h).unknown.resolve_left (hno type)
    cases bound with
    | none => cases hlookup
    | some r =>
        obtain rfl := hsame r rfl
        obtain ⟨d, hd, hnone⟩ := (Resolver.unknown_of_resolve hlookup).resolve_left (hno type)
        exact ⟨r, rfl, name, hname, d, hd, hnone⟩

/-- The coordinate of a point has a known type, and a point is read without unknown types. -/
theorem Schema.references_resolve_points :
    (Schema.points.resolve .input (.nonNull (.named "Int"))).isSome = true ∧
      ∃ t, Schema.points.resolve .input (.named "Point") = some t ∧
        ∀ raw type, Schema.points.coerceRaw t raw ≠ .error (.unknownType type) := by
  have hpoints := references_resolve Schema.built_points
  have hpoint : Schema.points.named? .input "Point" = some (.inputObject Schema.point) := rfl
  refine ⟨(hpoints.1 _ _ (.inputField hpoint List.mem_cons_self)).2 rfl,
    .named (.inputObject Schema.point) false, rfl, ?_⟩
  refine (hpoints.2 (fun name o f ho hf => ?_) _ ⟨"Point", rfl⟩).1
  obtain rfl := eq_point_of_named? ho
  rcases List.mem_cons.1 hf with rfl | hf
  · rfl
  · obtain rfl := List.mem_singleton.1 hf
    rfl

/-! ## 5. A schema with a dangling reference -/

/-- An object with a field that excludes null twice. -/
def Schema.doubled : InputObjectType where
  name := "Doubled"
  description := none
  fields := [⟨"x", none, .nonNull (.nonNull (.named "Int")), none⟩]
  record := .dynamic

/-- The object beside the points. -/
def Schema.doubledSteps : List SchemaBuilder.Step :=
  .type (.named (.inputObject doubled) false) :: pointSteps

/-- The schema with the object. -/
def Schema.withDoubled : Schema := (SchemaBuilder.new.run doubledSteps).build.toOption.get (by rfl)

/-- **A `!` on a `!` dangles**: a schema with such a field is built, and the field has an unknown
    type when an object is read. -/
theorem Schema.doubled_dangles :
    let f : InputField := ⟨"x", none, .nonNull (.nonNull (.named "Int")), none⟩
    withDoubled.Built ∧ withDoubled.Refers .input f.type ∧
      withDoubled.resolve .input f.type = none ∧
      ∃ t, withDoubled.resolve .input (.named "Doubled") = some t ∧
        (Repository.mk withDoubled none).coerce t (.object [("x", .int 1)]) =
          .error (.unknownType f.type.text) := by
  intro f
  have howner : withDoubled.named? .input "Doubled" = some (.inputObject doubled) := rfl
  exact ⟨⟨doubledSteps, rfl⟩, .inputField howner List.mem_cons_self, rfl,
    .named (.inputObject doubled) false, rfl, rfl⟩

end TypedQuery
