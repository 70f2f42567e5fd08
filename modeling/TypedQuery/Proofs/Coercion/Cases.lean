import TypedQuery.Coercion.Variable
import TypedQuery.Proofs.Coercion.Members

/-!
# What one level of coercion does

The two coercions are read off here once, level by level; no later proof unfolds them.

* `Schema.readEntry`, `Schema.assemble_readEntry_related` -- how a field of an input object is read,
  the same for both coercions, and how two readings of one compare;
* `LiteralStep`, `coerceLiteral_cases` -- **all ways in which a literal gives a value**, and
  `LiteralStep.eq_ok` -- each of them does;
* `RawStep`, `coerceRaw_cases` -- all ways in which a raw value gives one;
* `coerceLiteral_single`, `coerceLiteral_items`, `coerceLiteral_probeFails` -- the three outcomes
  of the attempt to read a whole literal as the only member of a list;
* `isNull_of_isProper` -- only `null` and variables give null.
-/

namespace TypedQuery

/-- Neither null nor a variable: the literals whose value depends on the type. -/
def Literal.isProper : Literal → Bool
  | .variable _ | .null => false
  | _ => true

/-- Whether the literal is a list. -/
def Literal.isList : Literal → Bool
  | .list _ => true
  | _ => false

/-! ## 1. Fields of input objects -/

namespace Schema

section ReadEntry

variable {α : Type} {s : Schema} {coerce : SchemaType → α → Except ResolutionError Coerced}
  {entries : List (String × α)} {f : InputField}

/-- How a field is read: by its name among the entries, at the type that it declares. -/
def readEntry (s : Schema) (coerce : SchemaType → α → Except ResolutionError Coerced)
    (entries : List (String × α)) (f : InputField) : Except ResolutionError (Option Coerced) :=
  match entries.lookup f.name with
  | none => .ok none
  | some value => do
    let t ← s.inputFieldType f
    return some (← coerce t value)

theorem inputFieldType_eq_ok {t : SchemaType} :
    s.inputFieldType f = .ok t ↔ s.resolve .input f.type = some t := by
  unfold inputFieldType
  split <;> simp_all

theorem readEntry_of_lookup_none (h : entries.lookup f.name = none) :
    s.readEntry coerce entries f = .ok none := by
  unfold readEntry
  rw [h]

theorem readEntry_of_lookup_some {value : α} {t : SchemaType}
    (h : entries.lookup f.name = some value) (ht : s.resolve .input f.type = some t) :
    s.readEntry coerce entries f = (coerce t value).map some := by
  unfold readEntry
  rw [h, inputFieldType_eq_ok.2 ht]
  show (coerce t value >>= fun v => .ok (some v)) = _
  cases coerce t value <;> rfl

/-- A field is read to a value if it is supplied and its type reads what is supplied. -/
theorem readEntry_eq_some {v : Coerced} :
    s.readEntry coerce entries f = .ok (some v) ↔
      ∃ value t, entries.lookup f.name = some value ∧ s.resolve .input f.type = some t ∧
        coerce t value = .ok v := by
  constructor
  · intro h
    cases hvalue : entries.lookup f.name with
    | none =>
        rw [readEntry_of_lookup_none hvalue] at h
        cases h
    | some value =>
        unfold readEntry at h
        rw [hvalue] at h
        obtain ⟨t, ht, hread⟩ := bind_eq_ok.1 h
        obtain ⟨v', hv', heq⟩ := bind_eq_ok.1 hread
        cases heq
        exact ⟨value, t, rfl, inputFieldType_eq_ok.1 ht, hv'⟩
  · rintro ⟨value, t, hvalue, ht, hv⟩
    rw [readEntry_of_lookup_some hvalue ht, hv]
    rfl

/-- A field is passed over if it is not supplied, and only then. -/
theorem readEntry_eq_none :
    s.readEntry coerce entries f = .ok none ↔ entries.lookup f.name = none := by
  refine ⟨fun h => ?_, readEntry_of_lookup_none⟩
  cases hvalue : entries.lookup f.name with
  | none => rfl
  | some value =>
      unfold readEntry at h
      rw [hvalue] at h
      obtain ⟨t, -, hread⟩ := bind_eq_ok.1 h
      obtain ⟨v, -, heq⟩ := bind_eq_ok.1 hread
      cases heq

/-- A field fails to be read as what is supplied does, or because its type is unknown. -/
theorem readEntry_eq_error {e : ResolutionError} (h : s.readEntry coerce entries f = .error e) :
    ∃ value, entries.lookup f.name = some value ∧
      (s.resolve .input f.type = none ∧ e = .unknownType f.type.text ∨
        ∃ t, s.resolve .input f.type = some t ∧ coerce t value = .error e) := by
  cases hvalue : entries.lookup f.name with
  | none =>
      rw [readEntry_of_lookup_none hvalue] at h
      cases h
  | some value =>
      refine ⟨value, rfl, ?_⟩
      cases ht : s.resolve .input f.type with
      | none =>
          simp only [readEntry, inputFieldType, hvalue, ht] at h
          cases h
          exact .inl ⟨rfl, rfl⟩
      | some t =>
          rw [readEntry_of_lookup_some hvalue ht, map_eq_error] at h
          exact .inr ⟨t, rfl, h⟩

/-- The readings of a field are related if what is supplied for it is, and read to what is. -/
theorem readEntry_supplied {β : Type}
    {R : ∀ α : Type, Except ResolutionError α → Except ResolutionError α → Prop}
    (hR : Sequential R) {coerce' : SchemaType → β → Except ResolutionError Coerced}
    {entries' : List (String × β)}
    (h : Option.Rel (fun value value' => ∀ t, s.resolve .input f.type = some t →
      R Coerced (coerce t value) (coerce' t value')) (entries.lookup f.name)
        (entries'.lookup f.name)) :
    R (Option Coerced) (s.readEntry coerce entries f) (s.readEntry coerce' entries' f) := by
  unfold readEntry
  generalize entries.lookup f.name = found, entries'.lookup f.name = found' at h
  cases h with
  | none => exact hR.refl _
  | @some value value' hvalue =>
      cases ht : s.inputFieldType f with
      | error e => exact hR.refl _
      | ok t =>
          show R _ (coerce t value >>= fun v => .ok (some v))
            (coerce' t value' >>= fun v => .ok (some v))
          exact hR.bind (hvalue t (inputFieldType_eq_ok.1 ht)) fun v => hR.refl _

/-- **The readings of a field are related** if those of what is supplied for it are. -/
theorem readEntry_related
    {R : ∀ α : Type, Except ResolutionError α → Except ResolutionError α → Prop}
    (hR : Sequential R) {coerce' : SchemaType → α → Except ResolutionError Coerced}
    (h : ∀ value t, entries.lookup f.name = some value → s.resolve .input f.type = some t →
      R Coerced (coerce t value) (coerce' t value)) :
    R (Option Coerced) (s.readEntry coerce entries f) (s.readEntry coerce' entries f) := by
  refine readEntry_supplied hR ?_
  cases hvalue : entries.lookup f.name with
  | none => exact .none
  | some value => exact .some fun t ht => h value t hvalue ht

/-- **The readings of an input object are related** if those of all that is supplied for its fields
    are. -/
theorem assemble_readEntry_related
    {R : ∀ α : Type, Except ResolutionError α → Except ResolutionError α → Prop}
    (hR : Sequential R) {coerce' : SchemaType → α → Except ResolutionError Coerced}
    {o : InputObjectType}
    (h : ∀ f ∈ o.fields, ∀ value t, entries.lookup f.name = some value →
      s.resolve .input f.type = some t → R Coerced (coerce t value) (coerce' t value)) :
    R Coerced (o.assemble (s.readEntry coerce entries))
      (o.assemble (s.readEntry coerce' entries)) :=
  InputObjectType.assemble_related hR fun f hf => readEntry_related hR (h f hf)

end ReadEntry

end Schema

/-! ## 2. Leaf types -/

theorem orMismatch_eq_ok {found : Option Coerced} {e : ResolutionError} {v : Coerced} :
    orMismatch found e = .ok v ↔ found = some v := by
  cases found <;> simp [orMismatch]

theorem int32?_eq_some {n : Int64} {v : Coerced} :
    int32? n = some v ↔ fitsInt32 n = true ∧ v = .int n := by
  unfold int32?
  cases fitsInt32 n <;> simp [eq_comm]

namespace ScalarKind

variable {kind : ScalarKind} {v : Coerced}

/-- **The values of a scalar** other than null. -/
def admits : ScalarKind → Coerced → Prop
  | .int, .int n => fitsInt32 n = true
  | .float, .float _ => True
  | .string, .string _ => True
  | .boolean, .boolean _ => True
  | .id, .string _ => True
  | .custom, .int _ => True
  | .custom, .float _ => True
  | .custom, .string _ => True
  | .custom, .boolean _ => True
  | _, _ => False

theorem isNull_of_admits (h : kind.admits v) : v.isNull = false := by
  cases v with
  | null => cases kind <;> cases h
  | _ => rfl

/-- A scalar reads a literal to one of its values. -/
theorem admits_of_ofLiteral? {l : Literal} (hl : l.isProper = true)
    (h : kind.ofLiteral? l = some v) : kind.admits v := by
  cases kind with
  | int =>
      cases l with
      | int n =>
          obtain ⟨hfits, rfl⟩ := int32?_eq_some.1 h
          exact hfits
      | null => cases hl
      | _ => cases h
  | _ =>
      cases l with
      | null => cases hl
      | _ => cases h <;> trivial

/-- A scalar reads a raw value to one of its values. -/
theorem admits_of_ofRaw? {raw : Raw} (hraw : raw.isNull = false)
    (h : kind.ofRaw? raw = some v) : kind.admits v := by
  cases kind with
  | int =>
      cases raw with
      | int n =>
          obtain ⟨hfits, rfl⟩ := int32?_eq_some.1 h
          exact hfits
      | float x =>
          have hwhole : wholeInt32? x = some v := h
          unfold wholeInt32? at hwhole
          split at hwhole
          · obtain ⟨hfits, rfl⟩ := int32?_eq_some.1 hwhole
            exact hfits
          · cases hwhole
      | null => cases hraw
      | _ => cases h
  | _ =>
      cases raw with
      | null => cases hraw
      | _ => cases h <;> trivial

end ScalarKind

theorem EnumType.value?_eq_some {e : EnumType} {name : String} {v : Coerced} :
    e.value? name = some v ↔ e.has name = true ∧ v = .enum name := by
  unfold value?
  cases e.has name <;> simp [eq_comm]

namespace SchemaType

variable {s : Schema} {lookup : VariableLookup} {room : Nat}

theorem ofNull_eq_ok {t : SchemaType} {v : Coerced} :
    t.ofNull = .ok v ↔ t.isNonNull = false ∧ v = .null := by
  unfold ofNull
  cases t.isNonNull <;> simp [eq_comm]

theorem ofKnown_eq_ok {t : SchemaType} {value v : Coerced} :
    t.ofKnown value = .ok v ↔ (value.isNull = true → t.isNonNull = false) ∧ v = value := by
  unfold ofKnown
  cases value.isNull <;> cases t.isNonNull <;> simp [eq_comm]

/-! ## 3. Literals -/

/-- The fields of an object literal at an input object. -/
theorem coerceLiteral_object (o : InputObjectType) (required : Bool)
    (entries : List (String × Literal)) :
    coerceLiteral s lookup (room + 1) (.named (.inputObject o) required) (.object entries) =
      o.assemble (s.readEntry (coerceLiteral s lookup room) entries) := by
  simp only [coerceLiteral]
  congr 1
  funext f
  unfold Schema.readEntry
  cases entries.lookup f.name <;> rfl

/-- A literal that is one member of a list is a list of it alone. -/
theorem coerceLiteral_single {of : SchemaType} {l : Literal} {v : Coerced} (required : Bool)
    (hl : l.isProper = true) (hprobe : coerceLiteral s lookup room of l = .ok v)
    (hv : v.isNull = false) :
    coerceLiteral s lookup (room + 1) (.list of required) l = .ok (.list [v]) := by
  cases l with
  | «variable» _ => cases hl
  | null => cases hl
  | _ =>
      simp only [coerceLiteral, hprobe]
      cases v <;> first | rfl | cases hv

/-- A list literal that is no member of the list is read item by item. -/
theorem coerceLiteral_items {of : SchemaType} {items : List Literal} (required : Bool)
    (hprobe : ∀ v, coerceLiteral s lookup room of (.list items) ≠ .ok v) :
    coerceLiteral s lookup (room + 1) (.list of required) (.list items) =
      (items.mapM (coerceLiteral s lookup room of)).map .list := by
  cases hattempt : coerceLiteral s lookup room of (.list items) with
  | error e => simp only [coerceLiteral, hattempt]
  | ok v => exact absurd hattempt (hprobe v)

/-- Any other literal that is no member of the list fails as it does as a member. -/
theorem coerceLiteral_probeFails {of : SchemaType} {l : Literal} {e : ResolutionError}
    (required : Bool) (hl : l.isProper = true) (hlist : l.isList = false)
    (hprobe : coerceLiteral s lookup room of l = .error e) :
    coerceLiteral s lookup (room + 1) (.list of required) l = .error e := by
  cases l with
  | «variable» _ => cases hl
  | null => cases hl
  | list _ => cases hlist
  | _ => simp only [coerceLiteral, hprobe]

/-- A list literal has no value at a named type. -/
theorem coerceLiteral_list_ne_ok (t : NamedType) (required : Bool) (items : List Literal)
    (v : Coerced) :
    coerceLiteral s lookup room (.named t required) (.list items) ≠ .ok v := by
  intro h
  cases room with
  | zero => cases h
  | succ room =>
      cases t with
      | scalar k =>
          obtain ⟨_, _, kind⟩ := k
          cases kind <;> cases h
      | enum e => cases h
      | composite c => cases h
      | inputObject o => cases h

/-- An input object never gives null. -/
theorem isNull_assemble {o : InputObjectType}
    {read : InputField → Except ResolutionError (Option Coerced)} {v : Coerced}
    (h : o.assemble read = .ok v) : v.isNull = false := by
  rw [InputObjectType.assemble_eq, map_eq_ok] at h
  obtain ⟨record, -, rfl⟩ := h
  rfl

/-- **All ways in which a literal gives a value** while `room + 1` levels are left. -/
inductive LiteralStep (s : Schema) (lookup : VariableLookup) (room : Nat) :
    SchemaType → Literal → Coerced → Prop
  /-- A variable has its value, if the type allows null or the value is not null. -/
  | isVariable {t : SchemaType} {name : String} {v : Coerced} (value : lookup name = .ok v)
      (notNull : v.isNull = true → t.isNonNull = false) :
      LiteralStep s lookup room t (.variable name) v
  | isNull {t : SchemaType} (nullable : t.isNonNull = false) :
      LiteralStep s lookup room t .null .null
  | scalar {k : ScalarType} {required : Bool} {l : Literal} {v : Coerced}
      (proper : l.isProper = true) (read : k.kind.ofLiteral? l = some v) :
      LiteralStep s lookup room (.named (.scalar k) required) l v
  | enum {e : EnumType} {required : Bool} {name : String} (declared : e.has name = true) :
      LiteralStep s lookup room (.named (.enum e) required) (.enum name) (.enum name)
  | object {o : InputObjectType} {required : Bool} {entries : List (String × Literal)}
      {v : Coerced}
      (read : o.assemble (s.readEntry (coerceLiteral s lookup room) entries) = .ok v) :
      LiteralStep s lookup room (.named (.inputObject o) required) (.object entries) v
  /-- The whole literal is the only member of the list. -/
  | single {of : SchemaType} {required : Bool} {l : Literal} {v : Coerced}
      (proper : l.isProper = true) (read : coerceLiteral s lookup room of l = .ok v)
      (notNull : v.isNull = false) :
      LiteralStep s lookup room (.list of required) l (.list [v])
  /-- The whole literal is no member of the list, but its items are. -/
  | items {of : SchemaType} {required : Bool} {items : List Literal} {values : List Coerced}
      (noMember : ∀ v, coerceLiteral s lookup room of (.list items) ≠ .ok v)
      (read : items.mapM (coerceLiteral s lookup room of) = .ok values) :
      LiteralStep s lookup room (.list of required) (.list items) (.list values)

/-- A literal at a list type whose only member it may be. -/
theorem coerceLiteral_list_cases {of : SchemaType} {required : Bool} {l : Literal} {v : Coerced}
    (hl : l.isProper = true)
    (hnull : ∀ w, coerceLiteral s lookup room of l = .ok w → w.isNull = false)
    (h : coerceLiteral s lookup (room + 1) (.list of required) l = .ok v) :
    LiteralStep s lookup room (.list of required) l v := by
  cases hprobe : coerceLiteral s lookup room of l with
  | ok w =>
      rw [coerceLiteral_single required hl hprobe (hnull w hprobe)] at h
      cases h
      exact .single hl hprobe (hnull w hprobe)
  | error e =>
      cases hlist : l.isList with
      | false =>
          rw [coerceLiteral_probeFails required hl hlist hprobe] at h
          cases h
      | true =>
          cases l with
          | list items =>
              have hno : ∀ w, coerceLiteral s lookup room of (.list items) ≠ .ok w := by
                intro w hw
                rw [hprobe] at hw
                cases hw
              rw [coerceLiteral_items required hno, map_eq_ok] at h
              obtain ⟨values, hvalues, rfl⟩ := h
              exact .items hno hvalues
          | _ => cases hlist

/-- A literal at a named type. -/
theorem coerceLiteral_named_cases {t : NamedType} {required : Bool} {l : Literal} {v : Coerced}
    (hl : l.isProper = true)
    (h : coerceLiteral s lookup (room + 1) (.named t required) l = .ok v) :
    LiteralStep s lookup room (.named t required) l v := by
  cases t with
  | scalar k =>
      have hread : k.ofLiteral l = .ok v := by
        cases l <;> first | exact h | cases hl
      exact .scalar hl (orMismatch_eq_ok.1 hread)
  | enum e =>
      cases l with
      | enum name =>
          obtain ⟨hdeclared, rfl⟩ := EnumType.value?_eq_some.1 (orMismatch_eq_ok.1 h)
          exact .enum hdeclared
      | «variable» _ => cases hl
      | null => cases hl
      | _ => cases h
  | composite c => cases l <;> first | cases h | cases hl
  | inputObject o =>
      cases l with
      | object entries =>
          rw [coerceLiteral_object] at h
          exact .object h
      | «variable» _ => cases hl
      | null => cases hl
      | _ => cases h

/-- No way but the first two gives null. -/
theorem LiteralStep.isNull_eq {t : SchemaType} {l : Literal} {v : Coerced}
    (hl : l.isProper = true) (h : LiteralStep s lookup room t l v) : v.isNull = false := by
  cases h with
  | isVariable _ _ => cases hl
  | isNull _ => cases hl
  | scalar _ hread => exact ScalarKind.isNull_of_admits (ScalarKind.admits_of_ofLiteral? hl hread)
  | enum _ => rfl
  | object hread => exact isNull_assemble hread
  | single _ _ _ => rfl
  | items _ _ => rfl

theorem coerceLiteral_proper_cases {t : SchemaType} {l : Literal} {v : Coerced}
    (hl : l.isProper = true) (h : coerceLiteral s lookup (room + 1) t l = .ok v) :
    LiteralStep s lookup room t l v := by
  -- a list asks whether its attempt gave null, which is the same question one level down
  induction room generalizing t v with
  | zero =>
      cases t with
      | named t required => exact coerceLiteral_named_cases hl h
      | list of required => exact coerceLiteral_list_cases hl (fun w hw => by cases hw) h
  | succ room ih =>
      cases t with
      | named t required => exact coerceLiteral_named_cases hl h
      | list of required => exact coerceLiteral_list_cases hl (fun w hw => (ih hw).isNull_eq hl) h

/-- Only `null` and variables give null. -/
theorem isNull_of_isProper {t : SchemaType} {l : Literal} {v : Coerced} (hl : l.isProper = true)
    (h : coerceLiteral s lookup room t l = .ok v) : v.isNull = false := by
  cases room with
  | zero => cases h
  | succ room => exact (coerceLiteral_proper_cases hl h).isNull_eq hl

/-- **A literal that gives a value does so in one of these ways.** -/
theorem coerceLiteral_cases {t : SchemaType} {l : Literal} {v : Coerced}
    (h : coerceLiteral s lookup (room + 1) t l = .ok v) : LiteralStep s lookup room t l v := by
  cases hl : l.isProper with
  | true => exact coerceLiteral_proper_cases hl h
  | false =>
      cases l with
      | «variable» name =>
          obtain ⟨value, hvalue, hknown⟩ := bind_eq_ok.1 h
          obtain ⟨hnull, rfl⟩ := ofKnown_eq_ok.1 hknown
          exact .isVariable hvalue hnull
      | null =>
          obtain ⟨hnull, rfl⟩ := ofNull_eq_ok.1 h
          exact .isNull hnull
      | _ => cases hl

/-- **Each of these ways gives the value.** -/
theorem LiteralStep.eq_ok {t : SchemaType} {l : Literal} {v : Coerced}
    (h : LiteralStep s lookup room t l v) : coerceLiteral s lookup (room + 1) t l = .ok v := by
  cases h with
  | isVariable hvalue hnull => exact bind_eq_ok.2 ⟨v, hvalue, ofKnown_eq_ok.2 ⟨hnull, rfl⟩⟩
  | isNull hnullable => exact ofNull_eq_ok.2 ⟨hnullable, rfl⟩
  | @scalar k required _ _ hproper hread =>
      have hscalar : coerceLiteral s lookup (room + 1) (.named (.scalar k) required) l =
          k.ofLiteral l := by
        cases l <;> first | rfl | cases hproper
      rw [hscalar]
      exact orMismatch_eq_ok.2 hread
  | enum hdeclared => exact orMismatch_eq_ok.2 (EnumType.value?_eq_some.2 ⟨hdeclared, rfl⟩)
  | @object o required entries _ hread =>
      rw [coerceLiteral_object]
      exact hread
  | single hproper hread hnull => exact coerceLiteral_single _ hproper hread hnull
  | items hno hread =>
      rw [coerceLiteral_items _ hno, hread]
      rfl

/-! ## 4. Raw values -/

/-- The fields of a raw object at an input object. -/
theorem coerceRaw_object (o : InputObjectType) (required : Bool)
    (entries : List (String × Raw)) (hroom : room ≠ 0) :
    coerceRaw s (room + 1) (.named (.inputObject o) required) (.object entries) =
      o.assemble (s.readEntry (coerceRaw s room) entries) := by
  simp only [coerceRaw, hroom, if_false]
  congr 1
  funext f
  unfold Schema.readEntry
  cases entries.lookup f.name <;> rfl

/-- **All ways in which a raw value gives a value** while `room + 1` levels are left. -/
inductive RawStep (s : Schema) (room : Nat) : SchemaType → Raw → Coerced → Prop
  | isNull {t : SchemaType} (nullable : t.isNonNull = false) : RawStep s room t .null .null
  | scalar {k : ScalarType} {required : Bool} {raw : Raw} {v : Coerced}
      (notNull : raw.isNull = false) (read : k.kind.ofRaw? raw = some v) :
      RawStep s room (.named (.scalar k) required) raw v
  | enum {e : EnumType} {required : Bool} {name : String} (declared : e.has name = true) :
      RawStep s room (.named (.enum e) required) (.string name) (.enum name)
  | object {o : InputObjectType} {required : Bool} {entries : List (String × Raw)} {v : Coerced}
      (deep : room ≠ 0) (read : o.assemble (s.readEntry (coerceRaw s room) entries) = .ok v) :
      RawStep s room (.named (.inputObject o) required) (.object entries) v
  | items {of : SchemaType} {required : Bool} {items : List Raw} {values : List Coerced}
      (read : items.mapM (coerceRaw s room of) = .ok values) :
      RawStep s room (.list of required) (.list items) (.list values)
  /-- A value that is no list is the only member of one. -/
  | single {of : SchemaType} {required : Bool} {raw : Raw} {v : Coerced}
      (notNull : raw.isNull = false) (read : coerceRaw s room of raw = .ok v) :
      RawStep s room (.list of required) raw (.list [v])

/-- **A raw value that gives a value does so in one of these ways.** -/
theorem coerceRaw_cases {t : SchemaType} {raw : Raw} {v : Coerced}
    (h : coerceRaw s (room + 1) t raw = .ok v) : RawStep s room t raw v := by
  cases hnull : raw.isNull with
  | true =>
      cases raw with
      | null =>
          obtain ⟨hnullable, rfl⟩ := ofNull_eq_ok.1 h
          exact .isNull hnullable
      | _ => cases hnull
  | false =>
      match t with
      | .named (.scalar k) required =>
          have hread : k.ofRaw raw = .ok v := by
            cases raw <;> first | exact h | cases hnull
          exact .scalar hnull (orMismatch_eq_ok.1 hread)
      | .named (.enum e) required =>
          cases raw with
          | string name =>
              obtain ⟨hdeclared, rfl⟩ := EnumType.value?_eq_some.1 (orMismatch_eq_ok.1 h)
              exact .enum hdeclared
          | null => cases hnull
          | _ => cases h
      | .named (.composite c) required => cases raw <;> first | cases h | cases hnull
      | .named (.inputObject o) required =>
          cases raw with
          | object entries =>
              by_cases hroom : room = 0
              · simp [coerceRaw, hroom] at h
              · rw [coerceRaw_object o required entries hroom] at h
                exact .object hroom h
          | null => cases hnull
          | _ => cases h
      | .list of required =>
          cases raw with
          | list items =>
              obtain ⟨values, hvalues, rfl⟩ := map_eq_ok.1 h
              exact .items hvalues
          | null => cases hnull
          | _ =>
              obtain ⟨w, hw, rfl⟩ := map_eq_ok.1 h
              exact .single hnull hw

end SchemaType

end TypedQuery
