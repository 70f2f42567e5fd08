import TypedQuery.Proofs.Coercion.Nesting
import TypedQuery.Proofs.Coercion.Raising

/-!
# Coerced values are read to themselves

A coerced value can be written down again, as a raw value or as a literal, and coerced once more.
If all records are dynamic, that gives the same value. For raw values this is so level by level. For
literals it is not: a list around one value may stand there because the attempt to read it whole
succeeded or because that failed, and the same attempt is made again when the list is read. It
decides the same, as what was written down is read nowhere where the literal was not.

* `Coerced.raw`, `Coerced.literal` -- **the value as a raw value and as a literal**;
* `coerceRaw_raw` -- as a raw value it is read to itself;
* `Literal.Entails` -- a literal is read wherever another is; `entails_literal` -- **a literal is
  read wherever its value is**;
* `coerceLiteral_wrapped_ne_ok` -- a value in brackets of its own is not of the type of the value;
* `coerceLiteral_literal` -- **as a literal it is read to itself**;
* `Schema.coercion_idempotent` -- both, on whole values.
-/

namespace TypedQuery

open SchemaType

/-! ## 1. Values written down -/

namespace Coerced

mutual

/-- **The raw value with the same content.** The name of an enumeration value becomes a string, and
    a dynamic record the object of its entries. A typed record has members of the host in place of
    entries. -/
def raw : Coerced → Raw
  | .null => .null
  | .int n => .int n
  | .float x => .float x
  | .string s => .string s
  | .boolean b => .boolean b
  | .enum name => .string name
  | .list items => .list (rawOfItems items)
  | .object _ (.dynamic entries) => .object (rawOfEntries entries)
  | .object _ (.typed _ _) => .object []

/-- The images of items. -/
def rawOfItems : List Coerced → List Raw
  | [] => []
  | item :: rest => item.raw :: rawOfItems rest

/-- The images of entries, under their names. -/
def rawOfEntries : List (String × Coerced) → List (String × Raw)
  | [] => []
  | (key, value) :: rest => (key, value.raw) :: rawOfEntries rest

end

theorem raw_list (items : List Coerced) : (Coerced.list items).raw = .list (items.map raw) := by
  rw [raw]
  congr 1
  induction items with
  | nil => rfl
  | cons item rest ih => rw [rawOfItems, ih, List.map_cons]

theorem raw_dynamic (typeName : String) (entries : List (String × Coerced)) :
    (Coerced.object typeName (.dynamic entries)).raw =
      .object (entries.map fun p => (p.1, p.2.raw)) := by
  rw [raw]
  congr 1
  induction entries with
  | nil => rfl
  | cons p rest ih => rw [rawOfEntries, ih, List.map_cons]

mutual

/-- **The literal with the same content.** A dynamic record becomes the object of its entries. -/
def literal : Coerced → Literal
  | .null => .null
  | .int n => .int n
  | .float x => .float x
  | .string s => .string s
  | .boolean b => .boolean b
  | .enum name => .enum name
  | .list items => .list (literalOfItems items)
  | .object _ (.dynamic entries) => .object (literalOfEntries entries)
  | .object _ (.typed _ _) => .object []

/-- The images of items. -/
def literalOfItems : List Coerced → List Literal
  | [] => []
  | item :: rest => item.literal :: literalOfItems rest

/-- The images of entries, under their names. -/
def literalOfEntries : List (String × Coerced) → List (String × Literal)
  | [] => []
  | (key, value) :: rest => (key, value.literal) :: literalOfEntries rest

end

theorem literal_list (items : List Coerced) :
    (Coerced.list items).literal = .list (items.map literal) := by
  rw [literal]
  congr 1
  induction items with
  | nil => rfl
  | cons item rest ih => rw [literalOfItems, ih, List.map_cons]

theorem literal_dynamic (typeName : String) (entries : List (String × Coerced)) :
    (Coerced.object typeName (.dynamic entries)).literal =
      .object (entries.map fun p => (p.1, p.2.literal)) := by
  rw [literal]
  congr 1
  induction entries with
  | nil => rfl
  | cons p rest ih => rw [literalOfEntries, ih, List.map_cons]

/-- A value other than null is written as a literal other than null, and never as a variable. -/
theorem isProper_literal {v : Coerced} (h : v.isNull = false) : v.literal.isProper = true := by
  cases v with
  | null => cases h
  | object _ record => cases record <;> rfl
  | _ => rfl

end Coerced

namespace ScalarKind

variable {kind : ScalarKind} {v : Coerced}

/-- A scalar reads its values to themselves. -/
theorem ofRaw?_of_admits (h : kind.admits v) : kind.ofRaw? v.raw = some v := by
  cases kind with
  | int =>
      cases v with
      | int n => exact int32?_eq_some.2 ⟨h, rfl⟩
      | _ => cases h
  | _ => cases v <;> first | rfl | cases h

theorem ofLiteral?_of_admits (h : kind.admits v) : kind.ofLiteral? v.literal = some v := by
  cases kind with
  | int =>
      cases v with
      | int n => exact int32?_eq_some.2 ⟨h, rfl⟩
      | _ => cases h
  | _ => cases v <;> first | rfl | cases h

/-- The values of a scalar are no lists. -/
theorem isList_of_admits (h : kind.admits v) : v.literal.isList = false := by
  cases v with
  | list _ => cases kind <;> cases h
  | object _ _ => cases kind <;> cases h
  | _ => rfl

end ScalarKind

/-! ## 2. Lists and records -/

/-- **What a list was read to is read to itself**, if each of its items is. -/
theorem mapM_image {ε α β : Type} {read : α → Except ε β} {image : β → α}
    {xs : List α} {ys : List β} (hagain : ∀ x ∈ xs, ∀ y, read x = .ok y → read (image y) = .ok y)
    (h : xs.mapM read = .ok ys) : (ys.map image).mapM read = .ok ys := by
  rw [mapM_eq_ok_iff, List.forall₂_map_left_iff]
  refine List.forall₂_same.2 fun y hy => ?_
  obtain ⟨x, hx, hread⟩ := exists_of_mem_mapM h hy
  exact hagain x hx y hread

namespace Schema

variable {α β : Type} {s : Schema} {o : InputObjectType}
  {coerce : SchemaType → α → Except ResolutionError Coerced} {entries : List (String × α)}

/-- The input objects of a schema's types have dynamic records. -/
theorem AllDynamic.record_eq (hd : s.AllDynamic) {t : SchemaType} (ht : s.Knows t)
    (ho : t.namedType = .inputObject o) : o.record = .dynamic := by
  obtain ⟨name, hname⟩ := ht
  exact hd name o (hname.trans (congrArg some ho))

/-- What a dynamic record holds, written down, has under the name of a field what was read for the
    field. -/
theorem exists_image_of_assemble (hd : o.record = .dynamic)
    (hdistinct : (o.fields.map (·.name)).Nodup) (image : Coerced → β) {v : Coerced}
    (h : o.assemble (s.readEntry coerce entries) = .ok v) :
    ∃ held, v = .object o.name (.dynamic held) ∧ ∀ f ∈ o.fields, ∃ found,
      s.readEntry coerce entries f = .ok found ∧
      (held.map fun p => (p.1, image p.2)).lookup f.name = found.map image := by
  refine ⟨_, InputObjectType.assemble_dynamic hd hdistinct h, fun f hf => ?_⟩
  obtain ⟨found, hfound⟩ := InputObjectType.exists_of_assemble_eq_ok h hf
  refine ⟨found, hfound, ?_⟩
  rw [Entries.lookup_map_snd fun _ => image, InputObjectType.lookup_entries hdistinct hf hfound]

/-- **A dynamic record is read to itself**, if each value in it is. -/
theorem assemble_image (hd : o.record = .dynamic) (hdistinct : (o.fields.map (·.name)).Nodup)
    (image : Coerced → α)
    (hagain : ∀ f ∈ o.fields, ∀ value t w, entries.lookup f.name = some value →
      s.resolve .input f.type = some t → coerce t value = .ok w → coerce t (image w) = .ok w)
    {v : Coerced}
    (h : o.assemble (s.readEntry coerce entries) = .ok v) :
    ∃ held, v = .object o.name (.dynamic held) ∧
      o.assemble (s.readEntry coerce (held.map fun p => (p.1, image p.2))) = .ok v := by
  obtain ⟨held, hv, hlookup⟩ := exists_image_of_assemble hd hdistinct image h
  refine ⟨held, hv, (InputObjectType.assemble_related sequential_eq fun f hf => ?_).trans h⟩
  obtain ⟨found, hfound, himage⟩ := hlookup f hf
  rw [hfound]
  cases found with
  | none => exact readEntry_of_lookup_none himage
  | some w =>
      obtain ⟨value, t, hvalue, ht, hw⟩ := readEntry_eq_some.1 hfound
      exact readEntry_eq_some.2 ⟨image w, t, himage, ht, hagain f hf value t w hvalue ht hw⟩

end Schema

/-! ## 3. Raw values -/

section RawValues

variable {s : Schema}

/-- A scalar reads what a raw value gave it. -/
theorem coerceRaw_of_admits (room : Nat) {k : ScalarType} (required : Bool) {v : Coerced}
    (h : k.kind.admits v) :
    coerceRaw s (room + 1) (.named (.scalar k) required) v.raw = .ok v := by
  have hscalar : coerceRaw s (room + 1) (.named (.scalar k) required) v.raw = k.ofRaw v.raw := by
    cases v with
    | null => cases ScalarKind.isNull_of_admits h
    | object _ record => cases record <;> rfl
    | _ => rfl
  rw [hscalar]
  exact orMismatch_eq_ok.2 (ScalarKind.ofRaw?_of_admits h)

/-- A raw list is read if its items are. -/
theorem coerceRaw_list {room : Nat} {of : SchemaType} (required : Bool) {items : List Raw}
    {values : List Coerced} (h : items.mapM (coerceRaw s room of) = .ok values) :
    coerceRaw s (room + 1) (.list of required) (.list items) = .ok (.list values) :=
  map_eq_ok.2 ⟨values, h, rfl⟩

/-- **A value written as a raw value is read to itself** with the levels that it was read with. -/
theorem coerceRaw_raw (hs : s.Built) (hd : s.AllDynamic) {room : Nat} {t : SchemaType} {raw : Raw}
    {v : Coerced} (ht : s.Knows t) (h : coerceRaw s room t raw = .ok v) :
    coerceRaw s room t v.raw = .ok v := by
  induction room generalizing t raw v with
  | zero => cases h
  | succ room ih =>
      cases coerceRaw_cases h with
      | isNull _ => exact h
      | scalar hnull hread =>
          exact coerceRaw_of_admits room _ (ScalarKind.admits_of_ofRaw? hnull hread)
      | enum _ => exact h
      | @object o required _ _ hroom hread =>
          obtain ⟨held, rfl, hagain⟩ := Schema.assemble_image (hd.record_eq ht rfl)
            (hs.distinct_of_knows ht rfl) Coerced.raw
            (fun f _ value ft w _ hft hw => ih (Schema.knows_of_resolve hft) hw) hread
          rw [Coerced.raw_dynamic, coerceRaw_object o required _ hroom]
          exact hagain
      | items hread =>
          rw [Coerced.raw_list]
          exact coerceRaw_list _ (mapM_image (fun _ _ _ hw => ih (ht.member rfl) hw) hread)
      | @single _ _ _ w _ hread =>
          rw [Coerced.raw_list]
          exact coerceRaw_list _ (mapM_eq_ok_iff.2 (.cons (ih (ht.member rfl) hread) .nil))

end RawValues

/-! ## 4. What is read where -/

/-- **The second literal is read wherever the first is**, at lists of the named type of any depth
    and with any levels left. What it is read to may differ. -/
def Literal.Entails (s : Schema) (lookup : VariableLookup) (t : NamedType) (l l' : Literal) :
    Prop :=
  ∀ (room : Nat) (u : SchemaType) (v : Coerced), u.namedType = t →
    coerceLiteral s lookup room u l = .ok v → ∃ w, coerceLiteral s lookup room u l' = .ok w

section Entailment

variable {s : Schema} {lookup : VariableLookup} {t : NamedType}

/-- What stands alone in brackets is a member of the list, with the brackets or without. -/
theorem member_of_wrapped {room : Nat} {of : SchemaType} {required : Bool} {l : Literal}
    {v : Coerced} (h : coerceLiteral s lookup (room + 1) (.list of required) (.list [l]) = .ok v) :
    (∃ w, coerceLiteral s lookup room of (.list [l]) = .ok w) ∨
      ∃ w, coerceLiteral s lookup room of l = .ok w := by
  cases coerceLiteral_cases h with
  | single _ hread _ => exact .inl ⟨_, hread⟩
  | items _ hread =>
      obtain ⟨w, -, hw⟩ := exists_of_mapM_eq_ok hread List.mem_cons_self
      exact .inr ⟨w, hw⟩

namespace Literal.Entails

variable {l l' l'' : Literal}

theorem refl (l : Literal) : Entails s lookup t l l := fun _ _ v _ h => ⟨v, h⟩

theorem trans (h : Entails s lookup t l l') (h' : Entails s lookup t l' l'') :
    Entails s lookup t l l'' := by
  intro room u v hu hv
  obtain ⟨w, hw⟩ := h room u v hu hv
  exact h' room u w hu hw

/-- Brackets may be left out. -/
theorem unwrap (hl : l.isProper = true) : Entails s lookup t (.list [l]) l := by
  intro room u v hu h
  induction u generalizing room v with
  | named u required => exact absurd h (coerceLiteral_list_ne_ok u required [l] v)
  | list of required ih =>
      cases room with
      | zero => cases h
      | succ room =>
          have hmember : ∃ w, coerceLiteral s lookup room of l = .ok w := by
            rcases member_of_wrapped h with ⟨w, hw⟩ | hmember
            · exact ih room w hu hw
            · exact hmember
          obtain ⟨w, hw⟩ := hmember
          exact ⟨_, coerceLiteral_single required hl hw (isNull_of_isProper hl hw)⟩

/-- Of literals that are no lists only the named type matters. -/
theorem of_named (hl : l.isProper = true) (hlist : l.isList = false) (hl' : l'.isProper = true)
    (h : ∀ room required v, coerceLiteral s lookup room (.named t required) l = .ok v →
      ∃ w, coerceLiteral s lookup room (.named t required) l' = .ok w) :
    Entails s lookup t l l' := by
  intro room u v hu hv
  induction u generalizing room v with
  | named u required =>
      cases hu
      exact h room required v hv
  | list of required ih =>
      cases room with
      | zero => cases hv
      | succ room =>
          cases coerceLiteral_proper_cases hl hv with
          | isVariable _ _ => cases hl
          | isNull _ => cases hl
          | single _ hread _ =>
              obtain ⟨w, hw⟩ := ih room _ hu hread
              exact ⟨_, coerceLiteral_single required hl' hw (isNull_of_isProper hl' hw)⟩
          | items _ _ => cases hlist

/-- A list is read wherever another is, if each of its items is where one of the other's is. -/
theorem list {items items' : List Literal}
    (h : ∀ item' ∈ items', ∃ item ∈ items, Entails s lookup t item item') :
    Entails s lookup t (.list items) (.list items') := by
  intro room u v hu hv
  induction u generalizing room v with
  | named u required => exact absurd hv (coerceLiteral_list_ne_ok u required items v)
  | list of required ih =>
      cases room with
      | zero => cases hv
      | succ room =>
          cases coerceLiteral_cases hv with
          | single _ hread _ =>
              have hproper : (Literal.list items').isProper = true := rfl
              obtain ⟨w, hw⟩ := ih room _ hu hread
              exact ⟨_, coerceLiteral_single required hproper hw (isNull_of_isProper hproper hw)⟩
          | items _ hread =>
              refine exists_coerceLiteral_list required fun item' hitem' => ?_
              obtain ⟨item, hitem, hentails⟩ := h item' hitem'
              obtain ⟨w, -, hw⟩ := exists_of_mapM_eq_ok hread hitem
              exact hentails room of w hu hw

end Literal.Entails

/-- A record that is read from literals is read from others, if each of them is read wherever the
    literal that it stands for is. -/
theorem exists_assemble_of_entails {o : InputObjectType} (hd : o.record = .dynamic) {room : Nat}
    {entries entries' : List (String × Literal)}
    (h : ∀ f ∈ o.fields, ∀ value', entries'.lookup f.name = some value' →
      ∃ value ft, entries.lookup f.name = some value ∧ s.resolve .input f.type = some ft ∧
        Literal.Entails s lookup ft.namedType value value') {v : Coerced}
    (hread : o.assemble (s.readEntry (coerceLiteral s lookup room) entries) = .ok v) :
    ∃ w, o.assemble (s.readEntry (coerceLiteral s lookup room) entries') = .ok w := by
  refine InputObjectType.exists_assemble_dynamic hd fun f hf => ?_
  cases hvalue' : entries'.lookup f.name with
  | none => exact ⟨none, Schema.readEntry_of_lookup_none hvalue'⟩
  | some value' =>
      obtain ⟨value, ft, hvalue, hft, hentails⟩ := h f hf value' hvalue'
      obtain ⟨found, hfound⟩ := InputObjectType.exists_of_assemble_eq_ok hread hf
      rw [Schema.readEntry_of_lookup_some hvalue hft, map_eq_ok] at hfound
      obtain ⟨u, hu, -⟩ := hfound
      obtain ⟨w, hw⟩ := hentails room ft u rfl hu
      exact ⟨some w, Schema.readEntry_eq_some.2 ⟨value', ft, hvalue', hft, hw⟩⟩

/-- **A literal without variables is read wherever its value is.** -/
theorem entails_literal (hs : s.Built) (hd : s.AllDynamic) {room : Nat} {t : SchemaType}
    {l : Literal} {v : Coerced} (ht : s.Knows t) (hconst : l.variableNames = [])
    (h : coerceLiteral s lookup room t l = .ok v) :
    Literal.Entails s lookup t.namedType v.literal l := by
  induction room generalizing t l v with
  | zero => cases h
  | succ room ih =>
      cases coerceLiteral_cases h with
      | isVariable _ _ => cases hconst
      | isNull _ => exact .refl _
      | @scalar k required _ _ hproper hread =>
          have hadmits := ScalarKind.admits_of_ofLiteral? hproper hread
          refine .of_named (Coerced.isProper_literal (ScalarKind.isNull_of_admits hadmits))
            (ScalarKind.isList_of_admits hadmits) hproper fun room' required' w hw => ?_
          cases room' with
          | zero => cases hw
          | succ room' => exact ⟨v, LiteralStep.eq_ok (.scalar hproper hread)⟩
      | enum _ => exact .refl _
      | @object o required entries _ hread =>
          have hdynamic := hd.record_eq ht rfl
          obtain ⟨held, rfl, hlookup⟩ := Schema.exists_image_of_assemble hdynamic
            (hs.distinct_of_knows ht rfl) Coerced.literal hread
          rw [Coerced.literal_dynamic]
          refine .of_named rfl rfl rfl fun room' required' w hw => ?_
          cases room' with
          | zero => cases hw
          | succ room' =>
              rw [namedType, coerceLiteral_object] at hw ⊢
              refine exists_assemble_of_entails hdynamic (fun f hf value hvalue => ?_) hw
              -- the field is supplied, so the record holds what it was read to
              obtain ⟨found, hfound, himage⟩ := hlookup f hf
              cases found with
              | none =>
                  rw [Schema.readEntry_eq_none.1 hfound] at hvalue
                  cases hvalue
              | some u =>
                  obtain ⟨value', ft, hvalue', hft, hu⟩ := Schema.readEntry_eq_some.1 hfound
                  obtain rfl : value = value' := Option.some.inj (hvalue.symm.trans hvalue')
                  exact ⟨u.literal, ft, himage, hft,
                    ih (Schema.knows_of_resolve hft) (Literal.constant_of_lookup hconst hvalue) hu⟩
      | @single of _ _ w hproper hread hnull =>
          have hmember : Literal.Entails s lookup of.namedType w.literal l :=
            ih (ht.member rfl) hconst hread
          rw [Coerced.literal_list]
          exact (Literal.Entails.unwrap (Coerced.isProper_literal hnull)).trans hmember
      | @items of _ items values _ hread =>
          rw [Coerced.literal_list]
          refine .list fun item hitem => ?_
          obtain ⟨w, hw, hitemRead⟩ := exists_of_mapM_eq_ok hread hitem
          have hentails : Literal.Entails s lookup of.namedType w.literal item :=
            ih (ht.member rfl) (Literal.constant_of_mem hconst hitem) hitemRead
          exact ⟨w.literal, List.mem_map_of_mem hw, hentails⟩

end Entailment

/-! ## 5. Literals -/

section Literals

variable {s : Schema} {lookup : VariableLookup}

/-- **In brackets of its own a value is not of the type that it was read at.** -/
theorem coerceLiteral_wrapped_ne_ok (hs : s.Built) (hd : s.AllDynamic) {room : Nat}
    {t : SchemaType} {l : Literal} {v : Coerced} (ht : s.Knows t) (hconst : l.variableNames = [])
    (h : coerceLiteral s lookup room t l = .ok v) (hv : v.isNull = false) (u : Coerced) :
    coerceLiteral s lookup room t (.list [v.literal]) ≠ .ok u := by
  intro hu
  induction t generalizing room l v u with
  | named t required => exact coerceLiteral_list_ne_ok t required _ u hu
  | list of required ih =>
      cases room with
      | zero => cases h
      | succ room =>
          -- the value would be a member of the list that it is
          have hmember : ∃ w, coerceLiteral s lookup room of v.literal = .ok w := by
            rcases member_of_wrapped hu with ⟨w, hw⟩ | hmember
            · exact Literal.Entails.unwrap (Coerced.isProper_literal hv) room of w rfl hw
            · exact hmember
          obtain ⟨w, hw⟩ := hmember
          cases coerceLiteral_cases h with
          | isVariable _ _ => cases hconst
          | isNull _ => cases hv
          | single _ hread hnull =>
              rw [Coerced.literal_list] at hw
              exact ih (ht.member rfl) hconst hread hnull w hw
          | items hno _ =>
              obtain ⟨w', hw'⟩ := entails_literal hs hd ht hconst h room of w rfl hw
              exact hno w' hw'

/-- **A value written as a literal is read to itself** with the levels that it was read with. -/
theorem coerceLiteral_literal (hs : s.Built) (hd : s.AllDynamic) {room : Nat} {t : SchemaType}
    {l : Literal} {v : Coerced} (ht : s.Knows t) (hconst : l.variableNames = [])
    (h : coerceLiteral s lookup room t l = .ok v) :
    coerceLiteral s lookup room t v.literal = .ok v := by
  induction room generalizing t l v with
  | zero => cases h
  | succ room ih =>
      cases coerceLiteral_cases h with
      | isVariable _ _ => cases hconst
      | isNull _ => exact h
      | scalar hproper hread =>
          have hadmits := ScalarKind.admits_of_ofLiteral? hproper hread
          exact LiteralStep.eq_ok (.scalar
            (Coerced.isProper_literal (ScalarKind.isNull_of_admits hadmits))
            (ScalarKind.ofLiteral?_of_admits hadmits))
      | enum _ => exact h
      | @object o required entries _ hread =>
          obtain ⟨held, rfl, hagain⟩ := Schema.assemble_image (hd.record_eq ht rfl)
            (hs.distinct_of_knows ht rfl) Coerced.literal
            (fun f _ value ft w hvalue hft hw => ih (Schema.knows_of_resolve hft)
              (Literal.constant_of_lookup hconst hvalue) hw) hread
          rw [Coerced.literal_dynamic, coerceLiteral_object]
          exact hagain
      | @single of required _ w hproper hread hnull =>
          -- the list around the value is no member of the type, so its item is read again
          have hno := coerceLiteral_wrapped_ne_ok hs hd (ht.member rfl) hconst hread hnull
          rw [Coerced.literal_list]
          exact LiteralStep.eq_ok (.items hno
            (mapM_eq_ok_iff.2 (.cons (ih (ht.member rfl) hconst hread) .nil)))
      | @items of required items values hno hread =>
          have hno' : ∀ u, coerceLiteral s lookup room of
              (.list (values.map Coerced.literal)) ≠ .ok u := by
            intro u hu
            rw [← Coerced.literal_list] at hu
            obtain ⟨w, hw⟩ := entails_literal hs hd ht hconst h room of u rfl hu
            exact hno w hw
          rw [Coerced.literal_list]
          refine LiteralStep.eq_ok (.items hno' (mapM_image (fun item hitem w hw => ?_) hread))
          exact ih (ht.member rfl) (Literal.constant_of_mem hconst hitem) hw

end Literals

namespace Schema

variable {s : Schema}

/-- **Coercion is idempotent** where all records are dynamic: what a raw value or a literal without
    variables was read to, written down, is read to itself. -/
theorem coercion_idempotent (hs : s.Built) (hd : s.AllDynamic) {e : TypeExpr} {t : SchemaType}
    (ht : s.resolve .input e = some t) :
    (∀ (raw : Raw) (v : Coerced), s.coerceRaw t raw = .ok v → s.coerceRaw t v.raw = .ok v) ∧
    ∀ (bound bound' : Option Resolver) (l : Literal) (v : Coerced), l.variableNames = [] →
      (Repository.mk s bound).coerce t l = .ok v →
        (Repository.mk s bound').coerce t v.literal = .ok v := by
  refine ⟨fun raw v h => coerceRaw_raw hs hd (knows_of_resolve ht) h,
    fun bound bound' l v hconst h => ?_⟩
  refine coerceLiteral_literal hs hd (knows_of_resolve ht) hconst ?_
  -- without variables it does not matter to what they are bound
  refine (coerceLiteral_congr fun name hname => ?_).trans h
  rw [hconst] at hname
  cases hname

/-- A point that becomes a list of lists, and a list literal that one attempt puts into a list of
    its own: neither is put into another when it is read again. -/
theorem coercion_idempotent_points :
    let t : SchemaType := .list (.list (.named (.inputObject point) false) false) false
    let raw : Raw := .object [("tags", .string "a"), ("x", .int 7)]
    let v : Coerced := .list [.list [.object "Point"
      (.dynamic [("x", .int 7), ("tags", .list [.string "a"])])]]
    let u : SchemaType := .list (.list (.named (.scalar .id) false) false) false
    let l : Literal := .list [.int 1, .null]
    let w : Coerced := .list [.list [.string "1", .null]]
    points.Built ∧ points.AllDynamic ∧
      points.resolve .input (.list (.list (.named "Point"))) = some t ∧
      points.resolve .input (.list (.list (.named "ID"))) = some u ∧
      points.coerceRaw t raw = .ok v ∧ points.coerceRaw t v.raw = .ok v ∧
      l.variableNames = [] ∧ (Repository.mk points none).coerce u l = .ok w ∧
      w.literal = .list [.list [.string "1", .null]] ∧
      (Repository.mk points none).coerce u w.literal = .ok w := by
  intro t raw v u l w
  have ht : points.resolve .input (.list (.list (.named "Point"))) = some t := rfl
  have hu : points.resolve .input (.list (.list (.named "ID"))) = some u := rfl
  have hraw : points.coerceRaw t raw = .ok v := rfl
  have hl : (Repository.mk points none).coerce u l = .ok w := rfl
  exact ⟨built_points, allDynamic_points, ht, hu, hraw,
    (coercion_idempotent built_points allDynamic_points ht).1 raw v hraw, rfl, hl, rfl,
    (coercion_idempotent built_points allDynamic_points hu).2 none none l w rfl hl⟩

end Schema

end TypedQuery
