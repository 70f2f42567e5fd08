import Mathlib.Logic.Relation
import TypedQuery.Proofs.Coercion.Conforms
import TypedQuery.Proofs.Coercion.Position

/-!
# The keys that an input object looks at

An input object asks its entries for the fields that it declares, one after the other. What else
stands among the entries, and in which order they stand, is not seen. That holds at every depth, for
literals and for raw values, and it holds of failures as well, but for the text of the value that a
failure names.

* `Shuffles` -- entries that an input object cannot tell apart: a key that it does not declare, a
  key that is repeated, another order; `Shuffles.lookup_eq` -- what it asks for is the same;
* `Shuffled` -- **one such change somewhere inside a value**;
* `Alike` -- outcomes with the same value, or with failures that differ in such a text at most;
* `coerceLiteral_shuffled`, `coerceRaw_shuffled` -- one change leaves the outcome alike;
* `Schema.HoldsDeclared` -- what a dynamic record holds;
* `Schema.only_declared_keys` -- **only declared keys count, in the order of declaration**.
-/

namespace TypedQuery

open SchemaType

/-! ## 1. Entries -/

section Entries

variable {α : Type}

/-- **Entries that an input object cannot tell apart.** -/
inductive Shuffles (o : InputObjectType) : List (String × α) → List (String × α) → Prop
  | undeclared {before after : List (String × α)} {key : String} {value : α}
      (unknown : key ∉ o.fields.map (·.name)) :
      Shuffles o (before ++ (key, value) :: after) (before ++ after)
  | repeated {before after : List (String × α)} {key : String} {value : α}
      (earlier : key ∈ Entries.names before) :
      Shuffles o (before ++ (key, value) :: after) (before ++ after)
  | reordered {entries entries' : List (String × α)} (order : entries.Perm entries')
      (distinct : (Entries.names entries).Nodup) : Shuffles o entries entries'

/-- An entry of another key is not looked at, nor is one of a key that stands before. -/
theorem Entries.lookup_append_cons {before after : List (String × α)} {key name : String}
    {value : α} (h : name = key → key ∈ Entries.names before) :
    (before ++ (key, value) :: after).lookup name = (before ++ after).lookup name := by
  rw [List.lookup_append, List.lookup_append]
  by_cases hname : name = key
  · have hfound : (before.lookup name).isSome = true := by
      rw [Entries.isSome_lookup, hname]
      simpa using h hname
    obtain ⟨held, hheld⟩ := Option.isSome_iff_exists.1 hfound
    rw [hheld, Option.some_or, Option.some_or]
  · rw [List.lookup_cons, beq_false_of_ne hname]

/-- Where no name stands twice, the order does not matter to a lookup. -/
theorem Entries.lookup_perm {entries entries' : List (String × α)} (h : entries.Perm entries')
    (hdistinct : (Entries.names entries).Nodup) (name : String) :
    entries.lookup name = entries'.lookup name := by
  have hdistinct' : (Entries.names entries').Nodup := (h.map _).nodup_iff.1 hdistinct
  refine Option.ext fun value => ⟨fun hvalue => ?_, fun hvalue => ?_⟩
  · exact Entries.lookup_of_mem hdistinct' (h.subset (Entries.mem_of_lookup hvalue))
  · exact Entries.lookup_of_mem hdistinct (h.symm.subset (Entries.mem_of_lookup hvalue))

/-- **What the input object asks for is the same.** -/
theorem Shuffles.lookup_eq {o : InputObjectType} {entries entries' : List (String × α)}
    (h : Shuffles o entries entries') {f : InputField} (hf : f ∈ o.fields) :
    entries.lookup f.name = entries'.lookup f.name := by
  cases h with
  | undeclared unknown =>
      refine Entries.lookup_append_cons fun heq => ?_
      exact absurd (heq ▸ List.mem_map_of_mem hf) unknown
  | repeated earlier => exact Entries.lookup_append_cons fun _ => earlier
  | reordered order distinct => exact Entries.lookup_perm order distinct f.name

end Entries

/-! ## 2. Values -/

/-- **One change of the entries somewhere inside a value** that is read at a named type or at lists
    of it. An item of a list is read at the same named type, and what stands under a declared key at
    the type of the field. Literals and raw values have lists and objects of their own. -/
inductive Shuffled {α : Type} (s : Schema) (list : List α → α) (object : List (String × α) → α) :
    NamedType → α → α → Prop
  | entries {o : InputObjectType} {entries entries' : List (String × α)}
      (shuffles : Shuffles o entries entries') :
      Shuffled s list object (.inputObject o) (object entries) (object entries')
  | field {o : InputObjectType} {f : InputField} {t : SchemaType}
      {before after : List (String × α)} {value value' : α} (declared : f ∈ o.fields)
      (type : s.resolve .input f.type = some t)
      (inside : Shuffled s list object t.namedType value value') :
      Shuffled s list object (.inputObject o) (object (before ++ (f.name, value) :: after))
        (object (before ++ (f.name, value') :: after))
  | item {t : NamedType} {before after : List α} {value value' : α}
      (inside : Shuffled s list object t value value') :
      Shuffled s list object t (list (before ++ value :: after)) (list (before ++ value' :: after))

/-- One change leads from an object to an object, or from a list to a list with one other item. -/
theorem Shuffled.objects_or_lists {α : Type} {s : Schema} {list : List α → α}
    {object : List (String × α) → α} {t : NamedType} {x y : α} (h : Shuffled s list object t x y) :
    (∃ entries entries', x = object entries ∧ y = object entries') ∨
      ∃ before value value' after, x = list (before ++ value :: after) ∧
        y = list (before ++ value' :: after) ∧ Shuffled s list object t value value' := by
  cases h with
  | entries _ => exact .inl ⟨_, _, rfl, rfl⟩
  | field _ _ _ => exact .inl ⟨_, _, rfl, rfl⟩
  | item inside => exact .inr ⟨_, _, _, _, rfl, rfl, inside⟩

/-- Failures that are the same but for the text of the value that has no representation. -/
inductive ResolutionError.Alike : ResolutionError → ResolutionError → Prop
  | same (e : ResolutionError) : Alike e e
  | notRepresentable (type found found' : String) :
      Alike (.notRepresentable type found) (.notRepresentable type found')

/-- **Outcomes that are alike**: the same value, or failures that are. -/
inductive Alike {α : Type} :
    Except ResolutionError α → Except ResolutionError α → Prop
  | value (a : α) : Alike (.ok a) (.ok a)
  | failure {e e' : ResolutionError} (alike : e.Alike e') : Alike (.error e) (.error e')

namespace Alike

variable {α β : Type} {x y z : Except ResolutionError α}

theorem refl (x : Except ResolutionError α) : Alike x x := by
  cases x with
  | ok a => exact .value a
  | error e => exact .failure (.same e)

theorem symm (h : Alike x y) : Alike y x := by
  cases h with
  | value a => exact .value a
  | failure halike =>
      cases halike with
      | same _ => exact .failure (.same _)
      | notRepresentable type found found' => exact .failure (.notRepresentable type found' found)

theorem trans (h : Alike x y) (h' : Alike y z) : Alike x z := by
  cases h with
  | value a => exact h'
  | failure halike =>
      cases halike with
      | same _ => exact h'
      | notRepresentable type found _ =>
          cases h' with
          | failure halike' =>
              cases halike' with
              | same _ => exact .failure (.notRepresentable type found _)
              | notRepresentable _ _ found' => exact .failure (.notRepresentable type found found')

end Alike

theorem sequential_alike : Sequential fun α => @Alike α where
  refl := Alike.refl
  bind hx hf := by
    cases hx with
    | value a => exact hf a
    | failure halike => exact .failure halike

/-- What a change of single steps leaves alike, a change of many steps does. -/
theorem Alike.of_eqvGen {α : Type} {R : α → α → Prop} (outcome : α → Except ResolutionError Coerced)
    (hstep : ∀ {a b}, R a b → Alike (outcome a) (outcome b)) {a b : α} (h : Relation.EqvGen R a b) :
    Alike (outcome a) (outcome b) := by
  induction h with
  | rel a b hab => exact hstep hab
  | refl a => exact .refl _
  | symm a b _ ih => exact ih.symm
  | trans a b c _ _ ih ih' => exact ih.trans ih'

/-- Lists that differ in one item are read alike if that item is. -/
theorem Alike.item {α β : Type} {read : α → Except ResolutionError β} {a b : α}
    (h : Alike (read a) (read b)) (before after : List α) :
    Alike ((before ++ a :: after).mapM read) ((before ++ b :: after).mapM read) := by
  have hsame : ∀ items : List α, List.Forall₂ (fun x y => Alike (read x) (read y)) items items :=
    fun items => List.forall₂_same.2 fun x _ => .refl _
  exact sequential_alike.pairs (List.rel_append (hsame before) (.cons h (hsame after)))

/-! ## 3. One level -/

section Records

variable {α : Type} {s : Schema} {coerce : SchemaType → α → Except ResolutionError Coerced}
  {o : InputObjectType} {entries entries' : List (String × α)}

/-- Entries that an input object cannot tell apart are read alike. -/
theorem Schema.assemble_shuffles (h : Shuffles o entries entries') :
    Alike (o.assemble (s.readEntry coerce entries)) (o.assemble (s.readEntry coerce entries')) := by
  refine InputObjectType.assemble_related sequential_alike fun f hf => ?_
  have hread : s.readEntry coerce entries f = s.readEntry coerce entries' f := by
    unfold readEntry
    rw [h.lookup_eq hf]
  rw [hread]
  exact .refl _

/-- Entries in which the value of one field is replaced by one that is read alike. -/
theorem Schema.assemble_field (hdistinct : (o.fields.map (·.name)).Nodup) {f : InputField}
    (hf : f ∈ o.fields) {t : SchemaType} (ht : s.resolve .input f.type = some t)
    {before after : List (String × α)} {value value' : α}
    (h : Alike (coerce t value) (coerce t value')) :
    Alike (o.assemble (s.readEntry coerce (before ++ (f.name, value) :: after)))
      (o.assemble (s.readEntry coerce (before ++ (f.name, value') :: after))) := by
  refine InputObjectType.assemble_related sequential_alike fun g hg =>
    readEntry_supplied sequential_alike ?_
  rw [List.lookup_append, List.lookup_append, List.lookup_cons, List.lookup_cons]
  have hsame : ∀ found : Option α, Option.Rel (fun value value' => ∀ t,
      s.resolve .input g.type = some t → Alike (coerce t value) (coerce t value')) found found := by
    intro found
    cases found with
    | none => exact .none
    | some held => exact .some fun _ _ => .refl _
  cases before.lookup g.name with
  | some held => exact hsame _
  | none =>
      by_cases hname : g.name = f.name
      · -- fields are distinct, so it is the field of the changed value
        obtain rfl : g = f := List.inj_on_of_nodup_map hdistinct hg hf hname
        rw [beq_self_eq_true]
        refine .some fun t' ht' => ?_
        obtain rfl : t = t' := Option.some.inj (ht.symm.trans ht')
        exact h
      · rw [beq_false_of_ne hname]
        exact hsame _

end Records

section Literals

variable {s : Schema} {lookup : VariableLookup}

/-- A list literal at a named type has no representation. -/
theorem coerceLiteral_list_named (room : Nat) (t : NamedType) (required : Bool)
    (items : List Literal) :
    coerceLiteral s lookup (room + 1) (.named t required) (.list items) =
      .error (literalMismatch t.name (.list items)) := by
  cases t with
  | scalar k =>
      obtain ⟨_, _, kind⟩ := k
      cases kind <;> rfl
  | _ => rfl

/-- Literals that are members of the list alike are lists alike. -/
theorem coerceLiteral_members_alike {room : Nat} {of : SchemaType} (required : Bool)
    {l l' : Literal} {v : Coerced} (hl : l.isProper = true) (hl' : l'.isProper = true)
    (h : coerceLiteral s lookup room of l = .ok v) (h' : coerceLiteral s lookup room of l' = .ok v) :
    Alike (coerceLiteral s lookup (room + 1) (.list of required) l)
      (coerceLiteral s lookup (room + 1) (.list of required) l') := by
  have hv := isNull_of_isProper hl h
  rw [coerceLiteral_single required hl h hv, coerceLiteral_single required hl' h' hv]
  exact .refl _

/-- Objects at a list type are the only member of the list, or fail as that. -/
theorem coerceLiteral_object_alike {room : Nat} {of : SchemaType} (required : Bool)
    {entries entries' : List (String × Literal)}
    (h : Alike (coerceLiteral s lookup room of (.object entries))
      (coerceLiteral s lookup room of (.object entries'))) :
    Alike (coerceLiteral s lookup (room + 1) (.list of required) (.object entries))
      (coerceLiteral s lookup (room + 1) (.list of required) (.object entries')) := by
  generalize hread : coerceLiteral s lookup room of (.object entries) = attempt,
    hread' : coerceLiteral s lookup room of (.object entries') = attempt' at h
  cases h with
  | value v => exact coerceLiteral_members_alike required rfl rfl hread hread'
  | failure halike =>
      rw [coerceLiteral_probeFails required rfl rfl hread,
        coerceLiteral_probeFails required rfl rfl hread']
      exact .failure halike

/-- Lists at a list type, if they are alike as its only member and as its items. -/
theorem coerceLiteral_list_alike {room : Nat} {of : SchemaType} (required : Bool)
    {items items' : List Literal}
    (hprobe : Alike (coerceLiteral s lookup room of (.list items))
      (coerceLiteral s lookup room of (.list items')))
    (hitems : Alike (items.mapM (coerceLiteral s lookup room of))
      (items'.mapM (coerceLiteral s lookup room of))) :
    Alike (coerceLiteral s lookup (room + 1) (.list of required) (.list items))
      (coerceLiteral s lookup (room + 1) (.list of required) (.list items')) := by
  generalize hread : coerceLiteral s lookup room of (.list items) = attempt,
    hread' : coerceLiteral s lookup room of (.list items') = attempt' at hprobe
  cases hprobe with
  | value v => exact coerceLiteral_members_alike required rfl rfl hread hread'
  | failure _ =>
      rw [coerceLiteral_items required (fun v hv => by rw [hread] at hv; cases hv),
        coerceLiteral_items required (fun v hv => by rw [hread'] at hv; cases hv)]
      exact sequential_alike.map hitems Coerced.list

/-- **One change inside a literal leaves its outcome alike.** -/
theorem coerceLiteral_shuffled (hs : s.Built) {room : Nat} {t : SchemaType} {l l' : Literal}
    (ht : s.Knows t) (h : Shuffled s Literal.list Literal.object t.namedType l l') :
    Alike (coerceLiteral s lookup room t l) (coerceLiteral s lookup room t l') := by
  induction room generalizing t l l' with
  | zero => exact .refl _
  | succ room ih =>
      cases t with
      | list of required =>
          have hmember := ih (ht.member rfl) h
          rcases h.objects_or_lists with ⟨_, _, rfl, rfl⟩ | ⟨_, _, _, _, rfl, rfl, inside⟩
          · exact coerceLiteral_object_alike required hmember
          · exact coerceLiteral_list_alike required hmember (.item (ih (ht.member rfl) inside) _ _)
      | named t required =>
          cases h with
          | @entries o entries entries' shuffles =>
              rw [coerceLiteral_object, coerceLiteral_object]
              exact Schema.assemble_shuffles shuffles
          | @field o f ft before after value value' declared type inside =>
              rw [coerceLiteral_object, coerceLiteral_object]
              exact Schema.assemble_field (hs.distinct_of_knows ht rfl) declared type
                (ih (Schema.knows_of_resolve type) inside)
          | item inside =>
              rw [coerceLiteral_list_named, coerceLiteral_list_named]
              exact .failure (.notRepresentable _ _ _)

end Literals

section RawValues

variable {s : Schema}

/-- A raw list at a named type has no representation. -/
theorem coerceRaw_list_named (room : Nat) (t : NamedType) (required : Bool) (items : List Raw) :
    coerceRaw s (room + 1) (.named t required) (.list items) =
      .error (rawMismatch t.name (.list items)) := by
  cases t with
  | scalar k =>
      obtain ⟨_, _, kind⟩ := k
      cases kind <;> rfl
  | _ => rfl

/-- The entries of a raw object, if reading them deeper leaves them alike. -/
theorem coerceRaw_object_alike {room : Nat} {o : InputObjectType} (required : Bool)
    {entries entries' : List (String × Raw)}
    (h : Alike (o.assemble (s.readEntry (coerceRaw s room) entries))
      (o.assemble (s.readEntry (coerceRaw s room) entries'))) :
    Alike (coerceRaw s (room + 1) (.named (.inputObject o) required) (.object entries))
      (coerceRaw s (room + 1) (.named (.inputObject o) required) (.object entries')) := by
  by_cases hroom : room = 0
  · -- no level is left for the fields, whatever they are
    subst hroom
    exact .refl _
  · rw [coerceRaw_object o required entries hroom, coerceRaw_object o required entries' hroom]
    exact h

/-- **One change inside a raw value leaves its outcome alike.** -/
theorem coerceRaw_shuffled (hs : s.Built) {room : Nat} {t : SchemaType} {raw raw' : Raw}
    (ht : s.Knows t) (h : Shuffled s Raw.list Raw.object t.namedType raw raw') :
    Alike (coerceRaw s room t raw) (coerceRaw s room t raw') := by
  induction room generalizing t raw raw' with
  | zero => exact .refl _
  | succ room ih =>
      cases t with
      | list of required =>
          have hmember := ih (ht.member rfl) h
          rcases h.objects_or_lists with ⟨_, _, rfl, rfl⟩ | ⟨_, _, _, _, rfl, rfl, inside⟩
          · exact sequential_alike.map hmember fun value => Coerced.list [value]
          · exact sequential_alike.map (.item (ih (ht.member rfl) inside) _ _) Coerced.list
      | named t required =>
          cases h with
          | entries shuffles =>
              exact coerceRaw_object_alike required (Schema.assemble_shuffles shuffles)
          | field declared type inside =>
              have hdistinct := hs.distinct_of_knows ht rfl
              exact coerceRaw_object_alike required (Schema.assemble_field hdistinct declared type
                (ih (Schema.knows_of_resolve type) inside))
          | item inside =>
              rw [coerceRaw_list_named, coerceRaw_list_named]
              exact .failure (.notRepresentable _ _ _)

end RawValues

/-! ## 4. Records -/

namespace Schema

variable {α : Type} {s : Schema}

/-- **What a dynamic record holds**: its keys are the declared fields among the entries, in the
    order of declaration, and each holds what the type of the field gives to the first entry of its
    name. -/
structure HoldsDeclared (s : Schema) (coerce : SchemaType → α → Except ResolutionError Coerced)
    (o : InputObjectType) (entries : List (String × α)) (held : List (String × Coerced)) :
    Prop where
  keys : Entries.names held = (o.fields.map (·.name)).filter (Entries.names entries).contains
  values : ∀ f ∈ o.fields, ∀ value, entries.lookup f.name = some value →
    ∃ t w, s.resolve .input f.type = some t ∧ coerce t value = .ok w ∧
      held.lookup f.name = some w

variable {coerce : SchemaType → α → Except ResolutionError Coerced} {o : InputObjectType}
  {entries : List (String × α)}

/-- Of fields that are all read, those that are supplied give entries. -/
theorem names_entryOf {fields : List InputField}
    (h : ∀ f ∈ fields, ∃ found, s.readEntry coerce entries f = .ok found) :
    Entries.names (fields.filterMap (InputObjectType.entryOf (s.readEntry coerce entries))) =
      (fields.map (·.name)).filter (Entries.names entries).contains := by
  induction fields with
  | nil => rfl
  | cons f rest ih =>
      have hrest := ih fun g hg => h g (List.mem_cons_of_mem f hg)
      obtain ⟨found, hfound⟩ := h f List.mem_cons_self
      rw [List.map_cons, List.filter_cons, ← Entries.isSome_lookup, List.filterMap_cons]
      cases found with
      | none =>
          rw [readEntry_eq_none.1 hfound]
          have hnone : InputObjectType.entryOf (s.readEntry coerce entries) f = none := by
            unfold InputObjectType.entryOf
            rw [hfound]
          rw [hnone]
          exact hrest
      | some w =>
          obtain ⟨value, -, hvalue, -, -⟩ := readEntry_eq_some.1 hfound
          rw [hvalue, InputObjectType.entryOf_eq_some.2 ⟨rfl, hfound⟩]
          exact congrArg (f.name :: ·) hrest

/-- **A dynamic record holds the declared fields among its entries.** -/
theorem holdsDeclared_of_assemble (hd : o.record = .dynamic)
    (hdistinct : (o.fields.map (·.name)).Nodup) {v : Coerced}
    (h : o.assemble (s.readEntry coerce entries) = .ok v) :
    ∃ held, v = .object o.name (.dynamic held) ∧ s.HoldsDeclared coerce o entries held := by
  have hread := fun f hf => InputObjectType.exists_of_assemble_eq_ok h (f := f) hf
  have hkeys := names_entryOf hread
  refine ⟨_, InputObjectType.assemble_dynamic hd hdistinct h, hkeys, ?_⟩
  intro f hf value hvalue
  obtain ⟨found, hfound⟩ := hread f hf
  cases found with
  | none =>
      rw [readEntry_eq_none.1 hfound] at hvalue
      cases hvalue
  | some w =>
      obtain ⟨value', t, hvalue', ht, hw⟩ := readEntry_eq_some.1 hfound
      obtain rfl : value = value' := Option.some.inj (hvalue.symm.trans hvalue')
      exact ⟨t, w, ht, hw, InputObjectType.lookup_entries hdistinct hf hfound⟩

/-- **Only declared keys count, in the order of declaration.** Literals that differ in undeclared
    keys, in repetitions of a key and in the order of keys, wherever they stand against an input
    object, give the same value or fail alike, whatever their variables stand for; and so do raw
    values. A dynamic record, at whatever depth it is read, holds the declared fields that are
    supplied. -/
theorem only_declared_keys (hs : s.Built) :
    (∀ e t, s.resolve .input e = some t →
      (∀ (bound : Option Resolver) (l l' : Literal),
        Relation.EqvGen (Shuffled s Literal.list Literal.object t.namedType) l l' →
        Alike ((Repository.mk s bound).coerce t l) ((Repository.mk s bound).coerce t l')) ∧
      ∀ raw raw' : Raw, Relation.EqvGen (Shuffled s Raw.list Raw.object t.namedType) raw raw' →
        Alike (s.coerceRaw t raw) (s.coerceRaw t raw')) ∧
    ∀ name o, s.named? .input name = some (.inputObject o) → o.record = .dynamic →
      ∀ (room : Nat) (required : Bool) (v : Coerced),
        (∀ lookup entries, SchemaType.coerceLiteral s lookup (room + 1)
            (.named (.inputObject o) required) (.object entries) = .ok v →
          ∃ held, v = .object o.name (.dynamic held) ∧
            s.HoldsDeclared (SchemaType.coerceLiteral s lookup room) o entries held) ∧
        ∀ entries, SchemaType.coerceRaw s (room + 1)
            (.named (.inputObject o) required) (.object entries) = .ok v →
          ∃ held, v = .object o.name (.dynamic held) ∧
            s.HoldsDeclared (SchemaType.coerceRaw s room) o entries held := by
  refine ⟨fun e t ht => ⟨fun bound l l' h => ?_, fun raw raw' h => ?_⟩,
    fun name o ho hd room required v => ⟨fun lookup entries h => ?_, fun entries h => ?_⟩⟩
  · exact .of_eqvGen ((Repository.mk s bound).coerce t)
      (coerceLiteral_shuffled hs (knows_of_resolve ht)) h
  · exact .of_eqvGen (s.coerceRaw t) (coerceRaw_shuffled hs (knows_of_resolve ht)) h
  · rw [coerceLiteral_object] at h
    exact holdsDeclared_of_assemble hd (hs.distinct_fields ho) h
  · cases coerceRaw_cases h with
    | object _ hread => exact holdsDeclared_of_assemble hd (hs.distinct_fields ho) hread

/-- A point in a list of points, with a key that it does not declare, a key twice and its keys in
    the other order. -/
theorem only_declared_keys_points :
    let t : SchemaType := .list (.named (.inputObject point) false) false
    let many : List (String × Literal) :=
      [("tags", .list [.string "a"]), ("z", .int 1), ("x", .int 2), ("x", .int 3)]
    let few : List (String × Literal) := [("x", .int 2), ("tags", .list [.string "a"])]
    let held : List (String × Coerced) := [("x", .int 2), ("tags", .list [.string "a"])]
    points.Built ∧ points.resolve .input (.list (.named "Point")) = some t ∧
      Alike ((Repository.mk points none).coerce t (.list [.object many]))
        ((Repository.mk points none).coerce t (.list [.object few])) ∧
      (Repository.mk points none).coerce t (.list [.object few]) =
        .ok (.list [.object "Point" (.dynamic held)]) ∧
      Alike (points.coerceRaw t (.object [("z", .null), ("x", .int 2)]))
        (points.coerceRaw t (.object [("x", .int 2)])) ∧
      points.HoldsDeclared (SchemaType.coerceLiteral points VariableLookup.none 4) point many
        held := by
  intro t many few held
  have ht : points.resolve .input (.list (.named "Point")) = some t := rfl
  obtain ⟨hlaws, hrecord⟩ := only_declared_keys built_points
  have hlaw := hlaws _ t ht
  have hinside : ∀ {entries entries' : List (String × Literal)}, Shuffles point entries entries' →
      Relation.EqvGen (Shuffled points Literal.list Literal.object t.namedType)
        (.list [.object entries]) (.list [.object entries']) := by
    intro entries entries' h
    have hitem : Shuffled points Literal.list Literal.object t.namedType
        (.list ([] ++ .object entries :: [])) (.list ([] ++ .object entries' :: [])) :=
      .item (.entries h)
    exact .rel _ _ hitem
  let tags : String × Literal := ("tags", .list [.string "a"])
  let x : String × Literal := ("x", .int 2)
  have hdeclared : Shuffles point ([tags] ++ ("z", .int 1) :: [x, ("x", .int 3)])
      ([tags] ++ [x, ("x", .int 3)]) := .undeclared (by decide)
  have honce : Shuffles point ([tags, x] ++ ("x", .int 3) :: []) ([tags, x] ++ []) :=
    .repeated (by decide)
  have hordered : Shuffles point [tags, x] [x, tags] := .reordered (.swap x tags []) (by decide)
  have hraw : Shuffles point ([] ++ ("z", Raw.null) :: [("x", .int 2)]) ([] ++ [("x", .int 2)]) :=
    .undeclared (by decide)
  refine ⟨built_points, ht, hlaw.1 none _ _ ?_, rfl, hlaw.2 _ _ ?_, ?_⟩
  · exact .trans _ _ _ (hinside hdeclared) (.trans _ _ _ (hinside honce) (hinside hordered))
  · exact .rel _ _ (.entries hraw)
  · obtain ⟨held', heq, hholds⟩ :=
      (hrecord "Point" point rfl rfl 4 false _).1 VariableLookup.none many rfl
    cases heq
    exact hholds

end Schema

end TypedQuery
