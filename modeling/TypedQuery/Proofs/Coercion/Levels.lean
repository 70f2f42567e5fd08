import TypedQuery.Proofs.Coercion.Failures
import TypedQuery.Proofs.Coercion.Moving
import TypedQuery.Proofs.Coercion.Readings

/-!
# The levels of literals and of raw values

A literal and its raw image are read level by level in the same way, at flat types. They differ in
one place: an object takes its last level for itself, whether or not a field is supplied, where a
raw value stands; an object literal of which no field is supplied takes none.

* `Reading.EmptyLast` -- an object literal without fields at the last level;
* `coerceRaw_tooDeep` -- where the raw image of a literal with a value exceeds the limit, its
  reading leads to such an object; `Reading.Visits.raw_eq_ok` -- where the image has a value, the
  reading leads to none;
* `coerceLiteral_not_tooDeep` -- a literal whose image has a value does not exceed the limit;
* `Resolver.levels_agree` -- **literals and variables have the same levels** but for such objects;
  `Resolver.levels_differ` -- why these are the exception.
-/

namespace TypedQuery

open SchemaType

namespace Literal

/-- The image of a literal is an object only if the literal is. -/
theorem eq_object_of_raw {l : Literal} {images : List (String × Raw)}
    (h : l.raw = .object images) :
    ∃ entries, l = .object entries ∧ images = rawOfEntries entries := by
  cases l with
  | object entries =>
      cases h
      exact ⟨entries, rfl, rfl⟩
  | _ => cases h

/-- The image of a literal is a list only if the literal is. -/
theorem eq_list_of_raw {l : Literal} {images : List Raw} (h : l.raw = .list images) :
    ∃ items, l = .list items ∧ images = items.map raw := by
  cases l with
  | list items =>
      cases h
      exact ⟨items, rfl, rawOfItems_eq items⟩
  | _ => cases h

/-- A literal whose image is neither null nor a list. -/
theorem isProper_of_raw {l : Literal} (hnull : l.raw.isNull = false)
    (hlist : ∀ images, l.raw ≠ .list images) : l.isProper = true ∧ l.isList = false := by
  cases l with
  | «variable» _ => cases hnull
  | null => cases hnull
  | list items => exact absurd rfl (hlist _)
  | _ => exact ⟨rfl, rfl⟩

end Literal

/-! ## 1. Raw images whose value is known -/

section Images

variable {s : Schema} {room : Nat} {v : Coerced}

/-- The image of an item of a list that is read is read. -/
theorem coerceRaw_item {of : SchemaType} {required : Bool} {items : List Literal}
    (h : coerceRaw s (room + 1) (.list of required) (Literal.list items).raw = .ok v)
    {item : Literal} (hitem : item ∈ items) : ∃ w, coerceRaw s room of item.raw = .ok w := by
  have hread : ((Literal.rawOfItems items).mapM (coerceRaw s room of)).map Coerced.list = .ok v := h
  rw [Literal.rawOfItems_eq] at hread
  obtain ⟨values, hvalues, -⟩ := map_eq_ok.1 hread
  obtain ⟨w, -, hw⟩ := exists_of_mapM_eq_ok hvalues (List.mem_map_of_mem hitem)
  exact ⟨w, hw⟩

/-- The image of a supplied field of an object that is read is read. -/
theorem coerceRaw_field {o : InputObjectType} {required : Bool}
    {entries : List (String × Literal)}
    (h : coerceRaw s (room + 1) (.named (.inputObject o) required) (Literal.object entries).raw =
      .ok v)
    {f : InputField} (hf : f ∈ o.fields) {value : Literal} {t : SchemaType}
    (hvalue : entries.lookup f.name = some value) (ht : s.resolve .input f.type = some t) :
    ∃ w, coerceRaw s room t value.raw = .ok w := by
  have himage : (Literal.rawOfEntries entries).lookup f.name = some value.raw := by
    rw [Literal.lookup_rawOfEntries, hvalue]
    rfl
  rw [Literal.raw] at h
  cases coerceRaw_cases h with
  | object _ hread =>
      obtain ⟨found, hfound⟩ := InputObjectType.exists_of_assemble_eq_ok hread hf
      rw [Schema.readEntry_of_lookup_some himage ht, map_eq_ok] at hfound
      obtain ⟨w, hw, -⟩ := hfound
      exact ⟨w, hw⟩

/-- The image of a literal that is no list is read as the only member of one. -/
theorem coerceRaw_member {of : SchemaType} {required : Bool} {l : Literal}
    (hl : l.isProper = true) (hlist : l.isList = false)
    (h : coerceRaw s (room + 1) (.list of required) l.raw = .ok v) :
    ∃ w, coerceRaw s room of l.raw = .ok w := by
  rw [coerceRaw_single hl hlist, map_eq_ok] at h
  obtain ⟨w, hw, -⟩ := h
  exact ⟨w, hw⟩

/-- **A literal whose image has a value does not exceed the limit.** -/
theorem coerceLiteral_not_tooDeep {lookup : VariableLookup} {t : SchemaType} {l : Literal}
    (hconst : l.variableNames = []) (h : coerceRaw s room t l.raw = .ok v) (m : Nat) :
    coerceLiteral s lookup room t l ≠ .error (.depthLimitExceeded m) := by
  induction room generalizing t l v with
  | zero => cases h
  | succ room ih =>
      intro hdeep
      cases coerceLiteral_failure hdeep with
      | value hown => cases hown
      | isVariable _ => cases hconst
      | object hrecord =>
          cases hrecord with
          | field hf hvalue hft hfailed =>
              obtain ⟨w, hw⟩ := coerceRaw_field h hf hvalue hft
              exact ih (Literal.constant_of_lookup hconst hvalue) hw hfailed
      | single hproper hlist hfailed =>
          obtain ⟨w, hw⟩ := coerceRaw_member hproper hlist h
          exact ih hconst hw hfailed
      | item hitem hfailed =>
          obtain ⟨w, hw⟩ := coerceRaw_item h hitem
          exact ih (Literal.constant_of_mem hconst hitem) hw hfailed

end Images

/-! ## 2. Objects without fields -/

namespace Reading

/-- **An object literal without fields at the last level**: no level is left for the value of a
    field, and none is supplied. -/
inductive EmptyLast : Reading → Prop
  | intro {o : InputObjectType} {required : Bool} {entries : List (String × Literal)}
      (unsupplied : ∀ f ∈ o.fields, entries.lookup f.name = none) :
      EmptyLast ⟨1, .named (.inputObject o) required, .object entries⟩

/-- What the raw image of the literal gives with the levels that are left. -/
def rawOutcome (s : Schema) (p : Reading) : Except ResolutionError Coerced :=
  coerceRaw s p.room p.type p.literal.raw

variable {s : Schema} {lookup : VariableLookup} {p q : Reading}

/-- The image of such an object exceeds the limit. -/
theorem EmptyLast.rawOutcome_eq (h : p.EmptyLast) :
    p.rawOutcome s = .error (.depthLimitExceeded s.limits.maxDepth) := by
  cases h with
  | intro _ => rfl

/-- If the image of a literal at a flat type has a value, the images of its parts do. -/
theorem Step.raw_eq_ok (h : p.Step s lookup q) (hflat : p.AtFlat s) {v : Coerced}
    (hp : p.rawOutcome s = .ok v) : ∃ w, q.rawOutcome s = .ok w := by
  cases h with
  | @single room of required l w hproper hread =>
      obtain ⟨t, required', rfl⟩ := hflat.member
      cases hlist : l.isList with
      | false => exact coerceRaw_member hproper hlist hp
      | true =>
          cases l with
          | list items => exact absurd hread (coerceLiteral_list_ne_ok t required' items w)
          | _ => cases hlist
  | item _ hmem => exact coerceRaw_item hp hmem
  | field hdeclared hsupplied htype => exact coerceRaw_field hp hdeclared hsupplied htype

/-- **If the image of a literal at a flat type has a value, the images of all that its reading
    leads to do.** -/
theorem Visits.raw_eq_ok (h : p.Visits s lookup q) (hflat : p.AtFlat s) {v : Coerced}
    (hp : p.rawOutcome s = .ok v) : ∃ w, q.rawOutcome s = .ok w := by
  induction h with
  | refl => exact ⟨v, hp⟩
  | tail hvisits hstep ih =>
      obtain ⟨w, hw⟩ := ih
      exact hstep.raw_eq_ok (Visits.flat hvisits hflat) hw

/-- If an object literal has a value while one level is left, no field is supplied. -/
theorem emptyLast_of_eq_ok {o : InputObjectType} {required : Bool}
    {entries : List (String × Literal)} {v : Coerced}
    (h : coerceLiteral s lookup 1 (.named (.inputObject o) required) (.object entries) = .ok v) :
    EmptyLast ⟨1, .named (.inputObject o) required, .object entries⟩ := by
  refine .intro fun f hf => ?_
  rw [coerceLiteral_object] at h
  obtain ⟨found, hfound⟩ := InputObjectType.exists_of_assemble_eq_ok h hf
  cases found with
  | none => exact Schema.readEntry_eq_none.1 hfound
  | some w =>
      obtain ⟨value, t, -, -, hw⟩ := Schema.readEntry_eq_some.1 hfound
      cases hw

end Reading

/-- **Where the image of a literal with a value exceeds the limit**, the reading of the literal leads
    to an object without fields at the last level. -/
theorem coerceRaw_tooDeep {s : Schema} {lookup : VariableLookup} {room m : Nat} {t : SchemaType}
    {l : Literal} {v : Coerced} (hflat : Reading.AtFlat s ⟨room, t, l⟩)
    (h : coerceLiteral s lookup room t l = .ok v)
    (hdeep : coerceRaw s room t l.raw = .error (.depthLimitExceeded m)) :
    ∃ p, Reading.Visits s lookup ⟨room, t, l⟩ p ∧ p.EmptyLast := by
  induction room generalizing t l v with
  | zero => cases h
  | succ room ih =>
      have hpart : ∀ {t' l'}, Reading.Step s lookup ⟨room + 1, t, l⟩ ⟨room, t', l'⟩ →
          coerceRaw s room t' l'.raw = .error (.depthLimitExceeded m) →
          ∃ p, Reading.Visits s lookup ⟨room + 1, t, l⟩ p ∧ p.EmptyLast := by
        intro t' l' hstep hdeep'
        obtain ⟨w, hw⟩ := hstep.eq_ok h
        obtain ⟨p, hp, hempty⟩ := ih (hflat.step hstep) hw hdeep'
        exact ⟨p, .head hstep hp, hempty⟩
      generalize himage : l.raw = image at hdeep
      cases coerceRaw_failure hdeep with
      | value hown => cases hown
      | tooDeep hroom =>
          obtain ⟨entries, rfl, rfl⟩ := Literal.eq_object_of_raw himage
          subst hroom
          exact ⟨_, .refl, Reading.emptyLast_of_eq_ok h⟩
      | object hrecord =>
          obtain ⟨entries, rfl, rfl⟩ := Literal.eq_object_of_raw himage
          cases hrecord with
          | field hf himage hft hfailed =>
              rw [Literal.lookup_rawOfEntries, Option.map_eq_some_iff] at himage
              obtain ⟨value, hvalue, rfl⟩ := himage
              exact hpart (.field hf hvalue hft) hfailed
      | item hmem hfailed =>
          obtain ⟨items, rfl, rfl⟩ := Literal.eq_list_of_raw himage
          obtain ⟨item, hitem, rfl⟩ := List.mem_map.1 hmem
          obtain ⟨t, required, rfl⟩ := hflat.member
          exact hpart (.item (coerceLiteral_list_ne_ok t required items) hitem) hfailed
      | single hnull hlist hfailed =>
          subst himage
          obtain ⟨hproper, hlist⟩ := Literal.isProper_of_raw hnull hlist
          cases coerceLiteral_cases h with
          | isVariable _ _ => cases hproper
          | isNull _ => cases hproper
          | single _ hread _ => exact hpart (.single hproper hread) hfailed
          | items _ _ => cases hlist

/-! ## 3. Literals and variables -/

namespace Resolver

/-- **Literals and variables have the same levels**, where no list stands directly in a list. A
    literal with a value has it as a variable too, unless its reading leads to an object without
    fields at the last level, where the variable exceeds the limit. If the variable has a value the
    literal does not exceed it. -/
theorem levels_agree {r : Resolver} {e : TypeExpr} {t : SchemaType}
    (ht : r.schema.resolve .input e = some t) (hflat : r.schema.Flat e) {l : Literal}
    (hconst : l.variableNames = []) {name : String} {d : VariableDefinition}
    (hd : r.definition? name = some d) (htype : d.type = e)
    (hsupplied : r.supplied.find? name = some l.raw) (bound : Option Resolver) :
    let repository := Repository.mk r.schema bound
    let m := r.schema.limits.maxDepth
    let start : Reading := ⟨m + 1, t, l⟩
    (∀ v, repository.coerce t l = .ok v →
      ((∀ p, start.Visits r.schema repository.lookup p → ¬ p.EmptyLast) →
        r.resolve name = .ok v) ∧
      ∀ p, start.Visits r.schema repository.lookup p → p.EmptyLast →
        r.resolve name = .error (.depthLimitExceeded m)) ∧
    ∀ v, r.resolve name = .ok v →
      ∀ m', repository.coerce t l ≠ .error (.depthLimitExceeded m') := by
  intro repository m start
  subst htype
  rw [resolve_supplied hd ht hsupplied]
  have hstart : start.AtFlat r.schema := ⟨d.type, t, ht, hflat, .refl⟩
  have himage : ∀ v, repository.coerce t l = .ok v →
      YieldsUpTo (.depthLimitExceeded m) (r.schema.coerceRaw t l.raw) v :=
    fun v hv => coerceRaw_yields ht hflat .refl hconst hv
  refine ⟨fun v hv => ⟨fun hno => ?_, fun p hp hempty => ?_⟩, fun v hv => ?_⟩
  · rcases himage v hv with hok | hdeep
    · exact hok
    · obtain ⟨p, hp, hempty⟩ := coerceRaw_tooDeep hstart hv hdeep
      exact absurd hempty (hno p hp)
  · rcases himage v hv with hok | hdeep
    · obtain ⟨w, hw⟩ := hp.raw_eq_ok hstart hok
      cases hempty.rawOutcome_eq.symm.trans hw
    · exact hdeep
  · exact coerceLiteral_not_tooDeep hconst hv

/-- A point with its coordinate takes both levels, as a literal and as a variable. -/
theorem levels_agree_points :
    let r : Resolver := ⟨Schema.points.withMaxDepth 1,
      Table.ofList [("p", .object [("x", .int 1)])], [⟨⟨0, 0⟩, "p", .named "Point", none⟩]⟩
    let l : Literal := .object [("x", .int 1)]
    let v : Coerced := .object "Point" (.dynamic [("x", .int 1)])
    ∃ t, r.schema.resolve .input (.named "Point") = some t ∧
      (Repository.mk r.schema none).coerce t l = .ok v ∧ r.resolve "p" = .ok v := by
  intro r l v
  have ht : r.schema.resolve .input (.named "Point") =
      some (.named (.inputObject Schema.point) false) := rfl
  have hread : (Repository.mk r.schema none).coerce (.named (.inputObject Schema.point) false) l =
      .ok v := rfl
  have hflat : r.schema.Flat (.named "Point") := (Schema.flat_points.member rfl).withMaxDepth 1
  have hd : r.definition? "p" = some ⟨⟨0, 0⟩, "p", .named "Point", none⟩ := rfl
  have hagree := (levels_agree ht hflat rfl hd rfl rfl none).1 v hread
  refine ⟨_, ht, hread, hagree.1 fun p hp hempty => ?_⟩
  rcases Relation.ReflTransGen.cases_head hp with rfl | ⟨q, hstep, hq⟩
  · cases hempty
  · change Reading.Step _ _ ⟨2, .named (.inputObject Schema.point) false,
      .object [("x", .int 1)]⟩ q at hstep
    cases hstep with
    | field hf hvalue hft =>
        -- of the two fields the coordinate alone is supplied
        rcases List.mem_cons.1 hf with rfl | hf
        · cases hvalue
          cases hft
          rcases Relation.ReflTransGen.cases_head hq with rfl | ⟨q', hstep', -⟩
          · cases hempty
          · cases hstep'
        · obtain rfl := List.mem_singleton.1 hf
          cases hvalue

/-- **An empty object differs**: at the limit the literal is read and the variable is not. -/
theorem levels_differ :
    let r : Resolver := ⟨Schema.points.withMaxDepth 0, Table.ofList [("p", .object [])],
      [⟨⟨0, 0⟩, "p", .named "Point", none⟩]⟩
    let l : Literal := .object []
    r.schema.Built ∧ r.schema.Flat (.named "Point") ∧ l.variableNames = [] ∧
      r.supplied.find? "p" = some l.raw ∧
      ∃ t, r.schema.resolve .input (.named "Point") = some t ∧
        (Repository.mk r.schema none).coerce t l = .ok (.object "Point" (.dynamic [])) ∧
        r.resolve "p" = .error (.depthLimitExceeded 0) := by
  intro r l
  exact ⟨Schema.built_points.withMaxDepth 0, (Schema.flat_points.member rfl).withMaxDepth 0, rfl,
    rfl, _, rfl, rfl, rfl⟩

end Resolver

end TypedQuery
