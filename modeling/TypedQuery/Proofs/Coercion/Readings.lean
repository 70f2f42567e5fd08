import Mathlib.Logic.Relation
import TypedQuery.Proofs.Coercion.Agreement

/-!
# The readings that make a value

A literal is read at a type while some levels are left, and its value is made from the readings of
its parts. This file says which these are.

* `Reading`, `Reading.Step` -- a reading, and the readings that it goes on with: the whole literal
  as the only member of a list, the items of a list literal that is no member, the supplied fields
  of an input object. An attempt that fails is not among them;
* `Reading.Visits` -- **the readings that one leads to**, itself among them;
* `Reading.Visits.eq_ok` -- if a reading gives a value, so do all that it leads to;
* `Reading.Visits.flat` -- a reading at a flat type leads to readings at flat types;
* `Reading.Contains` -- **the readings whose values stand in the value of one**, `Reading.InLists`
  -- those that lists alone lead to.
-/

namespace TypedQuery

open SchemaType

/-- A literal that is read at a type, with the levels that are left. -/
structure Reading where
  room : Nat
  type : SchemaType
  literal : Literal

namespace Reading

/-- What a reading gives. -/
def outcome (s : Schema) (lookup : VariableLookup) (p : Reading) :
    Except ResolutionError Coerced :=
  coerceLiteral s lookup p.room p.type p.literal

/-- **A reading goes on with another**, which its value is made from. -/
inductive Step (s : Schema) (lookup : VariableLookup) : Reading → Reading → Prop
  /-- The whole literal is the only member of the list. -/
  | single {room : Nat} {of : SchemaType} {required : Bool} {l : Literal} {v : Coerced}
      (proper : l.isProper = true) (read : coerceLiteral s lookup room of l = .ok v) :
      Step s lookup ⟨room + 1, .list of required, l⟩ ⟨room, of, l⟩
  /-- The whole literal is no member of the list. -/
  | item {room : Nat} {of : SchemaType} {required : Bool} {items : List Literal} {item : Literal}
      (noMember : ∀ v, coerceLiteral s lookup room of (.list items) ≠ .ok v)
      (mem : item ∈ items) :
      Step s lookup ⟨room + 1, .list of required, .list items⟩ ⟨room, of, item⟩
  | field {room : Nat} {o : InputObjectType} {required : Bool}
      {entries : List (String × Literal)} {f : InputField} {value : Literal} {t : SchemaType}
      (declared : f ∈ o.fields) (supplied : entries.lookup f.name = some value)
      (type : s.resolve .input f.type = some t) :
      Step s lookup ⟨room + 1, .named (.inputObject o) required, .object entries⟩ ⟨room, t, value⟩

/-- **The readings that one leads to.** -/
def Visits (s : Schema) (lookup : VariableLookup) : Reading → Reading → Prop :=
  Relation.ReflTransGen (Step s lookup)

variable {s : Schema} {lookup : VariableLookup} {p q : Reading}

/-- A reading that gives a value goes on with readings that do. -/
theorem Step.eq_ok (h : p.Step s lookup q) {v : Coerced} (hp : p.outcome s lookup = .ok v) :
    ∃ w, q.outcome s lookup = .ok w := by
  cases h with
  | single _ hread => exact ⟨_, hread⟩
  | item hno hmem =>
      cases coerceLiteral_cases hp with
      | single _ hread _ => exact absurd hread (hno _)
      | items _ hread =>
          obtain ⟨w, -, hw⟩ := exists_of_mapM_eq_ok hread hmem
          exact ⟨w, hw⟩
  | field hdeclared hsupplied htype =>
      cases coerceLiteral_cases hp with
      | object hread =>
          obtain ⟨found, hfound⟩ := InputObjectType.exists_of_assemble_eq_ok hread hdeclared
          rw [Schema.readEntry_of_lookup_some hsupplied htype, map_eq_ok] at hfound
          obtain ⟨w, hw, -⟩ := hfound
          exact ⟨w, hw⟩

/-- **If a reading gives a value, so do all that it leads to.** -/
theorem Visits.eq_ok (h : p.Visits s lookup q) {v : Coerced} (hp : p.outcome s lookup = .ok v) :
    ∃ w, q.outcome s lookup = .ok w := by
  induction h with
  | refl => exact ⟨v, hp⟩
  | tail _ hstep ih =>
      obtain ⟨w, hw⟩ := ih
      exact hstep.eq_ok hw

/-- A literal is read at a type within a flat position. -/
def AtFlat (s : Schema) (p : Reading) : Prop :=
  ∃ e position, s.resolve .input e = some position ∧ s.Flat e ∧ p.type.Within position

theorem AtFlat.step (h : p.AtFlat s) (hstep : p.Step s lookup q) : q.AtFlat s := by
  obtain ⟨e, position, hposition, hflat, hwithin⟩ := h
  cases hstep with
  | single _ _ => exact ⟨e, position, hposition, hflat, hwithin.member⟩
  | item _ _ => exact ⟨e, position, hposition, hflat, hwithin.member⟩
  | field hdeclared _ htype =>
      have ho := Schema.inputObject?_of_resolve hposition hwithin.namedType_eq.symm
      exact ⟨_, _, htype, hflat.field ho hdeclared, .refl⟩

/-- **A reading at a flat type leads to readings at flat types.** -/
theorem Visits.flat (h : p.Visits s lookup q) (hp : p.AtFlat s) : q.AtFlat s := by
  induction h with
  | refl => exact hp
  | tail _ hstep ih => exact ih.step hstep

/-- At a flat type the members of a list are no lists. -/
theorem AtFlat.member {room : Nat} {of : SchemaType} {required : Bool} {l : Literal}
    (h : Reading.AtFlat s ⟨room, .list of required, l⟩) :
    ∃ t required', of = .named t required' := by
  obtain ⟨e, position, hposition, hflat, hwithin⟩ := h
  exact (hwithin.eq_of_listLayers_le_one (hflat.listLayers_le hposition)).2

/-- A variable is read as what it stands for, if the type admits that. -/
theorem lookup_of_outcome {name : String} (hp : p.literal = .variable name) {v : Coerced}
    (h : p.outcome s lookup = .ok v) :
    lookup name = .ok v ∧ (v.isNull = true → p.type.isNonNull = false) := by
  obtain ⟨room, t, l⟩ := p
  obtain rfl := hp
  cases room with
  | zero => cases h
  | succ room =>
      cases coerceLiteral_cases h with
      | isVariable hvalue hnull => exact ⟨hvalue, hnull⟩
      | scalar hproper _ => cases hproper
      | single hproper _ _ => cases hproper

/-- **The readings whose values stand in the value of one.** A record of a host type holds values of
    its own instead of those that are read for its fields. -/
def Contains (s : Schema) (lookup : VariableLookup) : Reading → Reading → Prop :=
  Relation.ReflTransGen fun p q => p.Step s lookup q ∧
    ∀ o required, p.type = .named (.inputObject o) required → o.record = .dynamic

theorem Contains.visits (h : p.Contains s lookup q) : p.Visits s lookup q :=
  Relation.ReflTransGen.mono (fun _ _ hstep => hstep.1) _ _ h

/-- **The readings that lists alone lead to**: a list goes on with its items, or with the whole
    literal, at the type of its members. -/
def InLists (s : Schema) (lookup : VariableLookup) : Reading → Reading → Prop :=
  Relation.ReflTransGen fun p q => p.Step s lookup q ∧ p.type.member? = some q.type

theorem InLists.contains (h : p.InLists s lookup q) : p.Contains s lookup q := by
  refine Relation.ReflTransGen.mono (fun a b hstep => ⟨hstep.1, fun o required htype => ?_⟩) _ _ h
  rw [htype] at hstep
  cases hstep.2

/-- Lists alone lead from a literal that is no list to no other literal. -/
theorem InLists.literal_eq (h : p.InLists s lookup q) (hp : p.literal.isList = false) :
    q.literal = p.literal := by
  induction h with
  | refl => rfl
  | tail _ hstep ih =>
      obtain ⟨hstep, hmember⟩ := hstep
      cases hstep with
      | single _ _ => exact ih
      | item _ _ =>
          rw [← ih] at hp
          cases hp
      | field _ _ _ => cases hmember

end Reading

end TypedQuery
