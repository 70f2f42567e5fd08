import TypedQuery.Proofs.Coercion.Readings

/-!
# Literals under a higher depth limit

A literal that coerces keeps its value when the depth limit is raised, with one exception: a list
literal may be no member of a list of lists only because the limit cuts the attempt off. Under the
higher limit it is one, and the list holds it alone.

* `Reading.CutOff` -- the lower limit alone keeps a list literal from being the only member;
* `coerceLiteral_raised` -- **a reading that leads to none that is cut off keeps its value**;
* `coerceLiteral_within` -- a literal that is read with levels to spare for all layers of its type
  is read, if at all, at each type within with as many to spare. So a cut-off reading has a list of
  lists whose layers the limit does not admit (`Reading.CutOff.layers`);
* `Repository.coerce_withMaxDepth` -- **the two together**, on a whole literal and on all the
  literals inside that go into its value; `Repository.coerce_withMaxDepth_changes` -- why the
  exception is there.
-/

namespace TypedQuery

open SchemaType

/-! ## 1. Where no reading is cut off -/

section Raised

variable {s : Schema} {m m' : Nat} {lookup : VariableLookup}

/-- **A list literal is cut off from being the only member**: it is no member of the list under the
    limit `m`, and it is one under the limit `m'`, with so many levels more. -/
inductive Reading.CutOff (s : Schema) (lookup : VariableLookup) (m m' : Nat) : Reading → Prop
  | intro {room : Nat} {of : SchemaType} {required : Bool} {items : List Literal} {v : Coerced}
      (below : ∀ v, coerceLiteral (s.withMaxDepth m) lookup room of (.list items) ≠ .ok v)
      (above : coerceLiteral (s.withMaxDepth m') lookup (room + (m' - m)) of (.list items) = .ok v) :
      CutOff s lookup m m' ⟨room + 1, .list of required, .list items⟩

/-- **A reading that leads to none that is cut off keeps its value** with the levels that the
    higher limit adds. -/
theorem coerceLiteral_raised {room : Nat} {t : SchemaType} {l : Literal} {v : Coerced}
    (hcut : ∀ p, Reading.Visits (s.withMaxDepth m) lookup ⟨room, t, l⟩ p →
      ¬ p.CutOff s lookup m m')
    (h : coerceLiteral (s.withMaxDepth m) lookup room t l = .ok v) :
    coerceLiteral (s.withMaxDepth m') lookup (room + (m' - m)) t l = .ok v := by
  induction room generalizing t l v with
  | zero => cases h
  | succ room ih =>
      -- what the reading goes on with leads to nothing cut off either
      have hpart : ∀ {t' l'}, Reading.Step (s.withMaxDepth m) lookup ⟨room + 1, t, l⟩ ⟨room, t', l'⟩ →
          ∀ {w}, coerceLiteral (s.withMaxDepth m) lookup room t' l' = .ok w →
            coerceLiteral (s.withMaxDepth m') lookup (room + (m' - m)) t' l' = .ok w := by
        intro t' l' hstep w hw
        exact ih (fun p hp => hcut p (.head hstep hp)) hw
      rw [Nat.add_right_comm]
      apply LiteralStep.eq_ok
      cases coerceLiteral_cases h with
      | isVariable hvalue hnull => exact .isVariable hvalue hnull
      | isNull hnullable => exact .isNull hnullable
      | scalar hproper hread => exact .scalar hproper hread
      | enum hdeclared => exact .enum hdeclared
      | @object o required entries _ hread =>
          refine .object (Schema.assemble_readEntry_related sequential_keeps ?_ v hread)
          exact fun f hf value ft hvalue hft w hw => hpart (.field hf hvalue hft) hw
      | single hproper hread hnull =>
          exact .single hproper (hpart (.single hproper hread) hread) hnull
      | @items of required items values hno hread =>
          have hno' : ∀ w,
              coerceLiteral (s.withMaxDepth m') lookup (room + (m' - m)) of (.list items) ≠ .ok w :=
            fun w hw => hcut _ .refl (.intro hno hw)
          refine .items hno' (sequential_keeps.items (fun item hitem w hw => ?_) values hread)
          exact hpart (.item hno hitem) hw

end Raised

/-! ## 2. Levels to spare -/

section Spare

variable {s s' : Schema} {lookup : VariableLookup}

/-- One level to spare for a list is one for its members, one level down. -/
theorem listLayers_list_add (of : SchemaType) (required : Bool) (spare : Nat) :
    (SchemaType.list of required).listLayers + spare + 1 = (of.listLayers + spare + 1) + 1 := by
  rw [listLayers]
  omega

/-- A list literal whose items are read is read. -/
theorem exists_coerceLiteral_list {room : Nat} {of : SchemaType} {items : List Literal}
    (required : Bool) (h : ∀ item ∈ items, ∃ v, coerceLiteral s lookup room of item = .ok v) :
    ∃ v, coerceLiteral s lookup (room + 1) (.list of required) (.list items) = .ok v := by
  by_cases hprobe : ∃ w, coerceLiteral s lookup room of (.list items) = .ok w
  · obtain ⟨w, hw⟩ := hprobe
    have hlist : (Literal.list items).isProper = true := rfl
    exact ⟨_, coerceLiteral_single required hlist hw (isNull_of_isProper hlist hw)⟩
  · obtain ⟨values, hvalues⟩ := exists_mapM_eq_ok h
    refine ⟨.list values, LiteralStep.eq_ok (.items ?_ hvalues)⟩
    exact fun w hw => hprobe ⟨w, hw⟩

/-- A list literal, if its items are read at each type within one that read them at all. -/
theorem coerceLiteral_list_within {spare : Nat} {of : SchemaType} {items : List Literal}
    (hitems : ∀ inner : SchemaType, inner.Within of → ∀ item ∈ items, ∀ room w,
      coerceLiteral s' lookup room inner item = .ok w →
        ∃ u, coerceLiteral s lookup (inner.listLayers + spare + 1) inner item = .ok u)
    {t : SchemaType} (hwithin : t.Within of) {room : Nat} {w : Coerced}
    (h : coerceLiteral s' lookup room t (.list items) = .ok w) :
    ∃ u, coerceLiteral s lookup (t.listLayers + spare + 1) t (.list items) = .ok u := by
  induction t generalizing room w with
  | named t required => exact absurd h (coerceLiteral_list_ne_ok t required items w)
  | list inner required ih =>
      have hinner : inner.Within of := hwithin.member
      rw [listLayers_list_add]
      cases room with
      | zero => cases h
      | succ room =>
          cases coerceLiteral_cases h with
          | single hproper hread _ =>
              obtain ⟨u, hu⟩ := ih hinner hread
              exact ⟨_, coerceLiteral_single required hproper hu (isNull_of_isProper hproper hu)⟩
          | items _ hread =>
              refine exists_coerceLiteral_list required fun item hitem => ?_
              obtain ⟨w', -, hw'⟩ := exists_of_mapM_eq_ok hread hitem
              exact hitems inner hinner item hitem room w' hw'

/-- **Levels to spare stay.** A literal that is read with `spare` levels beyond the layers of its
    type is read with as many to spare at each type within, if it is read there at all. -/
theorem coerceLiteral_within {spare : Nat} {t inner : SchemaType} (hwithin : inner.Within t)
    {l : Literal} {v : Coerced}
    (h : coerceLiteral s lookup (t.listLayers + spare + 1) t l = .ok v) {room : Nat} {w : Coerced}
    (hinner : coerceLiteral s' lookup room inner l = .ok w) :
    ∃ u, coerceLiteral s lookup (inner.listLayers + spare + 1) inner l = .ok u := by
  induction t generalizing inner l v room w with
  | named t required =>
      cases hwithin with
      | refl => exact ⟨v, h⟩
  | list of required ih =>
      cases hwithin with
      | refl => exact ⟨v, h⟩
      | inside hin =>
          rw [listLayers_list_add] at h
          -- a variable and null are read wherever a level is left and the type admits null
          have hshallow : l.isProper = false →
              ∃ u, coerceLiteral s lookup (inner.listLayers + spare + 1) inner l = .ok u := by
            intro hl
            cases room with
            | zero => cases hinner
            | succ room =>
                cases coerceLiteral_cases hinner with
                | isVariable hvalue hnull =>
                    exact ⟨w, LiteralStep.eq_ok (.isVariable hvalue hnull)⟩
                | isNull hnullable => exact ⟨_, LiteralStep.eq_ok (.isNull hnullable)⟩
                | scalar hproper _ => exact absurd (hl.symm.trans hproper) (by decide)
                | enum _ => cases hl
                | object _ => cases hl
                | single hproper _ _ => exact absurd (hl.symm.trans hproper) (by decide)
                | items _ _ => cases hl
          cases coerceLiteral_cases h with
          | isVariable _ _ => exact hshallow rfl
          | isNull _ => exact hshallow rfl
          | single _ hread _ => exact ih hin hread hinner
          | @items _ _ items _ _ hread =>
              refine coerceLiteral_list_within ?_ hin hinner
              intro inner' hwithin' item hitem room' w' hw'
              obtain ⟨u, -, hu⟩ := exists_of_mapM_eq_ok hread hitem
              exact ih hwithin' hu hw'

/-- **Only where the layers do not fit is a reading cut off**: the type is a list of lists, and
    fewer levels are left for its members than it would take to reach the innermost. -/
theorem Reading.CutOff.layers {m m' : Nat} {p : Reading} (h : p.CutOff s lookup m m')
    {v : Coerced} (hp : p.outcome (s.withMaxDepth m) lookup = .ok v) :
    ∃ room of required items, p = ⟨room + 1, .list of required, .list items⟩ ∧
      0 < of.listLayers ∧ room ≤ of.listLayers := by
  cases h with
  | @intro room of required items w hbelow habove =>
      refine ⟨room, of, required, items, rfl, ?_, ?_⟩
      · cases of with
        | named t required' => exact absurd habove (coerceLiteral_list_ne_ok t required' items w)
        | list _ _ => exact Nat.succ_pos _
      · by_contra hroom
        obtain ⟨spare, hspare⟩ : ∃ spare, room = of.listLayers + spare + 1 :=
          ⟨room - of.listLayers - 1, by omega⟩
        have hread : coerceLiteral (s.withMaxDepth m) lookup
            ((SchemaType.list of required).listLayers + spare + 1) (.list of required)
              (.list items) = .ok v := by
          rw [listLayers_list_add, ← hspare]
          exact hp
        obtain ⟨u, hu⟩ := coerceLiteral_within (.inside .refl) hread habove
        exact hbelow u (hspare ▸ hu)

end Spare

/-! ## 3. Whole literals -/

/-- At a flat type no reading is cut off. -/
theorem Reading.not_cutOff_of_atFlat {s s' : Schema} {lookup : VariableLookup} {m m' : Nat}
    {p : Reading} (h : p.AtFlat s') : ¬ p.CutOff s lookup m m' := by
  intro hcut
  cases hcut with
  | intro _ habove =>
      obtain ⟨t, required, rfl⟩ := h.member
      exact coerceLiteral_list_ne_ok t required _ _ habove

namespace Repository

/-- **Raising the depth limit keeps the value of a literal**, and of each literal inside that goes
    into it, if no list literal is cut off from being the only member of a list. One that is stands
    at a list of lists whose layers the lower limit does not admit. -/
theorem coerce_withMaxDepth (s : Schema) {m m' : Nat} (hm : m ≤ m') (bound bound' : Option Resolver)
    {t : SchemaType} {l : Literal} {v : Coerced} (hconst : l.variableNames = [])
    (h : (Repository.mk (s.withMaxDepth m) bound).coerce t l = .ok v) :
    let lookup := (Repository.mk (s.withMaxDepth m) bound).lookup
    let start : Reading := ⟨m + 1, t, l⟩
    ((∀ p, start.Visits (s.withMaxDepth m) lookup p → ¬ p.CutOff s lookup m m') →
      (Repository.mk (s.withMaxDepth m') bound').coerce t l = .ok v ∧
      ∀ p w, start.Visits (s.withMaxDepth m) lookup p →
        coerceLiteral (s.withMaxDepth m) lookup p.room p.type p.literal = .ok w →
        coerceLiteral (s.withMaxDepth m') lookup (p.room + (m' - m)) p.type p.literal = .ok w) ∧
    ∀ p, start.Visits (s.withMaxDepth m) lookup p → p.CutOff s lookup m m' →
      ∃ room of required items, p = ⟨room + 1, .list of required, .list items⟩ ∧
        0 < of.listLayers ∧ room ≤ of.listLayers := by
  intro lookup start
  refine ⟨fun hcut => ⟨?_, ?_⟩, ?_⟩
  · have hraised := coerceLiteral_raised hcut h
    have hlevels : m + 1 + (m' - m) = m' + 1 := by omega
    rw [hlevels] at hraised
    -- without variables the lookup does not matter
    refine (coerceLiteral_congr fun name hname => ?_).trans hraised
    rw [hconst] at hname
    cases hname
  · intro p w hp hw
    exact coerceLiteral_raised (fun q hq => hcut q (hp.trans hq)) hw
  · intro p hp hcutOff
    obtain ⟨w, hw⟩ := hp.eq_ok (p := start) h
    exact hcutOff.layers hw

/-- A list and null in a list of lists of integers, with exactly the levels that it takes. -/
theorem coerce_withMaxDepth_points :
    let t : SchemaType := .list (.list (.named (.scalar .int) false) false) false
    let l : Literal := .list [.list [.int 1], .null]
    let v : Coerced := .list [.list [.int 1], .null]
    (Repository.mk (Schema.points.withMaxDepth 2) none).coerce t l = .ok v ∧
      (Repository.mk (Schema.points.withMaxDepth 7) none).coerce t l = .ok v := by
  dsimp only
  refine ⟨rfl, ?_⟩
  have hm : 2 ≤ 7 := by decide
  have hraised := coerce_withMaxDepth Schema.points hm none none
    (t := .list (.list (.named (.scalar .int) false) false) false)
    (l := .list [.list [.int 1], .null]) rfl rfl
  refine (hraised.1 fun p hp hcut => ?_).1
  rcases Relation.ReflTransGen.cases_head hp with rfl | ⟨q, hstep, hq⟩
  · -- seven levels do not make the whole literal a list of integers
    obtain ⟨room, of, required, items, heq, -, hroom⟩ := hraised.2 _ hp hcut
    cases heq
    exact absurd hroom (by decide)
  · have hflat : (Schema.points.withMaxDepth 2).Flat (.list (.named "Int")) := by
      intro e' he'
      cases he' with
      | refl => decide
      | field ho _ _ => cases ho
    have hq' : q.AtFlat (Schema.points.withMaxDepth 2) := by
      cases hstep <;> exact ⟨.list (.named "Int"), _, rfl, hflat, .refl⟩
    exact Reading.not_cutOff_of_atFlat (Reading.Visits.flat hq hq') hcut

/-- **A limit may change a value**: where no level is left for its members, `[]` is no list of
    integers, so it is the empty list of such lists; with one level more it is a list of one. -/
theorem coerce_withMaxDepth_changes :
    let t : SchemaType := .list (.list (.named (.scalar .int) false) false) false
    let l : Literal := .list []
    let low := Schema.points.withMaxDepth 0
    let high := Schema.points.withMaxDepth 1
    low.Built ∧ high.Built ∧ low.resolve .input (.list (.list (.named "Int"))) = some t ∧
      l.variableNames = [] ∧
      (Repository.mk low none).coerce t l = .ok (.list []) ∧
      (Repository.mk high none).coerce t l = .ok (.list [.list []]) ∧
      (Repository.mk high none).coerce t l ≠ .ok (.list []) := by
  intro t l low high
  refine ⟨Schema.built_points.withMaxDepth 0, Schema.built_points.withMaxDepth 1, rfl, rfl, rfl,
    rfl, ?_⟩
  have hhigh : (Repository.mk high none).coerce t l = .ok (.list [.list []]) := rfl
  intro h
  cases hhigh.symm.trans h

end Repository

end TypedQuery
