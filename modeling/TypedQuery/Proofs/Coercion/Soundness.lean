import TypedQuery.Proofs.Coercion.Readings

/-!
# Coercion is type-sound

What coercion gives is of the type that was asked for.

* `coerceRaw_conforms` -- a raw value gives a value of the type;
* `coerceLiteral_conforms` -- a literal does if each of its variables does where it is read;
* `Resolver.resolution_sound` -- **what a variable stands for is of its declared type**;
* `Reading.Contains.use` -- a variable is read at the type of its position, unless it is an item in
  a list literal that is read whole as the only member of a list;
* `Repository.coerce_sound` -- **a literal in variables that fit their positions is sound exactly if
  none is misread there**, and `Repository.listItem_unsound` -- how one may be.
-/

namespace TypedQuery

open SchemaType

variable {s : Schema}

/-! ## 1. The two coercions -/

/-- **A raw value gives a value of the type.** -/
theorem coerceRaw_conforms (hs : s.Built) {room : Nat} {t : SchemaType} {raw : Raw} {v : Coerced}
    (ht : s.Knows t) (h : coerceRaw s room t raw = .ok v) : Conforms s t v := by
  induction room generalizing t raw v with
  | zero => cases h
  | succ room ih =>
      cases coerceRaw_cases h with
      | isNull hnullable => exact .null hnullable
      | scalar hnull hread => exact .scalar (ScalarKind.admits_of_ofRaw? hnull hread)
      | enum hdeclared => exact .enum hdeclared
      | object _ hread =>
          refine .of_assemble _ (hs.distinct_of_knows ht rfl) ?_ hread
          intro f _ value t w _ hft hw
          exact ih (Schema.knows_of_resolve hft) hw
      | items hread =>
          refine .list fun w hw => ?_
          obtain ⟨item, -, hitem⟩ := exists_of_mem_mapM hread hw
          exact ih ht hitem
      | single _ hread =>
          refine .list fun w hw => ?_
          rw [List.mem_singleton] at hw
          exact hw ▸ ih ht hread

/-- **A literal gives a value of the type** if each variable whose value stands in it gives one of
    the type at which it is read. -/
theorem coerceLiteral_conforms (hs : s.Built) {lookup : VariableLookup} {room : Nat}
    {t : SchemaType} {l : Literal} {v : Coerced} (hknown : s.Knows t)
    (hvariables : ∀ q name w, Reading.Contains s lookup ⟨room, t, l⟩ q →
      q.literal = .variable name → q.outcome s lookup = .ok w → Conforms s q.type w)
    (h : coerceLiteral s lookup room t l = .ok v) : Conforms s t v := by
  induction room generalizing t l v with
  | zero => cases h
  | succ room ih =>
      have hpart : ∀ {t' l' w}, Reading.Step s lookup ⟨room + 1, t, l⟩ ⟨room, t', l'⟩ →
          (∀ o required, t = .named (.inputObject o) required → o.record = .dynamic) →
          s.Knows t' → coerceLiteral s lookup room t' l' = .ok w → Conforms s t' w := by
        intro t' l' w hstep hopen hknown' hw
        exact ih hknown' (fun q name u hq => hvariables q name u (.head ⟨hstep, hopen⟩ hq)) hw
      cases coerceLiteral_cases h with
      | isVariable _ _ => exact hvariables _ _ v .refl rfl h
      | isNull hnullable => exact .null hnullable
      | scalar hproper hread => exact .scalar (ScalarKind.admits_of_ofLiteral? hproper hread)
      | enum hdeclared => exact .enum hdeclared
      | @object o required entries _ hread =>
          cases hrecord : o.record with
          | typed host members setters =>
              obtain ⟨held, rfl⟩ := InputObjectType.assemble_typed hrecord hread
              exact .typed hrecord
          | dynamic =>
              refine .of_assemble _ (hs.distinct_of_knows hknown rfl) ?_ hread
              intro f hf value ft w hvalue hft hw
              refine hpart (.field hf hvalue hft) ?_ (Schema.knows_of_resolve hft) hw
              rintro _ _ ⟨⟩
              exact hrecord
      | single hproper hread _ =>
          refine .list fun w hw => ?_
          rw [List.mem_singleton] at hw
          exact hw ▸ hpart (.single hproper hread) (fun _ _ he => by cases he)
            (hknown.member rfl) hread
      | items hno hread =>
          refine .list fun w hw => ?_
          obtain ⟨item, hitem, hread⟩ := exists_of_mem_mapM hread hw
          exact hpart (.item hno hitem) (fun _ _ he => by cases he) (hknown.member rfl) hread

/-- Where no variable is bound, a literal gives a value of the type. -/
theorem coerceLiteral_none_conforms (hs : s.Built) {room : Nat} {t : SchemaType} {l : Literal}
    {v : Coerced} (ht : s.Knows t) (h : coerceLiteral s .none room t l = .ok v) :
    Conforms s t v := by
  refine coerceLiteral_conforms hs ht (fun q name w _ hq hw => ?_) h
  cases (Reading.lookup_of_outcome hq hw).1

/-! ## 2. Variables -/

namespace Resolver

variable {r : Resolver}

/-- What a variable stands for is of the type of its first definition. -/
theorem conforms_of_resolve (hs : r.schema.Built) {name : String} {v : Coerced}
    (h : r.resolve name = .ok v) :
    ∃ d t, r.definition? name = some d ∧ r.schema.resolve .input d.type = some t ∧
      Conforms r.schema t v := by
  obtain ⟨d, t, hd, ht, hstep⟩ := resolve_cases h
  have hknown := Schema.knows_of_resolve ht
  refine ⟨d, t, hd, ht, ?_⟩
  cases hstep with
  | supplied _ hread => exact coerceRaw_conforms hs hknown hread
  | default _ _ hread => exact coerceLiteral_none_conforms hs hknown hread
  | isNull _ hnullable => exact .null hnullable

/-- **Variables are type-sound.** What a variable stands for is of the type that its first
    definition declares, and a raw value read by host type is of the type bound to that. -/
theorem resolution_sound (hs : r.schema.Built) :
    (∀ name v, r.resolve name = .ok v →
      ∃ d t, r.definition? name = some d ∧ r.schema.resolve .input d.type = some t ∧
        Conforms r.schema t v) ∧
    (∀ raw host v, r.resolveByHost raw host = .ok v →
      ∃ t, r.schema.resolveHost .input host = some t ∧ Conforms r.schema t v) := by
  refine ⟨fun name v h => conforms_of_resolve hs h, fun raw host v h => ?_⟩
  unfold resolveByHost at h
  split at h
  · rename_i t ht
    refine ⟨t, ht, coerceRaw_conforms hs ?_ h⟩
    obtain ⟨e, -, he⟩ := Option.bind_eq_some_iff.1 ht
    exact Schema.knows_of_resolve he
  · cases h

/-- Variables of points: one point and one list of integers, both supplied. -/
def onPoints : Resolver where
  schema := Schema.points
  supplied := Table.ofList [("p", .object [("x", .int 1)]), ("xs", .list [.int 1, .int 2])]
  definitions := [⟨⟨0, 0⟩, "p", .named "Point", none⟩, ⟨⟨0, 0⟩, "xs", .list (.named "Int"), none⟩]

/-- A supplied point is a point, by name and by host type. -/
theorem resolution_sound_points :
    (∃ v, onPoints.resolve "p" = .ok v ∧
      ∃ d t, onPoints.definition? "p" = some d ∧
        onPoints.schema.resolve .input d.type = some t ∧ Conforms onPoints.schema t v) ∧
    (∃ v, onPoints.resolveByHost (.int 7) HostType.int32 = .ok v ∧
      ∃ t, onPoints.schema.resolveHost .input HostType.int32 = some t ∧
        Conforms onPoints.schema t v) := by
  have hsound := resolution_sound (r := onPoints) Schema.built_points
  exact ⟨⟨_, rfl, hsound.1 "p" _ rfl⟩, ⟨_, rfl, hsound.2 (.int 7) HostType.int32 _ rfl⟩⟩

/-- A variable fits its position: it declares the type of the position, or one that differs from
    it only by excluding null in more layers or by allowing it in the outermost. -/
def Fits (r : Resolver) (u : VariableUse) : Prop :=
  ∃ t d declared, u.type = some t ∧ r.definition? u.name = some d ∧
    r.schema.resolve .input d.type = some declared ∧ declared.Stricter t.nullable

/-- A variable that fits stands for a value of the type of its position, with null allowed. -/
theorem conforms_of_fits (hs : r.schema.Built) {u : VariableUse} (hfits : r.Fits u) {v : Coerced}
    (hv : r.resolve u.name = .ok v) : ∃ t, u.type = some t ∧ Conforms r.schema t.nullable v := by
  obtain ⟨t, d, declared, ht, hd, hdeclared, hstricter⟩ := hfits
  obtain ⟨d', declared', hd', hdeclared', hconforms⟩ := conforms_of_resolve hs hv
  obtain rfl : d = d' := Option.some.inj (hd.symm.trans hd')
  obtain rfl : declared = declared' := Option.some.inj (hdeclared.symm.trans hdeclared')
  exact ⟨t, ht, hconforms.of_stricter hstricter⟩

end Resolver

/-! ## 3. Where a variable is read -/

namespace Reading

variable {lookup : VariableLookup} {p q : Reading}

/-- **A list literal that is read whole** as the only member of a list. -/
inductive TakenWhole (s : Schema) (lookup : VariableLookup) : Reading → Prop
  | intro {room : Nat} {of : SchemaType} {required : Bool} {items : List Literal} {v : Coerced}
      (read : coerceLiteral s lookup room of (.list items) = .ok v) :
      TakenWhole s lookup ⟨room + 1, .list of required, .list items⟩

/-- **A variable is misread** inside a list literal that is read whole: it is an item of that
    literal, or of list literals among its items, and it stands for a value, not null, that is not
    of the type at which it is met there. -/
inductive Misreads (s : Schema) (lookup : VariableLookup) (p q : Reading) : Prop
  | intro {name : String} {v : Coerced} (whole : p.TakenWhole s lookup)
      (inside : p.InLists s lookup q) (isVariable : q.literal = .variable name)
      (value : lookup name = .ok v) (notNull : v.isNull = false)
      (foreign : ¬ Conforms s q.type v)

/-- **A variable is read at the type of its position**, if it is an item in no list literal that is
    read whole. What is read may itself stand further out than it is met; then lists alone may lead
    to the variable from there. -/
theorem Contains.use (hs : s.Built) (h : p.Contains s lookup q) {position : SchemaType}
    (hknown : s.Knows position) (hwithin : p.type.Within position) {name : String}
    (hq : q.literal = .variable name)
    (hplain : ∀ whole, p.Contains s lookup whole → whole.TakenWhole s lookup →
      ¬ whole.InLists s lookup q) :
    ∃ u ∈ p.literal.uses s (some position), u.name = name ∧
      (u.type = some q.type ∨ p.type ≠ position ∧ p.InLists s lookup q) := by
  induction h using Relation.ReflTransGen.head_induction_on generalizing position with
  | refl =>
      rw [hq]
      refine ⟨⟨name, some position⟩, List.mem_singleton_self _, rfl, ?_⟩
      by_cases hmet : q.type = position
      · exact .inl (congrArg some hmet.symm)
      · exact .inr ⟨hmet, .refl⟩
  | @head p m hstep _ ih =>
      have hplain' : ∀ whole, m.Contains s lookup whole → whole.TakenWhole s lookup →
          ¬ whole.InLists s lookup q := fun whole hwhole => hplain whole (.head hstep hwhole)
      obtain ⟨hstep, -⟩ := hstep
      cases hstep with
      | @single room of required l v hproper hread =>
          obtain ⟨u, hu, hname, hwhere⟩ := ih hknown hwithin.member hplain'
          refine ⟨u, hu, hname, hwhere.imp_right fun ⟨_, hlists⟩ => ?_⟩
          have hinside : Reading.InLists s lookup ⟨room + 1, .list of required, l⟩ q :=
            .head ⟨.single hproper hread, rfl⟩ hlists
          refine ⟨fun hmet => ?_, hinside⟩
          -- lists lead on to a variable, so the literal is a list, and it is read whole here
          cases l with
          | list items => exact hplain _ .refl (.intro hread) hinside
          | «variable» _ => cases hproper
          | _ => cases hq.symm.trans (hlists.literal_eq rfl)
      | @item room of required items item hno hitem =>
          obtain ⟨inner, hinner, hin⟩ := hwithin.member?
          obtain ⟨u, hu, hname, hwhere⟩ := ih (hknown.member hinner) hin hplain'
          refine ⟨u, Literal.uses_item hitem hinner hu, hname, ?_⟩
          refine hwhere.imp_right fun ⟨hne, hlists⟩ => ⟨?_, .head ⟨.item hno hitem, rfl⟩ hlists⟩
          rintro rfl
          exact hne (Option.some.inj hinner)
      | @field room o required entries f value ft hf hvalue hft =>
          have ho : position.namedType = .inputObject o := hwithin.namedType_eq.symm
          have hdistinct := hs.distinct_of_knows hknown ho
          -- the value of a field is met at the type that the field declares
          obtain ⟨u, hu, hname, hwhere⟩ := ih (Schema.knows_of_resolve hft) .refl hplain'
          refine ⟨u, Literal.uses_entry ho hdistinct hf hft hvalue hu, hname, ?_⟩
          exact hwhere.imp_right fun ⟨hne, _⟩ => absurd rfl hne

/-- What a reading goes on with is of its type, if the value that it stands in is. -/
theorem Contains.conforms (hs : s.Built) (h : p.Contains s lookup q) (hknown : s.Knows p.type)
    {v : Coerced} (hp : p.outcome s lookup = .ok v) (hv : Conforms s p.type v) :
    s.Knows q.type ∧ ∃ w, q.outcome s lookup = .ok w ∧ Conforms s q.type w := by
  induction h with
  | refl => exact ⟨hknown, v, hp, hv⟩
  | tail _ hstep ih =>
      obtain ⟨hknown, v, hp, hv⟩ := ih
      obtain ⟨hstep, hopen⟩ := hstep
      cases hstep with
      | single hproper hread =>
          refine ⟨hknown.member rfl, _, hread, ?_⟩
          cases coerceLiteral_cases hp with
          | isVariable _ _ => cases hproper
          | isNull _ => cases hproper
          | single _ hread' _ =>
              cases hread.symm.trans hread'
              cases hv with
              | list each => exact each _ List.mem_cons_self
          | items hno _ => exact absurd hread (hno _)
      | item hno hitem =>
          cases coerceLiteral_cases hp with
          | single _ hread _ => exact absurd hread (hno _)
          | items _ hread =>
              obtain ⟨w, hw, hitemRead⟩ := exists_of_mapM_eq_ok hread hitem
              refine ⟨hknown.member rfl, w, hitemRead, ?_⟩
              cases hv with
              | list each => exact each w hw
      | @field room o required entries f value ft hf hvalue hft =>
          refine ⟨Schema.knows_of_resolve hft, ?_⟩
          cases coerceLiteral_cases hp with
          | object hread =>
              have hrecord := hopen o required rfl
              obtain ⟨found, hfound⟩ := InputObjectType.exists_of_assemble_eq_ok hread hf
              have hentry := hfound
              rw [Schema.readEntry_of_lookup_some hvalue hft, map_eq_ok] at hfound
              obtain ⟨w, hw, rfl⟩ := hfound
              refine ⟨w, hw, ?_⟩
              obtain rfl := InputObjectType.assemble_dynamic hrecord
                (hs.distinct_of_knows hknown rfl) hread
              cases hv with
              | dynamic _ _ _ _ each =>
                  refine each f hf w ft (List.mem_filterMap.2 ⟨f, hf, ?_⟩) hft
                  exact InputObjectType.entryOf_eq_some.2 ⟨rfl, hentry⟩

end Reading

/-! ## 4. Literals with variables -/

namespace Repository

/-- **A literal in variables that fit their positions is sound exactly if none of them is misread**
    inside a list literal that is read whole as the only member of a list. -/
theorem coerce_sound {r : Resolver} (hs : r.schema.Built) {e : TypeExpr} {t : SchemaType}
    (ht : r.schema.resolve .input e = some t) {l : Literal} {v : Coerced}
    (hfits : ∀ u ∈ l.uses r.schema (some t), r.Fits u)
    (h : (Repository.mk r.schema (some r)).coerce t l = .ok v) :
    Conforms r.schema t v ↔
      ∀ p q, Reading.Contains r.schema r.resolve ⟨r.schema.limits.levels, t, l⟩ p →
        ¬ p.Misreads r.schema r.resolve q := by
  have hknown := Schema.knows_of_resolve ht
  constructor
  · rintro hv p q hp ⟨-, hinside, hvariable, hvalue, -, hforeign⟩
    obtain ⟨-, w, hw, hconforms⟩ := Reading.Contains.conforms hs (hp.trans hinside.contains)
      (p := ⟨_, t, l⟩) hknown h hv
    cases hvalue.symm.trans (Reading.lookup_of_outcome hvariable hw).1
    exact hforeign hconforms
  · intro hnone
    refine coerceLiteral_conforms hs hknown (fun q name w hq hname hw => ?_) h
    obtain ⟨hvalue, hnull⟩ := Reading.lookup_of_outcome hname hw
    by_contra hforeign
    have hplain : ∀ whole,
        Reading.Contains r.schema r.resolve ⟨r.schema.limits.levels, t, l⟩ whole →
          whole.TakenWhole r.schema r.resolve → ¬ whole.InLists r.schema r.resolve q := by
      intro whole hwhole htaken hinside
      refine hnone whole q hwhole (.intro htaken hinside hname hvalue ?_ hforeign)
      cases w with
      | null => exact absurd (.null (hnull rfl)) hforeign
      | _ => rfl
    obtain ⟨u, hu, rfl, hmet | ⟨hne, -⟩⟩ := hq.use hs hknown .refl hname hplain
    · obtain ⟨t', ht', hconforms⟩ := Resolver.conforms_of_fits hs (hfits u hu) hvalue
      cases hmet.symm.trans ht'
      exact hforeign (hconforms.of_nullable hnull)
    · exact hne rfl

/-- A list of two lists, one of them a variable: the other one is no integer, so the literal is not
    read whole. -/
theorem coerce_sound_points :
    let r := Resolver.onPoints
    let t : SchemaType := .list (.list (.named (.scalar .int) false) false) false
    let l : Literal := .list [.list [.int 1], .variable "xs"]
    let v : Coerced := .list [.list [.int 1], .list [.int 1, .int 2]]
    r.schema.Built ∧ r.schema.resolve .input (.list (.list (.named "Int"))) = some t ∧
      (∀ u ∈ l.uses r.schema (some t), r.Fits u) ∧
      (Repository.mk r.schema (some r)).coerce t l = .ok v ∧ Conforms r.schema t v := by
  intro r t l v
  have hfits : ∀ u ∈ l.uses r.schema (some t), r.Fits u := by
    intro u hu
    obtain rfl := List.mem_singleton.1 hu
    exact ⟨_, _, _, rfl, rfl, rfl, Stricter.refl _⟩
  refine ⟨Schema.built_points, rfl, hfits, rfl, ?_⟩
  refine (coerce_sound (e := .list (.list (.named "Int"))) Schema.built_points rfl hfits
    (v := v) rfl).2 ?_
  show ∀ p q, Reading.Contains Schema.points Resolver.onPoints.resolve
    ⟨_, .list (.list (.named (.scalar .int) false) false) false,
      .list [.list [.int 1], .variable "xs"]⟩ p → ¬ _
  rintro p q hp ⟨whole, -, -, -, -, -⟩
  rcases Relation.ReflTransGen.cases_head hp with rfl | ⟨m, ⟨hstep, -⟩, hm⟩
  · cases whole with
    | intro hread => cases hread
  · -- the items are read as lists of integers, where no list literal is a member
    have hflat : r.schema.Flat (.list (.named "Int")) := by
      intro e' he'
      cases he' with
      | refl => decide
      | field ho _ _ => cases ho
    have hm' : m.AtFlat r.schema := by
      cases hstep <;> exact ⟨.list (.named "Int"), _, rfl, hflat, .refl⟩
    have hp' := Reading.Visits.flat (Reading.Contains.visits hm) hm'
    cases whole with
    | intro hread =>
        obtain ⟨t', required, rfl⟩ := hp'.member
        exact coerceLiteral_list_ne_ok t' required _ _ hread

/-- **An item that is itself a list is not sound**, even if its type is the one of its position:
    the literal `[$xs]` is read as one list of integers, in which the variable stands for a list. -/
theorem listItem_unsound :
    let r := Resolver.onPoints
    let t : SchemaType := .list (.list (.named (.scalar .int) false) false) false
    let l : Literal := .list [.variable "xs"]
    let v : Coerced := .list [.list [.list [.int 1, .int 2]]]
    r.schema.Built ∧ r.schema.resolve .input (.list (.list (.named "Int"))) = some t ∧
      (∀ u ∈ l.uses r.schema (some t), r.Fits u) ∧
      (Repository.mk r.schema (some r)).coerce t l = .ok v ∧ ¬ Conforms r.schema t v := by
  intro r t l v
  refine ⟨Schema.built_points, rfl, ?_, rfl, ?_⟩
  · intro u hu
    obtain rfl := List.mem_singleton.1 hu
    exact ⟨_, _, _, rfl, rfl, rfl, Stricter.refl _⟩
  · show ¬ Conforms _ (.list (.list (.named (.scalar .int) false) false) false)
      (.list [.list [.list [.int 1, .int 2]]])
    intro h
    cases h with
    | list each =>
        have hinner := each _ List.mem_cons_self
        cases hinner with
        | list each =>
            have hitem := each _ List.mem_cons_self
            cases hitem with
            | scalar hadmits => exact hadmits

end Repository

end TypedQuery
