import TypedQuery.Proofs.Coercion.Readings
import TypedQuery.Proofs.Coercion.Soundness

/-!
# How deep a coerced value nests

Each level of a literal or raw value that is entered makes at most one level of the value, so the
depth limit bounds what coercion builds. A variable is the exception: its value is read from the
outermost level again, wherever the variable stands.

* `Coerced.nesting` -- the levels of lists and records in a value;
* `coerceRaw_nesting` -- **a raw value gives no more levels than are left to it**;
* `coerceLiteral_nesting` -- a literal does so too, up to what its variables bring along;
* `Resolver.nesting_of_resolve` -- a variable nests one level beyond the limit at most;
* `Repository.nesting_of_coerce` -- **what a literal may nest**: one level beyond the limit, if no
  variable brings more than the levels left at its place, and twice the limit and one level in any
  case; `Repository.nesting_beyond_limit` -- why the limit alone is no bound.
-/

namespace TypedQuery

open SchemaType

/-! ## 1. Levels of a value -/

namespace Coerced

mutual

/-- How many levels of lists and records there are in the value. A typed record counts as one; it
    is not looked into. -/
def nesting : Coerced → Nat
  | .list items => nestingOfItems items + 1
  | .object _ (.dynamic entries) => nestingOfEntries entries + 1
  | .object _ (.typed _ _) => 1
  | .null | .int _ | .float _ | .string _ | .boolean _ | .enum _ => 0

/-- The levels of the deepest item. -/
def nestingOfItems : List Coerced → Nat
  | [] => 0
  | item :: rest => max item.nesting (nestingOfItems rest)

/-- The levels of the deepest entry. -/
def nestingOfEntries : List (String × Coerced) → Nat
  | [] => 0
  | (_, value) :: rest => max value.nesting (nestingOfEntries rest)

end

theorem nestingOfItems_le_iff {items : List Coerced} {n : Nat} :
    nestingOfItems items ≤ n ↔ ∀ item ∈ items, item.nesting ≤ n := by
  induction items with
  | nil => simp [nestingOfItems]
  | cons item rest ih => rw [nestingOfItems, Nat.max_le, ih, List.forall_mem_cons]

theorem nestingOfEntries_le_iff {entries : List (String × Coerced)} {n : Nat} :
    nestingOfEntries entries ≤ n ↔ ∀ entry ∈ entries, entry.2.nesting ≤ n := by
  induction entries with
  | nil => simp [nestingOfEntries]
  | cons entry rest ih => rw [nestingOfEntries, Nat.max_le, ih, List.forall_mem_cons]

/-- A list has one level more than its items may have. -/
theorem nesting_list_le {items : List Coerced} {n : Nat}
    (h : ∀ item ∈ items, item.nesting ≤ n) : (Coerced.list items).nesting ≤ n + 1 := by
  rw [nesting]
  exact Nat.succ_le_succ (nestingOfItems_le_iff.2 h)

/-- A dynamic record has one level more than its entries may have. -/
theorem nesting_dynamic_le {typeName : String} {entries : List (String × Coerced)} {n : Nat}
    (h : ∀ entry ∈ entries, entry.2.nesting ≤ n) :
    (Coerced.object typeName (.dynamic entries)).nesting ≤ n + 1 := by
  rw [nesting]
  exact Nat.succ_le_succ (nestingOfEntries_le_iff.2 h)

end Coerced

/-- The values of a scalar have no levels. -/
theorem ScalarKind.nesting_of_admits {kind : ScalarKind} {v : Coerced} (h : kind.admits v) :
    v.nesting = 0 := by
  cases v with
  | list _ => cases kind <;> cases h
  | object _ _ => cases kind <;> cases h
  | _ => simp only [Coerced.nesting]

/-- **All records of the schema are dynamic.** -/
def Schema.AllDynamic (s : Schema) : Prop :=
  ∀ name o, s.named? .input name = some (.inputObject o) → o.record = .dynamic

section

variable {s : Schema}

/-- A record has one level more than its fields may have. -/
theorem Schema.AllDynamic.nesting_of_assemble (hd : s.AllDynamic) (hs : s.Built) {t : SchemaType}
    (ht : s.Knows t) {o : InputObjectType} (ho : t.namedType = .inputObject o)
    {read : InputField → Except ResolutionError (Option Coerced)} {v : Coerced} {n : Nat}
    (hread : ∀ f ∈ o.fields, ∀ w, read f = .ok (some w) → w.nesting ≤ n)
    (h : o.assemble read = .ok v) : v.nesting ≤ n + 1 := by
  obtain ⟨name, hname⟩ := ht
  have hdynamic : o.record = .dynamic := hd name o (hname.trans (congrArg some ho))
  have hdistinct := hs.distinct_of_knows ⟨name, hname⟩ ho
  rw [InputObjectType.assemble_dynamic hdynamic hdistinct h]
  refine Coerced.nesting_dynamic_le fun entry hentry => ?_
  obtain ⟨f, hf, hfound⟩ := List.mem_filterMap.1 hentry
  obtain ⟨-, hw⟩ := InputObjectType.entryOf_eq_some.1 hfound
  exact hread f hf entry.2 hw

/-! ## 2. The two coercions -/

/-- **A raw value gives no more levels than are left to it.** -/
theorem coerceRaw_nesting (hs : s.Built) (hd : s.AllDynamic) {room : Nat} {t : SchemaType}
    {raw : Raw} {v : Coerced} (ht : s.Knows t) (h : coerceRaw s room t raw = .ok v) :
    v.nesting ≤ room := by
  induction room generalizing t raw v with
  | zero => cases h
  | succ room ih =>
      cases coerceRaw_cases h with
      | isNull _ => exact Nat.zero_le _
      | scalar hnull hread =>
          rw [ScalarKind.nesting_of_admits (ScalarKind.admits_of_ofRaw? hnull hread)]
          exact Nat.zero_le _
      | enum _ => exact Nat.zero_le _
      | object _ hread =>
          refine hd.nesting_of_assemble hs ht rfl (fun f _ w hw => ?_) hread
          obtain ⟨value, ft, -, hft, hvalue⟩ := Schema.readEntry_eq_some.1 hw
          exact ih (Schema.knows_of_resolve hft) hvalue
      | items hread =>
          refine Coerced.nesting_list_le fun w hw => ?_
          obtain ⟨item, -, hitem⟩ := exists_of_mem_mapM hread hw
          exact ih (ht.member rfl) hitem
      | single _ hread =>
          refine Coerced.nesting_list_le fun w hw => ?_
          rw [List.mem_singleton] at hw
          exact hw ▸ ih (ht.member rfl) hread

/-- **A literal gives `excess` levels more than are left to it**, if each variable that goes into
    its value does at most. -/
theorem coerceLiteral_nesting (hs : s.Built) (hd : s.AllDynamic) {lookup : VariableLookup}
    {room : Nat} {t : SchemaType} {l : Literal} {v : Coerced} (excess : Nat) (ht : s.Knows t)
    (hvariables : ∀ p name w, Reading.Visits s lookup ⟨room, t, l⟩ p →
      p.literal = .variable name → lookup name = .ok w → w.nesting ≤ p.room + excess)
    (h : coerceLiteral s lookup room t l = .ok v) : v.nesting ≤ room + excess := by
  induction room generalizing t l v with
  | zero => cases h
  | succ room ih =>
      have hpart : ∀ {t' l'}, s.Knows t' →
          Reading.Step s lookup ⟨room + 1, t, l⟩ ⟨room, t', l'⟩ →
          ∀ {w}, coerceLiteral s lookup room t' l' = .ok w → w.nesting ≤ room + excess := by
        intro t' l' ht' hstep w hw
        exact ih ht' (fun p name u hp => hvariables p name u (.head hstep hp)) hw
      rw [Nat.add_right_comm]
      cases coerceLiteral_cases h with
      | isVariable hvalue _ =>
          rw [Nat.add_right_comm]
          exact hvariables _ _ v .refl rfl hvalue
      | isNull _ => exact Nat.zero_le _
      | scalar hproper hread =>
          rw [ScalarKind.nesting_of_admits (ScalarKind.admits_of_ofLiteral? hproper hread)]
          exact Nat.zero_le _
      | enum _ => exact Nat.zero_le _
      | object hread =>
          refine hd.nesting_of_assemble hs ht rfl (fun f hf w hw => ?_) hread
          obtain ⟨value, ft, hvalue, hft, hread⟩ := Schema.readEntry_eq_some.1 hw
          exact hpart (Schema.knows_of_resolve hft) (.field hf hvalue hft) hread
      | single hproper hread _ =>
          refine Coerced.nesting_list_le fun w hw => ?_
          rw [List.mem_singleton] at hw
          exact hw ▸ hpart (ht.member rfl) (.single hproper hread) hread
      | items hno hread =>
          refine Coerced.nesting_list_le fun w hw => ?_
          obtain ⟨item, hitem, hread⟩ := exists_of_mem_mapM hread hw
          exact hpart (ht.member rfl) (.item hno hitem) hread

/-! ## 3. Variables and whole literals -/

/-- A reading of a literal without variables leads to none of a variable. -/
theorem Reading.Visits.constant {lookup : VariableLookup} {p q : Reading}
    (h : p.Visits s lookup q) (hp : p.literal.variableNames = []) :
    q.literal.variableNames = [] := by
  induction h with
  | refl => exact hp
  | tail _ hstep ih =>
      cases hstep with
      | single _ _ => exact ih
      | item _ hmem => exact Literal.constant_of_mem ih hmem
      | field _ hsupplied _ => exact Literal.constant_of_lookup ih hsupplied

/-- A literal without variables gives no more levels than are left to it. -/
theorem coerceLiteral_nesting_of_constant (hs : s.Built) (hd : s.AllDynamic)
    {lookup : VariableLookup} {room : Nat} {t : SchemaType} {l : Literal} {v : Coerced}
    (ht : s.Knows t) (hconst : l.variableNames = [])
    (h : coerceLiteral s lookup room t l = .ok v) : v.nesting ≤ room := by
  refine coerceLiteral_nesting hs hd 0 ht (fun p name w hp hname => ?_) h
  have hnames := hp.constant hconst
  rw [hname] at hnames
  cases hnames

end

namespace Resolver

variable {r : Resolver}

/-- **A variable nests one level beyond the limit at most.** -/
theorem nesting_of_resolve (hs : r.schema.Built) (hd : r.schema.AllDynamic) {name : String}
    {v : Coerced} (h : r.resolve name = .ok v) : v.nesting ≤ r.schema.limits.levels := by
  obtain ⟨d, t, -, ht, hstep⟩ := resolve_cases h
  have hknown := Schema.knows_of_resolve ht
  cases hstep with
  | supplied _ hread => exact coerceRaw_nesting hs hd hknown hread
  | default _ _ hread =>
      refine coerceLiteral_nesting hs hd 0 hknown (fun p name w _ _ hvalue => ?_) hread
      cases hvalue
  | isNull _ _ => exact Nat.zero_le _

end Resolver

namespace Repository

/-- **What a literal may nest.** If each variable that goes into its value brings at most `excess`
    levels more than are left at its place, the value has at most as many more than one beyond the
    limit. It has none more without variables, and never more than twice the limit and one. -/
theorem nesting_of_coerce {r : Resolver} (hs : r.schema.Built) (hd : r.schema.AllDynamic)
    {e : TypeExpr} {t : SchemaType} (ht : r.schema.resolve .input e = some t) {l : Literal}
    {v : Coerced} (h : (Repository.mk r.schema (some r)).coerce t l = .ok v) :
    let m := r.schema.limits.maxDepth
    (∀ excess,
      (∀ p name w, Reading.Visits r.schema r.resolve ⟨m + 1, t, l⟩ p →
        p.literal = .variable name → r.resolve name = .ok w → w.nesting ≤ p.room + excess) →
      v.nesting ≤ m + 1 + excess) ∧
    (l.variableNames = [] → v.nesting ≤ m + 1) ∧
    v.nesting ≤ 2 * m + 1 := by
  intro m
  have hknown := Schema.knows_of_resolve ht
  have hbound := fun excess hvariables =>
    coerceLiteral_nesting hs hd excess hknown hvariables h
  refine ⟨hbound, fun hconst => coerceLiteral_nesting_of_constant hs hd hknown hconst h, ?_⟩
  have htwice : v.nesting ≤ m + 1 + m := by
    refine hbound m fun p name w hp _ hw => ?_
    -- where a variable is read a level is left
    have hroom : 0 < p.room := by
      obtain ⟨u, hu⟩ := hp.eq_ok (p := ⟨m + 1, t, l⟩) h
      rcases Nat.eq_zero_or_pos p.room with hzero | hpos
      · rw [Reading.outcome, hzero] at hu
        cases hu
      · exact hpos
    have hw' : w.nesting ≤ m + 1 := Resolver.nesting_of_resolve hs hd hw
    omega
  omega

end Repository

/-- The records of points are dynamic. -/
theorem Schema.allDynamic_points : Schema.points.AllDynamic := by
  intro name o h
  obtain rfl := eq_point_of_named? h
  rfl

namespace Repository

/-- Two points, the second of them a variable with a list of its own. -/
theorem nesting_of_coerce_points :
    let r : Resolver := ⟨Schema.points.withMaxDepth 2,
      Table.ofList [("p", .object [("x", .int 2), ("tags", .list [])])],
      [⟨⟨0, 0⟩, "p", .named "Point", none⟩]⟩
    let l : Literal := .list [.object [("x", .int 1)], .variable "p"]
    let v : Coerced := .list [.object "Point" (.dynamic [("x", .int 1)]),
      .object "Point" (.dynamic [("x", .int 2), ("tags", .list [])])]
    ∃ t, r.schema.resolve .input (.list (.named "Point")) = some t ∧
      (Repository.mk r.schema (some r)).coerce t l = .ok v ∧
      v.nesting = 3 ∧ v.nesting ≤ 2 * r.schema.limits.maxDepth + 1 := by
  intro r l v
  have ht : r.schema.resolve .input (.list (.named "Point")) =
      some (.list (.named (.inputObject Schema.point) false) false) := rfl
  have hread : (Repository.mk r.schema (some r)).coerce
      (.list (.named (.inputObject Schema.point) false) false) l = .ok v := rfl
  have hs : r.schema.Built := Schema.built_points.withMaxDepth 2
  have hd : r.schema.AllDynamic := Schema.allDynamic_points
  exact ⟨_, ht, hread, rfl, (nesting_of_coerce hs hd ht hread).2.2⟩

/-- **A variable goes beyond the limit**: met one level down, it is still read from the outermost
    level, so the value nests three levels where the limit admits two. -/
theorem nesting_beyond_limit :
    let r : Resolver := ⟨Schema.points.withMaxDepth 1, Table.ofList [("x", .list [.list []])],
      [⟨⟨0, 0⟩, "x", .list (.list (.named "Int")), none⟩]⟩
    let l : Literal := .list [.variable "x"]
    let v : Coerced := .list [.list [.list []]]
    r.schema.Built ∧ r.schema.AllDynamic ∧
      ∃ t, r.schema.resolve .input (.list (.list (.list (.named "Int")))) = some t ∧
        (Repository.mk r.schema (some r)).coerce t l = .ok v ∧
        r.schema.limits.maxDepth + 1 < v.nesting := by
  intro r l v
  exact ⟨Schema.built_points.withMaxDepth 1, Schema.allDynamic_points, _, rfl, rfl, by decide⟩

end Repository

end TypedQuery
