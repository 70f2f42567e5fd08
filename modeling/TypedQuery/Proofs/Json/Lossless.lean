import TypedQuery.Proofs.Json.ReadBack
import TypedQuery.Value.Raw

/-!
# Raw values through JSON

A raw value and its JSON value say the same. Integers and doubles stay apart, keys keep their order,
and the only raw values that lose anything are doubles that are no finite numbers. The way through
the text loses nothing more, unless the reader of doubles does.

* `Raw.ofJson_toJson` -- from a raw value to JSON and back;
* `Raw.toJson_ofJson` -- from a JSON value to a raw value and back;
* `Variables.parse_text` -- **the text of an object is read as its entries**;
* `Raw.json_lossless` -- **the three together**.
-/

namespace TypedQuery

namespace Raw

open Decimal (isFinite)

/-- A raw value with a condition on its doubles and one on the names of each of its objects. -/
inductive Within (P : Float → Prop) (K : List String → Prop) : Raw → Prop
  | null : Within P K .null
  | boolean (b : Bool) : Within P K (.boolean b)
  | int (n : Int64) : Within P K (.int n)
  | float {x : Float} (h : P x) : Within P K (.float x)
  | string (s : String) : Within P K (.string s)
  | list {items : List Raw} (h : ∀ v ∈ items, Within P K v) : Within P K (.list items)
  | object {entries : List (String × Raw)} (hnames : K (Entries.names entries))
      (h : ∀ p ∈ entries, Within P K p.2) : Within P K (.object entries)

variable {P : Float → Prop} {Q : Json.Number → Prop} {K : List String → Prop}

/-! ## 1. Parts -/

theorem toItems_eq_map (items : List Raw) : toItems items = items.map toJson := by
  induction items with
  | nil => rfl
  | cons item rest ih => rw [toItems, ih, List.map_cons]

theorem toMembers_eq_map (entries : List (String × Raw)) :
    toMembers entries = entries.map fun p => (p.1, p.2.toJson) := by
  induction entries with
  | nil => rfl
  | cons p rest ih => rw [toMembers, ih, List.map_cons]

theorem ofItems_eq_map (items : List Json) : ofItems items = items.map ofJson := by
  induction items with
  | nil => rfl
  | cons item rest ih => rw [ofItems, ih, List.map_cons]

theorem ofMembers_eq_map (members : List (String × Json)) :
    ofMembers members = members.map fun p => (p.1, ofJson p.2) := by
  induction members with
  | nil => rfl
  | cons p rest ih => rw [ofMembers, ih, List.map_cons]

/-- The names of an object stay as they are. -/
theorem names_toMembers (entries : List (String × Raw)) :
    Entries.names (toMembers entries) = Entries.names entries := by
  rw [toMembers_eq_map, Entries.names, List.map_map]
  rfl

/-- What is changed in no member is not changed. -/
theorem map_eq_self {α : Type} {f : α → α} {xs : List α} (h : ∀ x ∈ xs, f x = x) :
    xs.map f = xs :=
  (List.map_congr_left h).trans (List.map_id xs)

/-! ## 2. Both ways -/

/-- An integer that fits is an integer. -/
theorem ofNumber_integer {n : Int} (hlow : Int64.minValue.toInt ≤ n)
    (hhigh : n ≤ Int64.maxValue.toInt) : ofNumber (.integer n) = .int (Int64.ofInt n) := by
  have hfits : (decide (Int64.minValue.toInt ≤ n) && decide (n ≤ Int64.maxValue.toInt)) = true := by
    rw [decide_eq_true hlow, decide_eq_true hhigh]
    rfl
  rw [ofNumber, int64?, if_pos hfits]

/-- **A raw value comes back from its JSON value**, if its doubles are finite. -/
theorem ofJson_toJson {v : Raw} (h : v.Within P K) (hP : ∀ x, P x → isFinite x = true) :
    ofJson v.toJson = v := by
  induction h with
  | null => rfl
  | boolean b => rfl
  | int n =>
      rw [toJson, ofJson, ofNumber_integer (Int64.minValue_le_toInt n) (Int64.toInt_le n),
        Int64.ofInt_toInt]
  | float h =>
      rw [toJson, if_pos (hP _ h)]
      rfl
  | string s => rfl
  | list _ ih =>
      rw [toJson, ofJson, toItems_eq_map, ofItems_eq_map, List.map_map]
      exact congrArg Raw.list (map_eq_self ih)
  | object _ _ ih =>
      rw [toJson, ofJson, toMembers_eq_map, ofMembers_eq_map, List.map_map]
      exact congrArg Raw.object (map_eq_self fun p hp => congrArg (Prod.mk p.1) (ih p hp))

/-- The numbers that a raw value can hold: integers of 64 bits with sign, and finite doubles. -/
def Holds : Json.Number → Prop
  | .integer n => Int64.minValue.toInt ≤ n ∧ n ≤ Int64.maxValue.toInt
  | .float x => isFinite x = true

/-- **A JSON value comes back from its raw value**, if its integers fit 64 bits. -/
theorem toJson_ofJson {j : Json} (h : j.Within Holds K) : (ofJson j).toJson = j := by
  induction h with
  | null => rfl
  | boolean b => rfl
  | @number n h =>
      cases n with
      | integer n =>
          have hmin : Int64.minValue.toInt = -2 ^ 63 := rfl
          have hmax : Int64.maxValue.toInt = 2 ^ 63 - 1 := rfl
          have hlow := h.1
          have hhigh := h.2
          rw [ofJson, ofNumber_integer hlow hhigh, toJson,
            Int64.toInt_ofInt_of_le (by omega) (by omega)]
      | float x => exact if_pos h
  | string s => rfl
  | array _ ih =>
      rw [ofJson, toJson, ofItems_eq_map, toItems_eq_map, List.map_map]
      exact congrArg Json.array (map_eq_self ih)
  | object _ _ ih =>
      rw [ofJson, toJson, ofMembers_eq_map, toMembers_eq_map, List.map_map]
      exact congrArg Json.object (map_eq_self fun p hp => congrArg (Prod.mk p.1) (ih p hp))

/-! ## 3. Through the text -/

/-- The conditions on a raw value are those on its JSON value. -/
theorem Within.toJson {v : Raw} (h : v.Within P K)
    (hfloat : ∀ x, P x → isFinite x = true ∧ Q (.float x))
    (hint : ∀ n : Int64, Q (.integer n.toInt)) : v.toJson.Within Q K := by
  induction h with
  | null => exact .null
  | boolean b => exact .boolean b
  | int n => exact .number (hint n)
  | float h =>
      rw [Raw.toJson, if_pos (hfloat _ h).1]
      exact .number (hfloat _ h).2
  | string s => exact .string s
  | list _ ih =>
      rw [Raw.toJson, toItems_eq_map]
      exact .array (List.forall_mem_map.2 ih)
  | object hnames _ ih =>
      rw [Raw.toJson]
      refine .object (names_toMembers _ ▸ hnames) ?_
      rw [toMembers_eq_map]
      exact List.forall_mem_map.2 ih

end Raw

/-- The text of a double that is read back is no `null`. -/
theorem Json.Number.isFinite_of_readsBack {x : Float} (h : (Number.float x).ReadsBack) :
    Decimal.isFinite x = true := by
  by_cases hfinite : Decimal.isFinite x = true
  · exact hfinite
  · have hwrite : (Number.float x).write = "null".toList := if_neg hfinite
    rw [ReadsBack, hwrite] at h
    cases h

/-- **The text of an object is read as its entries**, in their order, if each of its doubles is read
    as itself. -/
theorem Variables.parse_text {entries : List (String × Raw)}
    (h : (Raw.object entries).Within
      (fun x => Json.parse (Json.number (.float x)).write = some (.number (.float x))) List.Nodup)
    (hnesting : (Raw.object entries).toJson.nesting ≤ Json.Tree.maxNesting) :
    ∃ vars, Variables.parse (Raw.object entries).text = some vars ∧ vars.entries = entries := by
  have hjson : (Raw.object entries).toJson.Within Json.Number.ReadsBack List.Nodup := by
    refine h.toJson (fun x hx => ?_) fun n => ?_
    · have hback := Json.Number.readsBack_of_parse hx
      exact ⟨Json.Number.isFinite_of_readsBack hback, hback⟩
    · have hmin : Int64.minValue.toInt = -2 ^ 63 := rfl
      have hmax : Int64.maxValue.toInt = 2 ^ 63 - 1 := rfl
      have hword : Json.wordMax = 2 ^ 64 - 1 := rfl
      have hlow := Int64.minValue_le_toInt n
      have hhigh := Int64.toInt_le n
      exact Json.Number.readsBack_integer (by omega) (by omega)
  have hback : Raw.ofJson (Raw.object entries).toJson = .object entries :=
    Raw.ofJson_toJson h fun x hx =>
      Json.Number.isFinite_of_readsBack (Json.Number.readsBack_of_parse hx)
  have hnodup : (Entries.names entries).Nodup := by
    cases h with
    | object hnames _ => exact hnames
  refine ⟨Table.ofList entries, ?_, ?_⟩
  · rw [Variables.parse, Raw.parse, Raw.text, hjson.parse hnesting, Option.map_some, hback]
  · rw [Table.entries_ofList, Entries.collapse_eq_self hnodup]

/-- **Raw values and JSON values turn into each other without loss**: a raw value with finite
    doubles comes back from JSON, a JSON value with integers of 64 bits comes back from a raw value,
    and the variables that are read from the text of an object are its entries. -/
theorem Raw.json_lossless :
    (∀ v : Raw, v.Within (fun x => Decimal.isFinite x = true) (fun _ => True) →
      Raw.ofJson v.toJson = v) ∧
    (∀ j : Json, j.Within Raw.Holds (fun _ => True) → (Raw.ofJson j).toJson = j) ∧
    ∀ entries : List (String × Raw),
      (Raw.object entries).Within
        (fun x => Json.parse (Json.number (.float x)).write = some (.number (.float x)))
        List.Nodup →
      (Raw.object entries).toJson.nesting ≤ 127 →
      ∃ vars, Variables.parse (Raw.object entries).text = some vars ∧ vars.entries = entries :=
  ⟨fun _ h => Raw.ofJson_toJson h fun _ hx => hx, fun _ h => Raw.toJson_ofJson h,
    fun _ h hnesting => Variables.parse_text h hnesting⟩

/-- Variables with numbers of both kinds: a whole double, and a zero with a minus. -/
def pointVariables : List (String × Raw) :=
  [("p", .object [("x", .int (-1)), ("y", .float 2.0)]), ("tags", .list [.string "a", .null]),
    ("zero", .float (-0.0))]

theorem Raw.json_lossless_points :
    Raw.ofJson (Raw.object pointVariables).toJson = .object pointVariables ∧
    (Raw.ofJson (.array [.number (.integer (-0x8000000000000000)), .number (.float 0.5)])).toJson =
      .array [.number (.integer (-0x8000000000000000)), .number (.float 0.5)] ∧
    ∃ vars, Variables.parse (Raw.object pointVariables).text = some vars ∧
      vars.entries = pointVariables := by
  have hwithin : ∀ {P : Float → Prop} {K : List String → Prop}, P 2.0 → P (-0.0) →
      K ["p", "tags", "zero"] → K ["x", "y"] → (Raw.object pointVariables).Within P K := by
    intro P K htwo hzero hnames hpoint
    refine .object hnames ?_
    simp only [pointVariables, List.forall_mem_cons, List.not_mem_nil, false_imp_iff, implies_true,
      and_true]
    refine ⟨.object hpoint ?_, .list ?_, .float hzero⟩
    · simp only [List.forall_mem_cons, List.not_mem_nil, false_imp_iff, implies_true, and_true]
      exact ⟨.int _, .float htwo⟩
    · simp only [List.forall_mem_cons, List.not_mem_nil, false_imp_iff, implies_true, and_true]
      exact ⟨.string _, .null⟩
  have hhalf : Decimal.isFinite 0.5 = true := by decide +kernel
  refine ⟨json_lossless.1 _ (hwithin (by decide +kernel) (by decide +kernel) trivial trivial),
    json_lossless.2.1 _ (.array ?_),
    json_lossless.2.2 _ (hwithin rfl rfl (by decide) (by decide)) (by decide)⟩
  simp only [List.forall_mem_cons, List.not_mem_nil, false_imp_iff, implies_true, and_true]
  exact ⟨.number ⟨by decide, by decide⟩, .number hhalf⟩

end TypedQuery
