import TypedQuery.Proofs.Coercion.Nesting

/-!
# Raw values without a depth limit

Every part of a raw value is smaller than the value, so raw values can be read without any limit.
This file says what the limit does to that reading: it cuts it off, and nothing else.

* `SchemaType.coerceUnlimited` -- a raw value against a type, however deep it is;
* `SchemaType.rawLevel` -- one level of a reading, with the ways in which it reads members and
  records left open. Both coercions are made of such levels (`coerceRaw_level`,
  `coerceUnlimited_level`), so `rawLevel_related` compares any two of them;
* `coerceRaw_agrees` -- **the limit only cuts off**: a raw value has the outcome that it has without
  a limit, or it exceeds the depth limit;
* `coerceRaw_raised` -- the same of a limit and a higher one;
* `Schema.coerceRaw_limit` -- **the two together**, with what a value may nest.
-/

namespace TypedQuery

namespace SchemaType

/-! ## 1. The coercion without a limit -/

/-- What a lookup finds is smaller than the entries. -/
theorem sizeOf_lt_of_lookup {entries : List (String × Raw)} {key : String} {value : Raw}
    (h : entries.lookup key = some value) : sizeOf value < sizeOf entries := by
  have hentry : sizeOf (key, value) < sizeOf entries :=
    List.sizeOf_lt_of_mem (Entries.mem_of_lookup h)
  rw [Prod.mk.sizeOf_spec] at hentry
  omega

/-- **A raw value against a type, however deep it is.** The value gets smaller from level to level;
    where it is itself the only member of a list, the type does. -/
def coerceUnlimited (s : Schema) : SchemaType → Raw → Except ResolutionError Coerced
  | t, .null => t.ofNull
  | .named (.scalar t) _, raw => t.ofRaw raw
  | .named (.enum t) _, raw => t.ofRaw raw
  | .named (.composite c) _, raw => .error (rawMismatch c.name raw)
  | .named (.inputObject o) _, .object entries =>
    o.assemble fun f =>
      match _h : entries.lookup f.name with
      | none => .ok none
      | some value => do
        let t ← s.inputFieldType f
        return some (← coerceUnlimited s t value)
  | .named (.inputObject o) _, raw => .error (rawMismatch o.name raw)
  | .list of _, .list items =>
    (items.attach.mapM fun item => coerceUnlimited s of item.1).map .list
  | .list of _, single => (coerceUnlimited s of single).map fun value => .list [value]
termination_by t raw => (sizeOf raw, sizeOf t)
decreasing_by
  · have hvalue := sizeOf_lt_of_lookup _h
    rw [Raw.object.sizeOf_spec]
    exact Prod.Lex.left _ _ (by omega)
  · have hitem := List.sizeOf_lt_of_mem item.2
    rw [Raw.list.sizeOf_spec]
    exact Prod.Lex.left _ _ (by omega)
  · rw [SchemaType.list.sizeOf_spec]
    exact Prod.Lex.right _ (by omega)

/-! ## 2. One level -/

/-- **One level of the reading of a raw value**: `object` reads the entries of an input object, and
    `read` what is inside a list. -/
def rawLevel
    (object : InputObjectType → List (String × Raw) → Except ResolutionError Coerced)
    (read : SchemaType → Raw → Except ResolutionError Coerced) :
    SchemaType → Raw → Except ResolutionError Coerced
  | t, .null => t.ofNull
  | .named (.scalar t) _, raw => t.ofRaw raw
  | .named (.enum t) _, raw => t.ofRaw raw
  | .named (.composite c) _, raw => .error (rawMismatch c.name raw)
  | .named (.inputObject o) _, .object entries => object o entries
  | .named (.inputObject o) _, raw => .error (rawMismatch o.name raw)
  | .list of _, .list items => (items.mapM (read of)).map .list
  | .list of _, single => (read of single).map fun value => .list [value]

/-- The entries of an input object, its fields read with `room` levels. -/
def rawObject (s : Schema) (room : Nat) (o : InputObjectType) (entries : List (String × Raw)) :
    Except ResolutionError Coerced :=
  if room = 0 then .error (.depthLimitExceeded s.limits.maxDepth)
  else o.assemble (s.readEntry (coerceRaw s room) entries)

/-- The entries of an input object, its fields read without a limit. -/
def rawObjectUnlimited (s : Schema) (o : InputObjectType) (entries : List (String × Raw)) :
    Except ResolutionError Coerced :=
  o.assemble (s.readEntry (coerceUnlimited s) entries)

/-- **The levels of two readings are related** if their parts are. -/
theorem rawLevel_related
    {R : ∀ α : Type, Except ResolutionError α → Except ResolutionError α → Prop}
    (hR : Sequential R)
    {object object' : InputObjectType → List (String × Raw) → Except ResolutionError Coerced}
    {read read' : SchemaType → Raw → Except ResolutionError Coerced}
    (hobject : ∀ o entries, R Coerced (object o entries) (object' o entries))
    (hread : ∀ t raw, R Coerced (read t raw) (read' t raw)) (t : SchemaType) (raw : Raw) :
    R Coerced (rawLevel object read t raw) (rawLevel object' read' t raw) := by
  match t with
  | .named (.inputObject o) required =>
      cases raw with
      | object entries => exact hobject o entries
      | _ => exact hR.refl _
  | .list of required =>
      cases raw with
      | null => exact hR.refl _
      | list items => exact hR.map (hR.items fun item _ => hread of item) Coerced.list
      | _ => exact hR.map (hread of _) fun value => Coerced.list [value]
  | .named (.scalar _) _ | .named (.enum _) _ | .named (.composite _) _ =>
      cases raw <;> exact hR.refl _

variable {s : Schema}

theorem coerceRaw_level (room : Nat) (t : SchemaType) (raw : Raw) :
    coerceRaw s (room + 1) t raw = rawLevel (rawObject s room) (coerceRaw s room) t raw := by
  match t with
  | .named (.inputObject o) required =>
      cases raw with
      | object entries =>
          show _ = rawObject s room o entries
          unfold rawObject
          by_cases hroom : room = 0
          · rw [if_pos hroom, hroom]
            rfl
          · rw [if_neg hroom, coerceRaw_object o required entries hroom]
      | _ => rfl
  | .named (.scalar _) _ | .named (.enum _) _ | .named (.composite _) _ | .list _ _ =>
      cases raw <;> rfl

theorem coerceUnlimited_object (o : InputObjectType) (required : Bool)
    (entries : List (String × Raw)) :
    coerceUnlimited s (.named (.inputObject o) required) (.object entries) =
      rawObjectUnlimited s o entries := by
  rw [coerceUnlimited, rawObjectUnlimited]
  congr 1
  funext f
  unfold Schema.readEntry
  split <;> rename_i hvalue <;> rw [hvalue]

theorem coerceUnlimited_items (of : SchemaType) (required : Bool) (items : List Raw) :
    coerceUnlimited s (.list of required) (.list items) =
      (items.mapM (coerceUnlimited s of)).map .list := by
  rw [coerceUnlimited]
  congr 1
  conv_rhs => rw [← List.attach_map_subtype_val items, List.mapM_map]
  rfl

theorem coerceUnlimited_level (t : SchemaType) (raw : Raw) :
    coerceUnlimited s t raw =
      rawLevel (rawObjectUnlimited s) (coerceUnlimited s) t raw := by
  cases raw with
  | object entries =>
      match t with
      | .named (.inputObject o) required => exact coerceUnlimited_object o required entries
      | .named (.scalar _) _ | .named (.enum _) _ | .named (.composite _) _ | .list _ _ =>
          simp only [coerceUnlimited, rawLevel]
  | list items =>
      match t with
      | .list of required => exact coerceUnlimited_items of required items
      | .named (.scalar _) _ | .named (.enum _) _ | .named (.composite _) _
      | .named (.inputObject _) _ => simp only [coerceUnlimited, rawLevel]
  | _ =>
      match t with
      | .named (.scalar _) _ | .named (.enum _) _ | .named (.composite _) _
      | .named (.inputObject _) _ | .list _ _ => simp only [coerceUnlimited, rawLevel]

end SchemaType

open SchemaType

/-! ## 3. What the limit does -/

section

variable {s : Schema} {m : Nat}

/-- **The limit only cuts off.** -/
theorem coerceRaw_agrees (room : Nat) (t : SchemaType) (raw : Raw) :
    AgreesUpTo (.depthLimitExceeded m) (coerceRaw (s.withMaxDepth m) room t raw)
      (coerceUnlimited s t raw) := by
  induction room generalizing t raw with
  | zero => exact .inr rfl
  | succ room ih =>
      rw [coerceRaw_level, coerceUnlimited_level]
      refine rawLevel_related (sequential_agreesUpTo _) (fun o entries => ?_) ih t raw
      unfold rawObject
      by_cases hzero : room = 0
      · rw [if_pos hzero]
        exact .inr rfl
      · rw [if_neg hzero]
        exact Schema.assemble_readEntry_related (sequential_agreesUpTo _)
          fun f _ value ft _ _ => ih ft value

/-- **A lower limit only cuts off more.** -/
theorem coerceRaw_raised {m' room room' : Nat} (hroom : room ≤ room') (t : SchemaType)
    (raw : Raw) :
    AgreesUpTo (.depthLimitExceeded m) (coerceRaw (s.withMaxDepth m) room t raw)
      (coerceRaw (s.withMaxDepth m') room' t raw) := by
  induction room generalizing room' t raw with
  | zero => exact .inr rfl
  | succ room ih =>
      obtain ⟨room', rfl⟩ := Nat.exists_eq_add_one_of_ne_zero (Nat.ne_zero_of_lt hroom)
      have hread := fun t raw => ih (Nat.le_of_succ_le_succ hroom) t raw
      rw [coerceRaw_level, coerceRaw_level]
      refine rawLevel_related (sequential_agreesUpTo _) (fun o entries => ?_) hread t raw
      unfold rawObject
      by_cases hzero : room = 0
      · rw [if_pos hzero]
        exact .inr rfl
      · -- where the lower limit leaves a level for the fields, so does the higher one
        have hzero' : room' ≠ 0 := by omega
        rw [if_neg hzero, if_neg hzero']
        exact Schema.assemble_readEntry_related (sequential_agreesUpTo _)
          fun f _ value ft _ _ => hread ft value

/-- **What the depth limit does to raw values.** A raw value has the outcome that it has without a
    limit, or it exceeds the limit. A value that it has it keeps under each higher limit, and one
    of dynamic records nests one level beyond the limit at most. -/
theorem Schema.coerceRaw_limit (hs : s.Built) {e : TypeExpr} {t : SchemaType}
    (ht : s.resolve .input e = some t) (raw : Raw) (m : Nat) :
    ((s.withMaxDepth m).coerceRaw t raw = coerceUnlimited s t raw ∨
      (s.withMaxDepth m).coerceRaw t raw = .error (.depthLimitExceeded m)) ∧
    ∀ v, (s.withMaxDepth m).coerceRaw t raw = .ok v →
      (∀ m', m ≤ m' → (s.withMaxDepth m').coerceRaw t raw = .ok v) ∧
      (s.AllDynamic → v.nesting ≤ m + 1) := by
  refine ⟨coerceRaw_agrees (m + 1) t raw, fun v hv => ⟨fun m' hm => ?_, fun hd => ?_⟩⟩
  · exact (coerceRaw_raised (Nat.succ_le_succ hm) t raw).keeps v hv
  · have ht' : (s.withMaxDepth m).resolve .input e = some t := ht
    exact coerceRaw_nesting (hs.withMaxDepth m) hd (knows_of_resolve ht') hv

end

/-- A list with one point is read within two levels, whatever more the limit admits. -/
theorem Schema.coerceRaw_limit_points :
    let t : SchemaType := .list (.named (.inputObject point) false) false
    let raw : Raw := .list [.object [("x", .int 1), ("tags", .list [])]]
    let v : Coerced := .list [.object "Point" (.dynamic [("x", .int 1), ("tags", .list [])])]
    points.resolve .input (.list (.named "Point")) = some t ∧
      (points.withMaxDepth 2).coerceRaw t raw = .ok v ∧
      (∀ m', 2 ≤ m' → (points.withMaxDepth m').coerceRaw t raw = .ok v) ∧
      v.nesting ≤ 3 ∧
      (points.withMaxDepth 1).coerceRaw t raw = .error (.depthLimitExceeded 1) := by
  intro t raw v
  have ht : points.resolve .input (.list (.named "Point")) = some t := rfl
  have hread : (points.withMaxDepth 2).coerceRaw t raw = .ok v := rfl
  obtain ⟨-, hvalue⟩ := coerceRaw_limit built_points ht raw 2
  obtain ⟨hraised, hnesting⟩ := hvalue v hread
  exact ⟨ht, hread, hraised, hnesting allDynamic_points, rfl⟩

end TypedQuery
