import TypedQuery.Proofs.Coercion.Agreement

/-!
# Moving parts of a literal into variables

Parts of a literal without variables are replaced by variables, each declared with the type of its
position and supplied with the raw image of the part. Any parts may be moved at once, as long as
they stand on paths of list items and declared keys.

* `Moved` -- one literal is another with parts moved into variables of a resolver;
* `coerceLiteral_moved` -- what a literal gives at a type within its position, it gives after the
  move, up to the depth limit;
* `Repository.coerce_moved` -- **moving parts of a literal into variables keeps its value**.
-/

namespace TypedQuery

open SchemaType

/-! ## 1. The relation -/

mutual

/-- **Parts of the first literal are moved into variables.** The expression is the type of the
    position. -/
inductive Moved (r : Resolver) : TypeExpr → Literal → Literal → Prop
  /-- The whole literal is moved. -/
  | cut {e : TypeExpr} {l : Literal} {name : String} {d : VariableDefinition}
      (defined : r.definition? name = some d) (type : d.type = e)
      (supplied : r.supplied.find? name = some l.raw) : Moved r e l (.variable name)
  | kept {e : TypeExpr} {l : Literal} : Moved r e l l
  | list {e of : TypeExpr} {items items' : List Literal} (member : e.member? = some of)
      (each : MovedItems r of items items') : Moved r e (.list items) (.list items')
  /-- Lists around the input object are looked through. -/
  | object {e : TypeExpr} {o : InputObjectType} {entries entries' : List (String × Literal)}
      (type : r.schema.inputObject? e.innerName = some o)
      (each : MovedEntries r o entries entries') : Moved r e (.object entries) (.object entries')

/-- Parts of items are moved into variables. -/
inductive MovedItems (r : Resolver) : TypeExpr → List Literal → List Literal → Prop
  | nil {of : TypeExpr} : MovedItems r of [] []
  | cons {of : TypeExpr} {item item' : Literal} {rest rest' : List Literal}
      (first : Moved r of item item') (others : MovedItems r of rest rest') :
      MovedItems r of (item :: rest) (item' :: rest')

/-- Parts of the values of entries are moved into variables. -/
inductive MovedEntries (r : Resolver) :
    InputObjectType → List (String × Literal) → List (String × Literal) → Prop
  | nil {o : InputObjectType} : MovedEntries r o [] []
  | declared {o : InputObjectType} {key : String} {f : InputField} {value value' : Literal}
      {rest rest' : List (String × Literal)} (field : o.field? key = some f)
      (first : Moved r f.type value value') (others : MovedEntries r o rest rest') :
      MovedEntries r o ((key, value) :: rest) ((key, value') :: rest')
  /-- Under a key that no field declares nothing is moved. -/
  | undeclared {o : InputObjectType} {key : String} {value : Literal}
      {rest rest' : List (String × Literal)} (field : o.field? key = none)
      (others : MovedEntries r o rest rest') :
      MovedEntries r o ((key, value) :: rest) ((key, value) :: rest')

end

section

variable {r : Resolver}

theorem MovedItems.forall₂ {of : TypeExpr} : ∀ {items items' : List Literal},
    MovedItems r of items items' → List.Forall₂ (Moved r of) items items'
  | _, _, .nil => .nil
  | _, _, .cons first others => .cons first others.forall₂

/-- The first entry of a key stays the first one. -/
theorem MovedEntries.lookup {o : InputObjectType} {key : String} {f : InputField}
    (hf : o.field? key = some f) : ∀ {entries entries' : List (String × Literal)},
    MovedEntries r o entries entries' →
      Option.Rel (Moved r f.type) (entries.lookup key) (entries'.lookup key)
  | _, _, .nil => .none
  | _, _, @MovedEntries.declared _ _ other g value value' _ _ hg first others => by
      rw [List.lookup_cons, List.lookup_cons]
      by_cases hkey : key = other
      · subst hkey
        obtain rfl : f = g := Option.some.inj (hf.symm.trans hg)
        rw [beq_self_eq_true]
        exact .some first
      · rw [beq_false_of_ne hkey]
        exact others.lookup hf
  | _, _, @MovedEntries.undeclared _ _ other value _ _ hg others => by
      have hkey : key ≠ other := by
        rintro rfl
        rw [hf] at hg
        cases hg
      rw [List.lookup_cons, List.lookup_cons, beq_false_of_ne hkey]
      exact others.lookup hf

/-! ## 2. The value after the move -/

/-- A supplied variable has the value of what is supplied, read at its declared type. -/
theorem Resolver.resolve_supplied {name : String} {d : VariableDefinition} {t : SchemaType}
    {raw : Raw} (hd : r.definition? name = some d)
    (ht : r.schema.resolve .input d.type = some t)
    (hsupplied : r.supplied.find? name = some raw) :
    r.resolve name = r.schema.coerceRaw t raw := by
  unfold resolve
  rw [hd]
  show (r.declaredType d.type >>= _) = _
  rw [declaredType_eq_ok_iff.2 ht, hsupplied]
  rfl

/-- A value that coercion gives is not refused again for being null. -/
theorem ofKnown_of_coerceLiteral {s : Schema} {lookup : VariableLookup} {room : Nat}
    {t : SchemaType} {l : Literal} {v : Coerced}
    (h : coerceLiteral s lookup (room + 1) t l = .ok v) : t.ofKnown v = .ok v := by
  refine ofKnown_eq_ok.2 ⟨fun hv => ?_, rfl⟩
  cases hl : l.isProper with
  | true =>
      rw [isNull_of_isProper hl h] at hv
      cases hv
  | false =>
      cases coerceLiteral_cases h with
      | isVariable _ hnull => exact hnull hv
      | isNull hnullable => exact hnullable
      | scalar hproper _ => exact absurd (hl.symm.trans hproper) (by decide)
      | enum _ => cases hl
      | object _ => cases hl
      | single hproper _ _ => exact absurd (hl.symm.trans hproper) (by decide)
      | items _ _ => cases hl

/-- The variable of a part has the value of the part. -/
theorem coerceLiteral_cut {lookup : VariableLookup} {room : Nat} {e : TypeExpr} {t : SchemaType}
    {l : Literal} {v : Coerced} {name : String} {d : VariableDefinition}
    (ht : r.schema.resolve .input e = some t) (hflat : r.schema.Flat e)
    (hconst : l.variableNames = []) (hd : r.definition? name = some d) (htype : d.type = e)
    (hsupplied : r.supplied.find? name = some l.raw)
    (h : coerceLiteral r.schema lookup (room + 1) t l = .ok v) :
    YieldsUpTo (.depthLimitExceeded r.schema.limits.maxDepth)
      (coerceLiteral r.schema r.resolve (room + 1) t (.variable name)) v := by
  subst htype
  have hvariable : coerceLiteral r.schema r.resolve (room + 1) t (.variable name) =
      r.resolve name >>= t.ofKnown := by
    simp only [coerceLiteral]
  rw [hvariable, Resolver.resolve_supplied hd ht hsupplied]
  refine YieldsUpTo.bind ?_ (.inl (ofKnown_of_coerceLiteral h))
  exact coerceRaw_yields ht hflat .refl hconst h

/-- **What a literal gives at a type within its position, it gives after the move**, up to the
    depth limit. A literal that has become a variable is met at its position itself. -/
theorem coerceLiteral_moved (hs : r.schema.Built) {lookup : VariableLookup} {room : Nat}
    {e : TypeExpr} {position t : SchemaType} {l l' : Literal} {v : Coerced}
    (hposition : r.schema.resolve .input e = some position) (hflat : r.schema.Flat e)
    (hwithin : t.Within position) (hmet : t = position ∨ l'.isProper = true)
    (hconst : l.variableNames = []) (hmoved : Moved r e l l')
    (h : coerceLiteral r.schema lookup room t l = .ok v) :
    YieldsUpTo (.depthLimitExceeded r.schema.limits.maxDepth)
      (coerceLiteral r.schema r.resolve room t l') v := by
  induction room generalizing e position t l l' v with
  | zero => cases h
  | succ room ih =>
      cases hmoved with
      | cut hd htype hsupplied =>
          have ht : t = position := by
            rcases hmet with ht | hproper
            · exact ht
            · cases hproper
          subst ht
          exact coerceLiteral_cut hposition hflat hconst hd htype hsupplied h
      | kept =>
          refine .inl (Eq.trans (coerceLiteral_congr fun name hname => ?_) h)
          rw [hconst] at hname
          cases hname
      | @list _ inner items items' hmember heach =>
          cases t with
          | named t required => exact absurd h (coerceLiteral_list_ne_ok t required items v)
          | list of required =>
              obtain ⟨rfl, named, required', rfl⟩ :=
                hwithin.eq_of_listLayers_le_one (hflat.listLayers_le hposition)
              have hinner : r.schema.resolve .input inner = some (.named named required') := by
                have hmemberType := Schema.member?_of_resolve hposition
                rw [hmember] at hmemberType
                exact hmemberType.symm
              cases coerceLiteral_cases h with
              | single _ hread _ =>
                  exact absurd hread (coerceLiteral_list_ne_ok named required' items _)
              | items _ hread =>
                  rw [coerceLiteral_items required
                    (coerceLiteral_list_ne_ok named required' items')]
                  refine YieldsUpTo.map (.items ?_) Coerced.list
                  refine forall₂_transfer heach.forall₂ (mapM_eq_ok_iff.1 hread) ?_
                  intro item hitem item' w hitem' hw
                  exact ih hinner (hflat.member hmember) .refl (.inl rfl)
                    (Literal.constant_of_mem hconst hitem) hitem' hw
      | @object _ o entries entries' ho heach =>
          cases coerceLiteral_cases h with
          | @scalar k _ _ _ _ hread =>
              obtain ⟨_, _, kind⟩ := k
              cases kind <;> cases hread
          | @object o' required _ _ hread =>
              have ho' := Schema.inputObject?_of_resolve hposition hwithin.namedType_eq.symm
              obtain rfl : o = o' := Option.some.inj (ho.symm.trans ho')
              have hdistinct := hs.distinct_fields (Schema.inputObject?_eq_some.1 ho)
              rw [coerceLiteral_object]
              refine Schema.assemble_yields (R := fun f => Moved r f.type) ?_ ?_ hread
              · exact fun f hf => heach.lookup (InputObjectType.field?_of_mem hdistinct hf)
              · intro f hf value value' ft w hvalue hvalue' hft hw
                exact ih hft (hflat.field ho hf) .refl (.inl rfl)
                  (Literal.constant_of_lookup hconst hvalue) hvalue' hw
          | @single of required _ w _ hread hnull =>
              have hobject : (Literal.object entries').isProper = true := rfl
              have hprobe := ih hposition hflat hwithin.member (.inr hobject) hconst
                (.object ho heach) hread
              rcases hprobe with hprobe | hprobe
              · exact .inl (coerceLiteral_single required hobject hprobe hnull)
              · exact .inr (coerceLiteral_probeFails required hobject rfl hprobe)

/-- **Moving parts of a literal into variables keeps its value**, where no list stands directly in
    a list: the value is the same, or the depth limit is exceeded. -/
theorem Repository.coerce_moved (hs : r.schema.Built) {e : TypeExpr} {t : SchemaType}
    (ht : r.schema.resolve .input e = some t) (hflat : r.schema.Flat e) {l l' : Literal}
    {v : Coerced} (hconst : l.variableNames = []) (before : Option Resolver)
    (h : (Repository.mk r.schema before).coerce t l = .ok v) (hmoved : Moved r e l l') :
    (Repository.mk r.schema (some r)).coerce t l' = .ok v ∨
      (Repository.mk r.schema (some r)).coerce t l' =
        .error (.depthLimitExceeded r.schema.limits.maxDepth) :=
  coerceLiteral_moved hs ht hflat .refl (.inl rfl) hconst hmoved h

/-- Points hold no list in a list. -/
theorem Schema.flat_points : Schema.points.Flat (.list (.named "Point")) := by
  intro e' h
  cases h with
  | refl => decide
  | field ho hf hrest =>
      have hpoint : Schema.points.inputObject? "Point" = some Schema.point := rfl
      obtain rfl := Option.some.inj (hpoint.symm.trans ho)
      rcases List.mem_cons.1 hf with rfl | hf
      · cases hrest with
        | refl => decide
        | field ho _ _ => cases ho
      · obtain rfl := List.mem_singleton.1 hf
        cases hrest with
        | refl => decide
        | field ho _ _ => cases ho

/-- Two points, with a coordinate, a tag and the whole of the second point moved. -/
theorem Repository.coerce_moved_points :
    let r : Resolver := ⟨Schema.points,
      Table.ofList [("n", .int 1), ("tag", .string "b"), ("p", .object [("x", .int 2)])],
      [⟨⟨0, 0⟩, "n", .nonNull (.named "Int"), none⟩, ⟨⟨0, 0⟩, "tag", .named "String", none⟩,
        ⟨⟨0, 0⟩, "p", .named "Point", none⟩]⟩
    let l : Literal := .list [.object [("x", .int 1), ("tags", .list [.string "a", .string "b"])],
      .object [("x", .int 2)]]
    let l' : Literal := .list
      [.object [("x", .variable "n"), ("tags", .list [.string "a", .variable "tag"])],
        .variable "p"]
    ∃ t v, r.schema.resolve .input (.list (.named "Point")) = some t ∧
      (Repository.mk r.schema none).coerce t l = .ok v ∧
      Moved r (.list (.named "Point")) l l' ∧
      ((Repository.mk r.schema (some r)).coerce t l' = .ok v ∨
        (Repository.mk r.schema (some r)).coerce t l' =
          .error (.depthLimitExceeded r.schema.limits.maxDepth)) := by
  intro r l l'
  have hmoved : Moved r (.list (.named "Point")) l l' := by
    refine .list rfl (.cons (.object rfl ?_) (.cons ?_ .nil))
    · refine .declared rfl (.cut rfl rfl rfl) (.declared rfl ?_ .nil)
      exact .list rfl (.cons .kept (.cons (.cut rfl rfl rfl) .nil))
    · exact .cut rfl rfl rfl
  refine ⟨_, _, rfl, rfl, hmoved, ?_⟩
  exact Repository.coerce_moved (r := r) Schema.built_points rfl Schema.flat_points rfl none rfl
    hmoved

end

end TypedQuery
