import TypedQuery.Proofs.Coercion.Agreement

/-!
# The leaves of a coerced value

Reading a list, coercion may put brackets around what it reads: a value that is no list becomes a
list of one, and a list literal that is one member of its type becomes a list of it alone. This file
says that brackets are all it adds. What stands inside them, read from left to right, is neither
lost nor repeated nor moved.

* `Literal.leaves`, `Raw.leaves`, `Coerced.leaves` -- **what stands inside all brackets**, in order;
* `Schema.levelsAt` -- how many levels are left at a depth;
* `LeafGives` -- what one leaf comes to: null for null, otherwise what the named type makes of it;
* `leaves_of_coerceLiteral`, `leaves_of_coerceRaw` -- leaf by leaf, with any levels left;
* `Schema.leaves_coerced` -- **the leaves of a value are those of what it was read from**, each read
  by the named type at the depth of the brackets.
-/

namespace TypedQuery

open SchemaType

/-! ## 1. Leaves -/

namespace Literal

mutual

/-- **The parts of a literal that are no lists**, from left to right. An object is one part. -/
def leaves : Literal → List Literal
  | .list items => leavesOfItems items
  | l => [l]

/-- The leaves of items, one item after the other. -/
def leavesOfItems : List Literal → List Literal
  | [] => []
  | item :: rest => item.leaves ++ leavesOfItems rest

end

theorem leavesOfItems_eq (items : List Literal) : leavesOfItems items = items.flatMap leaves := by
  induction items with
  | nil => rfl
  | cons item rest ih => rw [leavesOfItems, ih, List.flatMap_cons]

theorem leaves_of_isList {l : Literal} (h : l.isList = false) : l.leaves = [l] := by
  cases l with
  | list items => cases h
  | _ => rfl

end Literal

namespace Raw

mutual

/-- **The parts of a raw value that are no lists**, from left to right. -/
def leaves : Raw → List Raw
  | .list items => leavesOfItems items
  | raw => [raw]

/-- The leaves of items, one item after the other. -/
def leavesOfItems : List Raw → List Raw
  | [] => []
  | item :: rest => item.leaves ++ leavesOfItems rest

end

theorem leavesOfItems_eq (items : List Raw) : leavesOfItems items = items.flatMap leaves := by
  induction items with
  | nil => rfl
  | cons item rest ih => rw [leavesOfItems, ih, List.flatMap_cons]

end Raw

namespace Coerced

mutual

/-- **The parts of a value that are no lists**, from left to right. -/
def leaves : Coerced → List Coerced
  | .list items => leavesOfItems items
  | v => [v]

/-- The leaves of items, one item after the other. -/
def leavesOfItems : List Coerced → List Coerced
  | [] => []
  | item :: rest => item.leaves ++ leavesOfItems rest

end

theorem leavesOfItems_eq (items : List Coerced) : leavesOfItems items = items.flatMap leaves := by
  induction items with
  | nil => rfl
  | cons item rest ih => rw [leavesOfItems, ih, List.flatMap_cons]

theorem leaves_list (items : List Coerced) :
    (Coerced.list items).leaves = items.flatMap leaves := by
  rw [leaves, leavesOfItems_eq]

/-- A list of one has the leaves of its item. -/
theorem leaves_singleton (v : Coerced) : (Coerced.list [v]).leaves = v.leaves := by
  rw [leaves_list, List.flatMap_singleton]

end Coerced

/-- The values of a scalar are leaves. -/
theorem ScalarKind.leaves_of_admits {kind : ScalarKind} {v : Coerced} (h : kind.admits v) :
    v.leaves = [v] := by
  cases v with
  | list items => cases kind <;> cases h
  | _ => rfl

/-- So are the records of an input object. -/
theorem InputObjectType.leaves_of_assemble {o : InputObjectType}
    {read : InputField → Except ResolutionError (Option Coerced)} {v : Coerced}
    (h : o.assemble read = .ok v) : v.leaves = [v] := by
  rw [assemble_eq, map_eq_ok] at h
  obtain ⟨record, -, rfl⟩ := h
  rfl

/-! ## 2. Leaf by leaf -/

/-- **What a leaf comes to**: null is null, and any other leaf is what the reading of it gives. -/
def LeafGives {α : Type} (isNull : α → Bool) (read : α → Except ResolutionError Coerced) (leaf : α)
    (v : Coerced) : Prop :=
  if isNull leaf then v = .null else read leaf = .ok v

theorem LeafGives.of_read {α : Type} {isNull : α → Bool}
    {read : α → Except ResolutionError Coerced} {leaf : α} {v : Coerced}
    (hnull : isNull leaf = false) (h : read leaf = .ok v) : LeafGives isNull read leaf v := by
  unfold LeafGives
  rw [hnull]
  exact h

/-- Each item of a list gives the leaves of its value, so the list does. -/
theorem leaves_of_items {α β γ : Type} {R : α → β → Prop} {Q : γ → Coerced → Prop}
    {leaves : α → List γ} {leaves' : β → List Coerced} {items : List α} {values : List β}
    (hread : List.Forall₂ R items values)
    (h : ∀ item ∈ items, ∀ w, R item w → List.Forall₂ Q (leaves item) (leaves' w)) :
    List.Forall₂ Q (items.flatMap leaves) (values.flatMap leaves') := by
  induction hread with
  | nil => exact .nil
  | @cons item w items values hw _ ih =>
      rw [List.flatMap_cons, List.flatMap_cons]
      refine List.rel_append (h item List.mem_cons_self w hw) (ih fun other hother => ?_)
      exact h other (List.mem_cons_of_mem item hother)

section Literals

variable {s : Schema} {lookup : VariableLookup} {room : Nat}

/-- A literal that is null is not proper. -/
theorem Literal.isNull_eq_false {l : Literal} (h : l.isProper = true) : l.isNull = false := by
  cases l with
  | null => cases h
  | _ => rfl

/-- A literal that is one leaf and is read by a named type. -/
theorem leaves_of_named {t : NamedType} {required : Bool} {l : Literal} {v : Coerced}
    (hl : l.isProper = true) (hlist : l.isList = false) (hv : v.leaves = [v])
    (h : coerceLiteral s lookup room (.named t false) l = .ok v) :
    List.Forall₂ (LeafGives Literal.isNull
      (coerceLiteral s lookup (room - (SchemaType.named t required).listLayers) (.named t false)))
      l.leaves v.leaves := by
  rw [Literal.leaves_of_isList hlist, hv]
  exact .cons (.of_read (Literal.isNull_eq_false hl) h) .nil

/-- **A literal gives its leaves**, each read by the named type. -/
theorem leaves_of_coerceLiteral {t : SchemaType} {l : Literal} {v : Coerced}
    (hconst : l.variableNames = []) (h : coerceLiteral s lookup room t l = .ok v) :
    List.Forall₂ (LeafGives Literal.isNull
      (coerceLiteral s lookup (room - t.listLayers) (.named t.namedType false)))
      l.leaves v.leaves := by
  induction room generalizing t l v with
  | zero => cases h
  | succ room ih =>
      cases coerceLiteral_cases h with
      | isVariable _ _ => cases hconst
      | isNull _ => exact .cons rfl .nil
      | @scalar k _ _ _ hproper hread =>
          have hlist : l.isList = false := by
            cases l with
            | list items =>
                obtain ⟨_, _, kind⟩ := k
                cases kind <;> cases hread
            | _ => rfl
          have hv := ScalarKind.leaves_of_admits (ScalarKind.admits_of_ofLiteral? hproper hread)
          exact leaves_of_named hproper hlist hv (LiteralStep.scalar hproper hread).eq_ok
      | enum hdeclared => exact leaves_of_named rfl rfl rfl (LiteralStep.enum hdeclared).eq_ok
      | object hread =>
          have hv := InputObjectType.leaves_of_assemble hread
          exact leaves_of_named rfl rfl hv (LiteralStep.object hread).eq_ok
      | @single of _ _ w _ hread _ =>
          rw [Coerced.leaves_singleton, listLayers, Nat.add_sub_add_right]
          exact ih hconst hread
      | @items of _ items values _ hread =>
          rw [Literal.leaves, Literal.leavesOfItems_eq, Coerced.leaves_list, listLayers,
            Nat.add_sub_add_right]
          refine leaves_of_items (mapM_eq_ok_iff.1 hread) fun item hitem w hw => ?_
          exact ih (Literal.constant_of_mem hconst hitem) hw

end Literals

section RawValues

variable {s : Schema} {room : Nat}

/-- **A raw value gives its leaves**, each read by the named type. -/
theorem leaves_of_coerceRaw {t : SchemaType} {raw : Raw} {v : Coerced}
    (h : coerceRaw s room t raw = .ok v) :
    List.Forall₂ (LeafGives Raw.isNull
      (coerceRaw s (room - t.listLayers) (.named t.namedType false))) raw.leaves v.leaves := by
  induction room generalizing t raw v with
  | zero => cases h
  | succ room ih =>
      cases coerceRaw_cases h with
      | isNull _ => exact .cons rfl .nil
      | @scalar k required _ _ hnull hread =>
          have hraw : raw.leaves = [raw] := by
            cases raw with
            | list items =>
                obtain ⟨_, _, kind⟩ := k
                cases kind <;> cases hread
            | _ => rfl
          rw [hraw, ScalarKind.leaves_of_admits (ScalarKind.admits_of_ofRaw? hnull hread)]
          refine .cons (.of_read hnull ?_) .nil
          have hnamed : coerceRaw s (room + 1) (.named (.scalar k) false) raw = k.ofRaw raw := by
            cases raw <;> rfl
          exact hnamed.trans (orMismatch_eq_ok.2 hread)
      | enum hdeclared =>
          refine .cons (.of_read rfl ?_) .nil
          exact orMismatch_eq_ok.2 (EnumType.value?_eq_some.2 ⟨hdeclared, rfl⟩)
      | @object o required entries _ hroom hread =>
          rw [InputObjectType.leaves_of_assemble hread]
          refine .cons (.of_read rfl ?_) .nil
          exact (coerceRaw_object o false entries hroom).trans hread
      | @items of _ items values hread =>
          rw [Raw.leaves, Raw.leavesOfItems_eq, Coerced.leaves_list, listLayers,
            Nat.add_sub_add_right]
          exact leaves_of_items (mapM_eq_ok_iff.1 hread) fun item _ w hw => ih hw
      | single _ hread =>
          rw [Coerced.leaves_singleton, listLayers, Nat.add_sub_add_right]
          exact ih hread

end RawValues

/-! ## 3. Whole values -/

namespace Schema

/-- How many levels are left at a depth. -/
def levelsAt (s : Schema) (depth : Nat) : Nat := s.limits.levels - depth

/-- **The leaves of a value are those of what it was read from**: as many, in the same order, null
    for null and otherwise what the named type gives at the depth of all lists of the type. So it is
    for literals without variables and for raw values. -/
theorem leaves_coerced (s : Schema) (t : SchemaType) :
    (∀ (bound : Option Resolver) (l : Literal) (v : Coerced), l.variableNames = [] →
      (Repository.mk s bound).coerce t l = .ok v →
        l.leaves.length = v.leaves.length ∧
        List.Forall₂ (LeafGives Literal.isNull
          (SchemaType.coerceLiteral s (Repository.mk s bound).lookup (s.levelsAt t.listLayers)
            (.named t.namedType false))) l.leaves v.leaves) ∧
    ∀ (raw : Raw) (v : Coerced), s.coerceRaw t raw = .ok v →
      raw.leaves.length = v.leaves.length ∧
      List.Forall₂ (LeafGives Raw.isNull
        (SchemaType.coerceRaw s (s.levelsAt t.listLayers) (.named t.namedType false)))
        raw.leaves v.leaves := by
  refine ⟨fun bound l v hconst h => ?_, fun raw v h => ?_⟩
  · have hleaves := leaves_of_coerceLiteral hconst h
    exact ⟨hleaves.length_eq, hleaves⟩
  · have hleaves := leaves_of_coerceRaw h
    exact ⟨hleaves.length_eq, hleaves⟩

/-- Three integers and null at a list of lists: one becomes a list of its own, and so does what the
    literal has in brackets already. Two more brackets are put around a point. -/
theorem leaves_coerced_points :
    let t : SchemaType := .list (.list (.named (.scalar .int) false) false) false
    let l : Literal := .list [.int 1, .list [.int 2, .null], .list []]
    let v : Coerced := .list [.list [.int 1], .list [.int 2, .null], .list []]
    let u : SchemaType := .list (.list (.named (.inputObject point) false) false) false
    let raw : Raw := .object [("x", .int 7)]
    let w : Coerced := .list [.list [.object "Point" (.dynamic [("x", .int 7)])]]
    (Repository.mk points none).coerce t l = .ok v ∧
      l.leaves = [.int 1, .int 2, .null] ∧ v.leaves = [.int 1, .int 2, .null] ∧
      l.leaves.length = v.leaves.length ∧
      points.coerceRaw u raw = .ok w ∧ raw.leaves.length = w.leaves.length := by
  intro t l v u raw w
  have hread : (Repository.mk points none).coerce t l = .ok v := rfl
  have hread' : points.coerceRaw u raw = .ok w := rfl
  exact ⟨hread, rfl, rfl, ((leaves_coerced points t).1 none l v rfl hread).1, hread',
    ((leaves_coerced points u).2 raw w hread').1⟩

end Schema

end TypedQuery
