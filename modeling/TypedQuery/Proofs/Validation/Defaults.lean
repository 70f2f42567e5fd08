import TypedQuery.Proofs.Schema.Built
import TypedQuery.Proofs.Walk.Fields
import TypedQuery.Validation.Rule

/-!
# What the default rules complain about

The default rules look at a document through two walks. Here their complaints are read off the
document itself: each rule has a fault for a field, and the complaints are the faults of all fields
in one order.

* `Sighting.selectionFault?` -- a field of a leaf type with a selection on it, or one of another
  type without; `Sighting.unknownFault?` -- a field that its enclosing type does not have;
* `Visitor.Reports` -- a visitor that appends what it reports, event by event;
* `Document.validate_defaults` -- **the default rules report exactly these faults**: the selection
  faults in the order in which fields are left, then the unknown fields in the order in which they
  are entered.
-/

namespace TypedQuery

/-! ## 1. Faults of a field -/

namespace Sighting

/-- What is wrong with the selection on a field of known type: a leaf type has a selection that
    is not empty, or another type has no selection set. -/
def selectionFault? (x : Sighting) : Option Complaint :=
  match x.type, x.field.selectionSet with
  | some t, some s =>
    if t.isLeaf = true ∧ s.isEmpty = false
    then some (.leafWithSubselection x.field.name t.text s.position) else none
  | some t, none =>
    if t.isLeaf = false
    then some (.compositeRequiresSubselection x.field.name t.text x.field.position) else none
  | none, _ => none

/-- A field other than `__typename` that its enclosing type, known and no leaf, does not have. -/
def unknownFault? (x : Sighting) : Option Complaint :=
  match x.enclosing with
  | some t =>
    if x.field.name ≠ "__typename" ∧ x.descriptor = none ∧ t.isLeaf = false
    then some (.unknownField x.field.name t.namedType.name x.field.position) else none
  | none => none

end Sighting

/-! ## 2. Visitors that report -/

/-- A visitor that appends what it reports of each event. -/
def Visitor.Reports (v : Visitor (List Complaint)) (report : Event → Option Complaint) : Prop :=
  ∀ phase node c complaints,
    v phase node c complaints = complaints ++ (report ⟨phase, node, c⟩).toList

/-- All reports, in the order of the events. -/
theorem Visitor.Reports.replay {v : Visitor (List Complaint)} {report : Event → Option Complaint}
    (h : v.Reports report) (events : List Event) (complaints : List Complaint) :
    v.replay events complaints = complaints ++ events.filterMap report := by
  induction events generalizing complaints with
  | nil => simp
  | cons e rest ih =>
      show v.replay rest (v e.phase e.node e.context complaints) = _
      rw [ih, h, List.filterMap_cons]
      cases report e <;> simp

namespace Rule

/-- A rule's complaint on a field that is left is its selection fault. -/
theorem selectionComplaint?_eq (x : Sighting) :
    x.type.bind (selectionComplaint? x.field) = x.selectionFault? := by
  unfold Sighting.selectionFault?
  cases x.type with
  | none => rfl
  | some t =>
      show selectionComplaint? x.field t = _
      unfold selectionComplaint?
      cases x.field.selectionSet with
      | none => cases hleaf : t.isLeaf <;> simp [hleaf]
      | some s => cases hleaf : t.isLeaf <;> cases hempty : s.isEmpty <;> simp [hleaf, hempty]

/-- A rule's complaint on a field that is entered is that it is unknown. -/
theorem fieldComplaint?_eq (f : Field) (c : Context) :
    fieldComplaint? f c =
      Sighting.unknownFault? ⟨f, c.parentType, c.currentField, c.currentType⟩ := by
  unfold fieldComplaint? Sighting.unknownFault?
  by_cases hname : f.name = "__typename"
  · cases c.parentType <;> simp [hname]
  · cases c.currentField <;> cases c.parentType with
    | none => simp [hname]
    | some t => cases hleaf : t.isLeaf <;> simp [hname, hleaf]

/-- The first rule reports the selection faults of the fields that are left. -/
theorem reports_leafFieldSelections :
    leafFieldSelections.visitor.Reports fun e => e.sighting?.bind fun p =>
      if p.1 = .leave then p.2.selectionFault? else none := by
  intro phase node c complaints
  cases node with
  | field f =>
      cases phase with
      | enter => exact (List.append_nil complaints).symm
      | leave =>
          let x : Sighting := ⟨f, c.parentType, c.currentField, c.currentType⟩
          show leafFieldSelections.visitor .leave (.field f) c complaints =
            complaints ++ x.selectionFault?.toList
          rw [← selectionComplaint?_eq x]
          dsimp only [leafFieldSelections]
          cases c.currentType.bind (selectionComplaint? f) with
          | none => exact (List.append_nil complaints).symm
          | some complaint => rfl
  | _ => cases phase <;> exact (List.append_nil complaints).symm

/-- The second rule reports the unknown fields that are entered. -/
theorem reports_fieldsOnCorrectType :
    fieldsOnCorrectType.visitor.Reports fun e => e.sighting?.bind fun p =>
      if p.1 = .enter then p.2.unknownFault? else none := by
  intro phase node c complaints
  cases node with
  | field f =>
      cases phase with
      | enter =>
          let x : Sighting := ⟨f, c.parentType, c.currentField, c.currentType⟩
          show fieldsOnCorrectType.visitor .enter (.field f) c complaints =
            complaints ++ x.unknownFault?.toList
          dsimp only [fieldsOnCorrectType]
          rw [← fieldComplaint?_eq f c]
          cases fieldComplaint? f c with
          | none => exact (List.append_nil complaints).symm
          | some complaint => rfl
      | leave => exact (List.append_nil complaints).symm
  | _ => cases phase <;> exact (List.append_nil complaints).symm

end Rule

/-! ## 3. The default rules -/

/-- A walk of a visitor that reports of fields, on a document through which a walk goes. -/
theorem Document.walk_of_reports {d : Document} {c : Context} (hd : (d.trace c).error = none)
    {v : Visitor (List Complaint)} {phase : Phase} {fault : Sighting → Option Complaint}
    (hv : v.Reports fun e => e.sighting?.bind fun p => if p.1 = phase then fault p.2 else none)
    (complaints : List Complaint) :
    d.walk v ⟨c, complaints⟩ = .done ⟨c, complaints ++ ((d.sightings c.schema).filterMap
      fun p => if p.1 = phase then some p.2 else none).filterMap fault⟩ := by
  have hreports : (d.trace c).events.filterMap (fun e => e.sighting?.bind fun p =>
      if p.1 = phase then fault p.2 else none) =
        ((d.sightings c.schema).filterMap
          fun p => if p.1 = phase then some p.2 else none).filterMap fault := by
    rw [← d.trace_shows c hd, sightingsIn, List.filterMap_filterMap, List.filterMap_filterMap]
    refine congrArg (List.filterMap · (d.trace c).events) (funext fun e => ?_)
    cases e.sighting? with
    | none => rfl
    | some p =>
        by_cases hp : p.1 = phase
        · simp [hp]
        · simp [hp]
  rw [Document.walk_eq]
  show Outcome.mk ⟨c, v.replay (d.trace c).events complaints⟩ (d.trace c).error = _
  rw [hd, hv.replay, hreports]
  rfl

/-- **The default rules report exactly these faults** of a document through which some walk goes:
    the selection faults in the order in which fields are left, then the unknown fields in the
    order in which they are entered. -/
theorem Document.validate_defaults {d : Document} {s : Schema} {σ : Type} {v : Visitor σ} {x : σ}
    (h : (d.walk v ⟨Context.start s d, x⟩).error = none) :
    d.validate s Rule.defaults = .ok ((d.fieldsLeft s).filterMap Sighting.selectionFault? ++
      (d.fieldsEntered s).filterMap Sighting.unknownFault?) := by
  have hd : (d.trace (Context.start s d)).error = none := by
    rw [Document.walk_eq] at h
    exact h
  have hfirst := walk_of_reports hd Rule.reports_leafFieldSelections []
  have hsecond := walk_of_reports hd Rule.reports_fieldsOnCorrectType
    ((d.fieldsLeft s).filterMap Sighting.selectionFault?)
  have hrun : Rule.run d Rule.defaults ⟨Context.start s d, []⟩ =
      .done ⟨Context.start s d, (d.fieldsLeft s).filterMap Sighting.selectionFault? ++
        (d.fieldsEntered s).filterMap Sighting.unknownFault?⟩ := by
    show (d.walk Rule.leafFieldSelections.visitor ⟨Context.start s d, []⟩).andThen
      (fun w => (d.walk Rule.fieldsOnCorrectType.visitor w).andThen .done) = _
    rw [hfirst, Outcome.andThen_done, List.nil_append]
    show (d.walk Rule.fieldsOnCorrectType.visitor ⟨Context.start s d,
      (d.fieldsLeft s).filterMap Sighting.selectionFault?⟩).andThen .done = _
    rw [hsecond]
    rfl
  unfold validate
  rw [hrun]
  rfl

/-- A leaf with a selection on it, in which nothing has a known type, and an unknown field. -/
theorem Document.validate_defaults_points :
    let leaf (name : String) (column : Nat) : Selection :=
      .field ⟨⟨1, column⟩, none, name, [], [], none⟩
    let d : Document := ⟨[.operation ⟨⟨1, 1⟩, .query, none, [], [], ⟨⟨1, 1⟩, [
      .field ⟨⟨1, 3⟩, none, "origin", [], [], some ⟨⟨1, 10⟩, [leaf "deep" 12]⟩⟩,
      leaf "nope" 20, leaf "__typename" 25]⟩⟩]⟩
    let v : Visitor Unit := fun _ _ _ state => state
    (d.walk v ⟨Context.start Schema.points d, ()⟩).error = none ∧
      d.validate Schema.points Rule.defaults = .ok [
        .leafWithSubselection "origin" "Boolean" ⟨1, 10⟩, .unknownField "nope" "Query" ⟨1, 20⟩] := by
  intro leaf d v
  have hwalk : (d.walk v ⟨Context.start Schema.points d, ()⟩).error = none := rfl
  exact ⟨hwalk, (validate_defaults hwalk).trans rfl⟩

end TypedQuery
