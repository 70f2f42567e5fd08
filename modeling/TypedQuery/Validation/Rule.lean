import TypedQuery.Validation.Complaint
import TypedQuery.Walk.Document

/-!
# Rules of validation

A rule is a visitor that collects complaints. A document is validated rule by rule, each in a walk
of its own; the complaints of an earlier rule come first. A walk that is broken off breaks the
validation off, whatever was collected.

**Main definitions**: `Rule.leafFieldSelections`, `Rule.fieldsOnCorrectType`,
`Document.validate`.
-/

namespace TypedQuery

/-- A rule with its name. -/
structure Rule where
  name : String
  visitor : Visitor (List Complaint)

namespace Rule

/-- What is wrong with the selection on a field of a known type. -/
def selectionComplaint? (f : Field) (t : SchemaType) : Option Complaint :=
  match f.selectionSet with
  | some s =>
    if t.isLeaf && !s.isEmpty then some (.leafWithSubselection f.name t.text s.position) else none
  | none =>
    if t.isLeaf then none else some (.compositeRequiresSubselection f.name t.text f.position)

/-- **Fields of leaf types have no selection, all others have one.** A field of unknown type is
    left to the other rule. -/
def leafFieldSelections : Rule where
  name := "LeafFieldSelections"
  visitor
    | .leave, .field f, c, complaints =>
      match c.currentType.bind (selectionComplaint? f) with
      | some complaint => complaints ++ [complaint]
      | none => complaints
    | _, _, _, complaints => complaints

/-- What is wrong with the choice of a field, seen from inside the field. -/
def fieldComplaint? (f : Field) (c : Context) : Option Complaint :=
  if f.name == "__typename" || c.currentField.isSome then none
  else
    match c.parentType with
    | some parent =>
      if parent.isLeaf then none
      else some (.unknownField f.name parent.namedType.name f.position)
    | none => none

/-- **A selected field is one of its type.** Types without fields are left to the other rule. -/
def fieldsOnCorrectType : Rule where
  name := "FieldsOnCorrectType"
  visitor
    | .enter, .field f, c, complaints =>
      match fieldComplaint? f c with
      | some complaint => complaints ++ [complaint]
      | none => complaints
    | _, _, _, complaints => complaints

/-- The rules that count unless others are asked for. -/
def defaults : List Rule := [leafFieldSelections, fieldsOnCorrectType]

/-- The rule of a name. -/
def ofName? (name : String) : Option Rule := defaults.find? fun rule => rule.name == name

/-- Runs rules one after another; each goes on where the one before left the walk. -/
def run (d : Document) : List Rule → Walker (List Complaint) → Outcome (List Complaint)
  | [], w => .done w
  | rule :: rest, w => (d.walk rule.visitor w).andThen (run d rest)

end Rule

/-- **Validates a document**: all complaints of all rules, or what broke a walk off. -/
def Document.validate (d : Document) (s : Schema) (rules : List Rule) :
    Except ResolutionError (List Complaint) :=
  let outcome := Rule.run d rules ⟨Context.start s d, []⟩
  match outcome.error with
  | none => .ok outcome.walker.state
  | some e => .error e

end TypedQuery
