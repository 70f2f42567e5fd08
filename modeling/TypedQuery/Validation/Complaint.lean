import TypedQuery.Syntax.Document

/-!
# Complaints

What validation says against a document. A complaint is a cause, with what its wording needs; the
wording itself is in `Complaint.message`.
-/

namespace TypedQuery

/-- A node of a document, by its kind and place. -/
structure NodeReference where
  kind : NodeKind
  position : Position
deriving Repr, DecidableEq

/-- What is wrong with a document. -/
inductive Complaint
  /-- A selection is made on a field whose type has no fields. -/
  | leafWithSubselection (field type : String) (selectionSet : Position)
  /-- A field whose type has fields is selected without a selection on it. -/
  | compositeRequiresSubselection (field type : String) (position : Position)
  /-- The type has no field of the name. -/
  | unknownField (field type : String) (position : Position)
deriving Repr, DecidableEq

namespace Complaint

/-- The complaint in words. -/
def message : Complaint → String
  | .leafWithSubselection field type _ =>
    s!"Field \"{field}\" must not have a selection since type \"{type}\" has no subfields."
  | .compositeRequiresSubselection field type _ =>
    s!"Field \"{field}\" of type \"{type}\" must have a selection of subfields. " ++
      s!"Did you mean \"{field} \x7b ... \x7d\"?"
  | .unknownField field type _ => s!"Cannot query field \"{field}\" on type \"{type}\"."

/-- The name of the kind of complaint. -/
def kindName : Complaint → String
  | .leafWithSubselection .. => "LeafWithSubselection"
  | .compositeRequiresSubselection .. => "CompositeRequiresSubselection"
  | .unknownField .. => "UnknownField"

/-- The nodes that the complaint is about. -/
def nodes : Complaint → List NodeReference
  | .leafWithSubselection _ _ position => [⟨.selectionSet, position⟩]
  | .compositeRequiresSubselection _ _ position => [⟨.field, position⟩]
  | .unknownField _ _ position => [⟨.field, position⟩]

/-- The places of those nodes. -/
def locations (c : Complaint) : List Position := c.nodes.map (·.position)

end Complaint

end TypedQuery
