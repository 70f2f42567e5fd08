import TypedQuery.Schema.Meta

/-!
# The place of a walk in the schema

While a document is walked through, a `Context` tells where the walk is: the types of the
enclosing selections, the types of the enclosing input values and the enclosing fields, each as a
stack with the innermost entry first, the directive around the current node, and how many
selection sets are open. An entry is `none` where the schema knows nothing of the node.

Every change has its inverse: `popType_pushType`, `popField_pushField`, `popInput_pushInput`,
`withDirective_withDirective`, `closeSelection_openSelection`.
-/

namespace TypedQuery

/-- Where a walk is. -/
structure Context where
  schema : Schema
  document : Document
  /-- The types of the enclosing selections. -/
  types : List (Option SchemaType)
  /-- The types of the enclosing input values. -/
  inputs : List (Option SchemaType)
  /-- The enclosing fields. -/
  fields : List (Option FieldType)
  /-- The directive around the current node. -/
  directive : Option Directive
  /-- How many selection sets are open. -/
  depth : Nat

namespace Context

/-- The place before a document. -/
def start (schema : Schema) (document : Document) : Context where
  schema := schema
  document := document
  types := []
  inputs := []
  fields := []
  directive := none
  depth := 0

/-! ## 1. Views -/

/-- The type of the innermost selection. -/
def currentType (c : Context) : Option SchemaType := c.types.head?.join

/-- The type around the innermost one. -/
def parentType (c : Context) : Option SchemaType := c.types[1]?.join

/-- The type of the innermost input value. -/
def currentInput (c : Context) : Option SchemaType := c.inputs.head?.join

/-- The innermost field. -/
def currentField (c : Context) : Option FieldType := c.fields.head?.join

/-- How many types enclose the node. -/
def typeDepth (c : Context) : Nat := c.types.length

/-- How many fields enclose the node. -/
def fieldDepth (c : Context) : Nat := c.fields.length

/-- The field of a name on the innermost type. -/
def selectedField (c : Context) (name : String) : Option FieldType :=
  c.currentType.bind fun t => c.schema.field? t name

/-- The type inside a fragment: that of its type condition; without one the type stays. -/
def narrowedType (c : Context) : Option String → Option SchemaType
  | some name => (c.schema.named? .output name).map (.named · false)
  | none => c.currentType

/-- The type of a field's values. The types for output go first. -/
def fieldType (c : Context) (f : FieldType) : Option SchemaType :=
  (c.schema.resolve .output f.type).or (c.schema.resolve .input f.type)

/-- The declaration of an argument: of the directive around the node if there is one, otherwise
    of the innermost field. -/
def argument? (c : Context) (name : String) : Option ArgumentType :=
  match c.directive with
  | some d => (c.schema.directives.find? d.name).bind fun t => t.arguments.find? name
  | none => c.currentField.bind fun f => f.argument? name

/-- **The type of an argument.** -/
def argumentType (c : Context) (name : String) : Option SchemaType :=
  (c.argument? name).bind fun a => c.schema.resolve .input a.type

/-- The type of the items of the innermost input value, if it is a list. -/
def itemType (c : Context) : Option SchemaType := c.currentInput.bind SchemaType.member?

/-- The type of an entry of the innermost input value, lists looked through. -/
def entryType (c : Context) (key : String) : Option SchemaType :=
  match c.currentInput.map SchemaType.namedType with
  | some (.inputObject o) => (o.field? key).bind fun f => c.schema.resolve .input f.type
  | _ => none

/-! ## 2. Changes -/

/-- Goes into a selection of a type. -/
def pushType (c : Context) (t : Option SchemaType) : Context := { c with types := t :: c.types }

/-- Leaves the innermost selection. -/
def popType (c : Context) : Context := { c with types := c.types.tail }

/-- Goes into a field and the selection on its type. -/
def pushField (c : Context) (f : Option FieldType) (t : Option SchemaType) : Context :=
  { c with fields := f :: c.fields, types := t :: c.types }

/-- Leaves the innermost field. -/
def popField (c : Context) : Context :=
  { c with fields := c.fields.tail, types := c.types.tail }

/-- Goes into an input value of a type. -/
def pushInput (c : Context) (t : Option SchemaType) : Context :=
  { c with inputs := t :: c.inputs }

/-- Leaves the innermost input value. -/
def popInput (c : Context) : Context := { c with inputs := c.inputs.tail }

/-- Puts a directive around the node, or none. -/
def withDirective (c : Context) (d : Option Directive) : Context := { c with directive := d }

/-- Opens a selection set. -/
def openSelection (c : Context) : Context := { c with depth := c.depth + 1 }

/-- Closes the innermost selection set. -/
def closeSelection (c : Context) : Context := { c with depth := c.depth - 1 }

@[simp] theorem popType_pushType (c : Context) (t : Option SchemaType) :
    (c.pushType t).popType = c := rfl

@[simp] theorem popField_pushField (c : Context) (f : Option FieldType) (t : Option SchemaType) :
    (c.pushField f t).popField = c := rfl

@[simp] theorem popInput_pushInput (c : Context) (t : Option SchemaType) :
    (c.pushInput t).popInput = c := rfl

@[simp] theorem withDirective_withDirective (c : Context) (d : Option Directive) :
    (c.withDirective d).withDirective c.directive = c := rfl

@[simp] theorem closeSelection_openSelection (c : Context) :
    c.openSelection.closeSelection = c := rfl

@[simp] theorem currentType_pushType (c : Context) (t : Option SchemaType) :
    (c.pushType t).currentType = t := rfl

@[simp] theorem currentType_pushField (c : Context) (f : Option FieldType)
    (t : Option SchemaType) : (c.pushField f t).currentType = t := rfl

@[simp] theorem currentField_pushField (c : Context) (f : Option FieldType)
    (t : Option SchemaType) : (c.pushField f t).currentField = f := rfl

@[simp] theorem currentInput_pushInput (c : Context) (t : Option SchemaType) :
    (c.pushInput t).currentInput = t := rfl

/-- The type around a pushed one is the type before. -/
@[simp] theorem parentType_pushField (c : Context) (f : Option FieldType)
    (t : Option SchemaType) : (c.pushField f t).parentType = c.currentType := by
  cases h : c.types <;> simp [parentType, currentType, pushField, h]

end Context

end TypedQuery
