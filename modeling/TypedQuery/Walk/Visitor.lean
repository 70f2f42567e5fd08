import TypedQuery.Error
import TypedQuery.Walk.Context

/-!
# Visitors

What a walk shows to the one who asked for it: each node twice, on entering and on leaving,
together with the place in the schema. A `Visitor` folds what it is shown into a state of its own;
the place it can only read.

`Visitor.recorder` keeps everything that it is shown.
-/

namespace TypedQuery

/-- The two moments at which a node is shown. -/
inductive Phase
  | enter
  | leave
deriving Repr, DecidableEq

/-- A node that is shown. -/
inductive Node
  | document (d : Document)
  | operation (o : Operation)
  | fragment (f : Fragment)
  | variableDefinition (v : VariableDefinition)
  | directive (d : Directive)
  | argument (a : Argument)
  | selectionSet (s : SelectionSet)
  | field (f : Field)
  | spread (s : FragmentSpread)
  | inlineFragment (i : InlineFragment)
  | nullValue
  | scalarValue (l : Literal)
  | enumValue (name : String)
  | listValue (items : List Literal)
  | objectValue (entries : List (String × Literal))
  | objectField (key : String) (value : Literal)
  | variableValue (name : String)

/-- The name of what a node is. -/
def Node.name : Node → String
  | .document _ => "document"
  | .operation _ => "operation_definition"
  | .fragment _ => "fragment_definition"
  | .variableDefinition _ => "variable_definition"
  | .directive _ => "directive"
  | .argument _ => "argument"
  | .selectionSet _ => "selection_set"
  | .field _ => "field"
  | .spread _ => "fragment_spread"
  | .inlineFragment _ => "inline_fragment"
  | .nullValue => "null_value"
  | .scalarValue _ => "scalar_value"
  | .enumValue _ => "enum_value"
  | .listValue _ => "list_value"
  | .objectValue _ => "object_value"
  | .objectField .. => "object_field"
  | .variableValue _ => "variable_value"

/-- What is done with each node. -/
abbrev Visitor (σ : Type) := Phase → Node → Context → σ → σ

/-- One showing of a node. -/
structure Event where
  phase : Phase
  node : Node
  context : Context

/-- Keeps all showings, in order. -/
def Visitor.recorder : Visitor (List Event) := fun phase node context events =>
  events ++ [⟨phase, node, context⟩]

/-- A walk on its way: the place, and the visitor's state. -/
structure Walker (σ : Type) where
  context : Context
  state : σ

namespace Walker

variable {σ : Type}

/-- Changes the place. -/
def move (w : Walker σ) (change : Context → Context) : Walker σ :=
  { w with context := change w.context }

/-- Shows a node. -/
def call (v : Visitor σ) (phase : Phase) (node : Node) (w : Walker σ) : Walker σ :=
  { w with state := v phase node w.context w.state }

/-- Shows a node, does what is inside, and shows it again. -/
def around (v : Visitor σ) (node : Node) (inside : Walker σ → Walker σ) (w : Walker σ) :
    Walker σ :=
  (inside (w.call v .enter node)).call v .leave node

/-- Does what is inside an input value of a type. -/
def within (t : Option SchemaType) (inside : Walker σ → Walker σ) (w : Walker σ) : Walker σ :=
  (inside (w.move (·.pushInput t))).move (·.popInput)

@[simp] theorem context_move (w : Walker σ) (change : Context → Context) :
    (w.move change).context = change w.context := rfl

@[simp] theorem state_move (w : Walker σ) (change : Context → Context) :
    (w.move change).state = w.state := rfl

@[simp] theorem context_call (v : Visitor σ) (phase : Phase) (node : Node) (w : Walker σ) :
    (w.call v phase node).context = w.context := rfl

@[simp] theorem state_call (v : Visitor σ) (phase : Phase) (node : Node) (w : Walker σ) :
    (w.call v phase node).state = v phase node w.context w.state := rfl

end Walker

/-- How a walk ended: where it left the walker, and what broke it off. -/
structure Outcome (σ : Type) where
  walker : Walker σ
  error : Option ResolutionError

namespace Outcome

variable {σ : Type}

/-- The walk went through. -/
def done (w : Walker σ) : Outcome σ := ⟨w, none⟩

/-- The walk is broken off. -/
def broken (w : Walker σ) (e : ResolutionError) : Outcome σ := ⟨w, some e⟩

/-- Goes on, unless the walk is broken off. -/
def andThen (o : Outcome σ) (next : Walker σ → Outcome σ) : Outcome σ :=
  match o.error with
  | none => next o.walker
  | some _ => o

/-- Changes the place, however the walk ended. -/
def move (o : Outcome σ) (change : Context → Context) : Outcome σ :=
  { o with walker := o.walker.move change }

/-- Shows a node, unless the walk is broken off. -/
def leave (o : Outcome σ) (v : Visitor σ) (node : Node) : Outcome σ :=
  o.andThen fun w => done (w.call v .leave node)

@[simp] theorem andThen_done (w : Walker σ) (next : Walker σ → Outcome σ) :
    (done w).andThen next = next w := rfl

@[simp] theorem andThen_broken (w : Walker σ) (e : ResolutionError)
    (next : Walker σ → Outcome σ) : (broken w e).andThen next = broken w e := rfl

@[simp] theorem walker_move (o : Outcome σ) (change : Context → Context) :
    (o.move change).walker = o.walker.move change := rfl

@[simp] theorem error_move (o : Outcome σ) (change : Context → Context) :
    (o.move change).error = o.error := rfl

end Outcome

end TypedQuery
