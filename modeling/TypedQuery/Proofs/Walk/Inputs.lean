import TypedQuery.Proofs.Coercion.Paths
import TypedQuery.Proofs.Walk.Trace

/-!
# Input values as a walk enters them

A walk goes down into a literal by rules of its own; coercion tries what may be the only member of a
list first. They agree on the named type of every part.

* `valuesEntered` -- the values among events, as they are entered;
* `Walker.literal_enters` -- **a walk enters all parts of a literal** in the order of the text, each
  at the type of its position;
* `Event.EntersAsRead` -- a part is entered at a type of the named type at which coercion reads it;
* `Repository.walk_agrees` -- **so it is with every part of a literal that has a value**, as far as
  keys are declared.
-/

namespace TypedQuery

/-! ## 1. The values that are entered -/

/-- The node under which a literal is shown. -/
def Literal.node : Literal → Node
  | .null => .nullValue
  | .enum name => .enumValue name
  | .variable name => .variableValue name
  | .list items => .listValue items
  | .object entries => .objectValue entries
  | .int n => .scalarValue (.int n)
  | .float x => .scalarValue (.float x)
  | .string s => .scalarValue (.string s)
  | .boolean b => .scalarValue (.boolean b)

/-- Whether a node is a literal. -/
def Node.isValue : Node → Bool
  | .nullValue | .scalarValue _ | .enumValue _ | .listValue _ | .objectValue _
  | .variableValue _ => true
  | _ => false

/-- **The values among events**, as they are entered. -/
def valuesEntered (events : List Event) : List Event :=
  events.filter fun e => e.phase = .enter && e.node.isValue

theorem valuesEntered_append (first second : List Event) :
    valuesEntered (first ++ second) = valuesEntered first ++ valuesEntered second :=
  List.filter_append ..

theorem Literal.isValue_node (l : Literal) : l.node.isValue = true := by
  cases l <;> rfl

/-- A literal is entered before the parts inside it. -/
theorem valuesEntered_around_node (c : Context) (l : Literal) (inside : List Event) :
    valuesEntered (Event.around c l.node inside) =
      ⟨.enter, l.node, c⟩ :: valuesEntered inside := by
  simp [valuesEntered, Event.around, l.isValue_node]

/-- Another node shows the values inside it alone. -/
theorem valuesEntered_around {c : Context} {node : Node} (h : node.isValue = false)
    (inside : List Event) : valuesEntered (Event.around c node inside) = valuesEntered inside := by
  simp [valuesEntered, Event.around, h]

/-- A part is entered at the type of its position. -/
def Event.EntersAt (s : Schema) (t : Option SchemaType) (part : List Turn × Literal) (e : Event) :
    Prop :=
  e.node = part.2.node ∧ e.context.currentInput = s.positionAt t part.1

theorem Context.entryType_eq (c : Context) (key : String) :
    c.entryType key = c.currentInput.bind (c.schema.entryType · key) := by
  unfold entryType
  cases c.currentInput with
  | none => rfl
  | some t =>
      show _ = c.schema.entryType t key
      unfold Schema.entryType
      rw [Option.map_some]
      cases t.namedType <;> rfl

section

variable {s : Schema} {t : Option SchemaType} {events : List Event}

/-- Parts behind a turn are entered at the positions behind it. -/
theorem enters_behind {turn : Turn} {parts : List (List Turn × Literal)}
    (h : List.Forall₂ (Event.EntersAt s (s.positionAt t [turn])) parts events) :
    List.Forall₂ (Event.EntersAt s t) (parts.map (Literal.behind turn)) events := by
  rw [List.forall₂_map_left_iff]
  refine h.imp fun part e he => ⟨he.1, he.2.trans ?_⟩
  cases turn <;> rfl

/-- A literal is entered, and then the parts inside it. -/
theorem enters_node {c : Context} {l : Literal} {inside : List Event}
    (h : List.Forall₂ (Event.EntersAt c.schema c.currentInput) l.inside (valuesEntered inside)) :
    List.Forall₂ (Event.EntersAt c.schema c.currentInput) l.parts
      (valuesEntered (Event.around c l.node inside)) := by
  rw [valuesEntered_around_node]
  exact .cons ⟨rfl, rfl⟩ h

end

mutual

theorem Literal.enters : ∀ (l : Literal) (c : Context),
    List.Forall₂ (Event.EntersAt c.schema c.currentInput) l.parts (valuesEntered (l.events c))
  | .list items, c => by
      rw [Literal.events]
      refine enters_node (l := .list items) ?_
      exact enters_items items 0 (c.pushInput c.itemType) rfl
  | .object entries, c => by
      rw [Literal.events]
      exact enters_node (l := .object entries) (enters_entries entries c)
  | .null, _ => enters_node (l := .null) .nil
  | .enum name, _ => enters_node (l := .enum name) .nil
  | .variable name, _ => enters_node (l := .variable name) .nil
  | .int n, _ => enters_node (l := .int n) .nil
  | .float x, _ => enters_node (l := .float x) .nil
  | .string s, _ => enters_node (l := .string s) .nil
  | .boolean b, _ => enters_node (l := .boolean b) .nil

theorem enters_items : ∀ (items : List Literal) (i : Nat) (c : Context) {t : Option SchemaType},
    c.currentInput = t.bind SchemaType.member? →
    List.Forall₂ (Event.EntersAt c.schema t) (Literal.insideOfItems i items)
      (valuesEntered (Literal.eventsOfItems c items))
  | [], _, _, _, _ => .nil
  | item :: rest, i, c, t, ht => by
      rw [Literal.insideOfItems_cons, Literal.eventsOfItems, valuesEntered_append]
      refine List.rel_append (enters_behind ?_) (enters_items rest (i + 1) c ht)
      have hposition : c.schema.positionAt t [.item i] = c.currentInput := ht.symm
      rw [hposition]
      exact Literal.enters item c

theorem enters_entries : ∀ (entries : List (String × Literal)) (c : Context),
    List.Forall₂ (Event.EntersAt c.schema c.currentInput) (Literal.insideOfEntries entries)
      (valuesEntered (Literal.eventsOfEntries c entries))
  | [], _ => .nil
  | (key, value) :: rest, c => by
      rw [Literal.insideOfEntries_cons, Literal.eventsOfEntries, valuesEntered_append,
        valuesEntered_around rfl]
      refine List.rel_append (enters_behind ?_) (enters_entries rest c)
      have hposition : c.schema.positionAt c.currentInput [.key key] = c.entryType key :=
        (c.entryType_eq key).symm
      rw [hposition]
      exact Literal.enters value (c.pushInput (c.entryType key))

end

/-- **A walk enters all parts of a literal** in the order of the text, each at the type of its
    position. -/
theorem Walker.literal_enters (l : Literal) (c : Context) :
    List.Forall₂ (Event.EntersAt c.schema c.currentInput) l.parts
      (valuesEntered (Walker.literal Visitor.recorder l ⟨c, []⟩).state) := by
  rw [Walker.literal_eq]
  show List.Forall₂ _ _ (valuesEntered (Visitor.recorder.replay (l.events c) []))
  rw [Visitor.replay_recorder, List.nil_append]
  exact l.enters c

/-! ## 2. Agreement with coercion -/

/-- **A part is entered as it is read**, when coercion starts with a reading: the walk shows the part
    at a type that is known, and if every key on the way is declared, coercion reads the part too.
    All that it reads there is this part, has a value, and is at a type of the same named type. -/
structure Event.EntersAsRead (s : Schema) (lookup : VariableLookup) (start : Reading)
    (part : List Turn × Literal) (e : Event) : Prop where
  node : e.node = part.2.node
  known : (∃ m, s.Declares start.type.namedType part.1 m) →
    ∃ w q, e.context.currentInput = some w ∧ start.LeadsTo s lookup part.1 q
  agrees : ∀ q, start.LeadsTo s lookup part.1 q →
    q.literal = part.2 ∧ (∃ value, q.outcome s lookup = .ok value) ∧
      ∃ w, e.context.currentInput = some w ∧ w.namedType = q.type.namedType

/-- **A walk and coercion agree on input types**: of a literal without repeated keys that has a value
    at a type, every part that declared keys lead to is entered at a known type, and its named type
    is the one at which coercion reads the part. -/
theorem Repository.walk_agrees {s : Schema} (hs : s.Built) {t : SchemaType} (ht : s.Knows t)
    {l : Literal} (hdistinct : l.DistinctKeys) {bound : Option Resolver} {v : Coerced}
    (h : (Repository.mk s bound).coerce t l = .ok v) {c : Context} (hschema : c.schema = s)
    (hinput : c.currentInput = some t) :
    List.Forall₂
      (Event.EntersAsRead s (Repository.mk s bound).lookup ⟨s.limits.levels, t, l⟩) l.parts
      (valuesEntered (Walker.literal Visitor.recorder l ⟨c, []⟩).state) := by
  have henters := Walker.literal_enters l c
  rw [hschema, hinput] at henters
  have hat : ∀ part ∈ l.parts, l.At part.1 part.2 :=
    fun part hpart => Literal.at_of_mem_parts hdistinct hpart
  refine ((List.forall₂_and_left _ _).2 ⟨hat, henters⟩).imp ?_
  rintro ⟨way, x⟩ e ⟨hat, hnode, htype⟩
  have harrives : ∀ {m}, s.Declares t.namedType way m →
      Reading.Arrives s (Repository.mk s bound).lookup ⟨s.limits.levels, t, l⟩ t way m :=
    fun hdeclares => coerceLiteral_arrives hs ht .refl h hat hdeclares
  constructor
  case node => exact hnode
  case known =>
    rintro ⟨m, hdeclares⟩
    obtain ⟨⟨w, hw, -⟩, q, hq⟩ := harrives hdeclares
    exact ⟨w, q, htype.trans hw, hq⟩
  case agrees =>
    intro q hq
    obtain ⟨⟨w, hw, hm⟩, -⟩ := harrives hq.declares
    exact ⟨hq.literal_at.unique hat, hq.visits.eq_ok h, w, htype.trans hw, hm⟩

/-- A list of one point at a type of lists of points: the walk enters the point at a type with one
    list more than coercion reads it at. -/
theorem Repository.walk_agrees_points :
    let s := Schema.points
    let r : Resolver :=
      ⟨s, Table.ofList [("n", .int 3)], [⟨⟨0, 0⟩, "n", .named "Int", none⟩]⟩
    let t : SchemaType := .list (.list (.named (.inputObject Schema.point) false) false) false
    let l : Literal := .list [.object [("x", .variable "n"), ("tags", .string "a")]]
    let c := (Context.start s ⟨[]⟩).pushInput (some t)
    List.Forall₂
      (Event.EntersAsRead s (Repository.mk s (some r)).lookup ⟨s.limits.levels, t, l⟩) l.parts
      (valuesEntered (Walker.literal Visitor.recorder l ⟨c, []⟩).state) := by
  intro s r t l c
  have hdistinct : l.DistinctKeys := ⟨⟨by decide, trivial, trivial, trivial⟩, trivial⟩
  have hvalue : ∃ v, (Repository.mk s (some r)).coerce t l = .ok v := ⟨_, rfl⟩
  obtain ⟨v, hv⟩ := hvalue
  exact walk_agrees Schema.built_points ⟨"Point", rfl⟩ hdistinct hv rfl rfl

end TypedQuery
