import Mathlib.Logic.Relation
import TypedQuery.Walk.Document

/-!
# A walk, one step at a time

A walk through a document as the run of a machine. It has a list of jobs and does the first one at
each step: it shows a node, goes into a part of the document, which leaves the jobs inside the part
and behind them the way back, or takes a way back. After the walk is broken off only the ways back
are taken. So every place that the walk passes is the place of a state, also one at which no node
is shown, such as the inside of an empty list.

* `Part.plan` -- where each part of a document goes and what it leaves to be done;
* `Machine.Step` -- **one step**, `Machine.Reaches` -- a run; `Machine.Step.unique` -- no state has
  two successors;
* `Machine.performs_walk` -- **the machine performs the walk**, so `Machine.reaches_walk` -- every
  state that is reached leads to the outcome of the walk;
* `Context.Moves` -- every change of the place; `Machine.Step.moves` -- **a step makes no other**;
* `Machine.Reaches.keeps` -- what every change keeps is kept by a run.
-/

namespace TypedQuery

/-! ## 1. Jobs -/

/-- A part of a document that a walk goes through. -/
inductive Part
  | document (d : Document)
  | definition (d : Definition)
  | selectionSet (s : SelectionSet)
  | selection (s : Selection)
  | directive (d : Directive)
  | argument (a : Argument)
  | variableDefinition (d : VariableDefinition)
  | literal (l : Literal)
  | items (items : List Literal)
  | entry (key : String) (value : Literal)

/-- The way back from a part to the place before it. -/
inductive WayBack
  | type
  | field
  | input
  | selection
  /-- With the directive that was there before. -/
  | directive (before : Option Directive)

/-- Takes a way back. -/
def WayBack.apply : WayBack → Context → Context
  | .type, c => c.popType
  | .field, c => c.popField
  | .input, c => c.popInput
  | .selection, c => c.closeSelection
  | .directive before, c => c.withDirective before

/-- What a walk has still to do. -/
inductive Job
  | call (phase : Phase) (node : Node)
  | visit (p : Part)
  | back (b : WayBack)

/-- Whether a job is done even after the walk is broken off. -/
def Job.isBack : Job → Bool
  | .back _ => true
  | .call .. | .visit _ => false

/-- A node is shown around jobs. -/
def Job.around (node : Node) (inside : List Job) : List Job :=
  .call .enter node :: (inside ++ [.call .leave node])

/-- Parts one after the other. -/
def Job.visits {α : Type} (part : α → Part) (as : List α) : List Job :=
  as.map fun a => .visit (part a)

/-- **Where a part goes and what it leaves to be done**, or why it breaks the walk off. -/
def Part.plan (c : Context) : Part → Except ResolutionError (Context × List Job)
  | .document d => .ok (c, Job.around (.document d) (Job.visits .definition d.definitions))
  | .definition (.operation o) =>
    match c.schema.root? o.kind with
    | none => .error (.unsupportedOperation o.kind.keyword)
    | some root =>
      .ok (c.pushType (some (.named (.composite root) false)),
        Job.around (.operation o)
          (Job.visits .directive o.directives ++ Job.visits .variableDefinition o.variables ++
            [.visit (.selectionSet o.selectionSet)]) ++ [.back .type])
  | .definition (.fragment f) =>
    .ok (c.pushType (c.narrowedType (some f.typeCondition)),
      Job.around (.fragment f)
        (Job.visits .directive f.directives ++ [.visit (.selectionSet f.selectionSet)]) ++
          [.back .type])
  | .selectionSet s =>
    if c.depth ≥ c.schema.limits.maxDepth then
      .error (.depthLimitExceeded c.schema.limits.maxDepth)
    else
      .ok (c.openSelection,
        Job.around (.selectionSet s) (Job.visits .selection s.items) ++ [.back .selection])
  | .selection (.field f) =>
    let found := c.selectedField f.name
    .ok (c.pushField found (found.bind c.fieldType),
      Job.around (.field f)
        (Job.visits .argument f.arguments ++ Job.visits .directive f.directives ++
          Job.visits .selectionSet f.selectionSet.toList) ++ [.back .field])
  | .selection (.spread s) =>
    .ok (c, Job.around (.spread s) (Job.visits .directive s.directives))
  | .selection (.inlineFragment i) =>
    .ok (c.pushType (c.narrowedType i.typeCondition),
      Job.around (.inlineFragment i)
        (Job.visits .directive i.directives ++ [.visit (.selectionSet i.selectionSet)]) ++
          [.back .type])
  | .directive d =>
    .ok (c.withDirective (some d),
      Job.around (.directive d) (Job.visits .argument d.arguments) ++
        [.back (.directive c.directive)])
  | .argument a =>
    .ok (c.pushInput (c.argumentType a.name),
      Job.around (.argument a) [.visit (.literal a.value)] ++ [.back .input])
  | .variableDefinition d =>
    .ok (c.pushInput (c.schema.resolve .input d.type),
      Job.around (.variableDefinition d) (Job.visits .literal d.default.toList) ++
        [.back .input])
  | .literal .null => .ok (c, Job.around .nullValue [])
  | .literal (.enum name) => .ok (c, Job.around (.enumValue name) [])
  | .literal (.variable name) => .ok (c, Job.around (.variableValue name) [])
  | .literal (.int n) => .ok (c, Job.around (.scalarValue (.int n)) [])
  | .literal (.float x) => .ok (c, Job.around (.scalarValue (.float x)) [])
  | .literal (.string s) => .ok (c, Job.around (.scalarValue (.string s)) [])
  | .literal (.boolean b) => .ok (c, Job.around (.scalarValue (.boolean b)) [])
  | .literal (.list ls) => .ok (c, Job.around (.listValue ls) [.visit (.items ls)])
  | .literal (.object members) =>
    .ok (c, Job.around (.objectValue members)
      (Job.visits (fun member => .entry member.1 member.2) members))
  | .items ls => .ok (c.pushInput c.itemType, Job.visits .literal ls ++ [.back .input])
  | .entry key value =>
    .ok (c.pushInput (c.entryType key),
      Job.around (.objectField key value) [.visit (.literal value)] ++ [.back .input])

/-- What comes after the first of two parts goes on after both. -/
theorem Outcome.andThen_assoc {σ : Type} (o : Outcome σ) (f g : Walker σ → Outcome σ) :
    (o.andThen f).andThen g = o.andThen fun w => (f w).andThen g := by
  obtain ⟨w, error⟩ := o
  cases error <;> rfl

/-! ## 2. Steps -/

/-- A state of a walk: what is still to be done, and how the walk has gone up to here. -/
structure Machine (σ : Type) where
  jobs : List Job
  outcome : Outcome σ

namespace Machine

variable {σ : Type} {v : Visitor σ}

/-- The place. -/
def context (m : Machine σ) : Context := m.outcome.walker.context

/-- The state before a document. -/
def start (d : Document) (w : Walker σ) : Machine σ := ⟨[.visit (.document d)], .done w⟩

/-- **One step of a walk.** -/
inductive Step (v : Visitor σ) : Machine σ → Machine σ → Prop
  /-- A node is shown. -/
  | call {phase : Phase} {node : Node} {rest : List Job} {w : Walker σ} :
      Step v ⟨.call phase node :: rest, ⟨w, none⟩⟩ ⟨rest, ⟨w.call v phase node, none⟩⟩
  /-- The walk goes into a part. -/
  | enter {p : Part} {rest jobs : List Job} {w : Walker σ} {c : Context}
      (plan : p.plan w.context = .ok (c, jobs)) :
      Step v ⟨.visit p :: rest, ⟨w, none⟩⟩ ⟨jobs ++ rest, ⟨⟨c, w.state⟩, none⟩⟩
  /-- The walk is broken off. -/
  | breakOff {p : Part} {rest : List Job} {w : Walker σ} {e : ResolutionError}
      (plan : p.plan w.context = .error e) :
      Step v ⟨.visit p :: rest, ⟨w, none⟩⟩ ⟨rest, ⟨w, some e⟩⟩
  /-- The walk leaves a part, also after it is broken off. -/
  | back {b : WayBack} {rest : List Job} {o : Outcome σ} :
      Step v ⟨.back b :: rest, o⟩ ⟨rest, o.move b.apply⟩
  /-- Nothing else is done after the walk is broken off. -/
  | passOver {j : Job} {rest : List Job} {w : Walker σ} {e : ResolutionError}
      (notBack : j.isBack = false) : Step v ⟨j :: rest, ⟨w, some e⟩⟩ ⟨rest, ⟨w, some e⟩⟩

/-- **A run**: any number of steps. -/
def Reaches (v : Visitor σ) : Machine σ → Machine σ → Prop := Relation.ReflTransGen (Step v)

/-- **No state has two successors.** -/
theorem Step.unique {m m₁ m₂ : Machine σ} (h₁ : m.Step v m₁) (h₂ : m.Step v m₂) : m₁ = m₂ := by
  cases h₁ with
  | call =>
      cases h₂ with
      | call => rfl
  | enter hplan =>
      cases h₂ with
      | enter hplan' =>
          cases hplan.symm.trans hplan'
          rfl
      | breakOff hplan' => cases hplan.symm.trans hplan'
  | breakOff hplan =>
      cases h₂ with
      | enter hplan' => cases hplan.symm.trans hplan'
      | breakOff hplan' =>
          cases hplan.symm.trans hplan'
          rfl
  | back =>
      cases h₂ with
      | back => rfl
      | passOver hback => cases hback
  | passOver hback =>
      cases h₂ with
      | back => cases hback
      | passOver => rfl

/-! ## 3. What jobs perform -/

/-- **Jobs that do what a part of a walk does**, whatever is to be done behind them. They do nothing
    if the walk is broken off before. -/
def Performs (v : Visitor σ) (jobs : List Job) (f : Walker σ → Outcome σ) : Prop :=
  ∀ rest o, Reaches v ⟨jobs ++ rest, o⟩ ⟨rest, o.andThen f⟩

variable {jobs jobs' : List Job} {f g : Walker σ → Outcome σ}

theorem performs_nil : Performs v [] .done := by
  intro rest o
  obtain ⟨w, error⟩ := o
  cases error <;> exact .refl

/-- Jobs behind each other. -/
theorem Performs.append (h : Performs v jobs f) (h' : Performs v jobs' g) :
    Performs v (jobs ++ jobs') fun w => (f w).andThen g := by
  intro rest o
  have hsecond := h' rest (o.andThen f)
  rw [Outcome.andThen_assoc] at hsecond
  rw [List.append_assoc]
  exact (h (jobs' ++ rest) o).trans hsecond

/-- A job that is done unless the walk is broken off. -/
theorem performs_of_reaches {j : Job} (hback : j.isBack = false)
    (h : ∀ rest w, Reaches v ⟨j :: rest, ⟨w, none⟩⟩ ⟨rest, f w⟩) : Performs v [j] f := by
  intro rest o
  obtain ⟨w, error⟩ := o
  cases error with
  | none => exact h rest w
  | some e => exact .single (.passOver hback)

theorem performs_call (phase : Phase) (node : Node) :
    Performs v [.call phase node] fun w => .done (w.call v phase node) :=
  performs_of_reaches rfl fun _ _ => .single .call

/-- A node around jobs. -/
theorem Performs.around (h : Performs v jobs f) (node : Node) :
    Performs v (Job.around node jobs) fun w => (f (w.call v .enter node)).leave v node :=
  (performs_call .enter node).append (h.append (performs_call .leave node))

/-- A part at whose place its jobs are done. -/
theorem performs_inside {p : Part} (hplan : ∀ c, p.plan c = .ok (c, jobs))
    (h : Performs v jobs f) : Performs v [.visit p] f :=
  performs_of_reaches rfl fun rest w => .head (.enter (hplan w.context)) (h rest ⟨w, none⟩)

/-- A part that moves the place, before a way back. -/
theorem reaches_moved (p : Part) (c : Context) (b : WayBack) {w : Walker σ}
    (hplan : p.plan w.context = .ok (c, jobs ++ [.back b])) (h : Performs v jobs f)
    (rest : List Job) :
    Reaches v ⟨.visit p :: rest, ⟨w, none⟩⟩ ⟨rest, (f ⟨c, w.state⟩).move b.apply⟩ := by
  have hinside := h (.back b :: rest) ⟨⟨c, w.state⟩, none⟩
  refine .head (.enter hplan) ?_
  rw [List.append_assoc]
  exact hinside.tail .back

/-- Such a part as one job, where the place alone decides what it leaves to be done. -/
theorem performs_moved (p : Part) (change : Context → Context) (b : Context → WayBack)
    (hplan : ∀ c, p.plan c = .ok (change c, jobs ++ [.back (b c)])) (h : Performs v jobs f) :
    Performs v [.visit p] fun w => (f (w.move change)).move (b w.context).apply :=
  performs_of_reaches rfl fun rest w => reaches_moved p _ _ (hplan w.context) h rest

/-- Parts one after the other. -/
theorem performs_visits {α : Type} {part : α → Part} {step : Walker σ → α → Walker σ}
    (h : ∀ a, Performs v [.visit (part a)] fun w => .done (step w a)) (as : List α) :
    Performs v (Job.visits part as) fun w => .done (as.foldl step w) := by
  induction as with
  | nil => exact performs_nil
  | cons a rest ih => exact (h a).append ih

/-! ## 4. The parts of a document

What the jobs of a part perform, put together by the laws above, is the walk through the part by
computation. -/

mutual

theorem performs_literal (v : Visitor σ) : ∀ l : Literal,
    Performs v [.visit (.literal l)] fun w => .done (w.literal v l)
  | .null => performs_inside (fun _ => rfl) (performs_nil.around .nullValue)
  | .enum name => performs_inside (fun _ => rfl) (performs_nil.around (.enumValue name))
  | .variable name => performs_inside (fun _ => rfl) (performs_nil.around (.variableValue name))
  | .int n => performs_inside (fun _ => rfl) (performs_nil.around (.scalarValue (.int n)))
  | .float x => performs_inside (fun _ => rfl) (performs_nil.around (.scalarValue (.float x)))
  | .string s => performs_inside (fun _ => rfl) (performs_nil.around (.scalarValue (.string s)))
  | .boolean b => performs_inside (fun _ => rfl) (performs_nil.around (.scalarValue (.boolean b)))
  | .list items => by
      have hitems := performs_moved (.items items) (fun c => c.pushInput c.itemType)
        (fun _ => .input) (fun _ => rfl) (performs_literals v items)
      exact performs_inside (fun _ => rfl) (hitems.around (.listValue items))
  | .object entries =>
      performs_inside (fun _ => rfl) ((performs_entries v entries).around (.objectValue entries))

theorem performs_literals (v : Visitor σ) : ∀ items : List Literal,
    Performs v (Job.visits .literal items) fun w => .done (w.literals v items)
  | [] => performs_nil
  | item :: rest => (performs_literal v item).append (performs_literals v rest)

theorem performs_entries (v : Visitor σ) : ∀ entries : List (String × Literal),
    Performs v (Job.visits (fun member => .entry member.1 member.2) entries) fun w =>
      .done (w.entriesOf v entries)
  | [] => performs_nil
  | (key, value) :: rest => by
      have hvalue := (performs_literal v value).around (.objectField key value)
      have hentry := performs_moved (.entry key value) (fun c => c.pushInput (c.entryType key))
        (fun _ => .input) (fun _ => rfl) hvalue
      exact hentry.append (performs_entries v rest)

end

theorem performs_argument (a : Argument) :
    Performs v [.visit (.argument a)] fun w => .done (w.argument v a) :=
  performs_moved _ (fun c => c.pushInput (c.argumentType a.name)) (fun _ => .input) (fun _ => rfl)
    ((performs_literal v a.value).around (.argument a))

theorem performs_directive (d : Directive) :
    Performs v [.visit (.directive d)] fun w => .done (w.directive v d) :=
  performs_moved _ (fun c => c.withDirective (some d)) (fun c => .directive c.directive)
    (fun _ => rfl) ((performs_visits performs_argument d.arguments).around (.directive d))

theorem performs_variableDefinition (d : VariableDefinition) :
    Performs v [.visit (.variableDefinition d)] fun w => .done (w.variableDefinition v d) := by
  obtain ⟨position, name, type, default⟩ := d
  cases default with
  | none =>
      exact performs_moved _ (fun c => c.pushInput (c.schema.resolve .input type))
        (fun _ => .input) (fun _ => rfl)
        (performs_nil.around (.variableDefinition ⟨position, name, type, none⟩))
  | some l =>
      exact performs_moved _ (fun c => c.pushInput (c.schema.resolve .input type))
        (fun _ => .input) (fun _ => rfl)
        ((performs_literal v l).around (.variableDefinition ⟨position, name, type, some l⟩))

theorem performs_directives (ds : List Directive) :
    Performs v (Job.visits .directive ds) fun w => .done (w.directives v ds) :=
  performs_visits performs_directive ds

/-- What stands on a field. -/
theorem performs_prepared (args : List Argument) (ds : List Directive) :
    Performs v (Job.visits .argument args ++ Job.visits .directive ds) fun w =>
      .done ((w.arguments v args).directives v ds) :=
  (performs_visits performs_argument args).append (performs_directives ds)

mutual

theorem performs_selectionSet (v : Visitor σ) : ∀ s : SelectionSet,
    Performs v [.visit (.selectionSet s)] (Walker.selectionSet v s)
  | ⟨position, items⟩ => by
      refine performs_of_reaches rfl fun rest w => ?_
      rw [Walker.selectionSet]
      unfold Walker.inSelectionSet
      by_cases hdepth : w.context.depth ≥ w.context.schema.limits.maxDepth
      · have hplan : (Part.selectionSet ⟨position, items⟩).plan w.context =
            .error (.depthLimitExceeded w.context.schema.limits.maxDepth) := if_pos hdepth
        simp only [hdepth, if_true]
        exact .single (.breakOff hplan)
      · have hinside := (performs_selections v items).around (.selectionSet ⟨position, items⟩)
        simp only [hdepth, if_false]
        refine reaches_moved _ w.context.openSelection .selection ?_ hinside rest
        exact if_neg hdepth

theorem performs_selections (v : Visitor σ) : ∀ items : List Selection,
    Performs v (Job.visits .selection items) (Walker.selections v items)
  | [] => performs_nil
  | item :: rest => (performs_selection v item).append (performs_selections v rest)

theorem performs_selection (v : Visitor σ) : ∀ item : Selection,
    Performs v [.visit (.selection item)] (Walker.selection v item)
  | .field ⟨position, responseAlias, name, args, ds, some s⟩ =>
      performs_moved _ (fun c => c.pushField (c.selectedField name)
          ((c.selectedField name).bind c.fieldType)) (fun _ => .field) (fun _ => rfl)
        (((performs_prepared args ds).append (performs_selectionSet v s)).around
          (.field ⟨position, responseAlias, name, args, ds, some s⟩))
  | .field ⟨position, responseAlias, name, args, ds, none⟩ =>
      performs_moved _ (fun c => c.pushField (c.selectedField name)
          ((c.selectedField name).bind c.fieldType)) (fun _ => .field) (fun _ => rfl)
        (((performs_prepared args ds).append performs_nil).around
          (.field ⟨position, responseAlias, name, args, ds, none⟩))
  | .spread s =>
      performs_inside (fun _ => rfl) ((performs_directives s.directives).around (.spread s))
  | .inlineFragment ⟨position, condition, ds, selected⟩ =>
      performs_moved _ (fun c => c.pushType (c.narrowedType condition)) (fun _ => .type)
        (fun _ => rfl) (((performs_directives ds).append (performs_selectionSet v selected)).around
          (.inlineFragment ⟨position, condition, ds, selected⟩))

end

theorem performs_operation (o : Operation) :
    Performs v [.visit (.definition (.operation o))] (Walker.operation v o) := by
  refine performs_of_reaches rfl fun rest w => ?_
  unfold Walker.operation
  cases hroot : w.context.schema.root? o.kind with
  | none =>
      have hplan : (Part.definition (.operation o)).plan w.context =
          .error (.unsupportedOperation o.kind.keyword) := by
        rw [Part.plan, hroot]
      exact .single (.breakOff hplan)
  | some root =>
      have hinside := ((performs_directives (v := v) o.directives).append
        (performs_visits performs_variableDefinition o.variables)).append
          (performs_selectionSet v o.selectionSet)
      refine reaches_moved _ (w.context.pushType (some (.named (.composite root) false))) .type ?_
        (hinside.around (.operation o)) rest
      rw [Part.plan, hroot]

theorem performs_fragment (x : Fragment) :
    Performs v [.visit (.definition (.fragment x))] (Walker.fragment v x) :=
  performs_moved _ (fun c => c.pushType (c.narrowedType (some x.typeCondition))) (fun _ => .type)
    (fun _ => rfl) (((performs_directives x.directives).append
      (performs_selectionSet v x.selectionSet)).around (.fragment x))

theorem performs_definitions : ∀ definitions : List Definition,
    Performs v (Job.visits .definition definitions) (Walker.definitions v definitions)
  | [] => performs_nil
  | .operation o :: rest => (performs_operation o).append (performs_definitions rest)
  | .fragment x :: rest => (performs_fragment x).append (performs_definitions rest)

/-- **The machine performs the walk.** -/
theorem performs_walk (d : Document) : Performs v [.visit (.document d)] (d.walk v) :=
  performs_inside (fun _ => rfl) ((performs_definitions d.definitions).around (.document d))

/-- **Every state that is reached leads to the outcome of the walk.** -/
theorem reaches_walk {d : Document} {w : Walker σ} {m : Machine σ}
    (h : (start d w).Reaches v m) : m.Reaches v ⟨[], d.walk v w⟩ := by
  have hend : (start d w).Reaches v ⟨[], d.walk v w⟩ := performs_walk d [] (.done w)
  have hunique : Relator.RightUnique (Step v) := fun _ _ _ => Step.unique
  obtain hm | hm := Relation.ReflTransGen.total_of_right_unique hunique h hend
  · exact hm
  · -- nothing is left to be done at the end
    obtain rfl | ⟨_, hstep, -⟩ := hm.cases_head
    · exact .refl
    · cases hstep

end Machine

/-! ## 5. Changes of the place -/

/-- **Every change of the place** that a walk makes. -/
inductive Context.Moves (c : Context) : Context → Prop
  | stays : c.Moves c
  | root {kind : OperationKind} {root : CompositeType}
      (found : c.schema.root? kind = some root) :
      c.Moves (c.pushType (some (.named (.composite root) false)))
  | condition (name : Option String) : c.Moves (c.pushType (c.narrowedType name))
  | field (name : String) :
      c.Moves (c.pushField (c.selectedField name) ((c.selectedField name).bind c.fieldType))
  | argument (name : String) : c.Moves (c.pushInput (c.argumentType name))
  | variableDefinition (e : TypeExpr) : c.Moves (c.pushInput (c.schema.resolve .input e))
  | item : c.Moves (c.pushInput c.itemType)
  | entry (key : String) : c.Moves (c.pushInput (c.entryType key))
  | directive (d : Option Directive) : c.Moves (c.withDirective d)
  | openSelection : c.Moves c.openSelection
  | closeSelection : c.Moves c.closeSelection
  | popType : c.Moves c.popType
  | popField : c.Moves c.popField
  | popInput : c.Moves c.popInput

/-- Going into a part is one of these changes. -/
theorem Part.moves {p : Part} {c c' : Context} {jobs : List Job}
    (h : p.plan c = .ok (c', jobs)) : c.Moves c' := by
  cases p with
  | document d =>
      cases h
      exact .stays
  | definition d =>
      cases d with
      | operation o =>
          rw [plan] at h
          split at h
          · cases h
          · rename_i hroot
            cases h
            exact .root hroot
      | fragment f =>
          cases h
          exact .condition (some f.typeCondition)
  | selectionSet s =>
      rw [plan] at h
      split at h
      · cases h
      · cases h
        exact .openSelection
  | selection s =>
      cases s with
      | field f =>
          cases h
          exact .field f.name
      | spread s =>
          cases h
          exact .stays
      | inlineFragment i =>
          cases h
          exact .condition i.typeCondition
  | directive d =>
      cases h
      exact .directive (some d)
  | argument a =>
      cases h
      exact .argument a.name
  | variableDefinition d =>
      cases h
      exact .variableDefinition d.type
  | literal l =>
      cases l <;> cases h <;> exact .stays
  | items ls =>
      cases h
      exact .item
  | entry key value =>
      cases h
      exact .entry key

/-- So is leaving one. -/
theorem WayBack.moves (b : WayBack) (c : Context) : c.Moves (b.apply c) := by
  cases b with
  | type => exact .popType
  | field => exact .popField
  | input => exact .popInput
  | selection => exact .closeSelection
  | directive before => exact .directive before

namespace Machine

variable {σ : Type} {v : Visitor σ} {m m' : Machine σ}

/-- **A step makes no other change.** -/
theorem Step.moves (h : m.Step v m') : m.context.Moves m'.context := by
  cases h with
  | call => exact .stays
  | enter hplan => exact Part.moves hplan
  | breakOff => exact .stays
  | back => exact WayBack.moves _ _
  | passOver => exact .stays

/-- **What every change keeps is kept by a run.** -/
theorem Reaches.keeps {p : Context → Prop} (hkeeps : ∀ {c c'}, p c → c.Moves c' → p c')
    (h : m.Reaches v m') (hm : p m.context) : p m'.context := by
  induction h with
  | refl => exact hm
  | tail _ hstep ih => exact hkeeps ih hstep.moves

end Machine

end TypedQuery
