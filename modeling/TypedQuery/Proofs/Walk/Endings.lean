import TypedQuery.Proofs.Schema.Built
import TypedQuery.Proofs.Walk.Trace

/-!
# How a walk ends

A walk ends where it started, whether it goes through or is broken off, and a document gives two
reasons at most for breaking it off.

* `Schema.BreaksOff` -- an operation of a kind without a root, or selection sets beyond the limit;
* `Trace.BreaksBy` -- what may break a trace off, part by part;
* `Document.walk_restores` -- **the place after a walk is the place before**, and what broke the
  walk off is one of the two.
-/

namespace TypedQuery

/-- **What breaks a walk through a document off.** -/
inductive Schema.BreaksOff (s : Schema) (d : Document) : ResolutionError → Prop
  /-- The schema has no root for the kind of an operation. -/
  | noRoot {o : Operation} (member : .operation o ∈ d.definitions)
      (missing : s.root? o.kind = none) : s.BreaksOff d (.unsupportedOperation o.kind.keyword)
  /-- More selection sets are open than the limit allows. -/
  | tooDeep : s.BreaksOff d (.depthLimitExceeded s.limits.maxDepth)

/-! ## 1. Parts of a trace -/

/-- Whatever breaks the trace off has the property. -/
def Trace.BreaksBy (t : Trace) (reason : ResolutionError → Prop) : Prop :=
  ∀ e, t.error = some e → reason e

namespace Trace

variable {t t' : Trace} {reason : ResolutionError → Prop}

theorem breaksBy_done (events : List Event) : (done events).BreaksBy reason :=
  fun _ h => by cases h

theorem breaksBy_broken {e : ResolutionError} (h : reason e) : (broken e).BreaksBy reason := by
  intro e' he
  cases he
  exact h

theorem BreaksBy.andThen (h : t.BreaksBy reason) (h' : t'.BreaksBy reason) :
    (t.andThen t').BreaksBy reason := by
  obtain ⟨events, error⟩ := t
  cases error with
  | none => exact h'
  | some e => exact h

theorem BreaksBy.around (c : Context) (node : Node) (h : t.BreaksBy reason) :
    (Trace.around c node t).BreaksBy reason :=
  ((breaksBy_done _).andThen h).andThen (breaksBy_done _)

theorem BreaksBy.mono {reason' : ResolutionError → Prop} (h : t.BreaksBy reason)
    (himp : ∀ e, reason e → reason' e) : t.BreaksBy reason' :=
  fun e he => himp e (h e he)

end Trace

/-! ## 2. Selections break off at the limit alone -/

mutual

theorem SelectionSet.breaksBy : ∀ (s : SelectionSet) (c : Context),
    (s.trace c).BreaksBy (· = .depthLimitExceeded c.schema.limits.maxDepth)
  | ⟨position, items⟩, c => by
      rw [SelectionSet.trace]
      by_cases hdepth : c.depth ≥ c.schema.limits.maxDepth
      · simp only [hdepth, if_true]
        exact Trace.breaksBy_broken rfl
      · simp only [hdepth, if_false]
        exact (breaksBy_selections items c.openSelection).around _ _

theorem breaksBy_selections : ∀ (items : List Selection) (c : Context),
    (traceOfSelections c items).BreaksBy (· = .depthLimitExceeded c.schema.limits.maxDepth)
  | [], _ => Trace.breaksBy_done []
  | item :: rest, c => (Selection.breaksBy item c).andThen (breaksBy_selections rest c)

theorem Field.breaksBy : ∀ (f : Field) (c : Context),
    (f.trace c).BreaksBy (· = .depthLimitExceeded c.schema.limits.maxDepth)
  | ⟨_, _, _, _, _, some s⟩, c => by
      rw [Field.trace]
      exact ((Trace.breaksBy_done _).andThen (SelectionSet.breaksBy s _)).around _ _
  | ⟨_, _, _, _, _, none⟩, c => by
      rw [Field.trace]
      exact ((Trace.breaksBy_done _).andThen (Trace.breaksBy_done [])).around _ _

theorem InlineFragment.breaksBy : ∀ (i : InlineFragment) (c : Context),
    (i.trace c).BreaksBy (· = .depthLimitExceeded c.schema.limits.maxDepth)
  | ⟨_, _, _, selected⟩, c => by
      rw [InlineFragment.trace]
      exact ((Trace.breaksBy_done _).andThen (SelectionSet.breaksBy selected _)).around _ _

theorem Selection.breaksBy : ∀ (item : Selection) (c : Context),
    (item.trace c).BreaksBy (· = .depthLimitExceeded c.schema.limits.maxDepth)
  | .field f, c => Field.breaksBy f c
  | .spread _, _ => Trace.breaksBy_done _
  | .inlineFragment i, c => InlineFragment.breaksBy i c

end

/-! ## 3. Documents -/

/-- A definition of a document breaks off for one of the two reasons. -/
theorem Definition.breaksBy {d : Document} {definition : Definition}
    (hmember : definition ∈ d.definitions) (c : Context) :
    (definition.trace c).BreaksBy (c.schema.BreaksOff d) := by
  have hselected : ∀ (s : SelectionSet) (t : Option SchemaType),
      (s.trace (c.pushType t)).BreaksBy (c.schema.BreaksOff d) := by
    intro s t
    refine (s.breaksBy (c.pushType t)).mono fun e he => ?_
    rw [he]
    exact .tooDeep
  cases definition with
  | fragment f =>
      exact ((Trace.breaksBy_done _).andThen (hselected f.selectionSet _)).around _ _
  | operation o =>
      show (o.trace c).BreaksBy _
      unfold Operation.trace
      cases hroot : c.schema.root? o.kind with
      | none => exact Trace.breaksBy_broken (.noRoot hmember hroot)
      | some root =>
          exact ((Trace.breaksBy_done _).andThen (hselected o.selectionSet _)).around _ _

theorem Document.breaksBy (d : Document) (c : Context) :
    (d.trace c).BreaksBy (c.schema.BreaksOff d) := by
  have hdefinitions : ∀ ds, (∀ definition ∈ ds, definition ∈ d.definitions) →
      (traceOfDefinitions c ds).BreaksBy (c.schema.BreaksOff d) := by
    intro ds hds
    induction ds with
    | nil => exact Trace.breaksBy_done []
    | cons definition rest ih =>
        exact (Definition.breaksBy (hds definition List.mem_cons_self) c).andThen
          (ih fun other hother => hds other (List.mem_cons_of_mem _ hother))
  exact (hdefinitions d.definitions fun _ h => h).around c _

/-- **The place after a walk is the place before**, from whatever place it starts and whatever the
    visitor does, also where it is broken off; and only two things break it off. -/
theorem Document.walk_restores {σ : Type} (v : Visitor σ) (d : Document) (w : Walker σ) :
    (d.walk v w).walker.context = w.context ∧
      ∀ e, (d.walk v w).error = some e → w.context.schema.BreaksOff d e := by
  rw [Document.walk_eq]
  exact ⟨Walker.context_replay _ w, d.breaksBy w.context⟩

/-- A walk that is broken off inside a field, from a place inside a field and a directive. -/
theorem Document.walk_restores_points :
    let d : Document := ⟨[.operation ⟨⟨1, 1⟩, .query, none, [], [], ⟨⟨1, 1⟩, [
      .field ⟨⟨1, 3⟩, none, "origin", [], [], some ⟨⟨1, 10⟩, []⟩⟩]⟩⟩]⟩
    let v : Visitor Nat := fun _ _ _ shown => shown + 1
    let c := ((Context.start { Schema.points with limits := ⟨3⟩ } d).pushField none none
      |>.withDirective (some ⟨⟨1, 1⟩, "skip", []⟩)).openSelection.openSelection
    (d.walk v ⟨c, 0⟩).error = some (.depthLimitExceeded 3) ∧
      (d.walk v ⟨c, 0⟩).walker.state = 4 ∧ (d.walk v ⟨c, 0⟩).walker.context = c := by
  intro d v c
  exact ⟨rfl, rfl, (walk_restores v d ⟨c, 0⟩).1⟩

end TypedQuery
