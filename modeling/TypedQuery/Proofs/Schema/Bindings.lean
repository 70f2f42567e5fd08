import TypedQuery.Proofs.Coercion.Failures
import TypedQuery.Proofs.Schema.Registration

/-!
# What host types stand for

A host type stands for what it was bound to last. Steps bind host types in three ways and for two
namespaces, and before the first of them a new builder has bound five; a step that fails binds
nothing, whatever it changed before it failed.

* `SchemaBuilder.Step.binding?` -- what a step binds, if it succeeds;
* `SchemaBuilder.hosts_apply`, `SchemaBuilder.find?_step` -- **what one step does to a binding**;
* `SchemaBuilder.NeverBinds`, `SchemaBuilder.BindsLast` -- no step of a run binds a host type, and a
  step of a run is the last that does; `SchemaBuilder.bindsLast_or_neverBinds` -- there is no third
  case;
* `SchemaBuilder.find?_run_of_bindsLast` -- **after any run** the last binding is found;
* `Schema.resolveHost_lastBound` -- **what a built schema resolves a host type to**.
-/

namespace TypedQuery

/-- The host types that are bound from the start, with the scalars that hold them. -/
def HostType.builtin : List (HostType × ScalarType) :=
  [(.int32, .int), (.int64, .int), (.float, .float), (.text, .string), (.boolean, .boolean)]

/-- A type brings its host type along for a namespace that it is for. -/
theorem NamedType.isFor_of_ownHost? {t : NamedType} {space : Namespace} {host : HostType}
    (h : t.ownHost? space = some host) : t.isFor space = true := by
  cases t <;> cases space <;> first | rfl | cases h

namespace SchemaBuilder

/-! ## 1. One step -/

/-- **What a step binds for a namespace, if it succeeds**: a host type that is registered, or the
    host type that a type brings along, which is bound to the type. -/
def Step.binding? : Step → Namespace → Option (HostType × TypeExpr)
  | .host bound e, .input => some (bound, e)
  | .type (.named t false), space => (t.ownHost? space).map fun bound => (bound, .named t.name)
  | _, _ => none

variable {b b' : SchemaBuilder} {s : Step} {space : Namespace} {host : HostType} {e : TypeExpr}

theorem hosts_insertNamed (b : SchemaBuilder) (t : NamedType) :
    (b.insertNamed t).hosts = b.hosts := by
  funext space
  cases space <;> rfl

/-- **All that a step can do to the bindings**: it writes the one that it makes. -/
theorem hosts_apply (h : b.apply s = .ok b') (space : Namespace) :
    b'.hosts space =
      match s.binding? space with
      | some p => (b.hosts space).insert p.1.name p.2
      | none => b.hosts space := by
  cases s with
  | query name | mutation name | subscription name | limits l =>
      cases h
      cases space <;> rfl
  | host host e =>
      cases h
      cases space <;> rfl
  | directive d =>
      obtain ⟨-, rfl⟩ := addDirective_cases h
      cases space <;> rfl
  | type u =>
      obtain ⟨t, rfl, -, -, rfl⟩ := addType_cases h
      rw [hosts_insertNamed, hosts_bindOwnHost, Step.binding?]
      cases t.ownHost? space <;> rfl

/-- A step succeeds and binds a host type. -/
def Binds (b : SchemaBuilder) (s : Step) (space : Namespace) (host : HostType) (e : TypeExpr) :
    Prop :=
  (∃ b', b.apply s = .ok b') ∧ s.binding? space = some (host, e)

/-- A step that binds a host type writes the binding. -/
theorem find?_step_of_binds (h : b.Binds s space host e) :
    ((b.step s).hosts space).find? host.name = some e := by
  obtain ⟨⟨b', happly⟩, hbinding⟩ := h
  have hhosts := hosts_apply happly space
  rw [hbinding] at hhosts
  rw [step, happly]
  simp only [hhosts, Table.find?_insert, if_true]

/-- **A step leaves every other binding as it was**, and all of them if it fails. -/
theorem find?_step (h : ∀ e, ¬ b.Binds s space host e) :
    ((b.step s).hosts space).find? host.name = (b.hosts space).find? host.name := by
  cases happly : b.apply s with
  | error err => rw [step_of_error happly]
  | ok b' =>
      rw [step, happly]
      show (b'.hosts space).find? host.name = _
      rw [hosts_apply happly space]
      split
      · rename_i p hbinding
        rw [Table.find?_insert, if_neg]
        rintro hname
        have hhost : host = p.1 := by
          obtain ⟨⟨other⟩, e⟩ := p
          cases host
          exact congrArg HostType.mk hname
        exact h p.2 ⟨⟨b', happly⟩, hhost ▸ hbinding⟩
      · rfl

/-! ## 2. Runs -/

/-- No step of a run binds the host type. -/
def NeverBinds (b : SchemaBuilder) (steps : List Step) (space : Namespace) (host : HostType) :
    Prop :=
  ∀ before s after, steps = before ++ s :: after → ∀ e, ¬ (b.run before).Binds s space host e

/-- **The last step of a run that binds the host type.** -/
structure BindsLast (b : SchemaBuilder) (steps : List Step) (space : Namespace) (host : HostType)
    (before : List Step) (s : Step) (after : List Step) (e : TypeExpr) : Prop where
  split : steps = before ++ s :: after
  binds : (b.run before).Binds s space host e
  last : (b.run (before ++ [s])).NeverBinds after space host

theorem run_cons (b : SchemaBuilder) (s : Step) (rest : List Step) :
    b.run (s :: rest) = (b.step s).run rest := rfl

theorem neverBinds_cons {rest : List Step} :
    b.NeverBinds (s :: rest) space host ↔
      (∀ e, ¬ b.Binds s space host e) ∧ (b.step s).NeverBinds rest space host := by
  constructor
  · intro h
    refine ⟨h [] s rest rfl, fun before s' after hsplit => ?_⟩
    exact h (s :: before) s' after (congrArg (s :: ·) hsplit)
  · rintro ⟨hfirst, hrest⟩ before s' after hsplit
    rcases List.cons_eq_append_iff.1 hsplit with ⟨rfl, heq⟩ | ⟨before, rfl, rfl⟩
    · cases heq
      exact hfirst
    · exact hrest before s' after rfl

/-- A run in which no step binds the host type leaves its binding as it was. -/
theorem find?_run_of_neverBinds {steps : List Step} (h : b.NeverBinds steps space host) :
    ((b.run steps).hosts space).find? host.name = (b.hosts space).find? host.name := by
  induction steps generalizing b with
  | nil => rfl
  | cons s rest ih =>
      obtain ⟨hfirst, hrest⟩ := neverBinds_cons.1 h
      rw [run_cons, ih hrest, find?_step hfirst]

/-- **After any run the last binding is found.** -/
theorem find?_run_of_bindsLast {steps before after : List Step}
    (h : b.BindsLast steps space host before s after e) :
    ((b.run steps).hosts space).find? host.name = some e := by
  have hlast := h.last
  rw [Schema.run_append] at hlast
  rw [h.split, Schema.run_append, run_cons]
  exact (find?_run_of_neverBinds hlast).trans (find?_step_of_binds h.binds)

/-- Either a last step binds the host type, or none does. -/
theorem bindsLast_or_neverBinds (b : SchemaBuilder) (steps : List Step) (space : Namespace)
    (host : HostType) :
    (∃ before s after e, b.BindsLast steps space host before s after e) ∨
      b.NeverBinds steps space host := by
  induction steps generalizing b with
  | nil => exact .inr fun before s after hsplit => by simp at hsplit
  | cons s rest ih =>
      rcases ih (b.step s) with ⟨before, s', after, e, hlast⟩ | hnever
      · exact .inl ⟨s :: before, s', after, e, congrArg (s :: ·) hlast.split, hlast.binds,
          hlast.last⟩
      · by_cases hfirst : ∃ e, b.Binds s space host e
        · obtain ⟨e, he⟩ := hfirst
          exact .inl ⟨[], s, rest, e, rfl, he, hnever⟩
        · exact .inr (neverBinds_cons.2 ⟨not_exists.1 hfirst, hnever⟩)

/-- A step that fails in place has changed nothing, and the run is the one without it. -/
theorem run_of_failed {steps before after : List Step} {error : SchemaError}
    (hsplit : steps = before ++ s :: after)
    (h : (InPlace.perform s).run (b.run before) = .error error b') :
    b' = b.run before ∧ b.run steps = b.run (before ++ after) := by
  obtain ⟨hsame, hstep⟩ := (addsWhole (b.run before)).undone h
  refine ⟨hsame, ?_⟩
  rw [hsplit, Schema.run_append, run_cons, hstep, Schema.run_append]

/-! ## 3. The start -/

/-- The bindings of a new builder. -/
theorem find?_hosts_new (space : Namespace) (host : HostType) :
    (new.hosts space).find? host.name =
      match space with
      | .input => (HostType.builtin.lookup host).map fun k => .named k.name
      | .output => none := by
  cases space with
  | output => rfl
  | input =>
      have hentries : (new.hosts .input).entries =
          HostType.builtin.map fun p => (p.1.name, .named p.2.name) := rfl
      have hlookup : ∀ pairs : List (HostType × ScalarType),
          (pairs.map fun p => (p.1.name, TypeExpr.named p.2.name)).lookup host.name =
            (pairs.lookup host).map fun k => .named k.name := by
        intro pairs
        induction pairs with
        | nil => rfl
        | cons p rest ih =>
            obtain ⟨⟨other⟩, k⟩ := p
            obtain ⟨name⟩ := host
            rw [List.map_cons, List.lookup_cons, List.lookup_cons]
            by_cases hname : name = other
            · subst hname
              simp
            · have hne : (HostType.mk name == HostType.mk other) = false :=
                beq_false_of_ne fun heq => hname (HostType.mk.inj heq)
              rw [beq_false_of_ne hname, hne]
              exact ih
      rw [Table.find?, hentries]
      exact hlookup _

end SchemaBuilder

/-! ## 4. Built schemas -/

namespace Schema

open SchemaBuilder

variable {s : Schema} {steps : List Step} {space : Namespace} {host : HostType}

/-- A host type stands for the expression that it is bound to in the builder. -/
theorem resolveHost_build (h : (new.run steps).build = .ok s) (space : Namespace)
    (host : HostType) :
    s.resolveHost space host =
      (((new.run steps).hosts space).find? host.name).bind (s.resolve space) := by
  obtain ⟨-, -, -, -, -, -, hinput, houtput, -⟩ := build_cases h
  cases space with
  | input =>
      rw [resolveHost, hinput]
      rfl
  | output =>
      rw [resolveHost, houtput]
      rfl

/-- A type that some step adds is there in the end. -/
theorem named?_of_added (h : (new.run steps).build = .ok s) {before after : List Step}
    {t : NamedType} (hsplit : steps = before ++ .type (.named t false) :: after)
    (happly : ∃ b', (new.run before).apply (.type (.named t false)) = .ok b')
    (hfor : t.isFor space = true) : s.named? space t.name = some t := by
  obtain ⟨b', happly⟩ := happly
  have hadd : (new.run before).addType (.named t false) = .ok b' := happly
  obtain ⟨u, hu, -, -, hb'⟩ := addType_cases hadd
  cases hu
  have hrun : new.run steps = b'.run after := by
    rw [hsplit, run_append, SchemaBuilder.run_cons, step, happly]
  have hadded : (b'.types space).find? t.name = some t := by
    rw [hb', types_insertNamed, if_pos hfor, Table.find?_insert, if_pos rfl]
  rw [named?, types_build h, hrun]
  exact (extends_run b' after).types hadded

/-- A host type that is bound from the start has its scalar. -/
theorem resolve_builtin (hs : s.Built) {k : ScalarType}
    (hlookup : HostType.builtin.lookup host = some k) :
    s.resolve .input (.named k.name) = some (.named (.scalar k) false) := by
  have hscalars : ∀ p ∈ HostType.builtin, p.2 ∈ ScalarType.builtin := by decide
  obtain ⟨before, after, hsplit, -⟩ := List.lookup_eq_some_iff.1 hlookup
  have hk : k ∈ ScalarType.builtin :=
    hscalars (host, k) (hsplit ▸ List.mem_append_right before List.mem_cons_self)
  rw [resolve_named, hs.named_builtin .input hk, Option.map_some]

/-- What a host type stands for among the input types is made of types of the schema. -/
theorem knows_of_resolveHost (h : (new.run steps).build = .ok s) {t : SchemaType}
    (ht : s.resolveHost .input host = some t) : s.Knows t := by
  rw [resolveHost_build h, Option.bind_eq_some_iff] at ht
  obtain ⟨e, -, he⟩ := ht
  exact knows_of_resolve he

/-- Coercion of a raw value never fails for an unknown host type. -/
theorem coerceRaw_ne_unknownHostType {t : SchemaType} (ht : s.Knows t) (raw : Raw)
    (name : String) : s.coerceRaw t raw ≠ .error (.unknownHostType name) := by
  intro h
  cases coerceRaw_fails ht h with
  | «variable» hfailed => exact hfailed

/-- **What a built schema resolves a host type to.** A host type stands for the expression that the
    last step bound it to that succeeded; where that step added a type, for this type. If no step
    bound it, one of the five host types that are bound from the start stands for its scalar, and
    any other for nothing. A step that fails changes nothing at all. And a raw value is refused for
    an unknown host type exactly if the host type stands for nothing. -/
theorem resolveHost_lastBound (h : (new.run steps).build = .ok s) (host : HostType) :
    (∀ space, (∃ before step after e, new.BindsLast steps space host before step after e) ∨
      new.NeverBinds steps space host) ∧
    (∀ space before step after e, new.BindsLast steps space host before step after e →
      s.resolveHost space host = s.resolve space e ∧
        ∀ t, step = .type (.named t false) → s.resolveHost space host = some (.named t false)) ∧
    (new.NeverBinds steps .input host →
      s.resolveHost .input host =
        (HostType.builtin.lookup host).map fun k => .named (.scalar k) false) ∧
    (new.NeverBinds steps .output host → s.resolveHost .output host = none) ∧
    (∀ before step after error b', steps = before ++ step :: after →
      (InPlace.perform step).run (new.run before) = .error error b' →
        b' = new.run before ∧ new.run steps = new.run (before ++ after)) ∧
    ∀ (r : Resolver) (raw : Raw) (name : String), r.schema = s →
      (r.resolveByHost raw host = .error (.unknownHostType name) ↔
        name = host.name ∧ s.resolveHost .input host = none) := by
  refine ⟨fun space => bindsLast_or_neverBinds new steps space host, ?bound, ?start, ?nothing,
    fun before step after error b' hsplit hfailed => run_of_failed hsplit hfailed, ?unknown⟩
  case bound =>
    intro space before step after e hlast
    have hbound : s.resolveHost space host = s.resolve space e := by
      rw [resolveHost_build h, find?_run_of_bindsLast hlast, Option.bind_some]
    refine ⟨hbound, ?_⟩
    rintro t rfl
    obtain ⟨happly, hbinding⟩ := hlast.binds
    obtain ⟨host', hown, heq⟩ := Option.map_eq_some_iff.1 hbinding
    cases heq
    rw [hbound, resolve_named,
      named?_of_added h hlast.split happly (NamedType.isFor_of_ownHost? hown), Option.map_some]
  case start =>
    intro hnever
    rw [resolveHost_build h, find?_run_of_neverBinds hnever, find?_hosts_new]
    cases hhost : HostType.builtin.lookup host with
    | none => rfl
    | some k => exact resolve_builtin ⟨steps, h⟩ hhost
  case nothing =>
    intro hnever
    rw [resolveHost_build h, find?_run_of_neverBinds hnever, find?_hosts_new, Option.bind_none]
  case unknown =>
    rintro r raw name rfl
    rw [Resolver.resolveByHost]
    cases hhost : r.schema.resolveHost .input host with
    | none => simp [eq_comm]
    | some t => simp [coerceRaw_ne_unknownHostType (knows_of_resolveHost h hhost) raw name]

/-- A host type that is registered, then brought along by the points, while a second input object
    that brings it along is refused for its name; and integers of 32 bits, which are bound anew. -/
def reboundSteps : List Step :=
  .host .dynamic (.named "Int") :: (pointSteps ++
    [.type (.named (.inputObject { point with name := "Query" }) false),
      .host .int32 (.nonNull (.named "Int"))])

/-- The host type of dynamic records stands for the points, integers of 32 bits for integers without
    null, integers of 64 bits for what they stand for from the start, and lists for nothing. -/
theorem resolveHost_lastBound_points :
    ∃ s, (new.run reboundSteps).build = .ok s ∧
      s.resolveHost .input .dynamic = some (.named (.inputObject point) false) ∧
      s.resolveHost .input .int32 = s.resolve .input (.nonNull (.named "Int")) ∧
      s.resolveHost .input .int64 = some (.named (.scalar .int) false) ∧
      s.resolveHost .output .dynamic = none ∧
      ∀ (supplied : Variables) (raw : Raw),
        (Resolver.mk s supplied []).resolveByHost raw (.list .int32) =
          .error (.unknownHostType "alloc::vec::Vec<i32>") := by
  obtain ⟨s, hs⟩ : ∃ s, (new.run reboundSteps).build = .ok s := ⟨_, rfl⟩
  have hnever : ∀ space host, (reboundSteps.filterMap (·.binding? space)).lookup host = none →
      new.NeverBinds reboundSteps space host := by
    intro space host hnone before step after hsplit e hbinds
    have hmem : step ∈ reboundSteps := hsplit ▸ List.mem_append_right before List.mem_cons_self
    have hne := List.lookup_eq_none_iff.1 hnone _ (List.mem_filterMap.2 ⟨step, hmem, hbinds.2⟩)
    simp at hne
  obtain ⟨-, hdynamic, -⟩ := resolveHost_lastBound hs .dynamic
  obtain ⟨-, hint32, -⟩ := resolveHost_lastBound hs .int32
  obtain ⟨-, -, hint64, -⟩ := resolveHost_lastBound hs .int64
  obtain ⟨-, -, -, houtput, -⟩ := resolveHost_lastBound hs .dynamic
  obtain ⟨-, -, hlist, -, -, hunknown⟩ := resolveHost_lastBound hs (.list .int32)
  refine ⟨s, hs, ?_, ?_, hint64 (hnever _ _ rfl), houtput (hnever _ _ rfl), fun supplied raw => ?_⟩
  · refine (hdynamic .input [.host .dynamic (.named "Int")] _ _ _
      ⟨rfl, ⟨⟨_, rfl⟩, rfl⟩, ?_⟩).2 (.inputObject point) rfl
    -- the query root binds nothing, and the second input object fails
    refine neverBinds_cons.2 ⟨?_, neverBinds_cons.2 ⟨?_, neverBinds_cons.2 ⟨?_, ?_⟩⟩⟩
    · rintro e ⟨-, hbinding⟩
      cases hbinding
    · rintro e ⟨⟨b', happly⟩, -⟩
      cases happly
    · rintro e ⟨-, hbinding⟩
      have hhost : HostType.int32 = .dynamic := congrArg Prod.fst (Option.some.inj hbinding)
      revert hhost
      decide
    · rintro before step after hsplit
      cases before <;> cases hsplit
  · refine (hint32 .input (reboundSteps.take 4) _ _ _ ⟨rfl, ⟨⟨_, rfl⟩, rfl⟩, ?_⟩).1
    rintro before step after hsplit
    cases before <;> cases hsplit
  · exact (hunknown ⟨s, supplied, []⟩ raw _ rfl).2 ⟨rfl, hlist (hnever _ _ rfl)⟩

end Schema

end TypedQuery
