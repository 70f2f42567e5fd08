import TypedQuery.Proofs.Syntax.Balance

/-!
# The defaults of a schema text

Every default that a schema text declares is a constant literal: its names are names, its keys
ascend, and it stands in one bracket at least, so that it has forty-nine levels at most.

* `TypeSystem.Definition.defaults` -- the defaults that a definition declares;
* `TypeSystem.constant_of_parse` -- **each of them is a constant literal**.
-/

namespace TypedQuery

/-- More levels may be allowed. -/
theorem Literal.Constant.mono {n m : Nat} {V : Literal} (h : V.Constant n) (hle : n ≤ m) :
    V.Constant m := by
  induction h generalizing m with
  | enum hname hfree => exact .enum hname hfree
  | @list levels items _ ih =>
      obtain ⟨m, rfl⟩ := Nat.exists_eq_succ_of_ne_zero (by omega : m ≠ 0)
      exact .list fun item hitem => ih item hitem (Nat.le_of_succ_le_succ hle)
  | @object levels entries hnames hascending _ ih =>
      obtain ⟨m, rfl⟩ := Nat.exists_eq_succ_of_ne_zero (by omega : m ≠ 0)
      exact .object hnames hascending fun entry hentry =>
        ih entry hentry (Nat.le_of_succ_le_succ hle)
  | int _ | float _ | string _ | boolean _ | null => constructor

namespace TypeSystem

/-- The defaults of arguments, or of the fields of an input object. -/
def defaultsOf (vs : List InputValue) : List Literal := vs.filterMap (·.default)

/-- The defaults that the body of a type declares. -/
def TypeBody.defaults : TypeBody → List Literal
  | .object _ fields | .interface fields => fields.flatMap fun f => defaultsOf f.arguments
  | .inputObject fields => defaultsOf fields
  | .scalar | .union _ | .enum _ => []

/-- **The defaults that a definition declares.** -/
def Definition.defaults : Definition → List Literal
  | .type t => t.body.defaults
  | .directive d => defaultsOf d.arguments
  | .schema _ | .typeExtension => []

namespace Parse

open TypedQuery.Parser Lexeme

variable {opened : Nat}

/-! ## 1. Parts -/

theorem steady_description : Steady opened description fun _ => True := by
  refine (steady_sees _).bind fun b _ => ?_
  split
  · refine Leaves.bind leaves_token fun l opened' ⟨hopened, _⟩ => ?_
    split
    · rename_i htoken
      rw [htoken] at hopened
      cases hopened
      exact steady_pure trivial
    · exact fun ls a rest _ hp => by cases hp
  · exact steady_pure trivial

theorem steady_inputValue : Steady opened inputValue fun v =>
    ∀ V ∈ v.default, V.Constant (maxOpen - opened) :=
  steady_description.bind fun text _ => steady_name.bind fun key _ =>
    (steady_mark (by decide)).bind fun _ _ => (steady_typeExpr levels).bind fun type _ =>
      steady_defaultValue.bind fun default hdefault => steady_directives.bind fun _ _ =>
        steady_pure hdefault

/-- What stands in brackets has one level less. -/
theorem steady_inputValues {left right : Char} (hleft : Opens left) (hright : Closes right) :
    Steady opened (bracketed left right inputValue) fun vs =>
      ∀ V ∈ defaultsOf vs, V.Constant 49 := by
  refine (steady_bracketed hleft hright fun _ => steady_inputValue).weaken fun vs hvs V hV => ?_
  obtain ⟨v, hv, hdefault⟩ := List.mem_filterMap.1 hV
  exact (hvs v hv V hdefault).mono (by simp only [maxOpen]; omega)

theorem steady_fields : Steady opened fields fun fs =>
    ∀ f ∈ fs, ∀ V ∈ defaultsOf f.arguments, V.Constant 49 :=
  steady_bracketed (opens_of_mem (by decide)) closes_curly fun _ =>
    steady_description.bind fun text _ => steady_name.bind fun key _ =>
      (steady_inputValues (opens_of_mem (by decide)) closes_round).bind fun arguments harguments =>
        (steady_mark (by decide)).bind fun _ _ => (steady_typeExpr levels).bind fun type _ =>
          steady_directives.bind fun _ _ => steady_pure harguments

theorem steady_enumValues : Steady opened enumValues fun _ => True :=
  (steady_bracketed (opens_of_mem (by decide)) closes_curly fun _ =>
    steady_description.bind fun text _ => steady_name.bind fun key _ =>
      steady_directives.bind fun _ _ => @steady_pure _ _ _ (fun _ => True) trivial).weaken
        fun _ _ => trivial

theorem steady_namesBetween {c : Char} (h : c ∉ ['(', '[', '\x7b', ')', ']', '\x7d']) :
    Steady opened (namesBetween c) fun _ => True :=
  (steady_accept (neutral_isMark h)).bind fun _ _ =>
    (steady_separated h steady_name).weaken fun _ _ => trivial

theorem steady_interfaces : Steady opened interfaces fun _ => True := by
  refine (steady_accept (neutral_isName "implements")).bind fun b _ => ?_
  split
  · exact steady_namesBetween (by decide)
  · exact steady_pure trivial

theorem steady_members : Steady opened members fun _ => True := by
  refine (steady_accept (neutral_isMark (by decide))).bind fun b _ => ?_
  split
  · exact steady_namesBetween (by decide)
  · exact steady_pure trivial

theorem steady_location : Steady opened location fun _ => True := by
  refine steady_name.bind fun key _ => ?_
  split
  · exact steady_pure trivial
  · exact steady_failure

theorem steady_locations : Steady opened locations fun _ => True := by
  have hseparated : Steady opened (separated '|' location) fun _ => True :=
    (steady_separated (by decide) steady_location).weaken fun _ _ => trivial
  refine (steady_accept (neutral_isMark (by decide))).bind fun b _ => ?_
  split
  · exact hseparated
  · refine (steady_sees _).bind fun b _ => ?_
    split
    · exact hseparated
    · exact steady_pure trivial

/-! ## 2. Definitions -/

theorem steady_body (word : String) : Steady opened (body word) fun b =>
    ∀ V ∈ b.1.defaults, V.Constant 49 := by
  have hfields : ∀ {fs : List FieldDefinition},
      (∀ f ∈ fs, ∀ V ∈ defaultsOf f.arguments, V.Constant 49) →
      ∀ V ∈ fs.flatMap fun f => defaultsOf f.arguments, V.Constant 49 := by
    intro fs hfs V hV
    obtain ⟨f, hf, hV⟩ := List.mem_flatMap.1 hV
    exact hfs f hf V hV
  have hnone : ∀ {b : TypeBody × Bool}, b.1.defaults = [] → ∀ V ∈ b.1.defaults, V.Constant 49 := by
    intro b hb V hV
    rw [hb] at hV
    cases hV
  unfold body
  split
  · exact steady_directives.bind fun ds _ => steady_pure (hnone rfl)
  · exact steady_interfaces.bind fun is _ => steady_directives.bind fun ds _ =>
      steady_fields.bind fun fs hfs => steady_pure (hfields hfs)
  · exact steady_interfaces.bind fun is _ => steady_directives.bind fun ds _ =>
      steady_fields.bind fun fs hfs => steady_pure (hfields hfs)
  · exact steady_directives.bind fun ds _ => steady_members.bind fun ms _ =>
      steady_pure (hnone rfl)
  · exact steady_directives.bind fun ds _ => steady_enumValues.bind fun vs _ =>
      steady_pure (hnone rfl)
  · exact steady_directives.bind fun ds _ =>
      (steady_inputValues (opens_of_mem (by decide)) closes_curly).bind fun fs hfs =>
        steady_pure hfs
  · exact steady_failure

theorem steady_roots : Steady opened roots fun _ => True := by
  refine steady_directives.bind fun _ _ => Leaves.bind (leaves_open (opens_of_mem (by decide))) ?_
  rintro ⟨⟩ _ rfl
  have hpair : Steady (opened + 1) (do
      let key ← name
      mark ':'
      return (key, ← name)) fun _ => True :=
    steady_name.bind fun key _ => (steady_mark (by decide)).bind fun _ _ =>
      steady_name.bind fun type _ => steady_pure trivial
  refine (leaves_manyUntil closes_curly hpair).bind fun pairs _ ⟨heq, _⟩ => heq ▸ ?_
  exact steady_foldlM fun _ _ => steady_lift

theorem steady_directive (text : Option String) : Steady opened (directive text) fun d =>
    ∀ V ∈ defaultsOf d.arguments, V.Constant 49 :=
  (steady_mark (by decide)).bind fun _ _ => steady_name.bind fun key _ =>
    (steady_inputValues (opens_of_mem (by decide)) closes_round).bind fun arguments harguments =>
      (steady_accept (neutral_isName _)).bind fun repeatable _ => (steady_keyword "on").bind
        fun _ _ => steady_locations.bind fun places _ => steady_pure harguments

/-- **The defaults of a definition are constant literals.** -/
theorem steady_definition : Steady opened definition fun d =>
    ∀ V ∈ d.defaults, V.Constant 49 := by
  have hnone : ∀ {d : Definition}, d.defaults = [] → ∀ V ∈ d.defaults, V.Constant 49 := by
    intro d hd V hV
    rw [hd] at hV
    cases hV
  refine steady_description.bind fun text _ => steady_name.bind fun word _ => ?_
  split
  · split
    · exact steady_failure
    · exact steady_roots.map fun roots _ => hnone rfl
  · split
    · exact steady_failure
    · refine steady_name.bind fun word _ => steady_name.bind fun _ _ =>
        (steady_body word).bind fun ⟨_, addsSomething⟩ _ => ?_
      have hextension : ∀ V ∈ Definition.typeExtension.defaults, V.Constant 49 := hnone rfl
      cases addsSomething
      · exact steady_failure
      · exact steady_pure hextension
  · exact (steady_directive text).map fun d hd => hd
  · exact steady_name.bind fun key _ => (steady_body word).bind fun b hb => steady_pure hb

end Parse

/-- **The defaults of a schema text are constant literals** of forty-nine levels at most. -/
theorem constant_of_parse {source : String} {definitions : List Definition}
    (h : parse source = some definitions) {d : Definition} (hd : d ∈ definitions) {V : Literal}
    (hV : V ∈ d.defaults) : V.Constant 49 := by
  obtain ⟨ls, hls, hall⟩ := Option.bind_eq_some_iff.1 h
  exact Parser.mem_of_all Parse.steady_definition (Lexeme.sound_scanFrom hls) hall d hd V hV

end TypeSystem

end TypedQuery
