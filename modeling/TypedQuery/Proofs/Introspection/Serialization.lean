import TypedQuery.Introspection.Decode
import TypedQuery.Introspection.Describe
import TypedQuery.Introspection.Encode
import TypedQuery.Proofs.Json.Records
import TypedQuery.Proofs.Schema.Built

/-!
# Descriptions that are written and read

A description is written member by member, and its reader finds each member under its key: writers
and readers are paired (`Json.Paired`), for every kind of description and every number of containers
that may still be opened. So a description survives its text, and a text keeps what it tells.

* `TypeDescription.paired`, `SchemaDescription.paired` -- **writers and readers belong together**;
* `survives_text` -- **descriptions survive their texts**: what is written is read back, what is
  read is read again from its own text, and only unknown members and nulls are lost.
-/

namespace TypedQuery.Introspection

open Json

/-! ## 1. Keys -/

/-- What stands under each key of a description. -/
def shapeUnder : String → Shape
  | "kind" => .name
  | "fields" => .list (.record FieldDescription.keys)
  | "interfaces" | "possibleTypes" | "types" => .list (.record TypeDescription.keys)
  | "enumValues" => .list (.record EnumValueDescription.keys)
  | "args" | "inputFields" => .list (.record InputValueDescription.keys)
  | "locations" => .list .name
  | "directives" => .list (.record DirectiveDescription.keys)
  | "type" | "ofType" | "queryType" | "mutationType" | "subscriptionType" =>
    .record TypeDescription.keys
  | _ => .plain

/-! ## 2. Writers member by member -/

theorem written_cons (key : String) (value : Option Json) (rest : List (String × Option Json)) :
    written ((key, value) :: rest) = optionalMember key value ++ written rest := by
  cases value <;> rfl

theorem optionalMember_some (key : String) (j : Json) : optionalMember key (some j) = [(key, j)] :=
  rfl

/-- The members of an enumeration value. -/
def EnumValueDescription.members (v : EnumValueDescription) : List (String × Option Json) :=
  [("name", some (.string v.name)), ("description", v.description.map .string),
    ("isDeprecated", some (.boolean v.isDeprecated))]

theorem EnumValueDescription.toJson_eq (v : EnumValueDescription) :
    v.toJson = .object (written v.members) := by
  simp only [toJson, members, written_cons, optionalMember_some, written_nil, List.append_assoc,
    List.append_nil]

/-- The members of a type. -/
def TypeDescription.members (t : TypeDescription) : List (String × Option Json) :=
  [("kind", some (.string t.kind.name)), ("name", t.name.map .string),
    ("description", t.description.map .string),
    ("fields", t.fields.map fun fs => .array (fs.map FieldDescription.toJson)),
    ("interfaces", t.interfaces.map fun ts => .array (ts.map TypeDescription.toJson)),
    ("possibleTypes", t.possibleTypes.map fun ts => .array (ts.map TypeDescription.toJson)),
    ("enumValues", t.enumValues.map fun vs => .array (vs.map EnumValueDescription.toJson)),
    ("inputFields", t.inputFields.map fun vs => .array (vs.map InputValueDescription.toJson)),
    ("ofType", t.ofType.map TypeDescription.toJson)]

/-- The members of a field. -/
def FieldDescription.members (f : FieldDescription) : List (String × Option Json) :=
  [("name", some (.string f.name)), ("description", f.description.map .string),
    ("args", some (.array (f.args.map InputValueDescription.toJson))), ("type", some f.type.toJson)]

/-- The members of an argument or input field. -/
def InputValueDescription.members (v : InputValueDescription) : List (String × Option Json) :=
  [("name", some (.string v.name)), ("description", v.description.map .string),
    ("type", some v.type.toJson), ("defaultValue", v.defaultValue.map .string)]

/-- The members of a directive. -/
def DirectiveDescription.members (d : DirectiveDescription) : List (String × Option Json) :=
  [("name", some (.string d.name)), ("description", d.description.map .string),
    ("locations", some (.array (d.locations.map fun place => .string place.name))),
    ("args", some (.array (d.args.map InputValueDescription.toJson)))]

/-- The members of a schema. -/
def SchemaDescription.members (s : SchemaDescription) : List (String × Option Json) :=
  [("queryType", some s.queryType.toJson),
    ("mutationType", s.mutationType.map TypeDescription.toJson),
    ("subscriptionType", s.subscriptionType.map TypeDescription.toJson),
    ("types", some (.array (s.types.map TypeDescription.toJson))),
    ("directives", some (.array (s.directives.map DirectiveDescription.toJson)))]

theorem typeToJson?_eq_map (t : Option TypeDescription) :
    typeToJson? t = t.map TypeDescription.toJson := by
  cases t <;> rfl

theorem typesToJson?_eq_map (ts : Option (List TypeDescription)) :
    typesToJson? ts = ts.map fun ts => .array (ts.map TypeDescription.toJson) := by
  cases ts with
  | none => rfl
  | some ts => rw [typesToJson?, typesToJson_eq_map, Option.map_some]

theorem fieldsToJson?_eq_map (fs : Option (List FieldDescription)) :
    fieldsToJson? fs = fs.map fun fs => .array (fs.map FieldDescription.toJson) := by
  cases fs with
  | none => rfl
  | some fs => rw [fieldsToJson?, fieldsToJson_eq_map, Option.map_some]

theorem inputValuesToJson?_eq_map (vs : Option (List InputValueDescription)) :
    inputValuesToJson? vs = vs.map fun vs => .array (vs.map InputValueDescription.toJson) := by
  cases vs with
  | none => rfl
  | some vs => rw [inputValuesToJson?, inputValuesToJson_eq_map, Option.map_some]

theorem TypeDescription.toJson_eq (t : TypeDescription) :
    t.toJson = .object (written t.members) := by
  cases t
  simp only [toJson, members, written_cons, optionalMember_some, written_nil, List.append_assoc,
    List.append_nil, fieldsToJson?_eq_map, typesToJson?_eq_map, inputValuesToJson?_eq_map,
    typeToJson?_eq_map]

theorem FieldDescription.toJson_eq (f : FieldDescription) :
    f.toJson = .object (written f.members) := by
  cases f
  simp only [toJson, members, written_cons, optionalMember_some, written_nil, List.append_nil,
    inputValuesToJson_eq_map, List.cons_append, List.nil_append]

theorem InputValueDescription.toJson_eq (v : InputValueDescription) :
    v.toJson = .object (written v.members) := by
  cases v
  simp only [toJson, members, written_cons, optionalMember_some, written_nil, List.append_assoc,
    List.append_nil]

theorem DirectiveDescription.toJson_eq (d : DirectiveDescription) :
    d.toJson = .object (written d.members) := by
  simp only [toJson, members, written_cons, optionalMember_some, written_nil, List.append_nil,
    inputValuesToJson_eq_map, List.cons_append, List.nil_append]

theorem SchemaDescription.toJson_eq (s : SchemaDescription) :
    s.toJson = .object (written s.members) := by
  simp only [toJson, members, written_cons, optionalMember_some, written_nil, List.append_assoc,
    List.append_nil, typesToJson_eq_map, typeToJson?_eq_map, List.cons_append, List.nil_append]

/-! ## 3. Writers and readers -/

/-- Names out of a fixed set. -/
theorem paired_choice {α : Type} {name : α → String} {ofName? : String → Option α} (room : Nat)
    (hname : ∀ x, ofName? (name x) = some x) (hof : ∀ s x, ofName? s = some x → name x = s) :
    Paired shapeUnder room .name (fun x => .string (name x)) (choice room ofName?) where
  back x _ := ⟨.string _, hname x⟩
  told tree x hx := by
    unfold choice at hx
    split at hx
    · rw [hof _ _ hx]
      exact ⟨rfl, Nat.zero_le _⟩
    · split at hx
      · cases hx
      · rw [hof _ _ hx]
        exact ⟨rfl, Nat.zero_le _⟩
    · cases hx
  null := rfl

theorem TypeKind.name_of_ofName? (s : String) (kind : TypeKind) (h : ofName? s = some kind) :
    kind.name = s := by
  simpa using List.find?_some h

theorem name_of_locationOfName? (s : String) (place : DirectiveLocation)
    (h : DirectiveLocation.ofName? s = some place) : place.name = s := by
  simpa using List.find?_some h

theorem EnumValueDescription.paired : ∀ room,
    Paired shapeUnder room (.record keys) toJson (ofTree room)
  | 0 => .zero (fun v => toJson_eq v ▸ nesting_object_pos _) fun _ => rfl
  | room + 1 => by
    have hmembers : PairedMembers shapeUnder room (fun _ => True) _ _ :=
      .cons EnumValueDescription.name (.required "name" .string rfl) fun name =>
      .cons EnumValueDescription.description (.optional "description" .string rfl)
        fun description =>
      .cons isDeprecated (.required "isDeprecated" .boolean rfl) fun isDeprecated =>
      .nil ⟨name, description, isDeprecated⟩ fun v => by cases v; simp [and_assoc]
    exact (hmembers.record (fun _ => rfl) (by decide)).congr toJson_eq fun _ => rfl

theorem paired_enumValues : ∀ room,
    Paired shapeUnder room (.list (.record EnumValueDescription.keys))
      (fun vs => .array (vs.map EnumValueDescription.toJson)) (enumValuesOfTree room)
  | 0 => .zero (fun _ => nesting_array_pos _) fun _ => rfl
  | room + 1 =>
    (EnumValueDescription.paired room).list.congr (fun _ => rfl) fun tree => by cases tree <;> rfl

mutual

theorem TypeDescription.paired : ∀ room,
    Paired shapeUnder room (.record TypeDescription.keys) TypeDescription.toJson
      (TypeDescription.ofTree room)
  | 0 => .zero (fun t => TypeDescription.toJson_eq t ▸ nesting_object_pos _) fun _ => rfl
  | room + 1 => by
    have hkind := paired_choice room TypeKind.ofName?_name TypeKind.name_of_ofName?
    have hmembers : PairedMembers shapeUnder room (fun _ => True) _ _ :=
      .cons TypeDescription.kind (.required "kind" hkind rfl) fun kind =>
      .cons TypeDescription.name (.optional "name" .string rfl) fun name =>
      .cons TypeDescription.description (.optional "description" .string rfl) fun description =>
      .cons TypeDescription.fields (.optional "fields" (paired_fields room) rfl) fun fields =>
      .cons TypeDescription.interfaces (.optional "interfaces" (paired_types room) rfl)
        fun interfaces =>
      .cons TypeDescription.possibleTypes (.optional "possibleTypes" (paired_types room) rfl)
        fun possibleTypes =>
      .cons TypeDescription.enumValues (.optional "enumValues" (paired_enumValues room) rfl)
        fun enumValues =>
      .cons TypeDescription.inputFields (.optional "inputFields" (paired_inputValues room) rfl)
        fun inputFields =>
      .cons TypeDescription.ofType (.optional "ofType" (TypeDescription.paired room) rfl)
        fun ofType =>
      .nil ⟨kind, name, description, fields, interfaces, possibleTypes, enumValues, inputFields,
        ofType⟩ fun t => by cases t; simp [and_assoc]
    exact (hmembers.record (fun _ => rfl) (by decide)).congr TypeDescription.toJson_eq fun _ => rfl

theorem paired_types : ∀ room,
    Paired shapeUnder room (.list (.record TypeDescription.keys))
      (fun ts => .array (ts.map TypeDescription.toJson)) (typesOfTree room)
  | 0 => .zero (fun _ => nesting_array_pos _) fun _ => rfl
  | room + 1 =>
    (TypeDescription.paired room).list.congr (fun _ => rfl) fun tree => by cases tree <;> rfl

theorem FieldDescription.paired : ∀ room,
    Paired shapeUnder room (.record FieldDescription.keys) FieldDescription.toJson
      (FieldDescription.ofTree room)
  | 0 => .zero (fun t => FieldDescription.toJson_eq t ▸ nesting_object_pos _) fun _ => rfl
  | room + 1 => by
    have hmembers : PairedMembers shapeUnder room (fun _ => True) _ _ :=
      .cons FieldDescription.name (.required "name" .string rfl) fun name =>
      .cons FieldDescription.description (.optional "description" .string rfl) fun description =>
      .cons FieldDescription.args (.required "args" (paired_inputValues room) rfl) fun args =>
      .cons FieldDescription.type (.required "type" (TypeDescription.paired room) rfl) fun type =>
      .nil ⟨name, description, args, type⟩ fun f => by cases f; simp [and_assoc]
    exact (hmembers.record (fun _ => rfl) (by decide)).congr FieldDescription.toJson_eq fun _ => rfl

theorem paired_fields : ∀ room,
    Paired shapeUnder room (.list (.record FieldDescription.keys))
      (fun fs => .array (fs.map FieldDescription.toJson)) (fieldsOfTree room)
  | 0 => .zero (fun _ => nesting_array_pos _) fun _ => rfl
  | room + 1 =>
    (FieldDescription.paired room).list.congr (fun _ => rfl) fun tree => by cases tree <;> rfl

theorem InputValueDescription.paired : ∀ room,
    Paired shapeUnder room (.record InputValueDescription.keys) InputValueDescription.toJson
      (InputValueDescription.ofTree room)
  | 0 => .zero (fun t => InputValueDescription.toJson_eq t ▸ nesting_object_pos _) fun _ => rfl
  | room + 1 => by
    have hmembers : PairedMembers shapeUnder room (fun _ => True) _ _ :=
      .cons InputValueDescription.name (.required "name" .string rfl) fun name =>
      .cons InputValueDescription.description (.optional "description" .string rfl)
        fun description =>
      .cons InputValueDescription.type (.required "type" (TypeDescription.paired room) rfl)
        fun type =>
      .cons InputValueDescription.defaultValue (.optional "defaultValue" .string rfl)
        fun defaultValue =>
      .nil ⟨name, description, type, defaultValue⟩ fun v => by cases v; simp [and_assoc]
    exact (hmembers.record (fun _ => rfl) (by decide)).congr InputValueDescription.toJson_eq
      fun _ => rfl

theorem paired_inputValues : ∀ room,
    Paired shapeUnder room (.list (.record InputValueDescription.keys))
      (fun vs => .array (vs.map InputValueDescription.toJson)) (inputValuesOfTree room)
  | 0 => .zero (fun _ => nesting_array_pos _) fun _ => rfl
  | room + 1 =>
    (InputValueDescription.paired room).list.congr (fun _ => rfl) fun tree => by cases tree <;> rfl

end

theorem paired_locations : ∀ room,
    Paired shapeUnder room (.list .name)
      (fun places => .array (places.map fun place => .string place.name)) (locationsOfTree room)
  | 0 => .zero (fun _ => nesting_array_pos _) fun _ => rfl
  | room + 1 =>
    (paired_choice room DirectiveLocation.ofName?_name name_of_locationOfName?).list.congr
      (fun _ => rfl) fun tree => by cases tree <;> rfl

theorem DirectiveDescription.paired : ∀ room,
    Paired shapeUnder room (.record keys) toJson (ofTree room)
  | 0 => .zero (fun d => toJson_eq d ▸ nesting_object_pos _) fun _ => rfl
  | room + 1 => by
    have hmembers : PairedMembers shapeUnder room (fun _ => True) _ _ :=
      .cons DirectiveDescription.name (.required "name" .string rfl) fun name =>
      .cons DirectiveDescription.description (.optional "description" .string rfl)
        fun description =>
      .cons locations (.required "locations" (paired_locations room) rfl) fun locations =>
      .cons args (.required "args" (paired_inputValues room) rfl) fun args =>
      .nil ⟨name, description, locations, args⟩ fun d => by cases d; simp [and_assoc]
    exact (hmembers.record (fun _ => rfl) (by decide)).congr toJson_eq fun _ => rfl

theorem paired_directives : ∀ room,
    Paired shapeUnder room (.list (.record DirectiveDescription.keys))
      (fun ds => .array (ds.map DirectiveDescription.toJson)) (directivesOfTree room)
  | 0 => .zero (fun _ => nesting_array_pos _) fun _ => rfl
  | room + 1 =>
    (DirectiveDescription.paired room).list.congr (fun _ => rfl) fun tree => by cases tree <;> rfl

theorem SchemaDescription.paired : ∀ room,
    Paired shapeUnder room (.record keys) toJson (ofTree room)
  | 0 => .zero (fun s => toJson_eq s ▸ nesting_object_pos _) fun _ => rfl
  | room + 1 => by
    have htype := TypeDescription.paired room
    have hmembers : PairedMembers shapeUnder room (fun _ => True) _ _ :=
      .cons queryType (.required "queryType" htype rfl) fun queryType =>
      .cons mutationType (.optional "mutationType" htype rfl) fun mutationType =>
      .cons subscriptionType (.optional "subscriptionType" htype rfl) fun subscriptionType =>
      .cons types (.required "types" (paired_types room) rfl) fun types =>
      .cons directives (.required "directives" (paired_directives room) rfl) fun directives =>
      .nil ⟨queryType, mutationType, subscriptionType, types, directives⟩
        fun s => by cases s; simp [and_assoc]
    exact (hmembers.record (fun _ => rfl) (by decide)).congr toJson_eq fun _ => rfl

/-! ## 4. Texts -/

/-- **Descriptions survive their texts.** -/
structure Survives {α : Type} (keys : List String) (toJson : α → Json)
    (parse : String → Option α) : Prop where
  /-- What is written is read back, as long as a reader may open all its containers. -/
  readBack : ∀ x, (toJson x).nesting ≤ Tree.maxNesting → parse (toJson x).write = some x
  /-- What is read is read again from its own text. -/
  stable : ∀ text y, parse text = some y → parse (toJson y).write = some y
  /-- What is read is written as the text tells it: only unknown members and nulls are lost. -/
  kept : ∀ text y, parse text = some y →
    ∃ tree, Tree.parse text = some tree ∧ toJson y = tree.told shapeUnder (.record keys)

/-- A paired writer and reader make descriptions that survive their texts. -/
theorem survives_of_paired {α : Type} {keys : List String} {toJson : α → Json}
    {ofTree : Tree → Option α}
    (h : Paired shapeUnder Tree.maxNesting (.record keys) toJson ofTree) :
    Survives keys toJson fun text => (Tree.parse text).bind ofTree := by
  have hback : ∀ x, (toJson x).nesting ≤ Tree.maxNesting →
      (Tree.parse (toJson x).write).bind ofTree = some x := by
    intro x hx
    obtain ⟨htextual, hread⟩ := h.back x hx
    rw [htextual.parse_write, Option.bind_some, hread]
  refine ⟨hback, fun text y hy => ?_, fun text y hy => ?_⟩
  · obtain ⟨tree, -, hread⟩ := Option.bind_eq_some_iff.1 hy
    exact hback y (h.told tree y hread).2
  · obtain ⟨tree, htree, hread⟩ := Option.bind_eq_some_iff.1 hy
    exact ⟨tree, htree, (h.told tree y hread).1.symm⟩

/-- **Descriptions of schemas and of types survive their texts.** -/
theorem survives_text :
    Survives SchemaDescription.keys SchemaDescription.toJson SchemaDescription.parse ∧
      Survives TypeDescription.keys TypeDescription.toJson TypeDescription.parse :=
  ⟨survives_of_paired (SchemaDescription.paired _), survives_of_paired (TypeDescription.paired _)⟩

/-- The text of a type without a name and without fields, with a member that no type has. -/
def namelessObject : String :=
  "\x7b\"extra\": [], \"fields\": [], \"kind\": \"OBJECT\", \"name\": null\x7d"

/-- A schema is read back from its text. Of the type an unknown member and a null are lost, and the
    empty list is not. -/
theorem survives_text_points :
    SchemaDescription.parse Schema.points.describe.toJson.write = some Schema.points.describe ∧
    ∃ y, TypeDescription.parse namelessObject = some y ∧
      y.toJson.write = "\x7b\"kind\":\"OBJECT\",\"fields\":[]\x7d" ∧
      TypeDescription.parse "\x7b\"kind\":\"OBJECT\",\"fields\":[]\x7d" = some y ∧
      ∃ tree, Tree.parse namelessObject = some tree ∧
        y.toJson = tree.told shapeUnder (.record TypeDescription.keys) := by
  obtain ⟨hschema, htype⟩ := survives_text
  have hread : (TypeDescription.parse namelessObject).any
      (·.toJson.write == "\x7b\"kind\":\"OBJECT\",\"fields\":[]\x7d") = true := by decide +kernel
  obtain ⟨y, hy, hwritten⟩ := (Option.any_eq_true _ _).1 hread
  rw [beq_iff_eq] at hwritten
  refine ⟨hschema.readBack _ (by decide +kernel), y, hy, hwritten, ?_, htype.kept _ y hy⟩
  rw [← hwritten]
  exact htype.stable _ y hy

end TypedQuery.Introspection
