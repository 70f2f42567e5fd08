import TypedQuery.Proofs.Coercion.Position
import TypedQuery.Proofs.Coercion.Readings

/-!
# Ways into a literal

The parts of a literal by the way that leads to them, and what the schema and coercion make of such
a way.

* `Turn` -- an item of a list or a key of an object; `Literal.At` -- the part at the end of a way;
  `Literal.parts` -- all parts in the order of the text, each with the way to it;
* `Schema.Declares` -- **the named type that a way leads to**, if every key on it is declared; lists
  are looked through, so nothing depends on how many there are;
* `Schema.positionAt` -- the type of the position at the end of a way;
* `Reading.LeadsTo` -- the readings that coercion goes on with, each with the way to its literal;
* `Reading.LeadsTo.declares` -- **whatever is read at the end of a way** is the part there, at a
  type of the named type that the way leads to;
* `coerceLiteral_arrives` -- **what has a value is read as far as keys are declared**, and its
  position has a type.
-/

namespace TypedQuery

open SchemaType

/-- One turn on the way to a part of a literal. -/
inductive Turn
  | item (index : Nat)
  | key (name : String)
deriving DecidableEq

/-! ## 1. Parts of a literal -/

namespace Literal

/-- **The part at the end of a way.** A key stands for its first entry. -/
inductive At : Literal → List Turn → Literal → Prop
  | here {l : Literal} : At l [] l
  | item {items : List Literal} {i : Nat} {item x : Literal} {way : List Turn}
      (mem : items[i]? = some item) (rest : At item way x) : At (.list items) (.item i :: way) x
  | key {entries : List (String × Literal)} {k : String} {value x : Literal} {way : List Turn}
      (entry : entries.lookup k = some value) (rest : At value way x) :
      At (.object entries) (.key k :: way) x

/-- There is one part at the end of a way. -/
theorem At.unique {l x y : Literal} {way : List Turn} (h : l.At way x) (h' : l.At way y) :
    x = y := by
  induction h with
  | here =>
      cases h'
      rfl
  | item hmem _ ih =>
      cases h' with
      | item hmem' hrest =>
          obtain rfl := Option.some.inj (hmem.symm.trans hmem')
          exact ih hrest
  | key hentry _ ih =>
      cases h' with
      | key hentry' hrest =>
          obtain rfl := Option.some.inj (hentry.symm.trans hentry')
          exact ih hrest

mutual

/-- No object in the literal repeats a key. -/
def DistinctKeys : Literal → Prop
  | .list items => distinctKeysOfItems items
  | .object entries => (Entries.names entries).Nodup ∧ distinctKeysOfEntries entries
  | .variable _ | .int _ | .float _ | .string _ | .boolean _ | .enum _ | .null => True

/-- So it is with items. -/
def distinctKeysOfItems : List Literal → Prop
  | [] => True
  | item :: rest => item.DistinctKeys ∧ distinctKeysOfItems rest

/-- So it is with entries. -/
def distinctKeysOfEntries : List (String × Literal) → Prop
  | [] => True
  | (_, value) :: rest => value.DistinctKeys ∧ distinctKeysOfEntries rest

end

/-- A part behind one more turn. -/
def behind (turn : Turn) (part : List Turn × Literal) : List Turn × Literal :=
  (turn :: part.1, part.2)

mutual

/-- The parts inside a literal, in the order of the text. -/
def inside : Literal → List (List Turn × Literal)
  | .list items => insideOfItems 0 items
  | .object entries => insideOfEntries entries
  | .variable _ | .int _ | .float _ | .string _ | .boolean _ | .enum _ | .null => []

/-- Items, the first of which has the index, each with the parts inside it. -/
def insideOfItems (i : Nat) : List Literal → List (List Turn × Literal)
  | [] => []
  | item :: rest =>
    ([.item i], item) :: item.inside.map (behind (.item i)) ++ insideOfItems (i + 1) rest

/-- The values of entries, each with the parts inside it. -/
def insideOfEntries : List (String × Literal) → List (List Turn × Literal)
  | [] => []
  | (key, value) :: rest =>
    ([.key key], value) :: value.inside.map (behind (.key key)) ++ insideOfEntries rest

end

/-- **All parts of a literal**, itself among them. -/
def parts (l : Literal) : List (List Turn × Literal) := ([], l) :: l.inside

theorem insideOfItems_cons (i : Nat) (item : Literal) (rest : List Literal) :
    insideOfItems i (item :: rest) =
      item.parts.map (behind (.item i)) ++ insideOfItems (i + 1) rest := by
  rw [insideOfItems]
  rfl

theorem insideOfEntries_cons (key : String) (value : Literal) (rest : List (String × Literal)) :
    insideOfEntries ((key, value) :: rest) =
      value.parts.map (behind (.key key)) ++ insideOfEntries rest := by
  rw [insideOfEntries]
  rfl

/-- A part behind a turn is the literal there or a part inside it. -/
theorem at_of_mem_behind {l x : Literal} {turn : Turn} {way : List Turn}
    (h : ∀ {inner y}, (inner, y) ∈ l.inside → l.At inner y)
    (hmem : (way, x) ∈ l.parts.map (behind turn)) :
    ∃ inner, way = turn :: inner ∧ l.At inner x := by
  obtain ⟨⟨inner, y⟩, hpart, heq⟩ := List.mem_map.1 hmem
  cases heq
  refine ⟨inner, rfl, ?_⟩
  rcases List.mem_cons.1 hpart with hself | hinside
  · cases hself
    exact .here
  · exact h hinside

mutual

theorem at_of_mem_inside : ∀ (l : Literal) {way : List Turn} {x : Literal},
    l.DistinctKeys → (way, x) ∈ l.inside → l.At way x
  | .list items, _, _, hdistinct, h => by
      obtain ⟨j, item, rest, rfl, hitem, hrest⟩ := at_of_mem_insideOfItems items 0 hdistinct h
      rw [Nat.zero_add]
      exact .item hitem hrest
  | .object entries, _, _, hdistinct, h => by
      obtain ⟨key, value, rest, rfl, hentry, hrest⟩ :=
        at_of_mem_insideOfEntries entries hdistinct.2 h
      exact .key (Entries.lookup_of_mem hdistinct.1 hentry) hrest
  | .variable _, _, _, _, h | .int _, _, _, _, h | .float _, _, _, _, h
  | .string _, _, _, _, h | .boolean _, _, _, _, h | .enum _, _, _, _, h
  | .null, _, _, _, h => by cases h

theorem at_of_mem_insideOfItems : ∀ (items : List Literal) (i : Nat) {way : List Turn}
    {x : Literal}, distinctKeysOfItems items → (way, x) ∈ insideOfItems i items →
    ∃ j item rest, way = .item (i + j) :: rest ∧ items[j]? = some item ∧ item.At rest x
  | [], _, _, _, _, h => by cases h
  | item :: rest, i, _, _, hdistinct, h => by
      rw [insideOfItems_cons, List.mem_append] at h
      rcases h with h | h
      · obtain ⟨inner, rfl, hat⟩ := at_of_mem_behind (at_of_mem_inside item hdistinct.1) h
        exact ⟨0, item, inner, rfl, rfl, hat⟩
      · obtain ⟨j, item', inner, rfl, hitem, hat⟩ :=
          at_of_mem_insideOfItems rest (i + 1) hdistinct.2 h
        exact ⟨j + 1, item', inner, by rw [Nat.add_right_comm, Nat.add_assoc], hitem, hat⟩

theorem at_of_mem_insideOfEntries : ∀ (entries : List (String × Literal)) {way : List Turn}
    {x : Literal}, distinctKeysOfEntries entries → (way, x) ∈ insideOfEntries entries →
    ∃ key value rest, way = .key key :: rest ∧ (key, value) ∈ entries ∧ value.At rest x
  | [], _, _, _, h => by cases h
  | (key, value) :: rest, _, _, hdistinct, h => by
      rw [insideOfEntries_cons, List.mem_append] at h
      rcases h with h | h
      · obtain ⟨inner, rfl, hat⟩ := at_of_mem_behind (at_of_mem_inside value hdistinct.1) h
        exact ⟨key, value, inner, rfl, List.mem_cons_self, hat⟩
      · obtain ⟨key', value', inner, rfl, hentry, hat⟩ :=
          at_of_mem_insideOfEntries rest hdistinct.2 h
        exact ⟨key', value', inner, rfl, List.mem_cons_of_mem _ hentry, hat⟩

end

/-- **Each part is at the end of its way**, if no key is repeated. -/
theorem at_of_mem_parts {l x : Literal} {way : List Turn} (hdistinct : l.DistinctKeys)
    (h : (way, x) ∈ l.parts) : l.At way x := by
  rcases List.mem_cons.1 h with hself | hinside
  · cases hself
    exact .here
  · exact at_of_mem_inside l hdistinct hinside

end Literal

/-! ## 2. What the schema makes of a way -/

namespace Schema

/-- **The named type that a way leads to** from a named type. Every key on it is declared; lists are
    looked through. In a built schema the type of a declared key always has a name that is known. -/
inductive Declares (s : Schema) : NamedType → List Turn → NamedType → Prop
  | here {n : NamedType} : Declares s n [] n
  | item {n m : NamedType} {i : Nat} {way : List Turn} (rest : Declares s n way m) :
      Declares s n (.item i :: way) m
  | key {o : InputObjectType} {f : InputField} {n m : NamedType} {way : List Turn}
      (declared : f ∈ o.fields) (type : s.named? .input f.type.innerName = some n)
      (rest : Declares s n way m) : Declares s (.inputObject o) (.key f.name :: way) m

/-- The type of the position at the end of a way. -/
def positionAt (s : Schema) : Option SchemaType → List Turn → Option SchemaType
  | t, [] => t
  | t, .item _ :: way => s.positionAt (t.bind SchemaType.member?) way
  | t, .key k :: way => s.positionAt (t.bind (s.entryType · k)) way

variable {s : Schema}

namespace Declares

variable {n m : NamedType} {way : List Turn}

theorem eq_of_nil (h : s.Declares n [] m) : n = m := by
  cases h
  rfl

theorem of_item {i : Nat} (h : s.Declares n (.item i :: way) m) : s.Declares n way m := by
  cases h with
  | item hrest => exact hrest

theorem of_key {k : String} (h : s.Declares n (.key k :: way) m) :
    ∃ o f n', n = .inputObject o ∧ f ∈ o.fields ∧ f.name = k ∧
      s.named? .input f.type.innerName = some n' ∧ s.Declares n' way m := by
  cases h with
  | key hdeclared htype hrest => exact ⟨_, _, _, rfl, hdeclared, rfl, htype, hrest⟩

end Declares

end Schema

/-! ## 3. What coercion reads -/

namespace Reading

/-- **The readings that one goes on with**, each with the way to its literal. The whole literal as
    the only member of a list is no turn. -/
inductive LeadsTo (s : Schema) (lookup : VariableLookup) : Reading → List Turn → Reading → Prop
  | here {p : Reading} : LeadsTo s lookup p [] p
  | single {room : Nat} {of : SchemaType} {required : Bool} {l : Literal} {v : Coerced}
      {way : List Turn} {q : Reading} (proper : l.isProper = true)
      (read : coerceLiteral s lookup room of l = .ok v)
      (rest : LeadsTo s lookup ⟨room, of, l⟩ way q) :
      LeadsTo s lookup ⟨room + 1, .list of required, l⟩ way q
  | item {room : Nat} {of : SchemaType} {required : Bool} {items : List Literal} {i : Nat}
      {item : Literal} {way : List Turn} {q : Reading}
      (noMember : ∀ v, coerceLiteral s lookup room of (.list items) ≠ .ok v)
      (mem : items[i]? = some item) (rest : LeadsTo s lookup ⟨room, of, item⟩ way q) :
      LeadsTo s lookup ⟨room + 1, .list of required, .list items⟩ (.item i :: way) q
  | field {room : Nat} {o : InputObjectType} {required : Bool}
      {entries : List (String × Literal)} {f : InputField} {value : Literal} {t : SchemaType}
      {way : List Turn} {q : Reading} (declared : f ∈ o.fields)
      (supplied : entries.lookup f.name = some value) (type : s.resolve .input f.type = some t)
      (rest : LeadsTo s lookup ⟨room, t, value⟩ way q) :
      LeadsTo s lookup ⟨room + 1, .named (.inputObject o) required, .object entries⟩
        (.key f.name :: way) q

namespace LeadsTo

variable {s : Schema} {lookup : VariableLookup} {p q : Reading} {way : List Turn}

theorem visits (h : p.LeadsTo s lookup way q) : p.Visits s lookup q := by
  induction h with
  | here => exact .refl
  | single hproper hread _ ih => exact .head (.single hproper hread) ih
  | item hno hmem _ ih => exact .head (.item hno (List.mem_of_getElem? hmem)) ih
  | field hdeclared hsupplied htype _ ih => exact .head (.field hdeclared hsupplied htype) ih

/-- What is read at the end of a way is the part there. -/
theorem literal_at (h : p.LeadsTo s lookup way q) : p.literal.At way q.literal := by
  induction h with
  | here => exact .here
  | single _ _ _ ih => exact ih
  | item _ hmem _ ih => exact .item hmem ih
  | field _ hsupplied _ _ ih => exact .key hsupplied ih

/-- **It is read at a type of the named type that the way leads to.** -/
theorem declares (h : p.LeadsTo s lookup way q) :
    s.Declares p.type.namedType way q.type.namedType := by
  induction h with
  | here => exact .here
  | single _ _ _ ih => exact ih
  | item _ _ _ ih => exact .item ih
  | field hdeclared _ htype _ ih => exact .key hdeclared (Schema.namedType_of_resolve htype) ih

end LeadsTo

end Reading

section Positions

variable {s : Schema} {lookup : VariableLookup}

/-- What there is to say of a way of coercion: its position has a type of the named type, and a
    reading leads there. -/
def Reading.Arrives (s : Schema) (lookup : VariableLookup) (p : Reading) (position : SchemaType)
    (way : List Turn) (m : NamedType) : Prop :=
  (∃ w, s.positionAt (some position) way = some w ∧ w.namedType = m) ∧ ∃ q, p.LeadsTo s lookup way q

theorem arrives_nil {p : Reading} {position : SchemaType} {m : NamedType}
    (h : s.Declares position.namedType [] m) : p.Arrives s lookup position [] m :=
  ⟨⟨position, rfl, h.eq_of_nil⟩, p, .here⟩

/-- **What has a value is read as far as keys are declared**, and its position has a type of the
    named type that the way leads to. Coercion may have fewer lists left around the named type than
    the position has. -/
theorem coerceLiteral_arrives (hs : s.Built) {room : Nat} {t position : SchemaType}
    {l x : Literal} {v : Coerced} {way : List Turn} {m : NamedType} (hknown : s.Knows position)
    (hwithin : t.Within position) (h : coerceLiteral s lookup room t l = .ok v)
    (hat : l.At way x) (hdeclares : s.Declares position.namedType way m) :
    Reading.Arrives s lookup ⟨room, t, l⟩ position way m := by
  induction room generalizing t position l v way with
  | zero => cases h
  | succ room ih =>
      cases coerceLiteral_cases h with
      | isVariable _ _ | isNull _ | enum _ =>
          cases hat with
          | here => exact arrives_nil hdeclares
      | @scalar k required _ _ _ hread =>
          cases hat with
          | here => exact arrives_nil hdeclares
          | item _ _ => exact absurd h (coerceLiteral_list_ne_ok (.scalar k) required _ v)
          | key _ _ =>
              obtain ⟨_, _, kind⟩ := k
              cases kind <;> cases hread
      | single hproper hread _ =>
          obtain ⟨htype, q, hq⟩ := ih hknown hwithin.member hread hat hdeclares
          exact ⟨htype, q, .single hproper hread hq⟩
      | items hno hread =>
          cases hat with
          | here => exact arrives_nil hdeclares
          | @item _ i item _ way hmem hrest =>
              obtain ⟨inner, hinner, hin⟩ := hwithin.member?
              obtain ⟨w, -, hw⟩ := exists_of_mapM_eq_ok hread (List.mem_of_getElem? hmem)
              have hnamed : position.namedType = inner.namedType :=
                SchemaType.namedType_of_member? hinner
              have hdeclares := hdeclares.of_item
              rw [hnamed] at hdeclares
              obtain ⟨⟨u, hu, hm⟩, q, hq⟩ := ih (hknown.member hinner) hin hw hrest hdeclares
              rw [← hinner] at hu
              exact ⟨⟨u, hu, hm⟩, q, .item hno hmem hq⟩
      | @object o required entries _ hread =>
          cases hat with
          | here => exact arrives_nil hdeclares
          | @key _ k value _ way hentry hrest =>
              obtain ⟨o', f, n, ho', hf, rfl, hn, hdeclares⟩ := hdeclares.of_key
              have ho : position.namedType = .inputObject o := hwithin.namedType_eq.symm
              cases ho.symm.trans ho'
              obtain ⟨found, hfound⟩ := InputObjectType.exists_of_assemble_eq_ok hread hf
              cases found with
              | none => cases hentry.symm.trans (Schema.readEntry_eq_none.1 hfound)
              | some w =>
                  obtain ⟨value', ft, hvalue', hft, hw⟩ := Schema.readEntry_eq_some.1 hfound
                  obtain rfl := Option.some.inj (hentry.symm.trans hvalue')
                  obtain rfl := Option.some.inj (hn.symm.trans (Schema.namedType_of_resolve hft))
                  obtain ⟨⟨u, hu, hm⟩, q, hq⟩ :=
                    ih (Schema.knows_of_resolve hft) .refl hw hrest hdeclares
                  have hdistinct := hs.distinct_of_knows hknown ho
                  rw [← hft, ← Schema.entryType_of_mem ho hdistinct hf] at hu
                  exact ⟨⟨u, hu, hm⟩, q, .field hf hentry hft hq⟩

end Positions

end TypedQuery
