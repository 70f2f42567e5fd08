import TypedQuery.Json.Record
import TypedQuery.Proofs.Json.ReadBack

/-!
# Writers and readers that belong together

A record is written as an object of the members that are there, and read from an object by its keys
or from an array by its places. `Tree.told` says what a tree tells to a reader: what is left without
the members whose keys the reader does not know and the members that hold null. A writer and a
reader are `Paired` if the reader gives back what was written, and what it reads is written as the
tree told it. Both directions are needed at once: that a member which is read is not dropped as a
null follows from reading back what was written.

* `Json.Tree.told_of_entries?` -- **what a record tells, member by member**;
* `Json.Paired.list` -- **lists of paired items are paired**;
* `Json.PairedMembers.record` -- **records of paired members are paired**.
-/

namespace TypedQuery.Json

/-! ## 1. What a record is written as -/

/-- The members that are there. -/
def written (members : List (String × Option Json)) : List (String × Json) :=
  members.filterMap fun p => p.2.map fun j => (p.1, j)

@[simp] theorem written_nil : written [] = [] := rfl

@[simp] theorem written_none (key : String) (rest : List (String × Option Json)) :
    written ((key, none) :: rest) = written rest := rfl

@[simp] theorem written_some (key : String) (j : Json) (rest : List (String × Option Json)) :
    written ((key, some j) :: rest) = (key, j) :: written rest := rfl

theorem forall_written {members : List (String × Option Json)} {P : Json → Prop} :
    (∀ p ∈ written members, P p.2) ↔ ∀ p ∈ members, ∀ j ∈ p.2, P j := by
  constructor
  · intro h p hp j hj
    have hmap : (p.2.map fun j => (p.1, j)) = some (p.1, j) := by rw [Option.mem_def.1 hj]; rfl
    exact h (p.1, j) (List.mem_filterMap.2 ⟨p, hp, hmap⟩)
  · intro h q hq
    obtain ⟨p, hp, hmap⟩ := List.mem_filterMap.1 hq
    obtain ⟨j, hj, rfl⟩ := Option.map_eq_some_iff.1 hmap
    exact h p hp j hj

/-- The keys that are written are keys of the record, in their order. -/
theorem names_written_sublist (members : List (String × Option Json)) :
    (Entries.names (written members)).Sublist (members.map (·.1)) := by
  induction members with
  | nil => exact .slnil
  | cons p rest ih =>
      obtain ⟨key, _ | j⟩ := p
      · exact ih.cons key
      · exact ih.cons_cons key

/-- A written member is found under its key, and what is absent is not. -/
theorem lookup_written {members : List (String × Option Json)} (hnodup : (members.map (·.1)).Nodup)
    {p : String × Option Json} (hp : p ∈ members) : (written members).lookup p.1 = p.2 := by
  induction members with
  | nil => cases hp
  | cons q rest ih =>
      rw [List.map_cons, List.nodup_cons] at hnodup
      rcases List.mem_cons.1 hp with rfl | hrest
      · obtain ⟨key, _ | j⟩ := p
        · have hkey : key ∉ Entries.names (written rest) :=
            fun h => hnodup.1 ((names_written_sublist rest).mem h)
          rw [written_none, ← Option.not_isSome_iff_eq_none, Entries.isSome_lookup]
          simpa using hkey
        · rw [written_some, List.lookup_cons_self]
      · have hne : p.1 ≠ q.1 := fun h => hnodup.1 (h ▸ List.mem_map_of_mem hrest)
        obtain ⟨key, _ | j⟩ := q
        · exact ih hnodup.2 hrest
        · rw [written_some, List.lookup_cons, beq_eq_false_iff_ne.2 hne]
          exact ih hnodup.2 hrest

/-! ## 2. What a tree tells -/

/-- What a reader expects: a text or a truth value, a name out of a fixed set, a record with its
    keys, or a list. -/
inductive Shape
  | plain
  | name
  | record (keys : List String)
  | list (of : Shape)

/-- The value under a key, if it is there and not null. -/
def present (members : List (String × Json)) (key : String) : Option Json :=
  match members.lookup key with
  | some .null => none
  | found => found

/-- The known members that are there, in the order of the keys. -/
def known (keys : List String) (members : List (String × Json)) : List (String × Json) :=
  written (keys.map fun key => (key, present members key))

namespace Tree

mutual

/-- **What a tree tells** to a reader of a shape, where `under` gives what stands under each key:
    members with other keys and members that hold null are left out, a record in an array has its
    keys by its places, and a name may stand as the only key of an object that holds null. -/
def told (under : String → Shape) : Shape → Tree → Json
  | .record keys, .object members => .object (known keys (toldMembers under members))
  | .record keys, .array items => .object (known keys (toldRow under keys items))
  | .list of, .array items => .array (toldItems under of items)
  | .name, .object [(some s, .null)] => .string s
  | _, .string (some s) => .string s
  | _, .boolean b => .boolean b
  | _, _ => .null

/-- What items tell. -/
def toldItems (under : String → Shape) (of : Shape) : List Tree → List Json
  | [] => []
  | item :: rest => told under of item :: toldItems under of rest

/-- What the members of an object tell. -/
def toldMembers (under : String → Shape) : List (Option String × Tree) → List (String × Json)
  | [] => []
  | (some key, tree) :: rest => (key, told under (under key) tree) :: toldMembers under rest
  | (none, _) :: rest => toldMembers under rest

/-- What the items of a record in an array tell. -/
def toldRow (under : String → Shape) : List String → List Tree → List (String × Json)
  | key :: keys, item :: rest => (key, told under (under key) item) :: toldRow under keys rest
  | _, _ => []

end

theorem told_null (under : String → Shape) (shape : Shape) : told under shape .null = .null := by
  cases shape <;> rfl

/-- What the members of a record tell. -/
def toldEntries (under : String → Shape) (entries : List (String × Tree)) : List (String × Json) :=
  entries.map fun p => (p.1, p.2.told under (under p.1))

section Entries

variable {under : String → Shape} {keys : List String} {entries : List (String × Tree)}

theorem lookup_toldEntries (key : String) :
    (toldEntries under entries).lookup key = (entries.lookup key).map (told under (under key)) :=
  Entries.lookup_map_snd (fun key => told under (under key)) entries key

/-- An object whose keys are readable is made of them. -/
theorem eq_map_of_mapM_key {members : List (Option String × Tree)}
    (h : (members.mapM fun (p : Option String × Tree) => p.1.map fun key => (key, p.2)) =
      some entries) : members = entries.map fun p => (some p.1, p.2) := by
  induction members generalizing entries with
  | nil =>
      cases h
      rfl
  | cons p rest ih =>
      rw [List.mapM_cons] at h
      obtain ⟨q, hq, h⟩ := Option.bind_eq_some_iff.1 h
      obtain ⟨more, hmore, h⟩ := Option.bind_eq_some_iff.1 h
      cases h
      obtain ⟨key, hkey, rfl⟩ := Option.map_eq_some_iff.1 hq
      rw [List.map_cons, ← ih hmore, ← hkey]

theorem toldMembers_map :
    toldMembers under (entries.map fun p => (some p.1, p.2)) = toldEntries under entries := by
  induction entries with
  | nil => rfl
  | cons p rest ih =>
      rw [List.map_cons, toldMembers, ih]
      rfl

theorem toldRow_eq (items : List Tree) :
    toldRow under keys items = toldEntries under (keys.zip items) := by
  induction keys generalizing items with
  | nil => cases items <;> rfl
  | cons key keys ih =>
      cases items with
      | nil => rfl
      | cons item rest =>
          rw [toldRow, ih]
          rfl

/-- Only the known keys count. -/
theorem lookup_filter_known {key : String} (hkey : key ∈ keys) :
    (entries.filter fun p => keys.contains p.1).lookup key = entries.lookup key := by
  induction entries with
  | nil => rfl
  | cons p rest ih =>
      obtain ⟨other, tree⟩ := p
      by_cases h : key = other
      · subst h
        rw [List.filter_cons_of_pos (by simpa using hkey), List.lookup_cons_self,
          List.lookup_cons_self]
      · have hne : (key == other) = false := beq_eq_false_iff_ne.2 h
        rw [List.filter_cons]
        split
        · rw [List.lookup_cons, hne, List.lookup_cons, hne]
          exact ih
        · rw [List.lookup_cons, hne]
          exact ih

/-- **What a record tells, member by member**, whether it stands in an object or in an array. -/
theorem told_of_entries? {tree : Tree} (h : entries? keys tree = some entries) :
    tree.told under (.record keys) = .object (known keys (toldEntries under entries)) := by
  cases tree with
  | array items =>
      simp only [entries?] at h
      split at h
      · cases h
        rw [told, toldRow_eq]
      · cases h
  | object members =>
      simp only [entries?, record?, Option.bind_eq_bind] at h
      obtain ⟨all, hall, h⟩ := Option.bind_eq_some_iff.1 h
      split at h
      · cases h
        rw [told, eq_map_of_mapM_key hall, toldMembers_map, known, known]
        refine congrArg (fun ms => Json.object (written ms)) ?_
        refine List.map_congr_left fun key hkey => ?_
        rw [present, present, lookup_toldEntries, lookup_toldEntries, lookup_filter_known hkey]
      · cases h
  | null | boolean _ | number _ | string _ => cases h

/-- A written record is read with all that was written. -/
theorem entries?_written {members : List (String × Option Json)}
    (hkeys : members.map (·.1) = keys) (hnodup : keys.Nodup) :
    entries? keys (Json.object (written members)).asTree =
      some ((written members).map fun p => (p.1, p.2.asTree)) := by
  have htree : (Json.object (written members)).asTree = .object
      (((written members).map fun p => (p.1, p.2.asTree)).map fun p => (some p.1, p.2)) := by
    rw [asTree, treesOfMembers_eq_map, List.map_map]
    rfl
  have hsublist : (Entries.names (written members)).Sublist keys :=
    hkeys ▸ names_written_sublist members
  have hnames : Entries.names ((written members).map fun p => (p.1, p.2.asTree)) =
      Entries.names (written members) := by
    rw [Entries.names, List.map_map]
    rfl
  have hknown : ((written members).map fun p => (p.1, p.2.asTree)).filter
      (fun p => keys.contains p.1) = (written members).map fun p => (p.1, p.2.asTree) := by
    refine List.filter_eq_self.2 fun p hp => ?_
    have hname : p.1 ∈ Entries.names (written members) := hnames ▸ List.mem_map_of_mem hp
    simpa using hsublist.mem hname
  rw [htree]
  show record? keys (.object _) = _
  rw [record?, Option.bind_eq_bind, mapM_map_eq_some, Option.bind_some, hknown]
  · exact if_pos (hnames ▸ hnodup.sublist hsublist)
  · exact fun p _ => rfl

end Entries

end Tree

/-! ## 3. Writers and readers -/

section Pairs

variable {α β : Type} {under : String → Shape} {room : Nat} {shape : Shape} {key : String}
variable {toJson : α → Json} {read : Tree → Option α}

/-- A writer and a reader belong together, with `room` for containers inside each other. -/
structure Paired (under : String → Shape) (room : Nat) (shape : Shape) (toJson : α → Json)
    (read : Tree → Option α) : Prop where
  /-- What is written is read. -/
  back : ∀ x, (toJson x).nesting ≤ room → (toJson x).Textual ∧ read (toJson x).asTree = some x
  /-- What is read is written as it was told. -/
  told : ∀ tree x, read tree = some x →
    tree.told under shape = toJson x ∧ (toJson x).nesting ≤ room
  /-- Nothing is read from null. -/
  null : read .null = none

/-- What is read is not written as null. -/
theorem Paired.ne_null (h : Paired under room shape toJson read) {x : α}
    (hx : (toJson x).nesting ≤ room) : toJson x ≠ .null := by
  intro hnull
  have hback := (h.back x hx).2
  rw [hnull, asTree, h.null] at hback
  cases hback

/-- A writer and a reader of the member under a key belong together. -/
structure PairedUnder (under : String → Shape) (room : Nat) (key : String)
    (toJson? : α → Option Json) (read : List (String × Tree) → Option α) : Prop where
  back : ∀ x entries, (∀ j ∈ toJson? x, j.nesting ≤ room) →
    entries.lookup key = (toJson? x).map asTree →
    (∀ j ∈ toJson? x, j.Textual) ∧ read entries = some x
  told : ∀ entries x, read entries = some x →
    present (Tree.toldEntries under entries) key = toJson? x ∧ ∀ j ∈ toJson? x, j.nesting ≤ room

/-- A writer and a reader are the same if they do the same. -/
theorem Paired.congr (h : Paired under room shape toJson read) {toJson' : α → Json}
    {read' : Tree → Option α} (hwrite : ∀ x, toJson' x = toJson x)
    (hread : ∀ tree, read' tree = read tree) : Paired under room shape toJson' read' :=
  funext hwrite ▸ funext hread ▸ h

/-- Where nothing may be opened, no container is written or read. -/
theorem Paired.zero (hwrite : ∀ x, 0 < (toJson x).nesting) (hread : ∀ tree, read tree = none) :
    Paired under 0 shape toJson read where
  back x hroom := absurd hroom (Nat.not_le_of_gt (hwrite x))
  told tree x hx := by
    rw [hread] at hx
    cases hx
  null := hread _

/-- Texts. -/
theorem Paired.string : Paired under room .plain .string Tree.string? where
  back x _ := ⟨.string x, rfl⟩
  told tree x hx := by
    cases tree with
    | string s =>
        cases hx
        exact ⟨rfl, Nat.zero_le _⟩
    | null | boolean _ | number _ | array _ | object _ => cases hx
  null := rfl

/-- Truth values. -/
theorem Paired.boolean : Paired under room .plain .boolean Tree.boolean? where
  back x _ := ⟨.boolean x, rfl⟩
  told tree x hx := by
    cases tree with
    | boolean b =>
        cases hx
        exact ⟨rfl, Nat.zero_le _⟩
    | null | string _ | number _ | array _ | object _ => cases hx
  null := rfl

/-- The items of an array, each read on its own. -/
def Tree.list? (read : Tree → Option α) : Tree → Option (List α)
  | .array items => items.mapM read
  | _ => none

/-- **Lists of paired items are paired.** -/
theorem Paired.list (h : Paired under room shape toJson read) :
    Paired under (room + 1) (.list shape) (fun xs => .array (xs.map toJson)) (Tree.list? read) where
  back xs hroom := by
    rw [nesting_array_le] at hroom
    have hitems : ∀ x ∈ xs, (toJson x).Textual ∧ read (toJson x).asTree = some x :=
      fun x hx => h.back x (hroom _ (List.mem_map_of_mem hx))
    refine ⟨.array (List.forall_mem_map.2 fun x hx => (hitems x hx).1), ?_⟩
    rw [asTree, Tree.list?, treesOfItems_eq_map, List.map_map]
    exact mapM_map_eq_some fun x hx => (hitems x hx).2
  told tree xs hx := by
    cases tree with
    | array items =>
        rw [Tree.told, nesting_array_le]
        have hitems : Tree.toldItems under shape items = xs.map toJson ∧
            ∀ x ∈ xs, (toJson x).nesting ≤ room := by
          replace hx : items.mapM read = some xs := hx
          induction items generalizing xs with
          | nil =>
              cases hx
              exact ⟨rfl, fun x hx => (by cases hx)⟩
          | cons item rest ih =>
              rw [List.mapM_cons] at hx
              obtain ⟨x, hfirst, hx⟩ := Option.bind_eq_some_iff.1 hx
              obtain ⟨more, hmore, hx⟩ := Option.bind_eq_some_iff.1 hx
              cases hx
              obtain ⟨htold, hroom⟩ := h.told item x hfirst
              obtain ⟨htolds, hrooms⟩ := ih more hmore
              refine ⟨?_, List.forall_mem_cons.2 ⟨hroom, hrooms⟩⟩
              rw [Tree.toldItems, htold, htolds, List.map_cons]
        exact ⟨congrArg Json.array hitems.1, List.forall_mem_map.2 hitems.2⟩
    | null | boolean _ | number _ | string _ | object _ => cases hx
  null := rfl

/-- A member that is read is written as it was told. -/
theorem Paired.present (h : Paired under room shape toJson read) (hshape : under key = shape)
    {entries : List (String × Tree)} {tree : Tree} {x : α}
    (hlookup : entries.lookup key = some tree) (hread : read tree = some x) :
    Json.present (Tree.toldEntries under entries) key = some (toJson x) ∧
      (toJson x).nesting ≤ room := by
  obtain ⟨htold, hroom⟩ := h.told tree x hread
  refine ⟨?_, hroom⟩
  rw [Json.present, Tree.lookup_toldEntries, hlookup, Option.map_some, hshape, htold]
  have hnull := h.ne_null hroom
  split
  · next hsome => exact absurd (Option.some.inj hsome) hnull
  · rfl

/-- A member that must be there. -/
theorem PairedUnder.required (key : String) (h : Paired under room shape toJson read)
    (hshape : under key = shape) :
    PairedUnder under room key (fun x => some (toJson x)) (Tree.required · key read) where
  back x entries hroom hlookup := by
    obtain ⟨htextual, hread⟩ := h.back x (hroom _ rfl)
    refine ⟨fun j hj => Option.some.inj hj ▸ htextual, ?_⟩
    rw [Tree.required, hlookup]
    exact hread
  told entries x hx := by
    obtain ⟨tree, hlookup, hread⟩ := Option.bind_eq_some_iff.1 hx
    obtain ⟨hpresent, hroom⟩ := h.present hshape hlookup hread
    exact ⟨hpresent, fun j hj => Option.some.inj hj ▸ hroom⟩

/-- A member that may be missing or null. -/
theorem PairedUnder.optional (key : String) (h : Paired under room shape toJson read)
    (hshape : under key = shape) :
    PairedUnder under room key (fun x => x.map toJson) (Tree.optional · key read) where
  back x entries hroom hlookup := by
    cases x with
    | none =>
        refine ⟨fun j hj => (by cases hj), ?_⟩
        rw [Tree.optional, hlookup]
        rfl
    | some x =>
        obtain ⟨htextual, hread⟩ := h.back x (hroom _ rfl)
        refine ⟨fun j hj => Option.some.inj hj ▸ htextual, ?_⟩
        rw [Tree.optional, hlookup]
        simp only [Option.map_some]
        split
        · next hnone => cases hnone
        · next hnull =>
          rw [Option.some.inj hnull, h.null] at hread
          cases hread
        · next hsome => rw [← Option.some.inj hsome, hread, Option.map_some]
  told entries x hx := by
    simp only [Tree.optional] at hx
    split at hx
    · next hlookup =>
      cases hx
      rw [Json.present, Tree.lookup_toldEntries, hlookup]
      exact ⟨rfl, fun j hj => by cases hj⟩
    · next hlookup =>
      cases hx
      rw [Json.present, Tree.lookup_toldEntries, hlookup, Option.map_some, Tree.told_null]
      exact ⟨rfl, fun j hj => by cases hj⟩
    · next hlookup =>
      obtain ⟨y, hread, rfl⟩ := Option.map_eq_some_iff.1 hx
      obtain ⟨hpresent, hroom⟩ := h.present hshape hlookup hread
      exact ⟨hpresent, fun j hj => Option.some.inj hj ▸ hroom⟩

/-- A writer and a reader of some members of a record belong together. `C` says what the members
    read before these are, so that the last ones make the record. -/
structure PairedMembers (under : String → Shape) (room : Nat) (C : α → Prop)
    (members : α → List (String × Option Json)) (read : List (String × Tree) → Option α) :
    Prop where
  back : ∀ x entries, C x →
    (∀ p ∈ members x, (∀ j ∈ p.2, j.nesting ≤ room) ∧ entries.lookup p.1 = p.2.map asTree) →
    (∀ p ∈ members x, ∀ j ∈ p.2, j.Textual) ∧ read entries = some x
  told : ∀ entries x, read entries = some x →
    C x ∧ ∀ p ∈ members x, Json.present (Tree.toldEntries under entries) p.1 = p.2 ∧
      ∀ j ∈ p.2, j.nesting ≤ room

variable {C : α → Prop} {members : α → List (String × Option Json)}

/-- All members are read: they make the record. -/
theorem PairedMembers.nil (x : α) (h : ∀ y, C y ↔ y = x) :
    PairedMembers under room C (fun _ => []) fun _ => some x where
  back y entries hy _ := ⟨fun p hp => (by cases hp), congrArg some ((h y).1 hy).symm⟩
  told entries y hy := ⟨(h y).2 (Option.some.inj hy).symm, fun p hp => by cases hp⟩

/-- One more member is read in front of the others. -/
theorem PairedMembers.cons (get : α → β) {toJson? : β → Option Json}
    {first : List (String × Tree) → Option β} {rest : β → List (String × Tree) → Option α}
    (hfirst : PairedUnder under room key toJson? first)
    (hrest : ∀ b, PairedMembers under room (fun x => C x ∧ get x = b) members (rest b)) :
    PairedMembers under room C (fun x => (key, toJson? (get x)) :: members x) fun entries =>
      (first entries).bind fun b => rest b entries where
  back x entries hC h := by
    rw [List.forall_mem_cons] at h
    obtain ⟨⟨hroom, hlookup⟩, hmore⟩ := h
    obtain ⟨htextual, hread⟩ := hfirst.back (get x) entries hroom hlookup
    obtain ⟨htextuals, hreads⟩ := (hrest (get x)).back x entries ⟨hC, rfl⟩ hmore
    refine ⟨List.forall_mem_cons.2 ⟨htextual, htextuals⟩, ?_⟩
    rw [hread, Option.bind_some, hreads]
  told entries x hx := by
    obtain ⟨b, hb, hx⟩ := Option.bind_eq_some_iff.1 hx
    obtain ⟨⟨hC, rfl⟩, hmore⟩ := (hrest b).told entries x hx
    exact ⟨hC, List.forall_mem_cons.2 ⟨hfirst.told entries _ hb, hmore⟩⟩

/-- **A record of paired members is paired.** -/
theorem PairedMembers.record {keys : List String} {read : List (String × Tree) → Option α}
    (h : PairedMembers under room (fun _ => True) members read)
    (hkeys : ∀ x, (members x).map (·.1) = keys) (hnodup : keys.Nodup) :
    Paired under (room + 1) (.record keys) (fun x => .object (written (members x))) fun tree =>
      (Tree.entries? keys tree).bind read where
  back x hroom := by
    have hnesting := (forall_written (P := (·.nesting ≤ room))).1 (nesting_object_le.1 hroom)
    have hlookup : ∀ p ∈ members x,
        ((written (members x)).map fun q => (q.1, q.2.asTree)).lookup p.1 = p.2.map asTree :=
      fun p hp => by
        rw [Entries.lookup_map_snd fun _ => asTree, lookup_written (hkeys x ▸ hnodup) hp]
    obtain ⟨htextual, hread⟩ := h.back x _ trivial fun p hp => ⟨hnesting p hp, hlookup p hp⟩
    refine ⟨.object (forall_written.2 htextual), ?_⟩
    rw [Tree.entries?_written (hkeys x) hnodup, Option.bind_some, hread]
  told tree x hx := by
    obtain ⟨entries, hentries, hread⟩ := Option.bind_eq_some_iff.1 hx
    obtain ⟨-, hmembers⟩ := h.told entries x hread
    have hnesting := (forall_written (P := (·.nesting ≤ room))).2 fun p hp => (hmembers p hp).2
    refine ⟨?_, nesting_object_le.2 hnesting⟩
    rw [Tree.told_of_entries? hentries, known, ← hkeys x, List.map_map]
    have hsame : ∀ p ∈ members x, (p.1, Json.present (Tree.toldEntries under entries) p.1) = id p :=
      fun p hp => congrArg (Prod.mk p.1) (hmembers p hp).1
    exact congrArg (fun ms => Json.object (written ms))
      ((List.map_congr_left hsame).trans (List.map_id _))
  null := rfl

end Pairs

end TypedQuery.Json
