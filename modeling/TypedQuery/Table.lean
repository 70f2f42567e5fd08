/-!
# Tables of names

Where the order of names shows in an answer, names and values are kept as a list of pairs.

* `Entries.put` writes a value under a name: a new name goes to the end, a name that is already
  there keeps its place and takes the new value;
* a lookup is `List.lookup`, the first entry of the name;
* a `Table` is such a list in which no name stands twice, built by `insert` alone.

**Main statements**: `Entries.lookup_put` (what a lookup finds after a write) and
`Entries.names_put` (what a write does to the order of the names); of a table that is written pair
by pair, `Table.find?_ofList` and `Table.names_ofList`.
-/

namespace TypedQuery

/-! ## 1. Lists of pairs -/

namespace Entries

variable {α β : Type}

/-- The names, in order. -/
def names (entries : List (String × α)) : List String := entries.map (·.1)

/-- The value under a name is replaced in its place; a new name goes to the end. -/
def put : List (String × α) → String → α → List (String × α)
  | [], name, value => [(name, value)]
  | (other, held) :: rest, name, value =>
    if other = name then (other, value) :: rest else (other, held) :: put rest name value

@[simp] theorem names_nil : names ([] : List (String × α)) = [] := rfl

@[simp] theorem names_cons (p : String × α) (rest : List (String × α)) :
    names (p :: rest) = p.1 :: names rest := rfl

/-- A lookup succeeds exactly at the names of the list. -/
theorem isSome_lookup (entries : List (String × α)) (name : String) :
    (entries.lookup name).isSome = (names entries).contains name := by
  induction entries with
  | nil => rfl
  | cons p rest ih =>
    obtain ⟨other, held⟩ := p
    by_cases h : name = other
    · subst h; simp
    · have h' : (name == other) = false := by simpa using h
      simp only [List.lookup_cons, h', ih]
      simp [h]

/-- What a lookup finds is an entry. -/
theorem mem_of_lookup {entries : List (String × α)} {name : String} {value : α}
    (h : entries.lookup name = some value) : (name, value) ∈ entries := by
  obtain ⟨before, after, rfl, -⟩ := List.lookup_eq_some_iff.1 h
  exact List.mem_append_right before List.mem_cons_self

/-- A lookup among entries whose values are mapped. -/
theorem lookup_map_snd (f : String → α → β) (entries : List (String × α)) (key : String) :
    (entries.map fun p => (p.1, f p.1 p.2)).lookup key = (entries.lookup key).map (f key) := by
  induction entries with
  | nil => rfl
  | cons p rest ih =>
      obtain ⟨other, held⟩ := p
      by_cases h : key = other
      · subst h
        rw [List.map_cons, List.lookup_cons_self, List.lookup_cons_self, Option.map_some]
      · have hne : (key == other) = false := beq_eq_false_iff_ne.2 h
        rw [List.map_cons, List.lookup_cons, hne, List.lookup_cons, hne]
        exact ih

/-- **What a lookup finds after a write**: the new value under its name, the old ones elsewhere. -/
theorem lookup_put (entries : List (String × α)) (name key : String) (value : α) :
    (put entries name value).lookup key =
      if key = name then some value else entries.lookup key := by
  induction entries with
  | nil =>
    by_cases h : key = name
    · subst h; simp [put]
    · have h' : (key == name) = false := by simpa using h
      simp [put, List.lookup_cons, h, h']
  | cons p rest ih =>
    obtain ⟨other, held⟩ := p
    by_cases ho : other = name
    · subst ho
      by_cases hk : key = other
      · subst hk; simp [put]
      · have hk' : (key == other) = false := by simpa using hk
        simp [put, List.lookup_cons, hk, hk']
    · by_cases hk : key = other
      · subst hk; simp [put, ho]
      · have hk' : (key == other) = false := by simpa using hk
        simp [put, ho, List.lookup_cons, hk', ih]

/-- **What a write does to the order**: nothing where the name stands, else the name comes last. -/
theorem names_put (entries : List (String × α)) (name : String) (value : α) :
    names (put entries name value) =
      if name ∈ names entries then names entries else names entries ++ [name] := by
  induction entries with
  | nil => simp [put]
  | cons p rest ih =>
    obtain ⟨other, held⟩ := p
    by_cases ho : other = name
    · subst ho; simp [put]
    · have ho' : name ≠ other := fun e => ho e.symm
      simp only [put, ho, if_false, names_cons, ih, List.mem_cons, ho', false_or]
      split <;> simp

/-- A new name goes to the end. -/
theorem put_of_not_mem {entries : List (String × α)} {name : String}
    (h : name ∉ names entries) (value : α) :
    put entries name value = entries ++ [(name, value)] := by
  induction entries with
  | nil => rfl
  | cons p rest ih =>
      obtain ⟨other, held⟩ := p
      simp only [names_cons, List.mem_cons, not_or] at h
      have hne : ¬ other = name := fun he => h.1 he.symm
      simp [put, hne, ih h.2]

/-- Where no name stands twice, each entry is found. -/
theorem lookup_of_mem {entries : List (String × α)} (hdistinct : (names entries).Nodup)
    {name : String} {value : α} (h : (name, value) ∈ entries) :
    entries.lookup name = some value := by
  induction entries with
  | nil => cases h
  | cons p rest ih =>
      obtain ⟨other, held⟩ := p
      rw [names_cons, List.nodup_cons] at hdistinct
      rcases List.mem_cons.1 h with heq | hrest
      · cases heq
        exact List.lookup_cons_self
      · have hname : name ∈ names rest := List.mem_map.2 ⟨_, hrest, rfl⟩
        have hne : (name == other) = false :=
          beq_false_of_ne fun heq => hdistinct.1 (heq ▸ hname)
        rw [List.lookup_cons, hne]
        exact ih hdistinct.2 hrest

/-- A write keeps the names apart. -/
theorem nodup_names_put {entries : List (String × α)} (h : (names entries).Nodup)
    (name : String) (value : α) : (names (put entries name value)).Nodup := by
  rw [names_put]
  split
  · exact h
  · rename_i hn
    refine List.nodup_append.2 ⟨h, by simp, fun a ha b hb e => hn ?_⟩
    simp only [List.mem_singleton] at hb
    exact hb ▸ e ▸ ha

/-- All pairs written in order: the first place and the last value of each name. -/
def collapse (entries : List (String × α)) : List (String × α) :=
  entries.foldl (fun acc p => put acc p.1 p.2) []

/-- Names that are apart are written one after the other. -/
theorem collapse_eq_self {entries : List (String × α)} (h : (names entries).Nodup) :
    collapse entries = entries := by
  have hfold : ∀ acc : List (String × α), (names (acc ++ entries)).Nodup →
      entries.foldl (fun acc p => put acc p.1 p.2) acc = acc ++ entries := by
    clear h
    induction entries with
    | nil => exact fun acc _ => (List.append_nil acc).symm
    | cons p rest ih =>
        intro acc hnames
        have hfree : p.1 ∉ names acc := by
          rw [names, List.map_append, List.nodup_append] at hnames
          exact fun hp => hnames.2.2 p.1 hp p.1 List.mem_cons_self rfl
        rw [List.foldl_cons, put_of_not_mem hfree, ih, List.append_assoc, List.singleton_append]
        rwa [List.append_assoc, List.singleton_append]
  exact hfold [] h

end Entries

/-! ## 2. Tables -/

/-- Names with their values, each name once, in the order in which they were first written. -/
structure Table (α : Type) where
  /-- The pairs, in order. -/
  entries : List (String × α)
  /-- No name stands twice. -/
  distinct : (Entries.names entries).Nodup

namespace Table

variable {α β : Type}

/-- The table without names. -/
def empty : Table α := ⟨[], List.nodup_nil⟩

instance : EmptyCollection (Table α) := ⟨empty⟩
instance : Inhabited (Table α) := ⟨empty⟩

/-- The value under a name. -/
def find? (t : Table α) (name : String) : Option α := t.entries.lookup name

/-- Whether the table has the name. -/
def contains (t : Table α) (name : String) : Bool := (t.find? name).isSome

/-- Writes a value under a name: first place, last value. -/
def insert (t : Table α) (name : String) (value : α) : Table α :=
  ⟨Entries.put t.entries name value, Entries.nodup_names_put t.distinct name value⟩

/-- The names, in order. -/
def names (t : Table α) : List String := Entries.names t.entries

/-- The values, in the order of their names. -/
def values (t : Table α) : List α := t.entries.map (·.2)

/-- The table of a list of pairs, written in order. -/
def ofList (entries : List (String × α)) : Table α :=
  entries.foldl (fun t p => t.insert p.1 p.2) empty

/-- A lookup in a table after a write. -/
@[simp] theorem find?_insert (t : Table α) (name key : String) (value : α) :
    (t.insert name value).find? key = if key = name then some value else t.find? key :=
  Entries.lookup_put t.entries name key value

@[simp] theorem find?_empty (key : String) : (empty : Table α).find? key = none := rfl

/-- The names of a table after a write. -/
theorem names_insert (t : Table α) (name : String) (value : α) :
    (t.insert name value).names = if name ∈ t.names then t.names else t.names ++ [name] :=
  Entries.names_put t.entries name value

/-- A new name goes to the end of a table. -/
theorem entries_insert_of_free {t : Table α} {name : String} (h : t.contains name = false)
    (value : α) : (t.insert name value).entries = t.entries ++ [(name, value)] := by
  refine Entries.put_of_not_mem (fun hmem => ?_) value
  have hfound : t.contains name = true := by
    rw [contains, find?, Entries.isSome_lookup]
    simpa using hmem
  rw [h] at hfound
  cases hfound

/-- **In a table of pairs the last value of a name is found.** -/
theorem find?_ofList (entries : List (String × α)) (name : String) :
    (ofList entries).find? name = entries.reverse.lookup name := by
  have hfold : ∀ t : Table α, (entries.foldl (fun t p => t.insert p.1 p.2) t).find? name =
      (entries.reverse.lookup name).or (t.find? name) := by
    induction entries with
    | nil => exact fun t => rfl
    | cons p rest ih =>
        obtain ⟨key, value⟩ := p
        intro t
        have hlast : [(key, value)].lookup name = if name = key then some value else none := by
          by_cases hname : name = key <;> simp [List.lookup_cons, hname, beq_false_of_ne]
        rw [List.foldl_cons, ih, find?_insert, List.reverse_cons, List.lookup_append, hlast,
          Option.or_assoc]
        split <;> simp
  rw [ofList, hfold]
  simp

/-- **The names of a table of pairs** stand where they were first written. -/
theorem names_ofList (entries : List (String × α)) :
    (ofList entries).names = (Entries.names entries).eraseDups := by
  have hfold : ∀ t : Table α, (entries.foldl (fun t p => t.insert p.1 p.2) t).names =
      t.names ++ ((Entries.names entries).removeAll t.names).eraseDups := by
    induction entries with
    | nil => exact fun t => (List.append_nil _).symm
    | cons p rest ih =>
        obtain ⟨key, value⟩ := p
        intro t
        rw [List.foldl_cons, ih, names_insert, Entries.names_cons]
        by_cases hkey : key ∈ t.names
        · simp [List.cons_removeAll, hkey]
        · have hrest : (Entries.names rest).removeAll (t.names ++ [key]) =
              ((Entries.names rest).removeAll t.names).filter fun name => !name == key := by
            rw [List.removeAll, List.removeAll, List.filter_filter]
            refine List.filter_congr fun name _ => ?_
            by_cases hname : name ∈ t.names <;> by_cases heq : name = key <;> simp [hname, heq]
          simp [List.cons_removeAll, hkey, List.eraseDups_cons, hrest]
  have hnone : (Entries.names entries).removeAll (empty : Table α).names = Entries.names entries :=
    List.filter_eq_self.2 fun name _ => rfl
  rw [ofList, hfold, hnone]
  rfl

/-- A table of pairs holds them as a list holds them that is written pair by pair. -/
theorem entries_ofList (entries : List (String × α)) :
    (ofList entries).entries = Entries.collapse entries := by
  have hfold : ∀ t : Table α, (entries.foldl (fun t p => t.insert p.1 p.2) t).entries =
      entries.foldl (fun acc p => Entries.put acc p.1 p.2) t.entries := by
    induction entries with
    | nil => exact fun t => rfl
    | cons p rest ih => exact fun t => ih (t.insert p.1 p.2)
  exact hfold empty

/-- What a table holds under a name is found. -/
theorem find?_eq_some_iff {t : Table α} {name : String} {value : α} :
    t.find? name = some value ↔ (name, value) ∈ t.entries :=
  ⟨Entries.mem_of_lookup, Entries.lookup_of_mem t.distinct⟩

/-- A table has exactly the names it lists. -/
theorem contains_eq (t : Table α) (name : String) : t.contains name = t.names.contains name :=
  Entries.isSome_lookup t.entries name

/-- What is found in a table is one of its values. -/
theorem mem_values_of_find? {t : Table α} {name : String} {value : α}
    (h : t.find? name = some value) : value ∈ t.values :=
  List.mem_map_of_mem (Entries.mem_of_lookup h)

end Table

end TypedQuery
