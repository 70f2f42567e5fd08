import TypedQuery.Proofs.Json.Numerals

/-!
# JSON texts that are written and read

What is written is taken apart into what it says: strings with their escapes, arrays and objects
with all they hold, in order, and the numbers that are read back on their own.

* `Json.stringBody_escape` -- a written string is read up to its closing quote;
* `Json.Within.reads` -- a written value is read, whatever stands behind it;
* `Json.Within.parse_write` -- **a written text is taken apart into its value**;
* `Json.Within.parse` -- **and read as the value**, if no name stands twice in an object and not
  too many containers stand inside each other.
-/

namespace TypedQuery.Json

open Decimal (isDigit)

/-! ## 1. Strings -/

theorem hexValue_digitChar : ∀ n < 16, hexValue (Nat.digitChar n) = some n := by decide

/-- The escape of a control character spells its number. -/
theorem fourHex_control {c : Char} (h : c.toNat < 0x20) :
    fourHex '0' '0' (Nat.digitChar (c.toNat / 16)) (Nat.digitChar (c.toNat % 16)) =
      some c.toNat := by
  have hhigh := hexValue_digitChar (c.toNat / 16) (by omega)
  have hlow := hexValue_digitChar (c.toNat % 16) (by omega)
  have hzero : hexValue '0' = some 0 := by decide
  simp only [fourHex, hzero, hhigh, hlow, Option.bind_eq_bind, Option.bind_some, Option.pure_def,
    Option.some.injEq]
  omega

/-- A character that needs no escape is read as itself. -/
theorem stringBody_plain {c : Char} (hquote : c ≠ '"') (hslash : c ≠ '\\')
    (hplain : ¬c.toNat < 0x20) (rest : List Char) :
    stringBody (c :: rest) = (stringBody rest).bind fun p => some (c.toNat :: p.1, p.2) := by
  rw [stringBody.eq_def]
  split
  case h_5 h =>
    cases h
    simp [hplain]
  · contradiction
  all_goals
    next h =>
      cases h
      contradiction

/-- A character is read as it was escaped. -/
theorem stringBody_escapeChar (c : Char) (rest : List Char) :
    stringBody (escapeChar c ++ rest) =
      (stringBody rest).bind fun p => some (c.toNat :: p.1, p.2) := by
  unfold escapeChar
  split
  case h_8 hquote hslash _ _ _ _ _ =>
    split
    · next hcontrol => simp [controlEscape, stringBody, fourHex_control hcontrol]
    · next hplain => exact stringBody_plain hquote hslash hplain rest
  all_goals rfl

/-- **A written string is read up to its closing quote.** -/
theorem stringBody_escape (s rest : List Char) :
    stringBody (s.flatMap escapeChar ++ '"' :: rest) = some (s.map Char.toNat, rest) := by
  induction s with
  | nil => rfl
  | cons c s ih =>
      rw [List.flatMap_cons, List.append_assoc, stringBody_escapeChar, ih]
      rfl

/-- No character is half of a pair. -/
theorem not_surrogate (c : Char) : ¬(0xD800 ≤ c.toNat ∧ c.toNat ≤ 0xDFFF) := by
  rintro ⟨hlow, hhigh⟩
  rcases c.valid with h | h
  · exact absurd h (Nat.not_lt.2 hlow)
  · exact absurd h.1 (Nat.not_lt.2 hhigh)

theorem joinSurrogates_toNat (cs : List Char) : joinSurrogates (cs.map Char.toNat) = some cs := by
  induction cs with
  | nil => rfl
  | cons c cs ih =>
      have hc := not_surrogate c
      cases cs with
      | nil => simp [joinSurrogates, hc]
      | cons d cs =>
          have hhigh : ¬(0xD800 ≤ c.toNat ∧ c.toNat ≤ 0xDBFF) := by omega
          have hlow : ¬(0xDC00 ≤ c.toNat ∧ c.toNat ≤ 0xDFFF) := by omega
          rw [List.map_cons] at ih
          simp [joinSurrogates, hhigh, hlow, ih]

/-- **The code points of a text stand for it.** -/
theorem textOf_toNat (s : String) : textOf (s.toList.map Char.toNat) = some s := by
  rw [textOf, joinSurrogates_toNat, Option.map_some, String.ofList_toList]

/-! ## 2. Values -/

mutual

/-- A value taken apart. -/
def asTree : Json → Tree
  | .null => .null
  | .boolean b => .boolean b
  | .number n => .number (some n)
  | .string s => .string (some s)
  | .array items => .array (treesOfItems items)
  | .object members => .object (treesOfMembers members)

/-- Items taken apart. -/
def treesOfItems : List Json → List Tree
  | [] => []
  | item :: rest => item.asTree :: treesOfItems rest

/-- Members taken apart. -/
def treesOfMembers : List (String × Json) → List (Option String × Tree)
  | [] => []
  | (key, value) :: rest => (some key, value.asTree) :: treesOfMembers rest

end

theorem treesOfItems_eq_map (items : List Json) : treesOfItems items = items.map asTree := by
  induction items with
  | nil => rfl
  | cons item rest ih => rw [treesOfItems, ih, List.map_cons]

theorem treesOfMembers_eq_map (members : List (String × Json)) :
    treesOfMembers members = members.map fun p => (some p.1, p.2.asTree) := by
  induction members with
  | nil => rfl
  | cons p rest ih => rw [treesOfMembers, ih, List.map_cons]

/-- A value without numbers. -/
inductive Textual : Json → Prop
  | null : Textual .null
  | boolean (b : Bool) : Textual (.boolean b)
  | string (s : String) : Textual (.string s)
  | array {items : List Json} (h : ∀ j ∈ items, Textual j) : Textual (.array items)
  | object {members : List (String × Json)} (h : ∀ p ∈ members, Textual p.2) :
      Textual (.object members)

/-- A value with a condition on its numbers and one on the names of each of its objects. -/
inductive Within (P : Number → Prop) (K : List String → Prop) : Json → Prop
  | null : Within P K .null
  | boolean (b : Bool) : Within P K (.boolean b)
  | number {n : Number} (h : P n) : Within P K (.number n)
  | string (s : String) : Within P K (.string s)
  | array {items : List Json} (h : ∀ j ∈ items, Within P K j) : Within P K (.array items)
  | object {members : List (String × Json)} (hnames : K (Entries.names members))
      (h : ∀ p ∈ members, Within P K p.2) : Within P K (.object members)

theorem Textual.within {P : Number → Prop} {j : Json} (h : j.Textual) :
    j.Within P fun _ => True := by
  induction h with
  | null => exact .null
  | boolean b => exact .boolean b
  | string s => exact .string s
  | array _ ih => exact .array ih
  | object _ ih => exact .object trivial ih

theorem skipBlanks_cons {c : Char} (h : isBlank c = false) (cs : List Char) :
    skipBlanks (c :: cs) = c :: cs :=
  List.dropWhile_cons_of_neg (by rw [h]; decide)

variable {K : List String → Prop}

/-- A written value starts with no blank, and not as an array ends. -/
theorem Within.chars_eq_cons {j : Json} (h : j.Within Number.ReadsBack K) :
    ∃ c cs, j.chars = c :: cs ∧ isBlank c = false ∧ c ≠ ']' := by
  cases h with
  | null => exact ⟨_, _, rfl, by decide, by decide⟩
  | boolean b => cases b <;> exact ⟨_, _, rfl, by decide, by decide⟩
  | @number n h =>
      obtain ⟨c, cs, hchars, hc⟩ := exists_of_numberText h
      refine ⟨c, cs, hchars, Number.isBlank_of_mem_write (hchars ▸ List.mem_cons_self), ?_⟩
      rintro rfl
      rcases hc with hc | hc <;> cases hc
  | string s => exact ⟨_, _, rfl, by decide, by decide⟩
  | array _ => exact ⟨_, _, rfl, by decide, by decide⟩
  | object _ _ => exact ⟨_, _, rfl, by decide, by decide⟩

/-- A written value is read, whatever stands behind it that no number goes on with. -/
def Reads (j : Json) : Prop :=
  ∀ steps rest, EndsNumber rest → 2 * j.chars.length ≤ steps →
    Tree.value steps (j.chars ++ rest) = some (j.asTree, rest)

variable {c : Char} {cs rest : List Char} {steps : Nat}

theorem value_quote :
    Tree.value (steps + 1) ('"' :: cs) =
      (stringBody cs).map fun p => (.string (textOf p.1), p.2) := rfl

theorem value_bracket (hblank : isBlank c = false) (hclose : c ≠ ']') :
    Tree.value (steps + 1) ('[' :: c :: cs) =
      (Tree.items steps (c :: cs)).map fun p => (.array p.1, p.2) := by
  rw [Tree.value, skipBlanks_cons (by decide)]
  simp only [skipBlanks_cons hblank]
  split
  · next h =>
    cases h
    contradiction
  · rfl

theorem value_brace :
    Tree.value (steps + 1) ('\x7b' :: '"' :: cs) =
      (Tree.members steps ('"' :: cs)).map fun p => (.object p.1, p.2) := rfl

/-- A number is read by its first character. -/
theorem value_number (hc : c = '-' ∨ isDigit c = true) :
    Tree.value (steps + 1) (c :: cs) =
      (numberText (c :: cs)).map fun p => (.number p.1, p.2) := by
  have hno : [' ', '\t', '\n', '\r', '\x7b', '[', '"', 'n', 't', 'f'].all
      (fun d => !(d == '-' || isDigit d)) = true := rfl
  have hother : ∀ d ∈ [' ', '\t', '\n', '\r', '\x7b', '[', '"', 'n', 't', 'f'], c ≠ d := by
    rintro d hd rfl
    have hneither := List.all_eq_true.1 hno c hd
    rcases hc with rfl | hdigit
    · cases hneither
    · simp [hdigit] at hneither
  have hblank : isBlank c = false := by
    simp [isBlank, hother]
  rw [Tree.value, skipBlanks_cons hblank]
  split
  all_goals first | rfl | (rename_i heq; cases heq; exact absurd rfl (hother _ (by decide)))

/-- Written items are read up to the closing bracket. -/
theorem items_charsOfItems {items : List Json} (hne : items ≠ []) (hitems : ∀ j ∈ items, j.Reads)
    (hsteps : 2 * (charsOfItems items).length + 1 ≤ steps) :
    Tree.items steps (charsOfItems items ++ ']' :: rest) = some (treesOfItems items, rest) := by
  induction items generalizing steps with
  | nil => contradiction
  | cons item more ih =>
      obtain ⟨steps, rfl⟩ : ∃ n, steps = n + 1 := ⟨steps - 1, by omega⟩
      have hitem := hitems item List.mem_cons_self
      cases more with
      | nil =>
          rw [charsOfItems] at hsteps ⊢
          rw [Tree.items, hitem steps _ (endsNumber_cons (by decide)) (by omega)]
          rfl
      | cons next more =>
          rw [charsOfItems, List.length_append, List.length_cons] at hsteps
          have hmore : Tree.items steps (charsOfItems (next :: more) ++ ']' :: rest) = _ :=
            ih (List.cons_ne_nil _ _) (fun j hj => hitems j (List.mem_cons_of_mem _ hj)) (by omega)
          rw [charsOfItems, List.append_assoc, List.cons_append, Tree.items,
            hitem steps _ (endsNumber_cons (by decide)) (by omega)]
          show (Tree.items steps (charsOfItems (next :: more) ++ ']' :: rest)).bind _ = _
          rw [hmore]
          rfl

/-- A written member is read up to what stands behind its value. -/
theorem members_member {key : String} {value : Json} (hvalue : value.Reads)
    (hsteps : 2 * value.chars.length ≤ steps) :
    Tree.members (steps + 1) (writeString key ++ ':' :: (value.chars ++ ',' :: rest)) =
        (Tree.members steps rest).bind (fun p => some ((some key, value.asTree) :: p.1, p.2)) ∧
      Tree.members (steps + 1) (writeString key ++ ':' :: (value.chars ++ '\x7d' :: rest)) =
        some ([(some key, value.asTree)], rest) := by
  have hkey : ∀ cs, writeString key ++ ':' :: cs =
      '"' :: (key.toList.flatMap escapeChar ++ '"' :: ':' :: cs) := fun cs => by
    simp only [writeString, List.append_assoc, List.cons_append, List.nil_append]
  have hquote : isBlank '"' = false := by decide
  have hcolon : isBlank ':' = false := by decide
  have hcomma : isBlank ',' = false := by decide
  have hbrace : isBlank '\x7d' = false := by decide
  have hends : EndsNumber (',' :: rest) ∧ EndsNumber ('\x7d' :: rest) :=
    ⟨endsNumber_cons (by decide), endsNumber_cons (by decide)⟩
  constructor
  · rw [hkey, Tree.members, skipBlanks_cons hquote]
    simp only [stringBody_escape, Option.bind_eq_bind, Option.bind_some, skipBlanks_cons hcolon,
      hvalue steps _ hends.1 hsteps, textOf_toNat, skipBlanks_cons hcomma]
    rfl
  · rw [hkey, Tree.members, skipBlanks_cons hquote]
    simp only [stringBody_escape, Option.bind_eq_bind, Option.bind_some, skipBlanks_cons hcolon,
      hvalue steps _ hends.2 hsteps, textOf_toNat, skipBlanks_cons hbrace]
    rfl

/-- Written members are read up to the closing brace. -/
theorem members_charsOfMembers {members : List (String × Json)} (hne : members ≠ [])
    (hmembers : ∀ p ∈ members, p.2.Reads)
    (hsteps : 2 * (charsOfMembers members).length + 1 ≤ steps) :
    Tree.members steps (charsOfMembers members ++ '\x7d' :: rest) =
      some (treesOfMembers members, rest) := by
  induction members generalizing steps with
  | nil => contradiction
  | cons p more ih =>
      obtain ⟨steps, rfl⟩ : ∃ n, steps = n + 1 := ⟨steps - 1, by omega⟩
      obtain ⟨key, value⟩ := p
      have hvalue : value.Reads := hmembers (key, value) List.mem_cons_self
      cases more with
      | nil =>
          rw [charsOfMembers, List.length_append, List.length_cons] at hsteps
          rw [charsOfMembers, List.append_assoc, List.cons_append]
          exact (members_member hvalue (by omega)).2
      | cons next more =>
          rw [charsOfMembers] at hsteps
          simp only [List.length_append, List.length_cons] at hsteps
          have hmore : Tree.members steps (charsOfMembers (next :: more) ++ '\x7d' :: rest) = _ :=
            ih (List.cons_ne_nil _ _) (fun p hp => hmembers p (List.mem_cons_of_mem _ hp))
              (by omega)
          rw [charsOfMembers, List.append_assoc, List.append_assoc, List.cons_append,
            List.cons_append, (members_member hvalue (by omega)).1, hmore]
          rfl

theorem charsOfItems_eq_cons {items : List Json} (hne : items ≠ [])
    (hitems : ∀ j ∈ items, j.Within Number.ReadsBack K) :
    ∃ c cs, charsOfItems items = c :: cs ∧ isBlank c = false ∧ c ≠ ']' := by
  cases items with
  | nil => contradiction
  | cons item more =>
      obtain ⟨c, cs, hchars, hc⟩ := (hitems item List.mem_cons_self).chars_eq_cons
      cases more with
      | nil => exact ⟨c, cs, hchars, hc⟩
      | cons next more =>
          refine ⟨c, cs ++ ',' :: charsOfItems (next :: more), ?_, hc⟩
          rw [charsOfItems, hchars, List.cons_append]

theorem charsOfMembers_eq_cons {members : List (String × Json)} (hne : members ≠ []) :
    ∃ cs, charsOfMembers members = '"' :: cs := by
  match members, hne with
  | [(_, _)], _ => exact ⟨_, rfl⟩
  | (_, _) :: _ :: _, _ => exact ⟨_, rfl⟩

/-- **A value is read as it was written**, whatever stands behind it. -/
theorem Within.reads {j : Json} (h : j.Within Number.ReadsBack K) : j.Reads := by
  induction h with
  | null =>
      rintro (_ | steps) rest - hsteps
      · contradiction
      · rfl
  | boolean b =>
      rintro (_ | steps) rest - hsteps
      · cases b <;> contradiction
      · cases b <;> rfl
  | @number n h =>
      obtain ⟨c, cs, hchars, hc⟩ := exists_of_numberText h
      rintro (_ | steps) rest hrest hsteps
      · rw [chars, hchars] at hsteps
        contradiction
      · have hnumber := numberText_append hrest h
        rw [chars]
        rw [hchars, List.cons_append] at hnumber ⊢
        rw [value_number hc, hnumber]
        rfl
  | string s =>
      rintro (_ | steps) rest - hsteps
      · contradiction
      · rw [chars, writeString, List.append_assoc, List.cons_append, List.singleton_append,
          value_quote, stringBody_escape, Option.map_some, textOf_toNat]
        rfl
  | @array items h ih =>
      rintro (_ | steps) rest - hsteps
      · contradiction
      · by_cases hne : items = []
        · rw [hne]
          rfl
        · obtain ⟨c, cs, hchars, hblank, hclose⟩ := charsOfItems_eq_cons hne h
          have hlength : 2 * (charsOfItems items).length + 1 ≤ steps := by
            simp only [chars, List.length_append, List.length_cons] at hsteps
            omega
          have hitems : Tree.items steps (charsOfItems items ++ ']' :: rest) = _ :=
            items_charsOfItems hne ih hlength
          rw [chars, List.append_assoc, List.cons_append, List.singleton_append]
          rw [hchars, List.cons_append] at hitems ⊢
          rw [value_bracket hblank hclose, hitems]
          rfl
  | @object members _ h ih =>
      rintro (_ | steps) rest - hsteps
      · contradiction
      · by_cases hne : members = []
        · rw [hne]
          rfl
        · obtain ⟨cs, hchars⟩ := charsOfMembers_eq_cons hne
          have hlength : 2 * (charsOfMembers members).length + 1 ≤ steps := by
            simp only [chars, List.length_append, List.length_cons] at hsteps
            omega
          have hmembers : Tree.members steps (charsOfMembers members ++ '\x7d' :: rest) = _ :=
            members_charsOfMembers hne ih hlength
          rw [chars, List.append_assoc, List.cons_append, List.singleton_append]
          rw [hchars, List.cons_append] at hmembers ⊢
          rw [value_brace, hmembers]
          rfl

/-- **A written text is taken apart into its value.** -/
theorem Within.parse_write {j : Json} (h : j.Within Number.ReadsBack K) :
    Tree.parse j.write = some j.asTree := by
  have hread := h.reads (2 * j.chars.length + 2) [] endsNumber_nil (by omega)
  rw [List.append_nil] at hread
  rw [Tree.parse, write, String.toList_ofList, hread]
  rfl

theorem Textual.parse_write {j : Json} (h : j.Textual) : Tree.parse j.write = some j.asTree :=
  h.within.parse_write

/-! ## 3. Values of trees -/

theorem nesting_array_le {items : List Json} {room : Nat} :
    (array items).nesting ≤ room + 1 ↔ ∀ j ∈ items, j.nesting ≤ room := by
  have hitems : nestingOfItems items ≤ room ↔ ∀ j ∈ items, j.nesting ≤ room := by
    induction items with
    | nil => simp [nestingOfItems]
    | cons item rest ih => rw [nestingOfItems, Nat.max_le, ih, List.forall_mem_cons]
  rw [← hitems, nesting]
  omega

theorem nesting_object_le {members : List (String × Json)} {room : Nat} :
    (object members).nesting ≤ room + 1 ↔ ∀ p ∈ members, p.2.nesting ≤ room := by
  have hmembers : nestingOfMembers members ≤ room ↔ ∀ p ∈ members, p.2.nesting ≤ room := by
    induction members with
    | nil => simp [nestingOfMembers]
    | cons p rest ih => rw [nestingOfMembers, Nat.max_le, ih, List.forall_mem_cons]
  rw [← hmembers, nesting]
  omega

theorem nesting_array_pos (items : List Json) : 0 < (array items).nesting := by
  rw [nesting]
  omega

theorem nesting_object_pos (members : List (String × Json)) : 0 < (object members).nesting := by
  rw [nesting]
  omega

/-- Parts that are each read are read together. -/
theorem mapM_map_eq_some {α β : Type} {f : β → Option α} {g : α → β} {xs : List α}
    (h : ∀ x ∈ xs, f (g x) = some x) : (xs.map g).mapM f = some xs := by
  induction xs with
  | nil => rfl
  | cons x xs ih =>
      rw [List.forall_mem_cons] at h
      rw [List.map_cons, List.mapM_cons, h.1, ih h.2]
      rfl

/-- **A value is the value of its tree**, unless a name stands twice in one of its objects or too
    many containers stand inside each other. -/
theorem Within.read {P : Number → Prop} {j : Json} (h : j.Within P List.Nodup) {room : Nat}
    (hroom : j.nesting ≤ room) : Tree.read room j.asTree = some j := by
  induction h generalizing room with
  | null => cases room <;> rfl
  | boolean b => cases room <;> rfl
  | number _ => cases room <;> rfl
  | string s => cases room <;> rfl
  | @array items h ih =>
      obtain ⟨room, rfl⟩ : ∃ n, room = n + 1 :=
        Nat.exists_eq_add_one.2 (Nat.lt_of_lt_of_le (nesting_array_pos items) hroom)
      rw [nesting_array_le] at hroom
      have hitems : (items.map asTree).mapM (Tree.read room) = some items :=
        mapM_map_eq_some fun item hitem => ih item hitem (hroom item hitem)
      rw [asTree, treesOfItems_eq_map, Tree.read, hitems, Option.map_some]
  | @object members hnames h ih =>
      obtain ⟨room, rfl⟩ : ∃ n, room = n + 1 :=
        Nat.exists_eq_add_one.2 (Nat.lt_of_lt_of_le (nesting_object_pos members) hroom)
      rw [nesting_object_le] at hroom
      rw [asTree, treesOfMembers_eq_map, Tree.read, mapM_map_eq_some]
      · rw [Option.bind_eq_bind, Option.bind_some, Entries.collapse_eq_self hnames]
        rfl
      · intro p hp
        rw [ih p hp (hroom p hp)]
        rfl

/-- **What is written is read as the value**, if its numbers are. -/
theorem Within.parse {j : Json} (h : j.Within Number.ReadsBack List.Nodup)
    (hroom : j.nesting ≤ Tree.maxNesting) : Json.parse j.write = some j := by
  rw [Json.parse, h.parse_write, Option.bind_some, h.read hroom]

end TypedQuery.Json
