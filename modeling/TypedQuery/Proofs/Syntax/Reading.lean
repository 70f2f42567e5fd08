import TypedQuery.Proofs.Decimal.ReadBack
import TypedQuery.Proofs.Syntax.Spelling
import TypedQuery.Syntax.Grammar

/-!
# Literals that are read again

The words of a constant literal are read as the literal, except that a double may become something
else. A literal is read as itself exactly if all of its words are tokens and all of its doubles stay.

* `Parser.Reads` -- **a parser reads these words**, wherever they stand;
* `Literal.reread`, `Literal.reads_value` -- what the words of a literal are read as;
* `Literal.isPlain`, `Literal.reread_eq_iff` -- **when this is the literal itself**;
* `Literal.ofText` -- reading a text, where a document has the default of a variable;
* `Literal.ofText_text_eq_iff` -- **a constant literal is read back exactly if it is plain**.
-/

namespace TypedQuery

namespace Parser

variable {α β : Type}

/-! ## 1. Parsers on words -/

/-- **A parser reads these words**, wherever they stand and whatever follows them. -/
def Reads (p : Parser α) (ts : List Token) (a : α) : Prop :=
  ∀ ls more, ls.map Lexeme.token = ts ++ more →
    ∃ rest, rest.map Lexeme.token = more ∧ p ls = some (a, rest)

theorem reads_pure (a : α) : Reads (pure a) [] a :=
  fun ls _ hls => ⟨ls, hls, rfl⟩

theorem Reads.bind {p : Parser α} {f : α → Parser β} {ts us : List Token} {a : α} {b : β}
    (h : Reads p ts a) (h' : Reads (f a) us b) : Reads (p >>= f) (ts ++ us) b := by
  intro ls more hls
  rw [List.append_assoc] at hls
  obtain ⟨middle, hmiddle, hp⟩ := h ls _ hls
  obtain ⟨rest, hrest, hf⟩ := h' middle more hmiddle
  refine ⟨rest, hrest, ?_⟩
  show (p ls).bind (fun q => f q.1 q.2) = _
  rw [hp]
  exact hf

theorem Reads.map {p : Parser α} {ts : List Token} {a : α} (h : Reads p ts a) (f : α → β) :
    Reads (f <$> p) ts (f a) := by
  intro ls more hls
  obtain ⟨rest, hrest, hp⟩ := h ls more hls
  refine ⟨rest, hrest, ?_⟩
  show (p ls).bind (fun q => some (f q.1, q.2)) = _
  rw [hp]
  rfl

/-- A parser that looks at the first word. -/
theorem reads_cons {p : Parser α} {t : Token} {ts : List Token} {a : α}
    (h : ∀ position rest, ∃ q : Parser α, p (⟨position, t⟩ :: rest) = q rest ∧ Reads q ts a) :
    Reads p (t :: ts) a := by
  intro ls more hls
  cases ls with
  | nil => cases hls
  | cons l ls =>
      obtain ⟨position, t'⟩ := l
      rw [List.map_cons, List.cons_append, List.cons.injEq] at hls
      obtain ⟨ht, hls⟩ := hls
      cases ht
      obtain ⟨q, hq, hreads⟩ := h position ls
      obtain ⟨rest, hrest, hp⟩ := hreads ls more hls
      exact ⟨rest, hrest, hq.trans hp⟩

theorem reads_name (s : String) : Reads name [.name s] s :=
  reads_cons fun _ _ => ⟨pure s, rfl, reads_pure s⟩

theorem reads_mark (c : Char) : Reads (mark c) [.punctuator c] () :=
  reads_cons fun position rest => ⟨pure (), by
    simp [mark, accept, Token.isMark, bind, StateT.bind], reads_pure ()⟩

/-- **Words that are read item by item**; none of the items starts with the closing mark. -/
inductive ReadsEach (close : Char) (item : Parser α) : List Token → List α → Prop
  | nil : ReadsEach close item [] []
  | cons {t : Token} {ts us : List Token} {a : α} {as : List α} (first : Reads item (t :: ts) a)
      (opens : t.isMark close = false) (rest : ReadsEach close item us as) :
      ReadsEach close item ((t :: ts) ++ us) (a :: as)

variable {close : Char} {item : Parser α}

/-- An item has a word at least. -/
theorem ReadsEach.length_le {ts : List Token} {as : List α} (h : ReadsEach close item ts as) :
    as.length ≤ ts.length := by
  induction h with
  | nil => exact Nat.le_refl 0
  | cons _ _ _ ih =>
      simp only [List.length_cons, List.length_append]
      omega

/-- Items up to the mark, as long as the bound allows a round for each. -/
theorem reads_untilStop {ts : List Token} {as : List α} (h : ReadsEach close item ts as)
    {bound : List Lexeme} (hbound : as.length ≤ bound.length) :
    Reads (untilStop (accept (Token.isMark close)) item bound) (ts ++ [.punctuator close]) as := by
  induction h generalizing bound with
  | nil =>
      refine reads_cons fun position rest => ⟨pure [], ?_, reads_pure []⟩
      cases bound <;> simp [untilStop, accept, Token.isMark, bind, StateT.bind, pure]
  | @cons t ts us a as hfirst hopens hrest ih =>
      cases bound with
      | nil => cases hbound
      | cons l bound =>
          intro ls more hls
          cases ls with
          | nil => cases hls
          | cons l' ls =>
              have ht : l'.token = t := (List.cons.inj hls).1
              rw [List.append_assoc] at hls
              obtain ⟨middle, hmiddle, hp⟩ := hfirst (l' :: ls) _ (by simpa using hls)
              obtain ⟨rest, hrest', hp'⟩ := ih (Nat.le_of_succ_le_succ hbound) middle more
                (by simpa using hmiddle)
              refine ⟨rest, hrest', ?_⟩
              simp [untilStop, accept, ht, hopens, bind, StateT.bind, hp, hp', pure, StateT.pure]

theorem reads_manyUntil {ts : List Token} {as : List α} (h : ReadsEach close item ts as) :
    Reads (manyUntil close item) (ts ++ [.punctuator close]) as := by
  intro ls more hls
  have hlength := congrArg List.length hls
  simp only [List.length_map, List.length_append, List.length_singleton] at hlength
  have hle := h.length_le
  have hbound : as.length ≤ ls.length := by omega
  exact reads_untilStop h hbound ls more hls

end Parser

/-! ## 2. Literals -/

namespace Literal

/-- What the text of a double is read as, if it is a token. -/
def rereadDouble (x : Float) : Literal :=
  match Token.ofDouble? x with
  | some (.float y) => .float y
  | some (.int n) => .int n
  | some (.name s) => .enum s
  | _ => .null

mutual

/-- **What the text of a literal is read as**, if its words are tokens: a double may become
    something else, and nothing else changes. -/
def reread : Literal → Literal
  | .variable name => .variable name
  | .int n => .int n
  | .float x => rereadDouble x
  | .string s => .string s
  | .boolean b => .boolean b
  | .enum name => .enum name
  | .null => .null
  | .list items => .list (rereadItems items)
  | .object entries => .object (rereadEntries entries)

/-- What the items are read as. -/
def rereadItems : List Literal → List Literal
  | [] => []
  | item :: rest => item.reread :: rereadItems rest

/-- What the values of entries are read as. -/
def rereadEntries : List (String × Literal) → List (String × Literal)
  | [] => []
  | (key, value) :: rest => (key, value.reread) :: rereadEntries rest

end

open TypedQuery.Parser

/-- A name that is no keyword of values is one of an enumeration. -/
theorem reads_enum {name : String} (h : name ≠ "true" ∧ name ≠ "false" ∧ name ≠ "null")
    (constant : Bool) (levels : Nat) :
    Reads (value constant (levels + 1)) [.name name] (.enum name) := by
  refine reads_cons fun position rest => ⟨pure _, ?_, reads_pure _⟩
  obtain ⟨htrue, hfalse, hnull⟩ := h
  simp [value, token, bind, StateT.bind]

/-- What a double is read as is read so from one token. -/
theorem reads_double {x : Float} {t : Token} (h : Token.ofDouble? x = some t) (levels : Nat) :
    Reads (value true (levels + 1)) [t] (rereadDouble x) := by
  unfold rereadDouble
  rw [h]
  rcases Token.ofDouble?_cases h with ⟨y, rfl⟩ | ⟨n, rfl⟩ | rfl | rfl
  · exact reads_cons fun _ _ => ⟨pure _, rfl, reads_pure _⟩
  · exact reads_cons fun _ _ => ⟨pure _, rfl, reads_pure _⟩
  · exact reads_enum (by decide) true levels
  · exact reads_enum (by decide) true levels

/-- A double is read as itself if its text is that of a double. -/
theorem rereadDouble_eq_iff {x : Float} :
    ((Token.ofDouble? x).isSome = true ∧ rereadDouble x = .float x) ↔
      Decimal.isFinite x = true ∧ Decimal.isIntegral x = false := by
  rw [← Token.ofDouble?_eq_iff, rereadDouble]
  cases h : Token.ofDouble? x with
  | none => simp
  | some t => rcases Token.ofDouble?_cases h with ⟨y, rfl⟩ | ⟨n, rfl⟩ | rfl | rfl <;> simp

/-- A key that is greater than all others comes last. -/
theorem insertSorted_append {entries : List (String × Literal)} {key : String} (value : Literal)
    (h : ∀ p ∈ entries, p.1 < key) :
    insertSorted entries key value = entries ++ [(key, value)] := by
  induction entries with
  | nil => rfl
  | cons p rest ih =>
      obtain ⟨hp, hrest⟩ := List.forall_mem_cons.1 h
      obtain ⟨other, held⟩ := p
      have hne : key ≠ other := fun heq => String.lt_irrefl other (heq ▸ hp)
      have hnot : ¬ key < other := fun hlt => String.lt_irrefl other (String.lt_trans hp hlt)
      simp only [insertSorted, hne, hnot, if_false, ih hrest, List.cons_append]

/-- Entries in the order of their keys stay as they are. -/
theorem sortEntries_eq {entries : List (String × Literal)}
    (h : entries.Pairwise fun p q => p.1 < q.1) : sortEntries entries = entries := by
  have hfold : ∀ (rest before : List (String × Literal)),
      (before ++ rest).Pairwise (fun p q => p.1 < q.1) →
      rest.foldl (fun sorted p => insertSorted sorted p.1 p.2) before = before ++ rest := by
    intro rest
    induction rest with
    | nil => exact fun before _ => (List.append_nil before).symm
    | cons p rest ih =>
        intro before hpairwise
        have hbefore : ∀ q ∈ before, q.1 < p.1 := fun q hq =>
          (List.pairwise_append.1 hpairwise).2.2 q hq p List.mem_cons_self
        have hassoc : before ++ p :: rest = (before ++ [p]) ++ rest := by simp
        rw [List.foldl_cons, insertSorted_append p.2 hbefore, hassoc]
        exact ih _ (hassoc ▸ hpairwise)
  exact hfold entries [] h

theorem keys_rereadEntries (entries : List (String × Literal)) :
    (rereadEntries entries).map (·.1) = entries.map (·.1) := by
  induction entries with
  | nil => rfl
  | cons entry rest ih => rw [rereadEntries, List.map_cons, List.map_cons, ih]

variable [Text.Repertoire]

/-- The text of a literal starts with no closing bracket. -/
theorem exists_tokens? {levels : Nat} {V : Literal} (h : V.Constant levels) {ts : List Token}
    (hts : V.tokens? = some ts) : ∃ t us, ts = t :: us ∧ t.isMark ']' = false := by
  cases h with
  | float x =>
      simp only [tokens?, Option.map_eq_some_iff] at hts
      obtain ⟨t, ht, rfl⟩ := hts
      refine ⟨t, [], rfl, ?_⟩
      rcases Token.ofDouble?_cases ht with ⟨y, rfl⟩ | ⟨n, rfl⟩ | rfl | rfl <;> rfl
  | string s =>
      simp only [tokens?] at hts
      split at hts <;> cases hts
      exact ⟨_, _, rfl, rfl⟩
  | int _ | boolean _ | null | enum _ _ =>
      cases hts
      exact ⟨_, _, rfl, rfl⟩
  | list _ | object _ _ _ =>
      simp only [tokens?, Option.map_eq_some_iff] at hts
      obtain ⟨us, -, rfl⟩ := hts
      exact ⟨_, _, rfl, rfl⟩

/-- The words of items are read item by item. -/
theorem readsEach_items (item : Parser Literal) {items : List Literal}
    (h : ∀ V ∈ items, ∀ {ts}, V.tokens? = some ts →
      Reads item ts V.reread ∧ ∃ t us, ts = t :: us ∧ t.isMark ']' = false)
    {ts : List Token} (hts : tokensOfItems items = some ts) :
    ReadsEach ']' item ts (rereadItems items) := by
  induction items generalizing ts with
  | nil =>
      cases hts
      exact .nil
  | cons V rest ih =>
      obtain ⟨hfirst, hrest⟩ := List.forall_mem_cons.1 h
      simp only [tokensOfItems, Option.bind_eq_some_iff, Option.map_eq_some_iff] at hts
      obtain ⟨vs, hvs, us, hus, rfl⟩ := hts
      obtain ⟨hreads, t, ws, rfl, hopens⟩ := hfirst hvs
      exact .cons hreads hopens (ih hrest hus)

/-- The words of entries are read entry by entry. -/
theorem readsEach_entries (item : Parser Literal) {entries : List (String × Literal)}
    (h : ∀ entry ∈ entries, ∀ {ts}, entry.2.tokens? = some ts → Reads item ts entry.2.reread)
    {ts : List Token} (hts : tokensOfEntries entries = some ts) :
    ReadsEach '\x7d' (do let key ← name; mark ':'; return (key, ← item)) ts
      (rereadEntries entries) := by
  induction entries generalizing ts with
  | nil =>
      cases hts
      exact .nil
  | cons entry rest ih =>
      obtain ⟨key, V⟩ := entry
      obtain ⟨hfirst, hrest⟩ := List.forall_mem_cons.1 h
      simp only [tokensOfEntries, Option.bind_eq_some_iff, Option.map_eq_some_iff] at hts
      obtain ⟨vs, ⟨ws, hws, rfl⟩, us, hus, rfl⟩ := hts
      refine .cons ?_ rfl (ih hrest hus)
      have hentry := (reads_name key).bind (f := fun key => do mark ':'; return (key, ← item))
        ((reads_mark ':').bind ((hfirst hws).map fun V => (key, V)))
      exact hentry

/-- **The words of a constant literal are read as the literal**, but for its doubles. -/
theorem reads_value {levels : Nat} {V : Literal} (h : V.Constant levels) {ts : List Token}
    (hts : V.tokens? = some ts) {n : Nat} (hn : levels < n) :
    Reads (value true n) ts V.reread := by
  obtain ⟨n, rfl⟩ := Nat.exists_eq_succ_of_ne_zero (by omega : n ≠ 0)
  induction h generalizing ts n with
  | int _ | null =>
      cases hts
      exact reads_cons fun _ _ => ⟨pure _, rfl, reads_pure _⟩
  | float x =>
      simp only [tokens?, Option.map_eq_some_iff] at hts
      obtain ⟨t, ht, rfl⟩ := hts
      exact reads_double ht n
  | string s =>
      simp only [tokens?] at hts
      split at hts <;> cases hts
      exact reads_cons fun _ _ => ⟨pure _, rfl, reads_pure _⟩
  | boolean b =>
      cases hts
      cases b <;> exact reads_cons fun _ _ => ⟨pure _, rfl, reads_pure _⟩
  | enum _ hfree =>
      cases hts
      exact reads_enum hfree true n
  | @list levels items hconstant ih =>
      simp only [tokens?, Option.map_eq_some_iff] at hts
      obtain ⟨us, hus, rfl⟩ := hts
      obtain ⟨n, rfl⟩ := Nat.exists_eq_succ_of_ne_zero (by omega : n ≠ 0)
      have heach := readsEach_items (value true (n + 1))
        (fun V hV ts hts => ⟨ih V hV hts n (by omega), exists_tokens? (hconstant V hV) hts⟩) hus
      have hitems := (reads_manyUntil heach).map Literal.list
      exact reads_cons fun _ _ => ⟨_, rfl, hitems⟩
  | @object levels entries hnames hascending hconstant ih =>
      simp only [tokens?, Option.map_eq_some_iff] at hts
      obtain ⟨us, hus, rfl⟩ := hts
      obtain ⟨n, rfl⟩ := Nat.exists_eq_succ_of_ne_zero (by omega : n ≠ 0)
      have heach := readsEach_entries (value true (n + 1))
        (fun entry hentry ts hts => ih entry hentry hts n (by omega)) hus
      have hsorted : sortEntries (rereadEntries entries) = rereadEntries entries := by
        have hkeys : (entries.map (·.1)).Pairwise (· < ·) := List.pairwise_map.2 hascending
        rw [← keys_rereadEntries] at hkeys
        exact sortEntries_eq (List.pairwise_map.1 hkeys)
      have hentries := (reads_manyUntil heach).map (Literal.object ∘ sortEntries)
      rw [Function.comp_apply, hsorted] at hentries
      exact reads_cons fun _ _ => ⟨_, rfl, hentries⟩

/-! ## 3. Plain literals -/

mutual

/-- **Whether the text of a literal stands for it**: no character of its strings is written by its
    number or as `\0`, and each of its doubles is finite and no whole number. -/
def isPlain : Literal → Bool
  | .float x => Decimal.isFinite x && !Decimal.isIntegral x
  | .string s => s.toList.all Text.isLegible
  | .list items => isPlainItems items
  | .object entries => isPlainEntries entries
  | .variable _ | .int _ | .boolean _ | .enum _ | .null => true

/-- Whether all items are plain. -/
def isPlainItems : List Literal → Bool
  | [] => true
  | item :: rest => item.isPlain && isPlainItems rest

/-- Whether all values of entries are plain. -/
def isPlainEntries : List (String × Literal) → Bool
  | [] => true
  | (_, value) :: rest => value.isPlain && isPlainEntries rest

end

mutual

/-- **A literal is read as itself exactly if it is plain.** -/
theorem reread_eq_iff (V : Literal) :
    (V.tokens?.isSome = true ∧ V.reread = V) ↔ V.isPlain = true := by
  match V with
  | .variable _ | .int _ | .boolean _ | .enum _ | .null => simp [tokens?, reread, isPlain]
  | .float x => simp [tokens?, reread, isPlain, rereadDouble_eq_iff]
  | .string s =>
      by_cases hs : s.toList.all Text.isLegible = true <;> simp [tokens?, reread, isPlain, hs]
  | .list items => simp [tokens?, reread, isPlain, rereadItems_eq_iff items]
  | .object entries => simp [tokens?, reread, isPlain, rereadEntries_eq_iff entries]

theorem rereadItems_eq_iff (items : List Literal) :
    ((tokensOfItems items).isSome = true ∧ rereadItems items = items) ↔
      isPlainItems items = true := by
  match items with
  | [] => simp [tokensOfItems, rereadItems, isPlainItems]
  | item :: rest =>
      rw [isPlainItems, Bool.and_eq_true, ← reread_eq_iff item, ← rereadItems_eq_iff rest]
      cases hts : item.tokens? with
      | none => simp [tokensOfItems, hts]
      | some ts => simp [tokensOfItems, hts, rereadItems]; exact and_left_comm

theorem rereadEntries_eq_iff (entries : List (String × Literal)) :
    ((tokensOfEntries entries).isSome = true ∧ rereadEntries entries = entries) ↔
      isPlainEntries entries = true := by
  match entries with
  | [] => simp [tokensOfEntries, rereadEntries, isPlainEntries]
  | (key, value) :: rest =>
      rw [isPlainEntries, Bool.and_eq_true, ← reread_eq_iff value, ← rereadEntries_eq_iff rest]
      cases hts : value.tokens? with
      | none => simp [tokensOfEntries, hts]
      | some ts => simp [tokensOfEntries, hts, rereadEntries]; exact and_left_comm

end

end Literal

/-! ## 4. Literals in a document -/

/-- The default of the first variable of the first operation. -/
def Document.firstDefault? (d : Document) : Option Literal := do
  let o ← d.operations.head?
  let v ← o.variables.head?
  v.default

/-- **The literal that a text is read as**, where a document has the default of a variable. -/
def Literal.ofText (source : String) : Option Literal :=
  (Document.parse ("query($v: T = " ++ source ++ ") \x7b a \x7d")).bind Document.firstDefault?

namespace Parser

section

variable {position : Position} {rest : List Lexeme}

theorem bind_apply {α β : Type} (p : Parser α) (f : α → Parser β) (ls : List Lexeme) :
    (p >>= f) ls = (p ls).bind fun q => f q.1 q.2 := rfl

theorem map_apply {α β : Type} (p : Parser α) (f : α → β) (ls : List Lexeme) :
    (f <$> p) ls = (p ls).bind fun q => some (f q.1, q.2) := rfl

theorem pure_apply {α : Type} (a : α) (ls : List Lexeme) :
    (pure a : Parser α) ls = some (a, ls) := rfl

theorem get_apply (ls : List Lexeme) : (get : Parser (List Lexeme)) ls = some (ls, ls) := rfl

theorem here_cons (l : Lexeme) : here (l :: rest) = some (l.position, l :: rest) := rfl

theorem sees_cons (p : Token → Bool) (l : Lexeme) :
    sees p (l :: rest) = some (p l.token, l :: rest) := rfl

theorem accept_cons (p : Token → Bool) (l : Lexeme) :
    accept p (l :: rest) = if p l.token then some (true, rest) else some (false, l :: rest) := rfl

theorem name_cons (s : String) : name (⟨position, .name s⟩ :: rest) = some (s, rest) := rfl

theorem mark_cons (c : Char) : mark c (⟨position, .punctuator c⟩ :: rest) = some ((), rest) := by
  simp [mark, bind_apply, accept_cons, Token.isMark, pure_apply]

theorem manyUntil_close {α : Type} (c : Char) (item : Parser α) :
    manyUntil c item (⟨position, .punctuator c⟩ :: rest) = some ([], rest) := by
  simp [manyUntil, bind_apply, get_apply, untilStop, accept_cons, Token.isMark, pure_apply]

theorem whileSees_stop {α : Type} {starts : Token → Bool} (item : Parser α) {l : Lexeme}
    (h : starts l.token = false) : whileSees starts item (l :: rest) = some ([], l :: rest) := by
  simp [whileSees, bind_apply, map_apply, get_apply, untilStop, sees_cons, h, pure_apply]

theorem typeExpr_name {s : String} {l : Lexeme} (h : l.token.isMark '!' = false) :
    typeExpr levels (⟨position, .name s⟩ :: l :: rest) = some (.named s, l :: rest) := by
  have hname : (Token.name s).isMark '[' = false := rfl
  simp [typeExpr, levels, bind_apply, accept_cons, name_cons, pure_apply, h, hname]

theorem defaultValue_eq (position : Position) {ls : List Lexeme} {V : Literal}
    (h : value true levels ls = some (V, rest)) :
    defaultValue (⟨position, .punctuator '='⟩ :: ls) = some (some V, rest) := by
  have hmark : (Token.punctuator '=').isMark '=' = true := rfl
  simp [defaultValue, bind_apply, map_apply, accept_cons, hmark, h]

end

/-- The words of the document in front of a default. -/
def beforeDefault : List Token :=
  [.name "query", .punctuator '(', .punctuator '$', .name "v", .punctuator ':', .name "T",
    .punctuator '=']

/-- The words behind it. -/
def afterDefault : List Token :=
  [.punctuator ')', .punctuator '\x7b', .name "a", .punctuator '\x7d']

/-- The first words of a text stand in front of the others. -/
theorem exists_cons_of_map {ls : List Lexeme} {t : Token} {ts : List Token}
    (h : ls.map Lexeme.token = t :: ts) :
    ∃ position rest, ls = ⟨position, t⟩ :: rest ∧ rest.map Lexeme.token = ts := by
  obtain ⟨l, rest, rfl, ht, hts⟩ := List.map_eq_cons_iff.1 h
  obtain ⟨position, t'⟩ := l
  cases ht
  exact ⟨position, rest, rfl, hts⟩

/-- **A document that is made for a default has it.** -/
theorem all_definition {ts : List Token} {V : Literal} (h : Reads (value true levels) ts V)
    {ls : List Lexeme} (hls : ls.map Lexeme.token = beforeDefault ++ ts ++ afterDefault) :
    (all definition ls).bind (fun ds => Document.firstDefault? ⟨ds⟩) = some V := by
  simp only [beforeDefault, List.cons_append, List.nil_append] at hls
  obtain ⟨p1, ls1, rfl, h1⟩ := exists_cons_of_map hls
  obtain ⟨p2, ls2, rfl, h2⟩ := exists_cons_of_map h1
  obtain ⟨p3, ls3, rfl, h3⟩ := exists_cons_of_map h2
  obtain ⟨p4, ls4, rfl, h4⟩ := exists_cons_of_map h3
  obtain ⟨p5, ls5, rfl, h5⟩ := exists_cons_of_map h4
  obtain ⟨p6, ls6, rfl, h6⟩ := exists_cons_of_map h5
  obtain ⟨p7, ls7, rfl, h7⟩ := exists_cons_of_map h6
  obtain ⟨rest, hrest, hvalue⟩ := h ls7 _ h7
  obtain ⟨p8, ls8, rfl, h8⟩ := exists_cons_of_map hrest
  obtain ⟨p9, ls9, rfl, h9⟩ := exists_cons_of_map h8
  obtain ⟨p10, ls10, rfl, h10⟩ := exists_cons_of_map h9
  obtain ⟨p11, ls11, rfl, h11⟩ := exists_cons_of_map h10
  obtain rfl := List.map_eq_nil_iff.1 h11
  have htype : typeExpr levels (⟨p6, .name "T"⟩ :: ⟨p7, .punctuator '='⟩ :: ls7) =
      some (.named "T", ⟨p7, .punctuator '='⟩ :: ls7) := typeExpr_name rfl
  have hdefault := defaultValue_eq p7 hvalue
  have hopen : (Token.punctuator '(').isMark '(' = true := rfl
  have hvariables : variableDefinitions (⟨p2, .punctuator '('⟩ :: ⟨p3, .punctuator '$'⟩ ::
      ⟨p4, .name "v"⟩ :: ⟨p5, .punctuator ':'⟩ :: ⟨p6, .name "T"⟩ :: ⟨p7, .punctuator '='⟩ ::
      ls7) = some ([⟨p3, "v", .named "T", some V⟩],
          [⟨p9, .punctuator '\x7b'⟩, ⟨p10, .name "a"⟩, ⟨p11, .punctuator '\x7d'⟩]) := by
    simp [variableDefinitions, bracketed, someUntil, bind_apply, map_apply, accept_cons, hopen,
      here_cons, mark_cons, name_cons, htype, hdefault, manyUntil_close]
  obtain ⟨set, hset⟩ : ∃ set, selectionSet levels
      [⟨p9, .punctuator '\x7b'⟩, ⟨p10, .name "a"⟩, ⟨p11, .punctuator '\x7d'⟩] = some (set, []) :=
    ⟨_, rfl⟩
  have hkind : OperationKind.ofKeyword? "query" = some .query := rfl
  have hquery : (Token.name "query").isMark '\x7b' = false := rfl
  have hbrace : (Token.punctuator '\x7b').isMark '@' = false := rfl
  simp [all, definition, operation, bind_apply, map_apply, here_cons, sees_cons, hquery, name_cons,
    hkind, pure_apply, hvariables, directives, whileSees_stop, hbrace, hset, get_apply, untilStop]
  rfl

end Parser

namespace Literal

open Lexeme TypedQuery.Parser

variable [Text.Repertoire]

/-- The document around a constant literal is cut into the words around those of the literal. -/
theorem tokensFrom_document {V : Literal} (h : V.Constant 49) :
    tokensFrom 0 ("query($v: T = " ++ V.text ++ ") \x7b a \x7d").toList =
      V.tokens?.map fun ts => beforeDefault ++ ts ++ afterDefault := by
  have hbefore : ∀ rest, tokensFrom 0 ("query($v: T = ".toList ++ rest) =
      (tokensFrom 1 rest).map (beforeDefault ++ ·) := by
    intro rest
    have hquery : IsName "query" := ⟨'q', ['u', 'e', 'r', 'y'], rfl, by decide, by decide⟩
    have hv : IsName "v" := ⟨'v', [], rfl, by decide, by decide⟩
    have ht : IsName "T" := ⟨'T', [], rfl, by decide, by decide⟩
    have hopen : openAfter 0 (.punctuator '(') = some 1 := rfl
    have hdollar : openAfter 1 (.punctuator '$') = some 1 := rfl
    have hcolon : openAfter 1 (.punctuator ':') = some 1 := rfl
    have hequals : openAfter 1 (.punctuator '=') = some 1 := rfl
    change tokensFrom 0 ("query".toList ++ '(' :: '$' :: ("v".toList ++ ':' :: ' ' ::
      ("T".toList ++ ' ' :: '=' :: ' ' :: rest))) = _
    rw [cutsInto_name hquery _ ⟨'(', _, rfl, by decide⟩, tokensFrom_mark (by decide) hopen,
      tokensFrom_mark (by decide) hdollar, cutsInto_name hv _ ⟨':', _, rfl, by decide⟩,
      tokensFrom_mark (by decide) hcolon, tokensFrom_blank (by decide),
      cutsInto_name ht _ ⟨' ', _, rfl, by decide⟩, tokensFrom_blank (by decide),
      tokensFrom_mark (by decide) hequals, tokensFrom_blank (by decide)]
    simp [beforeDefault, Function.comp_def]
  have hafter : tokensFrom 1 ") \x7b a \x7d".toList = some afterDefault := rfl
  have hstops : Token.Stops ") \x7b a \x7d".toList := ⟨')', _, rfl, by decide⟩
  rw [String.toList_append, String.toList_append, List.append_assoc, hbefore,
    cutsInto_text h (by decide) _ hstops, hafter]
  cases V.tokens? with
  | none => rfl
  | some ts => simp

/-- **What the text of a constant literal is read as.** -/
theorem ofText_text {V : Literal} (h : V.Constant 49) :
    ofText V.text = V.tokens?.map fun _ => V.reread := by
  have hscan := map_scan ("query($v: T = " ++ V.text ++ ") \x7b a \x7d")
  rw [tokensFrom_document h] at hscan
  unfold ofText Document.parse
  cases hts : V.tokens? with
  | none =>
      rw [hts, Option.map_none, Option.map_eq_none_iff] at hscan
      rw [hscan]
      rfl
  | some ts =>
      rw [hts, Option.map_some, Option.map_eq_some_iff] at hscan
      obtain ⟨ls, hls, hmap⟩ := hscan
      have hdocument := all_definition (reads_value h hts (by decide)) hmap
      rw [hls, Option.map_some, ← hdocument]
      show ((all definition ls).bind fun ds => some (Document.mk ds)).bind _ = _
      rw [Option.bind_assoc]
      rfl

/-- **A constant literal is read back exactly if it is plain.** -/
theorem ofText_text_eq_iff {V : Literal} (h : V.Constant 49) :
    ofText V.text = some V ↔ V.isPlain = true := by
  rw [ofText_text h, ← reread_eq_iff]
  cases V.tokens? <;> simp

end Literal

end TypedQuery
