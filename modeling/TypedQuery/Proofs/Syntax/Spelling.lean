import TypedQuery.Proofs.Decimal.Doubles
import TypedQuery.Proofs.Syntax.Quoting
import TypedQuery.Syntax.Literal

/-!
# The words of a literal

The text of a constant literal is cut into the words that it was put together from. A word that is
no token makes the whole text no text of tokens.

* `Literal.Constant` -- **a literal as documents write constants**, with its levels of brackets;
* `Literal.tokens?` -- the words of a literal;
* `Literal.tokensFrom_text` -- **the text is cut into these words**.
-/

namespace TypedQuery

/-- Whether a string is a name. -/
def IsName (s : String) : Prop :=
  ∃ c cs, s.toList = c :: cs ∧ Token.startsName c = true ∧ cs.all Token.inName = true

namespace Literal

/-- **A literal as documents write constants**: names are names, keys ascend, and so many levels of
    brackets stand in each other at most. -/
inductive Constant : Nat → Literal → Prop
  | int {levels : Nat} (n : Int64) : Constant levels (.int n)
  | float {levels : Nat} (x : Float) : Constant levels (.float x)
  | string {levels : Nat} (s : String) : Constant levels (.string s)
  | boolean {levels : Nat} (b : Bool) : Constant levels (.boolean b)
  | null {levels : Nat} : Constant levels .null
  | enum {levels : Nat} {name : String} (isName : IsName name)
      (free : name ≠ "true" ∧ name ≠ "false" ∧ name ≠ "null") : Constant levels (.enum name)
  | list {levels : Nat} {items : List Literal} (constant : ∀ item ∈ items, Constant levels item) :
      Constant (levels + 1) (.list items)
  | object {levels : Nat} {entries : List (String × Literal)}
      (names : ∀ entry ∈ entries, IsName entry.1)
      (ascending : entries.Pairwise fun p q => p.1 < q.1)
      (values : ∀ entry ∈ entries, Constant levels entry.2) :
      Constant (levels + 1) (.object entries)

variable [Text.Repertoire]

mutual

/-- The words of the text of a literal, if each of them is a token. -/
def tokens? : Literal → Option (List Token)
  | .variable name => some [.punctuator '$', .name name]
  | .int n => some [.int n]
  | .float x => (Token.ofDouble? x).map ([·])
  | .string s => if s.toList.all Text.isLegible then some [.string s] else none
  | .boolean b => some [.name (if b then "true" else "false")]
  | .enum name => some [.name name]
  | .null => some [.name "null"]
  | .list items => (tokensOfItems items).map fun ts =>
    .punctuator '[' :: (ts ++ [.punctuator ']'])
  | .object entries => (tokensOfEntries entries).map fun ts =>
    .punctuator '\x7b' :: (ts ++ [.punctuator '\x7d'])

/-- The words of items; the commas between them are none. -/
def tokensOfItems : List Literal → Option (List Token)
  | [] => some []
  | item :: rest => item.tokens?.bind fun ts => (tokensOfItems rest).map (ts ++ ·)

/-- The words of entries. -/
def tokensOfEntries : List (String × Literal) → Option (List Token)
  | [] => some []
  | (key, value) :: rest => (value.tokens?.map fun ts => .name key :: .punctuator ':' :: ts).bind
    fun ts => (tokensOfEntries rest).map (ts ++ ·)

end

end Literal

namespace Lexeme

open Token

variable {opened : Nat}

/-! ## 1. Words in front of a text -/

/-- **A text in front of others is cut into these words**, or cannot be cut. -/
def CutsInto (opened : Nat) (text : List Char) (ts? : Option (List Token)) : Prop :=
  ∀ rest, Stops rest → tokensFrom opened (text ++ rest) =
    ts?.bind fun ts => (tokensFrom opened rest).map (ts ++ ·)

theorem tokensFrom_mark {c : Char} (h : c ∈ marks) {opened' : Nat}
    (hopen : openAfter opened (.punctuator c) = some opened') (rest : List Char) :
    tokensFrom opened (c :: rest) = (tokensFrom opened' rest).map (.punctuator c :: ·) := by
  have hno : c ∉ '#' :: blanks :=
    not_mem_of_kind (p := marks.contains) (List.contains_iff_mem.2 h) (by decide)
  rw [List.mem_cons, not_or] at hno
  rw [tokensFrom_token hno.2 hno.1, cut_mark h, Option.bind_some, hopen]
  rfl

/-- A word that is one token, which opens and closes nothing. -/
theorem cutsInto_word (word : List Char) (t? : Option Token)
    (hhead : ∀ c ∈ word.head?, c ∉ '#' :: blanks) (hnonempty : word ≠ [])
    (hcut : ∀ {rest}, Stops rest → cut (word ++ rest) = t?.map (·, rest))
    (hopen : ∀ t ∈ t?, openAfter opened t = some opened) :
    CutsInto opened word (t?.map ([·])) := by
  intro rest hrest
  have hcut' := hcut hrest
  cases word with
  | nil => exact absurd rfl hnonempty
  | cons c word =>
      have hno := hhead c rfl
      rw [List.mem_cons, not_or] at hno
      rw [List.cons_append, tokensFrom_token hno.2 hno.1, ← List.cons_append, hcut']
      cases t? with
      | none => rfl
      | some t => simp [hopen t rfl]

theorem cutsInto_int (n : Int64) : CutsInto opened (toString n).toList (some [.int n]) := by
  have hdigits : ∀ c ∈ Decimal.digitsOf n.toInt.natAbs, Decimal.isDigit c = true :=
    fun c hc => Decimal.isDigit_of_mem_digitsOf hc
  have hends : (Decimal.digitsOf n.toInt.natAbs).any endsNumber = false :=
    List.any_eq_false.2 fun c hc => Bool.eq_false_iff.1 (endsNumber_of_digit (.inl (hdigits c hc)))
  -- a sign or a digit comes first
  obtain ⟨c, cs, htext, hc, hcs⟩ : ∃ c cs, (toString n).toList = c :: cs ∧
      startsNumber c = true ∧ cs.any endsNumber = false := by
    rw [toList_toString]
    cases decide (n.toInt < 0) with
    | true => exact ⟨'-', _, rfl, rfl, hends⟩
    | false =>
        cases hds : Decimal.digitsOf n.toInt.natAbs with
        | nil => exact absurd hds Nat.toDigits_ne_nil
        | cons d ds =>
            rw [hds] at hdigits hends
            exact ⟨d, ds, rfl, by simp [startsNumber, hdigits d List.mem_cons_self],
              (Bool.or_eq_false_iff.1 hends).2⟩
  refine cutsInto_word _ (some (.int n)) ?_ ?_ (fun hrest => ?_) ?_
  · rw [htext]
    rintro d hd
    cases hd
    exact not_mem_of_kind hc (by decide)
  · simp [htext]
  · rw [htext, cut_number hc hcs hrest, ← htext, ofNumber_toString]
  · rintro t ht
    cases ht
    rfl

theorem cutsInto_double (x : Float) : CutsInto opened (Decimal.plain.render x).toList
    ((ofDouble? x).map ([·])) := by
  obtain ⟨c, cs, htext, hc⟩ := exists_render x
  refine cutsInto_word _ _ ?_ (by simp [htext]) (cut_double x) ?_
  · rw [htext]
    rintro d hd
    cases hd
    exact hc
  · intro t ht
    rcases ofDouble?_cases ht with ⟨y, rfl⟩ | ⟨n, rfl⟩ | rfl | rfl <;> rfl

theorem cutsInto_string [Text.Repertoire] (s : String) : CutsInto opened (Text.quote s).toList
    (if s.toList.all Text.isLegible then some [.string s] else none) := by
  have hmap : (if s.toList.all Text.isLegible then some [Token.string s] else none) =
      (if s.toList.all Text.isLegible then some (Token.string s) else none).map ([·]) := by
    split <;> rfl
  rw [hmap]
  refine cutsInto_word _ _ ?_ ?_ (fun hrest => ?_) ?_
  · rw [Text.toList_quote]
    rintro d hd
    cases hd
    decide
  · simp [Text.toList_quote]
  · rw [cut_quote hrest]
    split <;> rfl
  · intro t ht
    split at ht <;> cases ht
    rfl

theorem cutsInto_name {s : String} (h : IsName s) : CutsInto opened s.toList (some [.name s]) := by
  obtain ⟨c, cs, hs, hstarts, hcs⟩ := h
  have hname : String.ofList (c :: cs) = s := by rw [← hs, String.ofList_toList]
  rw [hs]
  refine cutsInto_word _ (some (.name s)) ?_ (by simp) (fun hrest => ?_) ?_
  · rintro d hd
    cases hd
    exact not_mem_of_kind hstarts (by decide)
  · rw [cut_name hstarts hcs hrest, hname]
    rfl
  · rintro t ht
    cases ht
    rfl

namespace CutsInto

variable {text text' : List Char} {ts? us? : Option (List Token)}

theorem nil : CutsInto opened [] (some []) := by
  intro rest _
  simp

/-- A comma and a space between two texts are no words. -/
theorem append_comma (h : CutsInto opened text ts?) (h' : CutsInto opened text' us?) :
    CutsInto opened (text ++ ',' :: ' ' :: text') (ts?.bind fun ts => us?.map (ts ++ ·)) := by
  intro rest hrest
  have hcomma : Stops (',' :: ' ' :: (text' ++ rest)) := ⟨',', _, rfl, by decide⟩
  have hassoc : (text ++ ',' :: ' ' :: text') ++ rest = text ++ ',' :: ' ' :: (text' ++ rest) := by
    simp
  rw [hassoc, h _ hcomma, tokensFrom_blank (by decide), tokensFrom_blank (by decide), h' rest hrest]
  cases ts? with
  | none => rfl
  | some ts =>
      cases us? with
      | none => rfl
      | some us => simp [Function.comp_def]

/-- A key, a colon and a space in front of a text. -/
theorem entry {key : String} (hkey : IsName key) (h : CutsInto opened text ts?) :
    CutsInto opened (key.toList ++ ':' :: ' ' :: text)
      (ts?.map fun ts => .name key :: .punctuator ':' :: ts) := by
  intro rest hrest
  have hcolon : Stops (':' :: ' ' :: (text ++ rest)) := ⟨':', _, rfl, by decide⟩
  have hassoc : (key.toList ++ ':' :: ' ' :: text) ++ rest =
      key.toList ++ ':' :: ' ' :: (text ++ rest) := by
    simp
  have hopen : openAfter opened (.punctuator ':') = some opened := rfl
  rw [hassoc, cutsInto_name hkey _ hcolon, tokensFrom_mark (by decide) hopen,
    tokensFrom_blank (by decide), h rest hrest]
  cases ts? with
  | none => rfl
  | some ts => simp [Function.comp_def]

/-- Brackets around a text, while so many may still be opened. -/
theorem bracketed {left right : Char} (hleft : left ∈ marks) (hright : right ∈ marks)
    (hopen : openAfter opened (.punctuator left) = some (opened + 1))
    (hclose : openAfter (opened + 1) (.punctuator right) = some opened)
    (hstops : endsNumber right = true) (h : CutsInto (opened + 1) text ts?) :
    CutsInto opened (left :: (text ++ [right]))
      (ts?.map fun ts => .punctuator left :: (ts ++ [.punctuator right])) := by
  intro rest _
  have hassoc : left :: (text ++ [right]) ++ rest = left :: (text ++ right :: rest) := by simp
  rw [hassoc, tokensFrom_mark hleft hopen, h _ ⟨right, rest, rfl, hstops⟩,
    tokensFrom_mark hright hclose]
  cases ts? with
  | none => rfl
  | some ts => simp [Function.comp_def]

end CutsInto

end Lexeme

/-! ## 2. The text of a literal -/

namespace Literal

open Lexeme

variable [Text.Repertoire]

theorem cutsInto_items {opened : Nat} {items : List Literal}
    (h : ∀ item ∈ items, CutsInto opened item.text.toList item.tokens?) :
    CutsInto opened (textOfItems items).toList (tokensOfItems items) := by
  induction items with
  | nil => exact .nil
  | cons item rest ih =>
      obtain ⟨hitem, hrest⟩ := List.forall_mem_cons.1 h
      cases rest with
      | nil =>
          have hone : tokensOfItems [item] = item.tokens? := by
            cases hts : item.tokens? <;> simp [tokensOfItems, hts]
          rw [hone]
          exact hitem
      | cons next rest =>
          have htext : (textOfItems (item :: next :: rest)).toList =
              item.text.toList ++ ',' :: ' ' :: (textOfItems (next :: rest)).toList := by
            simp [textOfItems]
          rw [htext]
          exact hitem.append_comma (ih hrest)

theorem cutsInto_entries {opened : Nat} {entries : List (String × Literal)}
    (hnames : ∀ entry ∈ entries, IsName entry.1)
    (h : ∀ entry ∈ entries, CutsInto opened entry.2.text.toList entry.2.tokens?) :
    CutsInto opened (textOfEntries entries).toList (tokensOfEntries entries) := by
  induction entries with
  | nil => exact .nil
  | cons entry rest ih =>
      obtain ⟨key, value⟩ := entry
      obtain ⟨hname, hnames'⟩ := List.forall_mem_cons.1 hnames
      obtain ⟨hvalue, hrest⟩ := List.forall_mem_cons.1 h
      have hentry := CutsInto.entry hname hvalue
      cases rest with
      | nil =>
          have htext : (textOfEntries [(key, value)]).toList =
              key.toList ++ ':' :: ' ' :: value.text.toList := by
            simp [textOfEntries]
          have hone : tokensOfEntries [(key, value)] =
              value.tokens?.map fun ts => .name key :: .punctuator ':' :: ts := by
            cases hts : value.tokens? <;> simp [tokensOfEntries, hts]
          rw [htext, hone]
          exact hentry
      | cons next rest =>
          have htext : (textOfEntries ((key, value) :: next :: rest)).toList =
              (key.toList ++ ':' :: ' ' :: value.text.toList) ++
                ',' :: ' ' :: (textOfEntries (next :: rest)).toList := by
            simp [textOfEntries]
          rw [htext]
          exact hentry.append_comma (ih hnames' hrest)

/-- **The text of a constant literal is cut into its words**, where its brackets can still be
    opened. -/
theorem cutsInto_text {levels : Nat} {V : Literal} (h : V.Constant levels) {opened : Nat}
    (hopened : opened + levels ≤ maxOpen) : CutsInto opened V.text.toList V.tokens? := by
  induction h generalizing opened with
  | int n => exact cutsInto_int n
  | float x => exact cutsInto_double x
  | string s => exact cutsInto_string s
  | boolean b =>
      have htrue : IsName "true" := ⟨'t', ['r', 'u', 'e'], rfl, by decide, by decide⟩
      have hfalse : IsName "false" := ⟨'f', ['a', 'l', 's', 'e'], rfl, by decide, by decide⟩
      cases b with
      | true => exact cutsInto_name htrue
      | false => exact cutsInto_name hfalse
  | null =>
      have hnull : IsName "null" := ⟨'n', ['u', 'l', 'l'], rfl, by decide, by decide⟩
      exact cutsInto_name hnull
  | enum hname _ => exact cutsInto_name hname
  | @list levels items _ ih =>
      have hlt : opened < maxOpen := by omega
      have hitems : CutsInto (opened + 1) (textOfItems items).toList (tokensOfItems items) :=
        cutsInto_items fun item hitem => ih item hitem (by omega)
      have htext : (Literal.list items).text.toList =
          '[' :: ((textOfItems items).toList ++ [']']) := by
        simp [text]
      rw [htext]
      exact hitems.bracketed (by decide) (by decide) (by simp [openAfter, hlt]) rfl (by decide)
  | @object levels entries hnames _ _ ih =>
      have hlt : opened < maxOpen := by omega
      have hentries : CutsInto (opened + 1) (textOfEntries entries).toList
          (tokensOfEntries entries) :=
        cutsInto_entries hnames fun entry hentry => ih entry hentry (by omega)
      have htext : (Literal.object entries).text.toList =
          '\x7b' :: ((textOfEntries entries).toList ++ ['\x7d']) := by
        simp [text]
      rw [htext]
      exact hentries.bracketed (by decide) (by decide) (by simp [openAfter, hlt]) rfl (by decide)

end Literal

end TypedQuery
