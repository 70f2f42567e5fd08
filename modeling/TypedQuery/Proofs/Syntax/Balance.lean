import TypedQuery.Proofs.Syntax.Reading
import TypedQuery.TypeSystem.Grammar

/-!
# What a parser leaves

The tokens of a text open at most fifty brackets at once, and its names are names. A parser of the
grammar closes what it opens, so that the tokens it leaves are still of this kind, behind as many
open brackets as before.

* `Lexeme.Sound`, `Lexeme.sound_scanFrom` -- the tokens of a text;
* `Parser.Leaves`, `Parser.Steady` -- what a parser leaves of them;
* `Parser.leaves_untilStop`, `Parser.steady_bracketed` -- rounds of items, and brackets around them;
* `Parser.steady_value` -- **a constant value is a constant literal**, with no more levels than
  brackets could still be opened.
-/

namespace TypedQuery

/-! ## 1. The tokens of a text -/

/-- **Tokens behind so many open brackets**: each bracket can still be opened, and names are
    names. -/
def Lexeme.Sound : Nat → List Lexeme → Prop
  | _, [] => True
  | opened, l :: rest => (∀ s, l.token = .name s → IsName s) ∧
    ∃ opened', openAfter opened l.token = some opened' ∧ Sound opened' rest

namespace Token

theorem ofNumber_ne_name {cs : List Char} {s : String} : ofNumber cs ≠ some (.name s) := by
  intro h
  unfold ofNumber at h
  split at h
  split at h
  · obtain ⟨x, -, hx⟩ := Option.map_eq_some_iff.1 h
    cases hx
  · obtain ⟨n, -, hn⟩ := Option.map_eq_some_iff.1 h
    cases hn

/-- A token that is a name consists of the characters of names. -/
theorem isName_of_cut {cs rest : List Char} {s : String} (h : cut cs = some (.name s, rest)) :
    IsName s := by
  cases hcuts : cuts_of_cut h with
  | @name c more hstarts =>
      refine ⟨c, more.takeWhile inName, ?_, hstarts, List.all_takeWhile⟩
      rw [String.toList_ofList, List.takeWhile_cons_of_pos (by simp [inName, hstarts])]
  | number _ hnumber => exact absurd hnumber ofNumber_ne_name

end Token

namespace Lexeme

theorem sound_scanFrom {steps opened : Nat} {here : Position} {cs : List Char} {ls : List Lexeme}
    (h : scanFrom steps opened here cs = some ls) : Sound opened ls := by
  induction steps generalizing opened here cs ls with
  | zero => cases h
  | succ steps ih =>
      cases cs with
      | nil =>
          cases h
          trivial
      | cons c rest =>
          by_cases hblank : c ∈ blanks
          · obtain ⟨there, hthere⟩ := scanFrom_blank hblank steps opened here rest
            exact ih (hthere ▸ h)
          · by_cases hcomment : c = '#'
            · subst hcomment
              exact ih h
            · rw [scanFrom_token hblank hcomment] at h
              simp only [Option.bind_eq_some_iff, Option.map_eq_some_iff] at h
              obtain ⟨⟨t, there, after⟩, hnext, opened', hopened, ls', hls', rfl⟩ := h
              refine ⟨fun s hs => ?_, opened', hopened, ih hls'⟩
              have hcut : Token.cut (c :: rest) = some (t, after) := by
                rw [← Token.map_next here, hnext]
                rfl
              cases hs
              exact Token.isName_of_cut hcut

end Lexeme

/-! ## 2. Parsers -/

namespace Parser

open Lexeme

variable {α β : Type} {opened : Nat}

/-- **A parser leaves sound tokens**, behind as many open brackets as the condition on its value
    says. -/
def Leaves (opened : Nat) (p : Parser α) (post : α → Nat → Prop) : Prop :=
  ∀ ls a rest, Sound opened ls → p ls = some (a, rest) →
    ∃ opened', Sound opened' rest ∧ post a opened'

/-- **A parser closes what it opens.** -/
def Steady (opened : Nat) (p : Parser α) (post : α → Prop) : Prop :=
  Leaves opened p fun a opened' => opened' = opened ∧ post a

theorem Leaves.bind {p : Parser α} {f : α → Parser β} {post : α → Nat → Prop}
    {post' : β → Nat → Prop} (h : Leaves opened p post)
    (h' : ∀ a opened', post a opened' → Leaves opened' (f a) post') :
    Leaves opened (p >>= f) post' := by
  intro ls b rest hls hbind
  rw [bind_apply, Option.bind_eq_some_iff] at hbind
  obtain ⟨⟨a, middle⟩, hp, hf⟩ := hbind
  obtain ⟨opened', hmiddle, hpost⟩ := h ls a middle hls hp
  exact h' a opened' hpost middle b rest hmiddle hf

theorem Leaves.map {p : Parser α} {post : α → Nat → Prop} {post' : β → Nat → Prop}
    (h : Leaves opened p post) {f : α → β}
    (hf : ∀ a opened', post a opened' → post' (f a) opened') : Leaves opened (f <$> p) post' := by
  intro ls b rest hls hp
  rw [map_apply, Option.bind_eq_some_iff] at hp
  obtain ⟨⟨a, middle⟩, hp, heq⟩ := hp
  cases heq
  obtain ⟨opened', hrest, ha⟩ := h ls a middle hls hp
  exact ⟨opened', hrest, hf a opened' ha⟩

theorem Steady.bind {p : Parser α} {f : α → Parser β} {post : α → Prop} {post' : β → Prop}
    (h : Steady opened p post) (h' : ∀ a, post a → Steady opened (f a) post') :
    Steady opened (p >>= f) post' :=
  Leaves.bind h fun a _ ⟨heq, ha⟩ => heq ▸ h' a ha

theorem Steady.weaken {p : Parser α} {post post' : α → Prop} (h : Steady opened p post)
    (himp : ∀ a, post a → post' a) : Steady opened p post' := by
  intro ls a rest hls hp
  obtain ⟨opened', hrest, heq, ha⟩ := h ls a rest hls hp
  exact ⟨opened', hrest, heq, himp a ha⟩

theorem steady_pure {a : α} {post : α → Prop} (h : post a) : Steady opened (pure a) post := by
  intro ls b rest hls hp
  cases hp
  exact ⟨opened, hls, rfl, h⟩

theorem Steady.map {p : Parser α} {post : α → Prop} {post' : β → Prop} (h : Steady opened p post)
    {f : α → β} (hf : ∀ a, post a → post' (f a)) : Steady opened (f <$> p) post' :=
  Leaves.map h fun a _ ⟨heq, ha⟩ => ⟨heq, hf a ha⟩

theorem steady_lift {a? : Option α} :
    Steady opened (liftM a? : Parser α) fun _ => True := by
  intro ls a rest hls hp
  cases a? with
  | none => cases hp
  | some a =>
      cases hp
      exact ⟨opened, hls, rfl, trivial⟩

theorem steady_foldlM {f : β → α → Parser β} (h : ∀ b a, Steady opened (f b a) fun _ => True)
    {as : List α} {b : β} : Steady opened (as.foldlM f b) fun _ => True := by
  induction as generalizing b with
  | nil => exact steady_pure trivial
  | cons a as ih =>
      rw [List.foldlM_cons]
      exact (h b a).bind fun _ _ => ih

theorem steady_failure {post : α → Prop} : Steady opened (failure : Parser α) post := by
  intro ls a rest _ hp
  cases hp

/-! ### Single tokens -/

theorem steady_here : Steady opened here fun _ => True := by
  intro ls position rest hls hp
  cases ls with
  | nil => cases hp
  | cons l ls =>
      cases hp
      exact ⟨opened, hls, rfl, trivial⟩

theorem steady_get : Steady opened (get : Parser (List Lexeme)) fun _ => True := by
  intro ls bound rest hls hp
  cases hp
  exact ⟨opened, hls, rfl, trivial⟩

theorem steady_sees (q : Token → Bool) : Steady opened (sees q) fun _ => True := by
  intro ls b rest hls hp
  cases ls with
  | nil =>
      cases hp
      exact ⟨opened, hls, rfl, trivial⟩
  | cons l ls =>
      cases hp
      exact ⟨opened, hls, rfl, trivial⟩

/-- A token is read. -/
theorem leaves_token : Leaves opened token fun l opened' =>
    openAfter opened l.token = some opened' ∧ ∀ s, l.token = .name s → IsName s := by
  intro ls l rest hls hp
  cases ls with
  | nil => cases hp
  | cons l' ls =>
      cases hp
      obtain ⟨hname, opened', hopened, hrest⟩ := hls
      exact ⟨opened', hrest, hopened, hname⟩

/-- A token is read if it is of a kind. -/
theorem leaves_accept (q : Token → Bool) : Leaves opened (accept q) fun b opened' =>
    (b = true ∧ ∃ t, q t = true ∧ openAfter opened t = some opened') ∨
      (b = false ∧ opened' = opened) := by
  intro ls b rest hls hp
  cases ls with
  | nil =>
      cases hp
      exact ⟨opened, hls, .inr ⟨rfl, rfl⟩⟩
  | cons l ls =>
      rw [accept_cons] at hp
      split at hp
      · rename_i hq
        cases hp
        obtain ⟨-, opened', hopened, hrest⟩ := hls
        exact ⟨opened', hrest, .inl ⟨rfl, _, hq, hopened⟩⟩
      · cases hp
        exact ⟨opened, hls, .inr ⟨rfl, rfl⟩⟩

theorem eq_of_isMark {c : Char} {t : Token} (h : t.isMark c = true) : t = .punctuator c := by
  cases t with
  | punctuator d =>
      simp only [Token.isMark, beq_iff_eq] at h
      rw [h]
  | _ => cases h

theorem eq_of_isName {s : String} {t : Token} (h : t.isName s = true) : t = .name s := by
  cases t with
  | name u =>
      simp only [Token.isName, beq_iff_eq] at h
      rw [h]
  | _ => cases h

/-- A kind of token that opens and closes nothing. -/
def Neutral (q : Token → Bool) : Prop :=
  ∀ t, q t = true → ∀ opened, openAfter opened t = some opened

theorem neutral_isName (s : String) : Neutral (Token.isName s) := by
  intro t ht opened
  rw [eq_of_isName ht]
  rfl

theorem neutral_isMark {c : Char} (h : c ∉ ['(', '[', '\x7b', ')', ']', '\x7d']) :
    Neutral (Token.isMark c) := by
  intro t ht opened
  rw [eq_of_isMark ht]
  simp only [List.mem_cons, List.not_mem_nil, or_false, not_or] at h
  simp [openAfter, h]

theorem steady_accept {q : Token → Bool} (hq : Neutral q) :
    Steady opened (accept q) fun _ => True := by
  intro ls b rest hls hp
  obtain ⟨opened', hrest, ⟨-, t, ht, hopened⟩ | ⟨-, rfl⟩⟩ := leaves_accept q ls b rest hls hp
  · rw [hq t ht, Option.some.injEq] at hopened
    exact ⟨opened', hrest, hopened.symm, trivial⟩
  · exact ⟨_, hrest, rfl, trivial⟩

theorem steady_name : Steady opened name IsName := by
  refine Leaves.bind leaves_token fun l opened' ⟨hopened, hname⟩ => ?_
  split
  · rename_i s hs
    rw [hs] at hopened
    cases hopened
    exact steady_pure (hname s hs)
  · exact fun ls a rest _ hp => by cases hp

theorem steady_mark {c : Char} (h : c ∉ ['(', '[', '\x7b', ')', ']', '\x7d']) :
    Steady opened (mark c) fun _ => True := by
  refine Steady.bind (steady_accept (neutral_isMark h)) fun b _ => ?_
  split
  · exact steady_failure
  · exact steady_pure trivial

theorem steady_keyword (s : String) : Steady opened (keyword s) fun _ => True := by
  refine Steady.bind (steady_accept (neutral_isName s)) fun b _ => ?_
  split
  · exact steady_failure
  · exact steady_pure trivial

/-! ### Repetition -/

variable {item : Parser α} {post : α → Prop}

/-- Rounds of items, each of which closes what it opens, up to a stop that may close a bracket. -/
theorem leaves_untilStop {stop : Parser Bool} (closed : Nat)
    (hstop : Leaves opened stop fun b opened' =>
      (b = true ∧ opened' = closed) ∨ (b = false ∧ opened' = opened))
    (hitem : Steady opened item post) (bound : List Lexeme) :
    Leaves opened (untilStop stop item bound) fun as opened' =>
      opened' = closed ∧ ∀ a ∈ as, post a := by
  have hnone : ∀ {opened : Nat}, opened = closed → Leaves opened (pure ([] : List α))
      fun as opened' => opened' = closed ∧ ∀ a ∈ as, post a := by
    rintro opened rfl ls as rest hls hp
    cases hp
    exact ⟨opened, hls, rfl, fun a ha => absurd ha List.not_mem_nil⟩
  induction bound with
  | nil =>
      refine hstop.bind fun b opened' hb => ?_
      rcases hb with ⟨rfl, hclosed⟩ | ⟨rfl, rfl⟩
      · exact hnone hclosed
      · exact fun ls as rest _ hp => by cases hp
  | cons l bound ih =>
      refine hstop.bind fun b opened' hb => ?_
      rcases hb with ⟨rfl, hclosed⟩ | ⟨rfl, rfl⟩
      · exact hnone hclosed
      · refine Leaves.bind hitem fun a _ ⟨heq, ha⟩ => heq ▸ ih.bind fun as closed' hclosed => ?_
        rintro ls as' rest hls hp
        cases hp
        exact ⟨closed', hls, hclosed.1, List.forall_mem_cons.2 ⟨ha, hclosed.2⟩⟩

/-- A mark that closes a bracket. -/
def Closes (close : Char) : Prop :=
  ∀ opened, openAfter (opened + 1) (.punctuator close) = some opened

theorem leaves_manyUntil {close : Char} (hclose : Closes close)
    (hitem : Steady (opened + 1) item post) :
    Leaves (opened + 1) (manyUntil close item) fun as opened' =>
      opened' = opened ∧ ∀ a ∈ as, post a := by
  intro ls as rest hls hp
  refine leaves_untilStop opened ?_ hitem ls ls as rest hls hp
  intro ls b rest hls hp
  obtain ⟨opened', hrest, ⟨rfl, t, ht, hopened⟩ | ⟨rfl, rfl⟩⟩ := leaves_accept _ ls b rest hls hp
  · rw [eq_of_isMark ht, hclose, Option.some.injEq] at hopened
    exact ⟨opened', hrest, .inl ⟨rfl, hopened.symm⟩⟩
  · exact ⟨_, hrest, .inr ⟨rfl, rfl⟩⟩

theorem leaves_someUntil {close : Char} (hclose : Closes close)
    (hitem : Steady (opened + 1) item post) :
    Leaves (opened + 1) (someUntil close item) fun as opened' =>
      opened' = opened ∧ ∀ a ∈ as, post a := by
  refine Leaves.bind hitem fun a _ ⟨heq, ha⟩ => heq ▸ ?_
  refine (leaves_manyUntil hclose hitem).bind fun as closed ⟨hclosed, has⟩ => ?_
  rintro ls as' rest hls hp
  cases hp
  exact ⟨closed, hls, hclosed, List.forall_mem_cons.2 ⟨ha, has⟩⟩

theorem steady_whileSees (starts : Token → Bool) (hitem : Steady opened item post) :
    Steady opened (whileSees starts item) fun as => ∀ a ∈ as, post a := by
  intro ls as rest hls hp
  refine leaves_untilStop opened ?_ hitem ls ls as rest hls hp
  refine Leaves.bind (steady_sees starts) fun b _ ⟨heq, _⟩ => ?_
  rintro ls b' rest hls hp
  cases hp
  refine ⟨_, hls, ?_⟩
  cases b
  · exact .inl ⟨rfl, heq⟩
  · exact .inr ⟨rfl, heq⟩

theorem steady_separated {c : Char} (h : c ∉ ['(', '[', '\x7b', ')', ']', '\x7d'])
    (hitem : Steady opened item post) :
    Steady opened (separated c item) fun as => ∀ a ∈ as, post a := by
  refine hitem.bind fun a ha => ?_
  have hnext : Steady opened (do mark c; item) post := (steady_mark h).bind fun _ _ => hitem
  exact (steady_whileSees (Token.isMark c) hnext).bind fun as has =>
    steady_pure (List.forall_mem_cons.2 ⟨ha, has⟩)

/-- What a parser of a whole text gives consists of items. -/
theorem mem_of_all {ls : List Lexeme} {as : List α} (hitem : Steady 0 item post)
    (hls : Sound 0 ls) (h : all item ls = some as) : ∀ a ∈ as, post a := by
  have hstop : Leaves 0 (do return (← get).isEmpty : Parser Bool) fun b opened' =>
      (b = true ∧ opened' = 0) ∨ (b = false ∧ opened' = 0) := by
    rintro ls b rest hls hp
    cases hp
    refine ⟨0, hls, ?_⟩
    cases ls
    · exact .inl ⟨rfl, rfl⟩
    · exact .inr ⟨rfl, rfl⟩
  have hstep : Leaves 0 (do
      let first ← item
      return first :: (← untilStop (do return (← get).isEmpty) item (← get))) fun as _ =>
        ∀ a ∈ as, post a := by
    refine Leaves.bind hitem fun a _ ⟨heq, ha⟩ => heq ▸ ?_
    refine Leaves.bind steady_get fun bound _ ⟨heq, _⟩ => heq ▸ ?_
    refine (leaves_untilStop 0 hstop hitem bound).bind fun as _ ⟨_, has⟩ => ?_
    rintro ls as' rest hls hp
    cases hp
    exact ⟨_, hls, List.forall_mem_cons.2 ⟨ha, has⟩⟩
  obtain ⟨⟨as', rest⟩, hp, heq⟩ := Option.bind_eq_some_iff.1 h
  cases heq
  obtain ⟨-, -, has⟩ := hstep ls as' rest hls hp
  exact has

/-- A mark that opens a bracket, if one more may be open. -/
def Opens (left : Char) : Prop :=
  ∀ opened opened', openAfter opened (.punctuator left) = some opened' →
    opened' = opened + 1 ∧ opened < maxOpen

theorem opens_of_mem {left : Char} (h : left ∈ ['(', '[', '\x7b']) : Opens left := by
  intro opened opened' hopened
  have hbracket : (left == '(' || left == '[' || left == '\x7b') = true := by
    simpa [Bool.or_assoc] using h
  simp only [openAfter, hbracket, if_true] at hopened
  split at hopened
  · rename_i hlt
    exact ⟨(Option.some.inj hopened).symm, hlt⟩
  · cases hopened

theorem steady_bracketed {left right : Char} (hleft : Opens left) (hright : Closes right)
    (hitem : opened < maxOpen → Steady (opened + 1) item post) :
    Steady opened (bracketed left right item) fun as => ∀ a ∈ as, post a := by
  refine (leaves_accept (Token.isMark left)).bind fun b opened' hb => ?_
  rcases hb with ⟨rfl, t, ht, hopened⟩ | ⟨rfl, rfl⟩
  · rw [eq_of_isMark ht] at hopened
    obtain ⟨rfl, hlt⟩ := hleft _ _ hopened
    exact leaves_someUntil hright (hitem hlt)
  · exact steady_pure fun a ha => absurd ha List.not_mem_nil

/-! ### Types and values -/

theorem closes_square : Closes ']' := fun _ => rfl

theorem closes_round : Closes ')' := fun _ => rfl

theorem closes_curly : Closes '\x7d' := fun _ => rfl

/-- A bracket is closed. -/
theorem leaves_close {close : Char} (h : Closes close) :
    Leaves (opened + 1) (mark close) fun _ opened' => opened' = opened := by
  refine (leaves_accept (Token.isMark close)).bind fun b opened' hb => ?_
  rcases hb with ⟨rfl, t, ht, hopened⟩ | ⟨rfl, rfl⟩
  · rw [eq_of_isMark ht, h, Option.some.injEq] at hopened
    rintro ls a rest hls hp
    cases hp
    exact ⟨opened', hls, hopened.symm⟩
  · exact fun ls a rest _ hp => by cases hp

/-- A bracket is opened. -/
theorem leaves_open {left : Char} (h : Opens left) :
    Leaves opened (mark left) fun _ opened' => opened' = opened + 1 := by
  refine (leaves_accept (Token.isMark left)).bind fun b opened' hb => ?_
  rcases hb with ⟨rfl, t, ht, hopened⟩ | ⟨rfl, rfl⟩
  · rw [eq_of_isMark ht] at hopened
    rintro ls a rest hls hp
    cases hp
    exact ⟨opened', hls, (h _ _ hopened).1⟩
  · exact fun ls a rest _ hp => by cases hp

theorem steady_typeExpr (levels : Nat) : Steady opened (typeExpr levels) fun _ => True := by
  induction levels generalizing opened with
  | zero => exact steady_failure
  | succ levels ih =>
      have hbang : ∀ t : TypeExpr, Steady opened (do
          if ← accept (Token.isMark '!') then return t.nonNull else return t) fun _ => True := by
        intro t
        refine (steady_accept (neutral_isMark (by decide))).bind fun b _ => ?_
        split <;> exact steady_pure trivial
      refine (leaves_accept (Token.isMark '[')).bind fun b opened' hb => ?_
      rcases hb with ⟨rfl, t, ht, hopened⟩ | ⟨rfl, rfl⟩
      · rw [eq_of_isMark ht] at hopened
        obtain ⟨rfl, -⟩ := opens_of_mem (by decide) _ _ hopened
        refine Leaves.bind ih fun of _ ⟨heq, _⟩ => heq ▸ ?_
        refine (leaves_close closes_square).bind fun | _, _, rfl => ?_
        exact (steady_pure trivial).bind fun bare (_ : True) => hbang bare
      · exact (steady_name.map fun _ _ => trivial).bind fun bare (_ : True) => hbang bare

/-- An entry is put among entries in the order of their keys. -/
theorem mem_insertSorted {entries : List (String × Literal)} {key : String} {value : Literal}
    {p : String × Literal} (h : p ∈ insertSorted entries key value) :
    p = (key, value) ∨ p ∈ entries := by
  induction entries with
  | nil => exact .inl (List.mem_singleton.1 h)
  | cons q rest ih =>
      obtain ⟨other, held⟩ := q
      unfold insertSorted at h
      split at h
      · rcases List.mem_cons.1 h with rfl | h
        · exact .inl rfl
        · exact .inr (List.mem_cons_of_mem _ h)
      · split at h
        · rcases List.mem_cons.1 h with rfl | h
          · exact .inl rfl
          · exact .inr h
        · rcases List.mem_cons.1 h with rfl | h
          · exact .inr List.mem_cons_self
          · exact (ih h).imp_right (List.mem_cons_of_mem _)

theorem pairwise_insertSorted {entries : List (String × Literal)} (key : String) (value : Literal)
    (h : entries.Pairwise fun p q => p.1 < q.1) :
    (insertSorted entries key value).Pairwise fun p q => p.1 < q.1 := by
  induction entries with
  | nil => exact List.pairwise_singleton _ _
  | cons q rest ih =>
      obtain ⟨other, held⟩ := q
      obtain ⟨hother, hrest⟩ := List.pairwise_cons.1 h
      unfold insertSorted
      split
      · rename_i heq
        subst heq
        exact List.pairwise_cons.2 ⟨hother, hrest⟩
      · split
        · rename_i hlt
          refine List.pairwise_cons.2 ⟨fun p hp => ?_, h⟩
          rcases List.mem_cons.1 hp with rfl | hp
          · exact hlt
          · exact String.lt_trans hlt (hother p hp)
        · rename_i hne hnot
          refine List.pairwise_cons.2 ⟨fun p hp => ?_, ih hrest⟩
          rcases mem_insertSorted hp with rfl | hp
          · exact Std.lt_of_le_of_ne (String.not_lt.1 hnot) (Ne.symm hne)
          · exact hother p hp

theorem sortEntries_keeps (entries : List (String × Literal)) :
    (∀ p ∈ sortEntries entries, p ∈ entries) ∧
      (sortEntries entries).Pairwise fun p q => p.1 < q.1 := by
  have hfold : ∀ (rest before : List (String × Literal)),
      before.Pairwise (fun p q => p.1 < q.1) →
      (∀ p ∈ rest.foldl (fun sorted p => insertSorted sorted p.1 p.2) before,
        p ∈ before ∨ p ∈ rest) ∧
      (rest.foldl (fun sorted p => insertSorted sorted p.1 p.2) before).Pairwise
        fun p q => p.1 < q.1 := by
    intro rest
    induction rest with
    | nil => exact fun before h => ⟨fun p hp => .inl hp, h⟩
    | cons q rest ih =>
        intro before h
        obtain ⟨hmem, hpairwise⟩ := ih _ (pairwise_insertSorted q.1 q.2 h)
        refine ⟨fun p hp => ?_, hpairwise⟩
        rcases hmem p hp with hp | hp
        · rcases mem_insertSorted hp with rfl | hp
          · exact .inr List.mem_cons_self
          · exact .inl hp
        · exact .inr (List.mem_cons_of_mem _ hp)
  obtain ⟨hmem, hpairwise⟩ := hfold entries [] List.Pairwise.nil
  exact ⟨fun p hp => (hmem p hp).resolve_left List.not_mem_nil, hpairwise⟩

/-- **A value closes what it opens**, and a constant value is a constant literal with no more levels
    than brackets could still be opened. -/
theorem steady_value (constant : Bool) (levels : Nat) :
    Steady opened (value constant levels) fun V =>
      constant = true → V.Constant (maxOpen - opened) := by
  induction levels generalizing opened with
  | zero => exact steady_failure
  | succ levels ih =>
      refine Leaves.bind leaves_token fun l opened' ⟨hopened, hname⟩ => ?_
      -- behind an opening bracket one level less is left
      have hlevels : opened < maxOpen → maxOpen - opened = maxOpen - (opened + 1) + 1 := by omega
      split
      case h_11 => exact fun ls a rest _ hp => by cases hp
      all_goals rename_i htoken; rw [htoken] at hopened hname
      case h_1 | h_2 | h_3 | h_4 | h_5 | h_6 =>
        cases hopened
        exact steady_pure fun _ => by constructor
      case h_7 s hnotrue hnofalse hnonull =>
        cases hopened
        exact steady_pure fun _ => .enum (hname s rfl) ⟨hnotrue, hnofalse, hnonull⟩
      case h_8 =>
        cases hopened
        split
        · exact steady_failure
        · rename_i hconstant
          exact steady_name.map fun _ _ hc => absurd hc hconstant
      case h_9 =>
        obtain ⟨rfl, hlt⟩ := opens_of_mem (by decide) _ _ hopened
        refine (leaves_manyUntil closes_square ih).map fun items _ ⟨hclosed, hitems⟩ =>
          ⟨hclosed, fun hconstant => ?_⟩
        rw [hlevels hlt]
        exact .list fun item hitem => hitems item hitem hconstant
      case h_10 =>
        obtain ⟨rfl, hlt⟩ := opens_of_mem (by decide) _ _ hopened
        have hentry : Steady (opened + 1) (do
            let key ← name
            mark ':'
            return (key, ← value constant levels)) fun entry => IsName entry.1 ∧
              (constant = true → entry.2.Constant (maxOpen - (opened + 1))) :=
          steady_name.bind fun key hkey => (steady_mark (by decide)).bind fun _ _ =>
            ih.bind fun V hV => steady_pure ⟨hkey, hV⟩
        refine (leaves_manyUntil closes_curly hentry).map fun entries _ ⟨hclosed, hentries⟩ =>
          ⟨hclosed, fun hconstant => ?_⟩
        obtain ⟨hmem, hascending⟩ := sortEntries_keeps entries
        rw [hlevels hlt]
        exact .object (fun entry hentry => (hentries entry (hmem entry hentry)).1) hascending
          fun entry hentry => (hentries entry (hmem entry hentry)).2 hconstant

theorem steady_defaultValue : Steady opened defaultValue fun default =>
    ∀ V ∈ default, V.Constant (maxOpen - opened) := by
  refine (steady_accept (neutral_isMark (by decide))).bind fun b _ => ?_
  split
  · refine (steady_value true levels).map fun V hV W hW => ?_
    cases hW
    exact hV rfl
  · exact steady_pure fun V hV => by cases hV

theorem steady_arguments : Steady opened arguments fun _ => True := by
  have hitem : Steady (opened + 1) (do
      let key ← name
      mark ':'
      return (⟨key, ← value false levels⟩ : Argument)) fun _ => True :=
    steady_name.bind fun key _ => (steady_mark (by decide)).bind fun _ _ =>
      (steady_value false levels).bind fun V _ => steady_pure trivial
  exact (steady_bracketed (opens_of_mem (by decide)) closes_round fun _ => hitem).weaken
    fun _ _ => trivial

theorem steady_directives : Steady opened directives fun _ => True := by
  have hitem : Steady opened (do
      let position ← here
      mark '@'
      let key ← name
      return (⟨position, key, ← arguments⟩ : Directive)) fun _ => True :=
    steady_here.bind fun position _ => (steady_mark (by decide)).bind fun _ _ =>
      steady_name.bind fun key _ => steady_arguments.bind fun as _ => steady_pure trivial
  exact (steady_whileSees _ hitem).weaken fun _ _ => trivial

end Parser

end TypedQuery
