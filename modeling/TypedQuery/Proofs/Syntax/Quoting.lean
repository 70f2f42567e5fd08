import TypedQuery.Proofs.Syntax.Scanning
import TypedQuery.Text.Quoted

/-!
# Quoted texts are read

A text in quotes is one token. It stands for the text that was quoted, unless that has a character
which is written by its number or as `\0`: these escapes belong to no string of a document. Which
characters are written by their number is left to the repertoire.

* `Text.isLegible` -- the characters whose form between quotes can be read;
* `Token.Quotation.span_quoteChar`, `Token.Quotation.decode_quoteChar` -- one character;
* `Token.cut_quote` -- **a quoted text is read as the text, or not at all**.
-/

namespace TypedQuery

namespace Text

/-- A hexadecimal digit is neither quote nor backslash nor line feed. -/
theorem plain_of_mem_hexDigits {n : Nat} {d : Char} (h : d ∈ hexDigits n) :
    d ≠ '"' ∧ d ≠ '\\' ∧ d ≠ '\n' := by
  have hdigit : ∀ k < 16, k.digitChar ≠ '"' ∧ k.digitChar ≠ '\\' ∧ k.digitChar ≠ '\n' := by decide
  unfold hexDigits at h
  induction n using Nat.strongRecOn with
  | _ n ih =>
      rw [Nat.toDigits_eq_if (by decide)] at h
      split at h
      · rename_i hlt
        rw [List.mem_singleton] at h
        subst h
        exact hdigit n hlt
      · rename_i hle
        rcases List.mem_append.1 h with h | h
        · exact ih (n / 16) (by omega) h
        · rw [List.mem_singleton] at h
          subst h
          exact hdigit (n % 16) (Nat.mod_lt n (by decide))

variable [Repertoire]

/-- Whether the form of a character between quotes can be read: it is the character itself, or a
    backslash and a letter that documents know. -/
def isLegible (c : Char) : Bool :=
  match c with
  | '"' | '\\' | '\t' | '\n' | '\r' => true
  | '\x00' => false
  | c => Repertoire.shows c

theorem toList_quote (s : String) :
    (quote s).toList = '"' :: (s.toList.flatMap quoteChar ++ ['"']) :=
  String.toList_ofList

/-- The form of a character, by what is read of it. -/
theorem quoteChar_cases (c : Char) :
    (quoteChar c = [c] ∧ c ≠ '"' ∧ c ≠ '\\' ∧ c ≠ '\n' ∧ isLegible c = true) ∨
    (∃ d, quoteChar c = ['\\', d] ∧
      (d, c) ∈ [('"', '"'), ('\\', '\\'), ('t', '\t'), ('n', '\n'), ('r', '\r')]) ∨
    (c = '\x00' ∧ quoteChar c = ['\\', '0']) ∨
    (isLegible c = false ∧
      quoteChar c = '\\' :: 'u' :: '\x7b' :: (hexDigits c.toNat ++ ['\x7d'])) := by
  unfold quoteChar
  split
  · exact .inr (.inl ⟨_, rfl, by decide⟩)
  · exact .inr (.inl ⟨_, rfl, by decide⟩)
  · exact .inr (.inl ⟨_, rfl, by decide⟩)
  · exact .inr (.inl ⟨_, rfl, by decide⟩)
  · exact .inr (.inl ⟨_, rfl, by decide⟩)
  · exact .inr (.inr (.inl ⟨rfl, rfl⟩))
  · rename_i hquote hbackslash htab hline hreturn hzero
    have hlegible : isLegible c = Repertoire.shows c := by
      unfold isLegible
      split <;> first | rfl | contradiction
    split
    · rename_i hshows
      exact .inl ⟨rfl, hquote, hbackslash, hline, hlegible.trans hshows⟩
    · rename_i hhidden
      exact .inr (.inr (.inr ⟨hlegible.trans (Bool.eq_false_iff.2 hhidden), by simp⟩))

end Text

namespace Token.Quotation

open Text

theorem span_plain {ds : List Char} (h : ∀ d ∈ ds, d ≠ '"' ∧ d ≠ '\\' ∧ d ≠ '\n')
    (more : List Char) : span (ds ++ more) = (span more).map fun p => (ds ++ p.1, p.2) := by
  induction ds with
  | nil => simp
  | cons d ds ih =>
      obtain ⟨hd, hds⟩ := List.forall_mem_cons.1 h
      rw [List.cons_append, span, ih hds]
      · simp [Function.comp_def]
      · exact hd.1
      · exact hd.2.2
      all_goals simp [hd.2.1]

theorem span_escape {c : Char} (h : c ≠ '\n') (more : List Char) :
    span ('\\' :: c :: more) = (span more).map fun p => ('\\' :: c :: p.1, p.2) := by
  rw [span]
  exact h

/-- A number in braces is no escape. -/
theorem decode_brace (more : List Char) : decode ('\\' :: 'u' :: '\x7b' :: more) = none := by
  match more with
  | b :: c :: d :: rest => rfl
  | [] | [_] | [_, _] => rfl

variable [Repertoire]

/-- **What is written for a character stands before the closing quote.** -/
theorem span_quoteChar (c : Char) (more : List Char) :
    span (quoteChar c ++ more) = (span more).map fun p => (quoteChar c ++ p.1, p.2) := by
  rcases quoteChar_cases c with ⟨hc, hquote, hbackslash, hline, -⟩ | ⟨d, hc, hd⟩ | ⟨-, hc⟩ |
    ⟨-, hc⟩
  · rw [hc]
    exact span_plain (by simp [hquote, hbackslash, hline]) more
  · rw [hc]
    refine span_escape ?_ more
    rintro rfl
    simp at hd
  · rw [hc]
    exact span_escape (by decide) more
  · have hplain : ∀ d ∈ '\x7b' :: (hexDigits c.toNat ++ ['\x7d']),
        d ≠ '"' ∧ d ≠ '\\' ∧ d ≠ '\n' := by
      intro d hd
      simp only [List.mem_cons, List.mem_append, List.not_mem_nil, or_false] at hd
      rcases hd with rfl | hd | rfl
      · decide
      · exact plain_of_mem_hexDigits hd
      · decide
    rw [hc, List.cons_append, List.cons_append, span_escape (by decide), span_plain hplain]
    simp [Function.comp_def]

/-- The whole of what is written stands before the closing quote. -/
theorem span_quoted (cs rest : List Char) :
    span (cs.flatMap quoteChar ++ '"' :: rest) = some (cs.flatMap quoteChar, rest) := by
  induction cs with
  | nil => rfl
  | cons c cs ih => simp [List.flatMap_cons, List.append_assoc, span_quoteChar, ih]

/-- **A character is read as it was, or not at all.** -/
theorem decode_quoteChar (c : Char) (more : List Char) :
    decode (quoteChar c ++ more) =
      if isLegible c then (decode more).map (c :: ·) else none := by
  rcases quoteChar_cases c with ⟨hc, -, hbackslash, -, hlegible⟩ | ⟨d, hc, hd⟩ | ⟨rfl, hc⟩ |
    ⟨hlegible, hc⟩
  · rw [hc, hlegible, if_pos rfl, List.singleton_append, decode]
    all_goals simp [hbackslash]
  · simp only [List.mem_cons, Prod.mk.injEq, List.not_mem_nil, or_false] at hd
    rw [hc]
    rcases hd with ⟨rfl, rfl⟩ | ⟨rfl, rfl⟩ | ⟨rfl, rfl⟩ | ⟨rfl, rfl⟩ | ⟨rfl, rfl⟩ <;>
      cases hmore : decode more <;> simp [decode, hmore, isLegible]
  · rw [hc]
    rfl
  · rw [hc, hlegible]
    exact decode_brace _

/-- A text is read as it was, or not at all. -/
theorem decode_quoted (cs : List Char) :
    decode (cs.flatMap quoteChar) = if cs.all isLegible then some cs else none := by
  induction cs with
  | nil => rfl
  | cons c cs ih =>
      rw [List.flatMap_cons, decode_quoteChar, ih, List.all_cons]
      cases isLegible c <;> cases cs.all isLegible <;> rfl

end Token.Quotation

namespace Token

open Text

variable [Repertoire]

/-- **A quoted text is read as the text**, or not at all. -/
theorem cut_quote {s : String} {rest : List Char} (hrest : Stops rest) :
    cut ((quote s).toList ++ rest) =
      if s.toList.all isLegible then some (.string s, rest) else none := by
  have hspan := Quotation.span_quoted s.toList rest
  have hdecode := Quotation.decode_quoted s.toList
  obtain ⟨e, more, rfl, he⟩ := hrest
  have htext : (quote s).toList ++ e :: more =
      '"' :: (s.toList.flatMap quoteChar ++ '"' :: e :: more) := by
    rw [toList_quote]
    simp
  rw [htext]
  unfold cut next
  split
  · rename_i heq; cases heq
  · rename_i heq; cases heq
  · -- three quotes would be an empty text with a quote behind it
    rename_i rest' heq
    rw [List.cons.injEq] at heq
    rw [heq.2, Quotation.span, Option.some.injEq, Prod.mk.injEq, List.cons.injEq] at hspan
    exact absurd hspan.2.1.symm (ne_quote_of_endsNumber he)
  · rename_i heq
    cases heq
    simp only [hspan, hdecode, Option.bind_eq_bind, Option.bind_some]
    split <;> simp
  · rename_i heq
    cases heq
    rename_i hno _ _
    exact absurd rfl hno

end Token

end TypedQuery
