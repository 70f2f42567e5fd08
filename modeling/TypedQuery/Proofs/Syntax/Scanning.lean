import TypedQuery.Proofs.Decimal.Digits
import TypedQuery.Syntax.Token.Lexer

/-!
# Tokens without places

What a text is cut into does not depend on the places of its characters, nor on the steps that the
cutting is allowed, so that a text can be cut piece by piece.

* `Token.cut` -- the first token of a text; `Token.Cuts` -- **all that it can be**;
* `Lexeme.tokensFrom` -- all tokens behind so many open brackets;
* `Lexeme.tokensFrom_blank`, `Lexeme.tokensFrom_token` -- **one step of the cutting**;
* `Token.cut_mark`, `Token.cut_name`, `Token.cut_number` -- marks and words.
-/

namespace TypedQuery

namespace Token

/-! ## 1. One token -/

/-- The first token of a text and what follows it, without places. -/
def cut (cs : List Char) : Option (Token × List Char) :=
  (next .start cs).map fun p => (p.1, p.2.2)

theorem map_next (here : Position) (cs : List Char) :
    (next here cs).map (fun p => (p.1, p.2.2)) = cut cs := by
  unfold cut next
  split
  · rfl
  · rfl
  · rename_i rest
    cases Quotation.spanBlock rest <;> rfl
  · rename_i rest _
    cases hspan : Quotation.span rest with
    | none => rfl
    | some p => cases hdecode : Quotation.decode p.1 <;> simp [hdecode]
  · rename_i c rest _ _ _
    split
    · rfl
    · split
      · rfl
      · split
        · simp only [Option.map_map, Function.comp_def]
        · rfl

namespace Quotation

theorem length_of_span {cs content after : List Char} (h : span cs = some (content, after)) :
    after.length < cs.length := by
  induction cs using span.induct generalizing content with
  | case1 | case3 | case4 => simp [span] at h
  | case2 rest =>
      simp only [span, Option.some.injEq, Prod.mk.injEq] at h
      simp [h.2]
  | case5 c rest hline ih =>
      simp only [span, Option.map_eq_some_iff, Prod.mk.injEq] at h
      obtain ⟨p, hp, -, rfl⟩ := h
      have := ih hp
      simp only [List.length_cons]
      omega
  | case6 c rest hquote hline hescape hescape' ih =>
      simp only [span, Option.map_eq_some_iff, Prod.mk.injEq] at h
      obtain ⟨p, hp, -, rfl⟩ := h
      exact Nat.lt_succ_of_lt (ih hp)

theorem length_of_spanBlock {cs content after : List Char}
    (h : spanBlock cs = some (content, after)) : after.length < cs.length := by
  induction cs using spanBlock.induct generalizing content with
  | case1 => simp [spanBlock] at h
  | case2 rest ih =>
      simp only [spanBlock, Option.map_eq_some_iff, Prod.mk.injEq] at h
      obtain ⟨p, hp, -, rfl⟩ := h
      have := ih hp
      simp only [List.length_cons]
      omega
  | case3 rest =>
      simp only [spanBlock, Option.some.injEq, Prod.mk.injEq] at h
      simp only [← h.2, List.length_cons]
      omega
  | case4 c rest hescape hquote ih =>
      simp only [spanBlock, Option.map_eq_some_iff, Prod.mk.injEq] at h
      obtain ⟨p, hp, -, rfl⟩ := h
      exact Nat.lt_succ_of_lt (ih hp)

end Quotation

/-- The characters of which each is a token. -/
def marks : List Char := "()[]\x7b\x7d!$:=@|&".toList

/-- Whether a number starts with a character. -/
def startsNumber (c : Char) : Bool := c == '-' || Decimal.isDigit c

/-- **All that a token can be**, with what follows it. -/
inductive Cuts : List Char → Token → List Char → Prop
  | spread {rest : List Char} : Cuts ('.' :: '.' :: '.' :: rest) .spread rest
  | block {rest content after : List Char}
      (span : Quotation.spanBlock rest = some (content, after)) :
      Cuts ('"' :: '"' :: '"' :: rest) (.string (String.ofList (Quotation.decodeBlock content)))
        after
  | quoted {rest content after text : List Char}
      (span : Quotation.span rest = some (content, after))
      (decode : Quotation.decode content = some text) :
      Cuts ('"' :: rest) (.string (String.ofList text)) after
  | mark {c : Char} {rest : List Char} (mark : c ∈ marks) : Cuts (c :: rest) (.punctuator c) rest
  | name {c : Char} {rest : List Char} (starts : startsName c = true) :
      Cuts (c :: rest) (.name (String.ofList ((c :: rest).takeWhile inName)))
        ((c :: rest).dropWhile inName)
  | number {c : Char} {rest : List Char} {t : Token}
      (starts : startsNumber c = true)
      (number : ofNumber ((c :: rest).takeWhile fun d => !endsNumber d) = some t) :
      Cuts (c :: rest) t ((c :: rest).dropWhile fun d => !endsNumber d)

theorem cuts_of_cut {cs rest : List Char} {t : Token} (h : cut cs = some (t, rest)) :
    Cuts cs t rest := by
  unfold cut next at h
  split at h
  · cases h
  · cases h
    exact .spread
  · simp only [Option.bind_eq_bind, Option.map_eq_some_iff, Option.bind_eq_some_iff,
      Option.pure_def, Option.some.injEq] at h
    obtain ⟨-, ⟨p, hspan, rfl⟩, hcut⟩ := h
    cases hcut
    exact .block hspan
  · simp only [Option.bind_eq_bind, Option.map_eq_some_iff, Option.bind_eq_some_iff,
      Option.pure_def, Option.some.injEq] at h
    obtain ⟨-, ⟨p, hspan, text, hdecode, rfl⟩, hcut⟩ := h
    cases hcut
    exact .quoted hspan hdecode
  · split at h
    · rename_i hmark
      cases h
      exact .mark (List.contains_iff_mem.1 hmark)
    · split at h
      · rename_i hname
        cases h
        exact .name hname
      · split at h
        · rename_i hnumber
          simp only [Option.map_map, Option.map_eq_some_iff, Function.comp_apply, Prod.mk.injEq]
            at h
          obtain ⟨t', ht, rfl, rfl⟩ := h
          exact .number hnumber ht
        · cases h

theorem length_dropWhile_lt {p : Char → Bool} {c : Char} {rest : List Char} (h : p c = true) :
    ((c :: rest).dropWhile p).length < (c :: rest).length := by
  rw [List.dropWhile_cons_of_pos h]
  exact Nat.lt_succ_of_le (List.dropWhile_sublist p).length_le

/-- Where none of a few characters is of a kind, a character of this kind is none of them. -/
theorem not_mem_of_kind {p : Char → Bool} {c : Char} (h : p c = true) {cs : List Char}
    (hcs : cs.any p = false) : c ∉ cs :=
  fun hmem => List.any_eq_false.1 hcs c hmem h

theorem not_endsNumber_of_starts {c : Char} (h : startsNumber c = true) :
    endsNumber c = false := by
  refine Bool.eq_false_iff.2 fun hends => ?_
  rw [endsNumber, List.contains_iff_mem] at hends
  exact not_mem_of_kind h (by decide) hends

/-- A token takes a character at least. -/
theorem length_of_cut {cs rest : List Char} {t : Token} (h : cut cs = some (t, rest)) :
    rest.length < cs.length := by
  cases cuts_of_cut h with
  | spread =>
      simp only [List.length_cons]
      omega
  | block hspan =>
      have := Quotation.length_of_spanBlock hspan
      simp only [List.length_cons]
      omega
  | quoted hspan _ => exact Nat.lt_succ_of_lt (Quotation.length_of_span hspan)
  | mark _ => exact Nat.lt_succ_self _
  | name hstarts => exact length_dropWhile_lt (by simp [inName, hstarts])
  | number hstarts _ => exact length_dropWhile_lt (by simp [not_endsNumber_of_starts hstarts])

end Token

/-! ## 2. All tokens -/

namespace Lexeme

open Token

/-- The characters that are skipped one by one. -/
def blanks : List Char := ['\uFEFF', '\r', '\t', '\n', ' ', ',']

/-- The tokens of a text behind so many open brackets, without places. -/
def tokensFrom (opened : Nat) (cs : List Char) : Option (List Token) :=
  (scanFrom (cs.length + 1) opened .start cs).map (·.map Lexeme.token)

theorem scanFrom_blank {c : Char} (h : c ∈ blanks) (steps opened : Nat) (here : Position)
    (rest : List Char) : ∃ there, scanFrom (steps + 1) opened here (c :: rest) =
      scanFrom steps opened there rest := by
  simp only [blanks, List.mem_cons, List.not_mem_nil, or_false] at h
  rcases h with rfl | rfl | rfl | rfl | rfl | rfl <;> exact ⟨_, rfl⟩

theorem scanFrom_comment (steps opened : Nat) (here : Position) (rest : List Char) :
    scanFrom (steps + 1) opened here ('#' :: rest) =
      scanFrom steps opened (skipComment here rest).1 (skipComment here rest).2 := rfl

theorem scanFrom_token {c : Char} (hblank : c ∉ blanks) (hcomment : c ≠ '#') (steps opened : Nat)
    (here : Position) (rest : List Char) : scanFrom (steps + 1) opened here (c :: rest) =
      (Token.next here (c :: rest)).bind fun p => (openAfter opened p.1).bind fun opened =>
        (scanFrom steps opened p.2.1 p.2.2).map (⟨here, p.1⟩ :: ·) := by
  simp only [blanks, List.mem_cons, List.not_mem_nil, or_false, not_or] at hblank
  obtain ⟨hmark, hreturn, htab, hline, hspace, hcomma⟩ := hblank
  rw [scanFrom]
  · refine congrArg _ (funext fun p => ?_)
    obtain ⟨t, there, after⟩ := p
    cases hopened : openAfter opened t with
    | none => simp [hopened]
    | some opened' => cases hscan : scanFrom steps opened' there after <;> simp [hopened, hscan]
  all_goals assumption

/-- The places of a scan depend on where it starts, its tokens do not. -/
theorem exists_next (here : Position) {cs after : List Char} {t : Token}
    (h : cut cs = some (t, after)) : ∃ there, Token.next here cs = some (t, there, after) := by
  rw [← map_next here, Option.map_eq_some_iff] at h
  obtain ⟨⟨t', there, after'⟩, hnext, heq⟩ := h
  cases heq
  exact ⟨there, hnext⟩

theorem next_eq_none {here : Position} {cs : List Char} (h : cut cs = none) :
    Token.next here cs = none := by
  rw [← map_next here, Option.map_eq_none_iff] at h
  exact h

theorem length_skipComment_le (here : Position) (cs : List Char) :
    (skipComment here cs).2.length ≤ cs.length := by
  have hle : (cs.dropWhile fun c => c != '\n' && c != '\r').length ≤ cs.length :=
    (List.dropWhile_sublist _).length_le
  unfold skipComment
  split
  · exact Nat.zero_le _
  · rename_i hdrop
    rw [hdrop] at hle
    exact Nat.le_of_succ_le hle

theorem skipComment_snd (here here' : Position) (cs : List Char) :
    (skipComment here cs).2 = (skipComment here' cs).2 := by
  unfold skipComment
  split <;> rfl

/-- **Steps and places do not matter** for the tokens, as long as there is a step for each
    character and one more. -/
theorem map_scanFrom {steps steps' : Nat} {cs : List Char} (opened : Nat) (here here' : Position)
    (h : cs.length < steps) (h' : cs.length < steps') :
    (scanFrom steps opened here cs).map (·.map Lexeme.token) =
      (scanFrom steps' opened here' cs).map (·.map Lexeme.token) := by
  induction steps generalizing steps' cs opened here here' with
  | zero => cases h
  | succ steps ih =>
      cases steps' with
      | zero => cases h'
      | succ steps' =>
          cases cs with
          | nil => rfl
          | cons c rest =>
              have hrest : rest.length < steps := Nat.lt_of_succ_lt_succ h
              have hrest' : rest.length < steps' := Nat.lt_of_succ_lt_succ h'
              by_cases hblank : c ∈ blanks
              · obtain ⟨there, hthere⟩ := scanFrom_blank hblank steps opened here rest
                obtain ⟨there', hthere'⟩ := scanFrom_blank hblank steps' opened here' rest
                rw [hthere, hthere']
                exact ih opened there there' hrest hrest'
              · by_cases hcomment : c = '#'
                · subst hcomment
                  have hle := length_skipComment_le here rest
                  rw [scanFrom_comment, scanFrom_comment, skipComment_snd here' here]
                  exact ih opened _ _ (by omega) (by omega)
                · rw [scanFrom_token hblank hcomment, scanFrom_token hblank hcomment]
                  cases hcut : cut (c :: rest) with
                  | none => rw [next_eq_none hcut, next_eq_none hcut]; rfl
                  | some p =>
                      obtain ⟨t, after⟩ := p
                      obtain ⟨there, hthere⟩ := exists_next here hcut
                      obtain ⟨there', hthere'⟩ := exists_next here' hcut
                      have hlt := length_of_cut hcut
                      rw [List.length_cons] at hlt
                      rw [hthere, hthere']
                      cases hopened : openAfter opened t with
                      | none => simp [hopened]
                      | some opened' =>
                          have hsame := congrArg (Option.map (t :: ·)) (ih opened' there there'
                            (show after.length < steps by omega)
                            (show after.length < steps' by omega))
                          simpa [hopened, Function.comp_def] using hsame

theorem tokensFrom_blank {c : Char} (h : c ∈ blanks) (opened : Nat) (rest : List Char) :
    tokensFrom opened (c :: rest) = tokensFrom opened rest := by
  obtain ⟨there, hthere⟩ := scanFrom_blank h (rest.length + 1) opened .start rest
  unfold tokensFrom
  rw [List.length_cons, hthere]
  exact map_scanFrom opened there .start (Nat.lt_succ_self _) (Nat.lt_succ_self _)

/-- **One token first, then the rest.** -/
theorem tokensFrom_token {c : Char} (hblank : c ∉ blanks) (hcomment : c ≠ '#') (opened : Nat)
    (rest : List Char) : tokensFrom opened (c :: rest) =
      (cut (c :: rest)).bind fun p => (openAfter opened p.1).bind fun opened =>
        (tokensFrom opened p.2).map (p.1 :: ·) := by
  unfold tokensFrom
  rw [List.length_cons, scanFrom_token hblank hcomment]
  cases hcut : cut (c :: rest) with
  | none => rw [next_eq_none hcut]; rfl
  | some p =>
      obtain ⟨t, after⟩ := p
      obtain ⟨there, hthere⟩ := exists_next .start hcut
      have hlt : after.length < rest.length + 1 := length_of_cut hcut
      rw [hthere]
      cases hopened : openAfter opened t with
      | none => simp [hopened]
      | some opened' =>
          have hsame := congrArg (Option.map (t :: ·))
            (map_scanFrom opened' there .start hlt (Nat.lt_succ_self after.length))
          simpa [hopened, Function.comp_def] using hsame

theorem map_scan (source : String) :
    (scan source).map (·.map Lexeme.token) = tokensFrom 0 source.toList := rfl

end Lexeme

/-! ## 3. Words -/

namespace Token

/-- What follows a word in a text: a blank, a comma or a bracket. -/
def Stops (rest : List Char) : Prop := ∃ c more, rest = c :: more ∧ endsNumber c = true

theorem inName_of_endsNumber {c : Char} (h : endsNumber c = true) : inName c = false := by
  rw [endsNumber, List.contains_iff_mem] at h
  exact Bool.eq_false_iff.2 fun hname => not_mem_of_kind hname (by decide) h

theorem ne_quote_of_endsNumber {c : Char} (h : endsNumber c = true) : c ≠ '"' := by
  rintro rfl
  revert h
  decide

/-- A word ends where no more of its characters follow. -/
theorem takeWhile_append_stop {p : Char → Bool} {word : List Char}
    (hword : ∀ d ∈ word, p d = true) (rest : List Char) {c : Char} (hc : p c = false) :
    (word ++ c :: rest).takeWhile p = word ∧ (word ++ c :: rest).dropWhile p = c :: rest := by
  rw [List.takeWhile_append_of_pos hword, List.dropWhile_append_of_pos hword,
    List.takeWhile_cons_of_neg (by simp [hc]), List.dropWhile_cons_of_neg (by simp [hc]),
    List.append_nil]
  exact ⟨rfl, rfl⟩

/-- The first token of a text that starts with neither point nor quote. -/
theorem cut_cons {c : Char} (hpoint : c ≠ '.') (hquote : c ≠ '"') (rest : List Char) :
    cut (c :: rest) =
      if marks.contains c then some (.punctuator c, rest)
      else if startsName c then
        some (.name (String.ofList ((c :: rest).takeWhile inName)), (c :: rest).dropWhile inName)
      else if startsNumber c then
        (ofNumber ((c :: rest).takeWhile fun d => !endsNumber d)).map fun t =>
          (t, (c :: rest).dropWhile fun d => !endsNumber d)
      else none := by
  unfold cut next
  split
  · rename_i heq
    cases heq
  · rename_i heq
    cases heq
    exact absurd rfl hpoint
  · rename_i heq
    cases heq
    exact absurd rfl hquote
  · rename_i heq
    cases heq
    exact absurd rfl hquote
  · rename_i heq
    cases heq
    change Option.map _ (if marks.contains c = true then _ else if startsName c = true then _ else
      if startsNumber c = true then _ else _) = _
    split
    · rfl
    · split
      · rfl
      · split
        · simp only [Option.map_map, Function.comp_def]
        · rfl

theorem cut_mark {c : Char} (h : c ∈ marks) (rest : List Char) :
    cut (c :: rest) = some (.punctuator c, rest) := by
  have hpoint : c ≠ '.' := fun heq => absurd (heq ▸ h) (by decide)
  have hquote : c ≠ '"' := fun heq => absurd (heq ▸ h) (by decide)
  rw [cut_cons hpoint hquote, if_pos (List.contains_iff_mem.2 h)]

theorem cut_name {c : Char} {word rest : List Char} (hstarts : startsName c = true)
    (hword : word.all inName = true) (hrest : Stops rest) :
    cut (c :: word ++ rest) = some (.name (String.ofList (c :: word)), rest) := by
  obtain ⟨e, more, rfl, he⟩ := hrest
  have hno : c ∉ '.' :: '"' :: marks := not_mem_of_kind hstarts (by decide)
  simp only [List.mem_cons, not_or] at hno
  have hall : ∀ d ∈ c :: word, inName d = true :=
    List.forall_mem_cons.2 ⟨by simp [inName, hstarts], List.all_eq_true.1 hword⟩
  obtain ⟨htake, hdrop⟩ := takeWhile_append_stop hall more (inName_of_endsNumber he)
  rw [List.cons_append, cut_cons hno.1 hno.2.1, if_neg (by simpa using hno.2.2), if_pos hstarts,
    ← List.cons_append, htake, hdrop]

theorem startsName_of_starts {c : Char} (h : startsNumber c = true) :
    startsName c = false := by
  have hle : ∀ {a b : Char}, a ≤ b ↔ a.val.toNat ≤ b.val.toNat := Iff.rfl
  have hlower : 'a'.val.toNat = 97 := rfl
  have hupper : 'A'.val.toNat = 65 := rfl
  have hnine : '9'.val.toNat = 57 := rfl
  rw [startsNumber, Bool.or_eq_true, beq_iff_eq] at h
  rcases h with rfl | hdigit
  · decide
  · simp only [Decimal.isDigit, Bool.and_eq_true, decide_eq_true_iff, hle] at hdigit
    refine Bool.eq_false_iff.2 fun hs => ?_
    simp only [startsName, Bool.or_eq_true, Bool.and_eq_true, decide_eq_true_iff, hle,
      beq_iff_eq] at hs
    rcases hs with (⟨hs, -⟩ | ⟨hs, -⟩) | rfl
    · omega
    · omega
    · exact absurd hdigit (by decide)

theorem cut_number {c : Char} {word rest : List Char}
    (hstarts : startsNumber c = true) (hword : word.any endsNumber = false)
    (hrest : Stops rest) :
    cut (c :: word ++ rest) = (ofNumber (c :: word)).map (·, rest) := by
  obtain ⟨e, more, rfl, he⟩ := hrest
  have hno : c ∉ '.' :: '"' :: marks := not_mem_of_kind hstarts (by decide)
  simp only [List.mem_cons, not_or] at hno
  have hall : ∀ d ∈ c :: word, (!endsNumber d) = true :=
    List.forall_mem_cons.2 ⟨by simp [not_endsNumber_of_starts hstarts], fun d hd => by
      simpa using List.any_eq_false.1 hword d hd⟩
  have hends : (!endsNumber e) = false := by simp [he]
  obtain ⟨htake, hdrop⟩ := takeWhile_append_stop hall more hends
  rw [List.cons_append, cut_cons hno.1 hno.2.1, if_neg (by simpa using hno.2.2),
    if_neg (by simp [startsName_of_starts hstarts]), if_pos hstarts, ← List.cons_append, htake,
    hdrop]

end Token

end TypedQuery
