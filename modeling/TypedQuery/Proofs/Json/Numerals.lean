import TypedQuery.Json.Tree
import TypedQuery.Json.Writer
import TypedQuery.Proofs.Decimal.Digits

/-!
# Numbers in JSON texts

A number ends where something stands that cannot go on with it. An integer of 64 bits is read as it
was written. A double is read digit by digit, rounded at more than one step, so it need not be the
one that was written; whether it is can be told from the number alone (`Json.Number.ReadsBack`).

* `Json.numberText_append` -- **a number is read the same whatever stands behind it**;
* `Json.Number.readsBack_integer` -- **an integer of 64 bits is read back**;
* `Json.nonBlank_render` -- the text of a double has no blanks.
-/

namespace TypedQuery.Json

open Decimal

/-! ## 1. Where a number ends -/

/-- What stands behind a number does not go on with it. -/
def EndsNumber (rest : List Char) : Prop :=
  ∀ c ∈ rest.head?, isDigit c = false ∧ c ≠ '.' ∧ c ≠ 'e' ∧ c ≠ 'E'

theorem endsNumber_nil : EndsNumber [] := fun _ h => nomatch h

theorem endsNumber_cons {c : Char}
    (h : isDigit c = false ∧ c ≠ '.' ∧ c ≠ 'e' ∧ c ≠ 'E') {rest : List Char} :
    EndsNumber (c :: rest) := by
  rintro d hd
  cases hd
  exact h

variable {cs rest after : List Char}

/-- Digits are taken the same in front of what is no digit. -/
theorem digits_append (h : ∀ c ∈ rest.head?, isDigit c = false) (cs : List Char) :
    (cs ++ rest).takeWhile isDigit = cs.takeWhile isDigit ∧
      (cs ++ rest).dropWhile isDigit = cs.dropWhile isDigit ++ rest := by
  induction cs with
  | nil =>
      cases rest with
      | nil => exact ⟨rfl, rfl⟩
      | cons c rest =>
          have hc : ¬ isDigit c = true := by rw [h c rfl]; decide
          exact ⟨List.takeWhile_cons_of_neg hc, List.dropWhile_cons_of_neg hc⟩
  | cons c cs ih =>
      rw [List.cons_append, List.takeWhile_cons, List.takeWhile_cons, List.dropWhile_cons,
        List.dropWhile_cons, ih.1, ih.2]
      split
      · exact ⟨rfl, rfl⟩
      · exact ⟨rfl, List.cons_append⟩

theorem fractionPart_append (hrest : EndsNumber rest) {fraction : List Char}
    (h : fractionPart cs = some (fraction, after)) :
    fractionPart (cs ++ rest) = some (fraction, after ++ rest) := by
  cases cs with
  | nil =>
      cases h
      show fractionPart rest = some ([], rest)
      unfold fractionPart
      split
      · exact absurd rfl (hrest '.' rfl).2.1
      · rfl
  | cons c cs =>
      by_cases hc : c = '.'
      · subst hc
        obtain ⟨htake, hdrop⟩ := digits_append (fun c hc => (hrest c hc).1) cs
        simp only [List.cons_append, fractionPart, htake, hdrop] at h ⊢
        split at h
        · cases h
        · cases h
          simp [*]
      · have hplain : ∀ ds, fractionPart (c :: ds) = some ([], c :: ds) := by
          intro ds
          unfold fractionPart
          split
          · rename_i heq
            cases heq
            exact absurd rfl hc
          · rfl
        rw [hplain] at h
        cases h
        rw [List.cons_append, hplain]

/-- The digits of an exponent behind its sign. -/
def exponentDigits (negative : Bool) (ds : List Char) : Option (Option Int × List Char) :=
  let digits := ds.takeWhile isDigit
  if digits.isEmpty then none
  else
    let n : Int := ofDigits digits
    some (some (if negative then -n else n), ds.dropWhile isDigit)

/-- An exponent is its mark, a sign or none, and its digits. -/
theorem exponentPart_mark {c : Char} (hc : (c == 'e' || c == 'E') = true) (d : Char) :
    ∃ negative kept, kept <:+ [d] ∧
      ∀ ds, exponentPart (c :: d :: ds) = exponentDigits negative (kept ++ ds) := by
  by_cases hplus : d = '+'
  · subst hplus
    exact ⟨false, [], List.nil_suffix, fun ds => by simp only [exponentPart, hc, if_true]; rfl⟩
  · by_cases hminus : d = '-'
    · subst hminus
      exact ⟨true, [], List.nil_suffix, fun ds => by simp only [exponentPart, hc, if_true]; rfl⟩
    · refine ⟨false, [d], List.suffix_rfl, fun ds => ?_⟩
      simp only [exponentPart, hc, if_true]
      split
      · rename_i heq
        cases heq
        contradiction
      · rename_i heq
        cases heq
        contradiction
      · rfl

theorem exponentDigits_append (hrest : EndsNumber rest) {negative : Bool} {exponent : Option Int}
    (h : exponentDigits negative cs = some (exponent, after)) :
    exponentDigits negative (cs ++ rest) = some (exponent, after ++ rest) := by
  obtain ⟨htake, hdrop⟩ := digits_append (fun c hc => (hrest c hc).1) cs
  simp only [exponentDigits, htake, hdrop] at h ⊢
  split at h
  · cases h
  · cases h
    simp [*]

theorem exponentPart_append (hrest : EndsNumber rest) {exponent : Option Int}
    (h : exponentPart cs = some (exponent, after)) :
    exponentPart (cs ++ rest) = some (exponent, after ++ rest) := by
  cases cs with
  | nil =>
      cases h
      cases rest with
      | nil => rfl
      | cons c rest =>
          have hc := hrest c rfl
          simp [exponentPart, hc.2.2.1, hc.2.2.2]
  | cons c cs =>
      by_cases hc : (c == 'e' || c == 'E') = true
      · cases cs with
        | nil =>
            simp only [exponentPart, hc, if_true] at h
            cases h
        | cons d ds =>
            obtain ⟨negative, kept, -, hmark⟩ := exponentPart_mark hc d
            rw [hmark] at h
            rw [List.cons_append, List.cons_append, hmark, ← List.append_assoc]
            exact exponentDigits_append hrest h
      · simp only [List.cons_append, exponentPart, hc, Bool.false_eq_true, if_false] at h ⊢
        cases h
        rfl

theorem suffix_of_fractionPart {fraction : List Char}
    (h : fractionPart cs = some (fraction, after)) : after <:+ cs := by
  unfold fractionPart at h
  split at h
  · dsimp only at h
    split at h
    · cases h
    · cases h
      exact (List.dropWhile_suffix _).trans (List.suffix_cons _ _)
  · cases h
    exact List.suffix_rfl

theorem suffix_of_exponentPart {exponent : Option Int}
    (h : exponentPart cs = some (exponent, after)) : after <:+ cs := by
  cases cs with
  | nil =>
      cases h
      exact List.suffix_rfl
  | cons c cs =>
      by_cases hc : (c == 'e' || c == 'E') = true
      · cases cs with
        | nil =>
            simp only [exponentPart, hc, if_true] at h
            cases h
        | cons d ds =>
            obtain ⟨negative, kept, hkept, hmark⟩ := exponentPart_mark hc d
            rw [hmark] at h
            have hafter : after = (kept ++ ds).dropWhile isDigit := by
              simp only [exponentDigits] at h
              split at h
              · cases h
              · cases h
                rfl
            have hds : kept ++ ds <:+ d :: ds := by
              obtain ⟨front, hfront⟩ := hkept
              exact ⟨front, by rw [← List.append_assoc, hfront, List.singleton_append]⟩
            rw [hafter]
            exact ((List.dropWhile_suffix _).trans hds).trans (List.suffix_cons _ _)
      · simp only [exponentPart, hc, Bool.false_eq_true, if_false] at h
        cases h
        exact List.suffix_rfl

/-- No digit, or a zero in front of another digit. -/
def misspelled (whole : List Char) : Bool :=
  whole.isEmpty || (whole.head? == some '0' && whole.length != 1)

/-- A number behind its sign. -/
def unsignedText (negative : Bool) (cs : List Char) : Option (Option Number × List Char) := do
  let whole := cs.takeWhile isDigit
  if misspelled whole then none
  let (fraction, cs) ← fractionPart (cs.dropWhile isDigit)
  let (exponent, cs) ← exponentPart cs
  return (Number.ofParts negative whole fraction exponent, cs)

theorem numberText_minus (cs : List Char) : numberText ('-' :: cs) = unsignedText true cs := rfl

theorem numberText_of_ne_minus {cs : List Char} (h : ∀ c ∈ cs.head?, c ≠ '-') :
    numberText cs = unsignedText false cs := by
  unfold numberText
  split
  rename_i negative ds heq
  split at heq
  · exact absurd rfl (h '-' rfl)
  · cases heq
    rfl

/-- A number is whole digits, a fraction and an exponent. -/
theorem unsignedText_eq_some {negative : Bool} {n : Option Number} :
    unsignedText negative cs = some (n, after) ↔
      misspelled (cs.takeWhile isDigit) = false ∧
      ∃ fraction between exponent, fractionPart (cs.dropWhile isDigit) = some (fraction, between) ∧
        exponentPart between = some (exponent, after) ∧
        n = Number.ofParts negative (cs.takeWhile isDigit) fraction exponent := by
  simp only [unsignedText, Option.bind_eq_bind, Option.pure_def]
  constructor
  · intro h
    split at h
    · cases h
    · rename_i hwhole
      obtain ⟨⟨fraction, between⟩, hfraction, h⟩ := Option.bind_eq_some_iff.1 h
      obtain ⟨⟨exponent, rest⟩, hexponent, h⟩ := Option.bind_eq_some_iff.1 h
      cases h
      exact ⟨Bool.eq_false_iff.2 hwhole, fraction, between, exponent, hfraction, hexponent, rfl⟩
  · rintro ⟨hwhole, fraction, between, exponent, hfraction, hexponent, rfl⟩
    rw [if_neg (Bool.eq_false_iff.1 hwhole), hfraction, Option.bind_some, hexponent,
      Option.bind_some]

theorem unsignedText_append (hrest : EndsNumber rest) {negative : Bool} {n : Option Number}
    (h : unsignedText negative cs = some (n, after)) :
    unsignedText negative (cs ++ rest) = some (n, after ++ rest) := by
  obtain ⟨htake, hdrop⟩ := digits_append (fun c hc => (hrest c hc).1) cs
  obtain ⟨hwhole, fraction, between, exponent, hfraction, hexponent, hn⟩ :=
    unsignedText_eq_some.1 h
  refine unsignedText_eq_some.2 ⟨?_, fraction, between ++ rest, exponent, ?_, ?_, ?_⟩
  · rwa [htake]
  · rw [hdrop]
    exact fractionPart_append hrest hfraction
  · exact exponentPart_append hrest hexponent
  · rwa [htake]

/-- A number starts with a minus or a digit. -/
theorem exists_of_numberText {n : Option Number} (h : numberText cs = some (n, after)) :
    ∃ c ds, cs = c :: ds ∧ (c = '-' ∨ isDigit c = true) := by
  cases cs with
  | nil => cases h
  | cons c ds =>
      refine ⟨c, ds, rfl, ?_⟩
      by_cases hminus : c = '-'
      · exact .inl hminus
      · rw [numberText_of_ne_minus (by rintro d hd; cases hd; exact hminus)] at h
        obtain ⟨hwhole, -⟩ := unsignedText_eq_some.1 h
        by_cases hdigit : isDigit c = true
        · exact .inr hdigit
        · rw [List.takeWhile_cons_of_neg hdigit] at hwhole
          cases hwhole

/-- **A number is read the same whatever stands behind it**, as long as it ends there. -/
theorem numberText_append (hrest : EndsNumber rest) {n : Option Number}
    (h : numberText cs = some (n, after)) : numberText (cs ++ rest) = some (n, after ++ rest) := by
  obtain ⟨c, ds, rfl, -⟩ := exists_of_numberText h
  by_cases hminus : c = '-'
  · subst hminus
    exact unsignedText_append hrest h
  · have hhead : ∀ more, ∀ d ∈ (c :: more).head?, d ≠ '-' := by
      rintro more d hd
      cases hd
      exact hminus
    rw [numberText_of_ne_minus (hhead ds)] at h
    rw [List.cons_append, numberText_of_ne_minus (hhead _)]
    exact unsignedText_append hrest h

/-- What is left behind a number is the end of the text. -/
theorem suffix_of_numberText {n : Option Number} (h : numberText cs = some (n, after)) :
    after <:+ cs := by
  have hunsigned : ∀ {negative cs}, unsignedText negative cs = some (n, after) → after <:+ cs := by
    intro negative cs h
    obtain ⟨-, fraction, between, exponent, hfraction, hexponent, -⟩ := unsignedText_eq_some.1 h
    exact ((suffix_of_exponentPart hexponent).trans (suffix_of_fractionPart hfraction)).trans
      (List.dropWhile_suffix _)
  obtain ⟨c, ds, rfl, -⟩ := exists_of_numberText h
  by_cases hminus : c = '-'
  · subst hminus
    exact (hunsigned h).trans (List.suffix_cons _ _)
  · rw [numberText_of_ne_minus (by rintro d hd; cases hd; exact hminus)] at h
    exact hunsigned h

/-! ## 2. Integers -/

/-- Digits of a number that fits 64 bits are all taken. -/
theorem absorb_of_le {ds : List Char} {n : Nat} (h : Nat.ofDigitChars 10 ds n ≤ wordMax) :
    absorb n ds = (Nat.ofDigitChars 10 ds n, ds.length) := by
  induction ds generalizing n with
  | nil => rfl
  | cons c ds ih =>
      rw [Nat.ofDigitChars_cons] at h ⊢
      have hnext : n * 10 + digitValue c = 10 * n + (c.toNat - '0'.toNat) := by
        rw [digitValue, Nat.mul_comm]
      have hle : 10 * n + (c.toNat - '0'.toNat) ≤ wordMax := by
        refine Nat.le_trans ?_ h
        rw [Nat.ofDigitChars_eq_ofDigitChars_zero]
        have hpos : 0 < 10 ^ ds.length := Nat.pow_pos (by decide)
        exact Nat.le_trans (Nat.le_mul_of_pos_left _ hpos) (Nat.le_add_right _ _)
      simp only [absorb, hnext, if_neg (Nat.not_lt.2 hle), ih h, List.length_cons]

/-- Digits alone are an integer, if it is not too large. -/
theorem ofParts_digitsOf {k : Nat} (h : k ≤ wordMax) (negative : Bool) :
    Number.ofParts negative (digitsOf k) [] none =
      if !negative then some (.integer k)
      else if k != 0 && k ≤ 0x8000000000000000 then some (.integer (-k))
      else some (.float (-(Float.ofNat k))) := by
  have hvalue : Nat.ofDigitChars 10 (digitsOf k) 0 = k := ofDigits_digitsOf k
  have habsorb := absorb_of_le (hvalue.symm ▸ h)
  rw [hvalue] at habsorb
  simp [Number.ofParts, habsorb]

theorem unsignedText_digitsOf (k : Nat) (negative : Bool) :
    unsignedText negative (digitsOf k) =
      some (Number.ofParts negative (digitsOf k) [] none, []) := by
  obtain ⟨htake, hdrop⟩ :=
    takeWhile_digits fun c hc => isDigit_of_mem_digitsOf hc
  refine unsignedText_eq_some.2 ⟨?_, [], [], none, ?_, rfl, ?_⟩
  · rw [htake]
    by_cases hk : k = 0
    · subst hk
      rfl
    · obtain ⟨c, ds, hds, hc⟩ := exists_digitsOf hk
      simp [misspelled, hds, hc]
  · rw [hdrop]
    rfl
  · rw [htake]

/-- The number is read as it was written. -/
def Number.ReadsBack (n : Number) : Prop := numberText n.write = some (some n, [])

/-- **An integer of 64 bits is read back**, with sign or without. -/
theorem Number.readsBack_integer {n : Int} (hlow : -0x8000000000000000 ≤ n)
    (hhigh : n ≤ wordMax) : (Number.integer n).ReadsBack := by
  have hwrite : (Number.integer n).write = _ := toList_repr n
  have hmax : n.natAbs ≤ wordMax := by
    have : wordMax = 0xFFFFFFFFFFFFFFFF := rfl
    omega
  rw [Number.ReadsBack, hwrite]
  by_cases hneg : n < 0
  · have hk : (n.natAbs != 0 && decide (n.natAbs ≤ 0x8000000000000000)) = true := by
      simp only [Bool.and_eq_true, bne_iff_ne, decide_eq_true_iff]
      omega
    have hn : -(n.natAbs : Int) = n := by omega
    rw [decide_eq_true hneg, if_pos rfl, List.singleton_append, numberText_minus,
      unsignedText_digitsOf, ofParts_digitsOf hmax, if_neg (by decide), if_pos hk, hn]
  · have hn : (n.natAbs : Int) = n := by omega
    rw [decide_eq_false hneg, if_neg (by decide), List.nil_append,
      numberText_of_ne_minus (Token.head_digitsOf_ne_minus _), unsignedText_digitsOf,
      ofParts_digitsOf hmax, if_pos (by decide), hn]

/-! ## 3. Texts of one number -/

/-- A written number has no blanks. -/
theorem Number.isBlank_of_mem_write {n : Number} {c : Char} (h : c ∈ n.write) :
    isBlank c = false := by
  have hmarks : ['.', 'e', '-', '+'].all (!isBlank ·) = true := rfl
  have hdigit : isDigit c = true → isBlank c = false := by
    intro hdigit
    rw [Bool.eq_false_iff, isBlank]
    intro hblank
    simp only [Bool.or_eq_true, beq_iff_eq] at hblank
    rcases hblank with ((rfl | rfl) | rfl) | rfl <;> exact absurd hdigit (by decide)
  cases n with
  | integer n =>
      have hwrite : (Number.integer n).write = _ := toList_repr n
      rw [hwrite, List.mem_append] at h
      rcases h with h | h
      · split at h
        · rw [List.mem_singleton.1 h]
          rfl
        · cases h
      · exact hdigit (isDigit_of_mem_digitsOf h)
  | float x =>
      simp only [Number.write] at h
      split at h
      · rename_i hfinite
        rcases Layout.mem_render hfinite h with h | h
        · exact hdigit h
        · simpa using List.all_eq_true.1 hmarks c h
      · have hnull : "null".toList.all (!isBlank ·) = true := rfl
        simpa using List.all_eq_true.1 hnull c h

/-- Where a number is read, its text is what is left without blanks. -/
theorem numberText_of_value {steps : Nat} {n : Option Number}
    (h : Tree.value (steps + 1) cs = some (.number n, after)) :
    numberText (skipBlanks cs) = some (n, after) := by
  unfold Tree.value at h
  split at h
  · split at h
    · cases h
    · obtain ⟨p, -, heq⟩ := Option.map_eq_some_iff.1 h
      cases heq
  · split at h
    · cases h
    · obtain ⟨p, -, heq⟩ := Option.map_eq_some_iff.1 h
      cases heq
  · obtain ⟨p, -, heq⟩ := Option.map_eq_some_iff.1 h
    cases heq
  · cases h
  · cases h
  · cases h
  · obtain ⟨p, hnumber, heq⟩ := Option.map_eq_some_iff.1 h
    cases heq
    exact hnumber

/-- A number is the value of no other tree. -/
theorem eq_of_read_number {room : Nat} {tree : Tree} {n : Number}
    (h : Tree.read room tree = some (.number n)) : tree = .number (some n) := by
  cases tree with
  | null => simp [Tree.read] at h
  | boolean b => simp [Tree.read] at h
  | number value =>
      simp only [Tree.read, Option.map_eq_some_iff, Json.number.injEq, exists_eq_right] at h
      rw [h]
  | string value => simp [Tree.read] at h
  | array items => cases room <;> simp [Tree.read] at h
  | object members =>
      cases room with
      | zero => cases h
      | succ room =>
          simp only [Tree.read, Option.bind_eq_bind] at h
          obtain ⟨_, -, h⟩ := Option.bind_eq_some_iff.1 h
          cases h

theorem skipBlanks_eq_self (h : ∀ c ∈ cs, isBlank c = false) : skipBlanks cs = cs := by
  cases cs with
  | nil => rfl
  | cons c cs => exact List.dropWhile_cons_of_neg (by rw [h c List.mem_cons_self]; decide)

/-- **A number whose text is read as the number is read back.** -/
theorem Number.readsBack_of_parse {n : Number}
    (h : Json.parse (Json.number n).write = some (.number n)) : n.ReadsBack := by
  obtain ⟨tree, htree, hread⟩ := Option.bind_eq_some_iff.1 h
  rw [eq_of_read_number hread, Tree.parse, Json.write, String.toList_ofList, chars] at htree
  split at htree
  · rename_i tree rest hvalue
    split at htree
    · rename_i hrest
      cases htree
      have hnumber := numberText_of_value hvalue
      rw [skipBlanks_eq_self fun c hc => Number.isBlank_of_mem_write hc] at hnumber
      -- what is left behind the number has no blanks either
      have hend : ∀ c ∈ rest, isBlank c = false := fun c hc =>
        Number.isBlank_of_mem_write ((suffix_of_numberText hnumber).subset hc)
      rw [skipBlanks_eq_self hend, List.isEmpty_iff] at hrest
      rw [Number.ReadsBack, hnumber, hrest]
    · cases htree
  · cases htree

end TypedQuery.Json
