import TypedQuery.Decimal.Layout
import TypedQuery.Syntax.Token.Lexer

/-!
# Digits that are written and read

The digits of a natural number are read as the number, and they are the form of a whole number that
documents know: no zero stands in front of another digit.

* `Decimal.ofDigits_digitsOf` -- **digits are read as their number**;
* `Token.isWhole_digitsOf` -- no zero in front;
* `Token.ofNumber_toString` -- **an integer is read as itself**.
-/

namespace TypedQuery

namespace Decimal

theorem isDigit_of_mem_digitsOf {n : Nat} {c : Char} (h : c ∈ digitsOf n) : isDigit c = true := by
  have hdigit : c.isDigit = true := Nat.isDigit_of_mem_toDigits (by decide) (by decide) h
  exact hdigit

/-- Digits are taken to the last. -/
theorem takeWhile_digits {ds : List Char} (h : ∀ d ∈ ds, isDigit d = true) :
    ds.takeWhile isDigit = ds ∧ ds.dropWhile isDigit = [] := by
  constructor
  · simpa using @List.takeWhile_append_of_pos _ isDigit ds [] h
  · simpa using @List.dropWhile_append_of_pos _ isDigit ds [] h

/-- **The digits of a number are read as the number.** -/
theorem ofDigits_digitsOf (n : Nat) : ofDigits (digitsOf n) = n :=
  Nat.ofDigitChars_ten_toDigits

/-- Zeros in front of digits say nothing. -/
theorem ofDigits_zeros_append (k : Nat) (ds : List Char) :
    ofDigits (List.replicate k '0' ++ ds) = ofDigits ds := by
  have hzero : Nat.ofDigitChars 10 (List.replicate k '0') 0 = 0 := by
    rw [Nat.ofDigitChars_replicate_zero, Nat.mul_zero]
  have happend := Nat.ofDigitChars_append (b := 10) (l := List.replicate k '0') (m := ds) 0
  rw [hzero] at happend
  exact happend

/-- No zero stands in front of a number that is not zero. -/
theorem exists_digitsOf {n : Nat} (h : n ≠ 0) : ∃ c ds, digitsOf n = c :: ds ∧ c ≠ '0' := by
  have hdigit : ∀ k < 10, k ≠ 0 → k.digitChar ≠ '0' := by decide
  unfold digitsOf
  induction n using Nat.strongRecOn with
  | _ n ih =>
      rw [Nat.toDigits_eq_if (by decide)]
      split
      · rename_i hlt
        exact ⟨_, [], rfl, hdigit n hlt h⟩
      · rename_i hle
        obtain ⟨c, ds, hds, hc⟩ := ih (n / 10) (by omega) (by omega)
        exact ⟨c, ds ++ [(n % 10).digitChar], by rw [hds]; rfl, hc⟩

/-- The text of an integer is its sign and its digits. -/
theorem toList_repr (n : Int) :
    n.repr.toList = (if decide (n < 0) then ['-'] else []) ++ digitsOf n.natAbs := by
  rw [Int.repr_eq_if]
  split
  · rename_i hnonneg
    have hnat : n.natAbs = n.toNat := by omega
    rw [Nat.repr_eq_ofList_toDigits, String.toList_ofList, hnat,
      decide_eq_false (Int.not_lt.2 hnonneg)]
    rfl
  · rename_i hneg
    have hnat : n.natAbs = (-n).toNat := by omega
    rw [String.toList_append, Nat.repr_eq_ofList_toDigits, hnat,
      decide_eq_true (Int.not_le.1 hneg)]
    exact congrArg ('-' :: ·) String.toList_ofList

/-- What is written positionally is made of digits and the point. -/
theorem Layout.mem_renderPositional {l : Layout} {n : Nat} {e : Int} {c : Char}
    (h : c ∈ l.renderPositional (digitsOf n) e) : isDigit c = true ∨ c = '.' := by
  have hdigits : ∀ d ∈ digitsOf n, isDigit d = true := fun d hd => isDigit_of_mem_digitsOf hd
  have hzero : isDigit '0' = true := rfl
  unfold Layout.renderPositional at h
  split at h
  · rw [List.append_assoc, List.mem_append, List.mem_append, List.mem_replicate] at h
    rcases h with h | ⟨-, rfl⟩ | h
    · exact .inl (hdigits c h)
    · exact .inl hzero
    · split at h
      · rcases List.mem_cons.1 h with rfl | h
        · exact .inr rfl
        · exact .inl (List.mem_singleton.1 h ▸ hzero)
      · cases h
  · dsimp only at h
    split at h
    · rw [List.mem_append, List.mem_cons] at h
      rcases h with h | rfl | h
      · exact .inl (hdigits c (List.mem_of_mem_take h))
      · exact .inr rfl
      · exact .inl (hdigits c (List.mem_of_mem_drop h))
    · rw [List.cons_append, List.cons_append, List.mem_cons, List.mem_cons, List.mem_append,
        List.mem_replicate] at h
      rcases h with rfl | rfl | ⟨-, rfl⟩ | h
      · exact .inl hzero
      · exact .inr rfl
      · exact .inl hzero
      · exact .inl (hdigits c h)

/-- What is written with an exponent is made of digits, the point, the mark and a sign. -/
theorem Layout.mem_renderScientific {l : Layout} {n : Nat} {leading : Int} {c : Char}
    (h : c ∈ l.renderScientific (digitsOf n) leading) :
    isDigit c = true ∨ c ∈ ['.', 'e', '-', '+'] := by
  have hdigits : ∀ {n}, ∀ d ∈ digitsOf n, isDigit d = true :=
    fun d hd => isDigit_of_mem_digitsOf hd
  have htail : ∀ d ∈ (digitsOf n).drop 1, isDigit d = true :=
    fun d hd => hdigits d (List.mem_of_mem_drop hd)
  unfold Layout.renderScientific at h
  generalize (digitsOf n).drop 1 = tail at h htail
  simp only [List.append_assoc, List.cons_append, List.mem_append, List.mem_cons] at h
  rcases h with h | h | rfl | h | h
  · exact .inl (hdigits c (List.mem_of_mem_take h))
  · cases tail with
    | nil => cases h
    | cons d more =>
        rcases List.mem_cons.1 h with rfl | h
        · exact .inr (by decide)
        · exact .inl (htail c h)
  · exact .inr (by decide)
  · right
    split at h
    · rw [List.mem_singleton.1 h]
      decide
    · split at h
      · rw [List.mem_singleton.1 h]
        decide
      · cases h
  · exact .inl (hdigits c h)

theorem Layout.mem_renderDec {l : Layout} {d : Dec} {c : Char} (h : c ∈ l.renderDec d) :
    isDigit c = true ∨ c ∈ ['.', 'e', '-', '+'] := by
  unfold Layout.renderDec at h
  dsimp only at h
  split at h
  · rcases Layout.mem_renderPositional h with hdigit | rfl
    · exact .inl hdigit
    · exact .inr (by decide)
  · exact Layout.mem_renderScientific h

/-- The characters of a finite double. -/
theorem Layout.mem_render {l : Layout} {x : Float} (hfinite : isFinite x = true) {c : Char}
    (h : c ∈ (l.render x).toList) : isDigit c = true ∨ c ∈ ['.', 'e', '-', '+'] := by
  simp only [Layout.render, hfinite, if_true, String.toList_ofList, List.mem_append] at h
  rcases h with h | h
  · split at h
    · rw [List.mem_singleton.1 h]
      exact .inr (by decide)
    · cases h
  · exact Layout.mem_renderDec h

end Decimal

namespace Token

open Decimal

/-- Digits of which the first is no zero write a whole number. -/
theorem isWhole_cons {c : Char} {ds : List Char} (hc : c ≠ '0')
    (h : ∀ d ∈ c :: ds, isDigit d = true) : isWhole (c :: ds) = true := by
  unfold isWhole
  split
  · rename_i heq
    cases heq
  · rfl
  · rename_i heq
    cases heq
    exact absurd rfl hc
  · exact List.all_eq_true.2 h

/-- The digits of a number write a whole number. -/
theorem isWhole_digitsOf (n : Nat) : isWhole (digitsOf n) = true := by
  by_cases h : n = 0
  · subst h
    rfl
  · obtain ⟨c, ds, hds, hc⟩ := exists_digitsOf h
    have hall : ∀ d ∈ digitsOf n, isDigit d = true := fun d hd => isDigit_of_mem_digitsOf hd
    rw [hds] at hall ⊢
    exact isWhole_cons hc hall

/-- The marks that tell a double from an integer. -/
def isFloatMark (c : Char) : Bool := c == '.' || c == 'e' || c == 'E'

/-- Digits are no point and no mark of an exponent. -/
theorem any_eq_false_of_digits {ds : List Char} (h : ∀ d ∈ ds, isDigit d = true) :
    ds.any isFloatMark = false := by
  refine List.any_eq_false.2 fun d hd hmark => ?_
  simp only [isFloatMark, Bool.or_eq_true, beq_iff_eq] at hmark
  have hdigit := h d hd
  rcases hmark with (rfl | rfl) | rfl <;> exact absurd hdigit (by decide)

/-- **A number is its sign and what stands behind it.** -/
theorem ofNumber_sign (negative : Bool) {cs : List Char} (h : ∀ c ∈ cs.head?, c ≠ '-') :
    ofNumber ((if negative then ['-'] else []) ++ cs) =
      if cs.any isFloatMark then (floatOf negative cs).map .float
      else (intOf negative cs).map .int := by
  cases negative with
  | true => rfl
  | false =>
      cases cs with
      | nil => rfl
      | cons c cs =>
          have hc := h c rfl
          simp only [Bool.false_eq_true, if_false, List.nil_append]
          unfold ofNumber
          split
          rename_i negative ds heq
          split at heq
          · rename_i heq'
            cases heq'
            exact absurd rfl hc
          · cases heq
            rfl

/-- Digits alone are an integer, if it is not too large. -/
theorem intOf_digitsOf (negative : Bool) (k : Nat) {n : Int64}
    (h : n.toInt = if negative then -(k : Int) else k) :
    intOf negative (digitsOf k) = some n := by
  have hlow := Int64.minValue_le_toInt n
  have hhigh := Int64.toInt_le n
  have hmax : Int64.maxValue.toInt = 2 ^ 63 - 1 := by decide
  rw [h] at hlow hhigh
  have hofInt : Int64.ofInt (if negative then -(k : Int) else k) = n := by
    rw [← h, Int64.ofInt_toInt]
  rw [intOf, if_pos (isWhole_digitsOf k), ofDigits_digitsOf]
  simp only
  rw [if_pos, hofInt]
  simp only [Bool.and_eq_true, decide_eq_true_iff]
  exact ⟨hlow, by omega⟩

theorem head_digitsOf_ne_minus (k : Nat) : ∀ c ∈ (digitsOf k).head?, c ≠ '-' := by
  rintro c hc rfl
  have hdigit := isDigit_of_mem_digitsOf (List.mem_of_mem_head? hc)
  revert hdigit
  decide

/-- The text of an integer of 64 bits is its sign and its digits. -/
theorem toList_toString (n : Int64) : (toString n).toList =
    (if decide (n.toInt < 0) then ['-'] else []) ++ digitsOf n.toInt.natAbs :=
  toList_repr n.toInt

/-- **An integer is read as itself.** -/
theorem ofNumber_toString (n : Int64) : ofNumber (toString n).toList = some (.int n) := by
  have hvalue : n.toInt =
      if decide (n.toInt < 0) then -(n.toInt.natAbs : Int) else n.toInt.natAbs := by
    split
    · rename_i hneg
      have := of_decide_eq_true hneg
      omega
    · rename_i hnonneg
      have := of_decide_eq_false (Bool.eq_false_iff.2 hnonneg)
      omega
  rw [toList_toString, ofNumber_sign _ (head_digitsOf_ne_minus _), if_neg,
    intOf_digitsOf _ _ hvalue]
  · rfl
  · rw [Bool.not_eq_true]
    exact any_eq_false_of_digits fun d hd => isDigit_of_mem_digitsOf hd

end Token

end TypedQuery
