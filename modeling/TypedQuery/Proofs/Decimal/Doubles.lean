import TypedQuery.Proofs.Syntax.Scanning

/-!
# The text of a double

Without exponent a double is its sign, whole digits and, if it is no whole number, a point and more
digits. A text with a point is read as the double nearest to its decimal, a text without one as an
integer.

* `Decimal.decOf` -- the decimal that is written;
* `Decimal.toList_render` -- the text of a finite double;
* `Token.ofDouble?` -- **what the text of a double is read as**, and `Token.cut_double`;
* `Token.ofNumber_render` -- the text of a finite double, by the exponent of its decimal.
-/

namespace TypedQuery

namespace Decimal

/-! ## 1. The text -/

/-- The decimal that is written for a finite double, without its sign. -/
def decOf (x : Float) : Dec :=
  let value := Binary.ofBits x.toBits
  if value.m == 0 then ⟨0, 0⟩ else value.shortest .up

theorem toList_render {x : Float} (h : isFinite x = true) : (plain.render x).toList =
    (if isNegative x then ['-'] else []) ++
      plain.renderPositional (digitsOf (decOf x).digits) (decOf x).exponent := by
  simp only [Layout.render, h, if_true, String.toList_ofList]
  rfl

variable (n : Nat) (e : Int)

theorem renderPositional_of_nonneg (h : 0 ≤ e) :
    plain.renderPositional (digitsOf n) e = digitsOf n ++ List.replicate e.toNat '0' := by
  simp [Layout.renderPositional, h, plain]

/-- **Behind the point stand as many digits as the exponent says**, and before it a whole number;
    together they are the digits of the decimal. -/
theorem exists_renderPositional_of_neg (h : e < 0) : ∃ whole fraction,
    plain.renderPositional (digitsOf n) e = whole ++ '.' :: fraction ∧
      Token.isWhole whole = true ∧ (∀ c ∈ whole ++ fraction, isDigit c = true) ∧
      ofDigits (whole ++ fraction) = n ∧ (fraction.length : Int) = -e := by
  have hdigits : ∀ c ∈ digitsOf n, isDigit c = true := fun c hc => isDigit_of_mem_digitsOf hc
  simp only [Layout.renderPositional, if_neg (Int.not_le.2 h)]
  split
  · rename_i hplaces
    refine ⟨(digitsOf n).take ((digitsOf n).length - (-e).toNat),
      (digitsOf n).drop ((digitsOf n).length - (-e).toNat), rfl, ?_, ?_, ?_, ?_⟩
    · -- two digits at least, so the number is not zero
      have hzero : n ≠ 0 := by
        rintro rfl
        have hlength : (digitsOf 0).length = 1 := rfl
        omega
      obtain ⟨c, ds, hds, hc⟩ := exists_digitsOf hzero
      rw [hds] at hplaces hdigits ⊢
      obtain ⟨k, hk⟩ : ∃ k, (c :: ds).length - (-e).toNat = k + 1 :=
        ⟨_, (Nat.succ_pred (by omega)).symm⟩
      rw [hk, List.take_succ_cons]
      refine Token.isWhole_cons hc fun d hd => hdigits d ?_
      exact (List.cons_sublist_cons.2 (List.take_sublist k ds)).subset hd
    · rw [List.take_append_drop]
      exact hdigits
    · rw [List.take_append_drop, ofDigits_digitsOf]
    · rw [List.length_drop]
      omega
  · rename_i hplaces
    refine ⟨['0'], List.replicate ((-e).toNat - (digitsOf n).length) '0' ++ digitsOf n, rfl, rfl,
      ?_, ?_, ?_⟩
    · intro c hc
      simp only [List.cons_append, List.nil_append, List.mem_cons, List.mem_append,
        List.mem_replicate] at hc
      rcases hc with rfl | ⟨-, rfl⟩ | hc
      · rfl
      · rfl
      · exact hdigits c hc
    · rw [← List.append_assoc]
      exact (ofDigits_zeros_append (_ + 1) _).trans (ofDigits_digitsOf n)
    · rw [List.length_append, List.length_replicate]
      omega

end Decimal

namespace Token

open Decimal

/-! ## 2. The token -/

/-- The text of a finite double without sign starts with a digit. -/
theorem exists_renderPositional (n : Nat) (e : Int) :
    ∃ c cs, plain.renderPositional (digitsOf n) e = c :: cs ∧ isDigit c = true := by
  by_cases he : 0 ≤ e
  · rw [renderPositional_of_nonneg n e he]
    cases hds : digitsOf n with
    | nil => exact absurd hds Nat.toDigits_ne_nil
    | cons c ds =>
        refine ⟨c, _, rfl, isDigit_of_mem_digitsOf (n := n) ?_⟩
        rw [hds]
        exact List.mem_cons_self
  · obtain ⟨whole, fraction, htext, hwhole, hdigits, -⟩ :=
      exists_renderPositional_of_neg n e (Int.not_le.1 he)
    rw [htext]
    cases whole with
    | nil => cases hwhole
    | cons c ds => exact ⟨c, _, rfl, hdigits c List.mem_cons_self⟩

/-- **A fraction is read as the double nearest to its decimal.** -/
theorem floatOf_renderPositional (negative : Bool) {n : Nat} {e : Int} (h : e < 0) :
    floatOf negative (plain.renderPositional (digitsOf n) e) =
      some (signed negative (nearest n e)) := by
  obtain ⟨whole, fraction, htext, hwhole, hdigits, hvalue, hlength⟩ :=
    exists_renderPositional_of_neg n e h
  obtain ⟨htake, hdrop⟩ := takeWhile_append_stop
    (fun c hc => hdigits c (List.mem_append_left _ hc)) fraction (rfl : isDigit '.' = false)
  have hfraction : ∀ c ∈ fraction, isDigit c = true :=
    fun c hc => hdigits c (List.mem_append_right _ hc)
  obtain ⟨htake', hdrop'⟩ := takeWhile_digits hfraction
  have hnonempty : fraction.isEmpty = false := by
    cases fraction with
    | nil =>
        simp only [List.length_nil] at hlength
        omega
    | cons c cs => rfl
  have hexponent : (0 : Int) - fraction.length = e := by omega
  simp [floatOf, htext, htake, hdrop, hwhole, htake', hdrop', hnonempty, hvalue, hlength]

/-- What the text of a double is read as. -/
def ofDouble? (x : Float) : Option Token :=
  if isFinite x then ofNumber (plain.render x).toList
  else if x.toBits &&& 0xFFFFFFFFFFFFF != 0 then some (.name "NaN")
  else if isNegative x then none
  else some (.name "inf")

/-- **The text of a finite double**: with a point it is read as a double, without as an integer. -/
theorem ofNumber_render {x : Float} (h : isFinite x = true) :
    ofNumber (plain.render x).toList =
      if (decOf x).exponent < 0 then
        some (.float (signed (isNegative x) (nearest (decOf x).digits (decOf x).exponent)))
      else (intOf (isNegative x)
        (plain.renderPositional (digitsOf (decOf x).digits) (decOf x).exponent)).map .int := by
  obtain ⟨c, cs, htext, hc⟩ := exists_renderPositional (decOf x).digits (decOf x).exponent
  have hhead : ∀ d ∈ (plain.renderPositional (digitsOf (decOf x).digits)
      (decOf x).exponent).head?, d ≠ '-' := by
    rw [htext]
    rintro d hd rfl
    cases hd
    revert hc
    decide
  rw [toList_render h, ofNumber_sign _ hhead]
  by_cases hneg : (decOf x).exponent < 0
  · obtain ⟨whole, fraction, htext', -⟩ :=
      exists_renderPositional_of_neg (decOf x).digits (decOf x).exponent hneg
    have hmark : (plain.renderPositional (digitsOf (decOf x).digits) (decOf x).exponent).any
        isFloatMark = true := by
      rw [htext']
      exact List.any_eq_true.2 ⟨'.', by simp, rfl⟩
    rw [if_pos hmark, if_pos hneg, floatOf_renderPositional _ hneg]
    rfl
  · have hnonneg := Int.not_lt.1 hneg
    rw [if_neg hneg, if_neg]
    rw [Bool.not_eq_true]
    refine any_eq_false_of_digits fun d hd => ?_
    rw [renderPositional_of_nonneg _ _ hnonneg, List.mem_append, List.mem_replicate] at hd
    rcases hd with hd | ⟨-, rfl⟩
    · exact isDigit_of_mem_digitsOf hd
    · rfl

/-- A digit, a point or a letter does not end a number. -/
theorem endsNumber_of_digit {c : Char} (h : isDigit c = true ∨ c = '.') : endsNumber c = false := by
  rcases h with h | rfl
  · exact not_endsNumber_of_starts (by simp [startsNumber, h])
  · decide

/-- All that the text of a double can be read as. -/
theorem ofDouble?_cases {x : Float} {t : Token} (h : ofDouble? x = some t) :
    (∃ y, t = .float y) ∨ (∃ n, t = .int n) ∨ t = .name "NaN" ∨ t = .name "inf" := by
  unfold ofDouble? at h
  split at h
  · rename_i hfinite
    rw [ofNumber_render hfinite] at h
    split at h
    · cases h
      exact .inl ⟨_, rfl⟩
    · obtain ⟨n, -, rfl⟩ := Option.map_eq_some_iff.1 h
      exact .inr (.inl ⟨n, rfl⟩)
  · split at h
    · cases h
      exact .inr (.inr (.inl rfl))
    · split at h <;> cases h
      exact .inr (.inr (.inr rfl))

/-- It starts with a sign, a digit or a letter. -/
theorem exists_render (x : Float) :
    ∃ c cs, (plain.render x).toList = c :: cs ∧ c ∉ '#' :: Lexeme.blanks := by
  by_cases hfinite : isFinite x = true
  · obtain ⟨c, cs, htext, hc⟩ := exists_renderPositional (decOf x).digits (decOf x).exponent
    rw [toList_render hfinite, htext]
    cases isNegative x with
    | true => exact ⟨'-', _, rfl, by decide⟩
    | false => exact ⟨c, _, rfl, not_mem_of_kind hc (by decide)⟩
  · simp only [Layout.render, hfinite, Bool.false_eq_true, if_false]
    split
    · exact ⟨'N', _, rfl, by decide⟩
    · rw [String.toList_ofList]
      cases isNegative x with
      | true => exact ⟨'-', _, rfl, by decide⟩
      | false => exact ⟨'i', _, rfl, by decide⟩

/-- **The text of a double is one word**, read as one token or not at all. -/
theorem cut_double (x : Float) {rest : List Char} (hrest : Stops rest) :
    cut ((plain.render x).toList ++ rest) = (ofDouble? x).map (·, rest) := by
  unfold ofDouble?
  by_cases hfinite : isFinite x = true
  · -- a sign or a digit comes first
    obtain ⟨c, cs, htext, hc⟩ := exists_renderPositional (decOf x).digits (decOf x).exponent
    have hbody : (c :: cs).any endsNumber = false := by
      rw [← htext]
      exact List.any_eq_false.2 fun d hd =>
        Bool.eq_false_iff.1 (endsNumber_of_digit (Layout.mem_renderPositional hd))
    rw [if_pos hfinite, toList_render hfinite, htext]
    cases isNegative x with
    | true => exact cut_number rfl hbody hrest
    | false => exact cut_number (by simp [startsNumber, hc]) (Bool.or_eq_false_iff.1 hbody).2 hrest
  · have htext : (plain.render x).toList =
        if x.toBits &&& 0xFFFFFFFFFFFFF != 0 then ['N', 'a', 'N']
        else if isNegative x then ['-', 'i', 'n', 'f'] else ['i', 'n', 'f'] := by
      simp only [Layout.render, hfinite, Bool.false_eq_true, if_false]
      split
      · rfl
      · rw [String.toList_ofList]
        cases isNegative x <;> rfl
    rw [if_neg hfinite, htext]
    split
    · exact cut_name (by decide) (by decide) hrest
    · split
      · exact cut_number rfl (by decide) hrest
      · exact cut_name (by decide) (by decide) hrest

end Token

end TypedQuery
