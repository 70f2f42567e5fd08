import TypedQuery.Proofs.Decimal.ReadBack

/-!
# Integers as doubles

An integer of fifty-three digits is a double, so no two of them become equal doubles.

* `Decimal.valueOf_ofInt64` -- **the double of an integer has its value**;
* `Decimal.eq_of_valueOf_ofInt64` -- **integers whose doubles have one value are equal**;
* `Decimal.valueOf_eq_of_beq` -- doubles that compare equal have one value.
-/

namespace TypedQuery.Decimal

open Float.Model

/-- The value of a finite double; what is not finite has none, and zero stands for it. -/
def unpackedValue : UnpackedFloat → ℚ
  | .finite .positive m q _ => m * 2 ^ q
  | .finite .negative m q _ => -(m * 2 ^ q)
  | _ => 0

/-- The value of a double. -/
def valueOf (x : Float) : ℚ := unpackedValue x.toModel.unpack

theorem unpackedValue_eq_of_compare {a b : UnpackedFloat} (h : a.compare b = some .eq) :
    unpackedValue a = unpackedValue b := by
  have hfinite : ∀ {m₁ m₂ : Nat} {q₁ q₂ : Int},
      (compare q₁ q₂).then (compare m₁ m₂) = .eq → (m₁ : ℚ) * 2 ^ q₁ = m₂ * 2 ^ q₂ := by
    intro m₁ m₂ q₁ q₂ heq
    obtain ⟨hq, hm⟩ := Ordering.then_eq_eq.1 heq
    rw [Int.compare_eq_eq.1 hq, Nat.compare_eq_eq.1 hm]
  unfold UnpackedFloat.compare at h
  split at h
  case h_13 =>
    have heq := Ordering.swap_eq_eq.1 (Option.some.inj h)
    exact congrArg (- ·) (hfinite heq)
  case h_16 => exact hfinite (Option.some.inj h)
  all_goals first | rfl | cases h

/-- Doubles that compare equal have one value. -/
theorem valueOf_eq_of_beq {x y : Float} (h : (x == y) = true) : valueOf x = valueOf y := by
  have hcompare : (x.toModel.unpack.compare y.toModel.unpack == some .eq) = true := h
  exact unpackedValue_eq_of_compare (eq_of_beq hcompare)

/-- **The double of an integer has its value**, if it has fifty-three digits at most. -/
theorem valueOf_ofInt64 {n : Int64} (h : n.toInt.natAbs < 2 ^ 53) :
    valueOf (ofInt64 n) = n.toInt := by
  unfold ofInt64
  by_cases hzero : n.toInt = 0
  · have hunpack : (Nat.toUInt64 0).toFloat.toModel.unpack = .zero .positive := rfl
    rw [hzero, Int.natAbs_zero, Int.cast_zero, valueOf, signed, if_neg (by decide), hunpack]
    rfl
  · obtain ⟨b, hb, hq, hvalue, hfloat⟩ := exists_toFloat_natCast (Int.natAbs_pos.2 hzero) h
    have habs : (n.toInt.natAbs : ℚ) = |(n.toInt : ℚ)| := by
      rw [← Int.cast_abs, Int.abs_eq_natAbs]
      rfl
    rw [hfloat]
    by_cases hneg : n.toInt < 0
    · rw [decide_eq_true hneg, signed, if_pos rfl, Binary.neg_toFloat hb hq, valueOf,
        Binary.unpack_toFloat hb hq]
      show -b.value = n.toInt
      rw [hvalue, habs, abs_of_neg (by exact_mod_cast hneg), neg_neg]
    · rw [decide_eq_false hneg, signed, if_neg (by decide), valueOf, Binary.unpack_toFloat hb hq]
      show b.value = n.toInt
      rw [hvalue, habs, abs_of_nonneg (by exact_mod_cast Int.not_lt.1 hneg)]

/-- **Integers whose doubles have one value are equal**, if they have fifty-three digits at most. -/
theorem eq_of_valueOf_ofInt64 {n m : Int64} (hn : n.toInt.natAbs < 2 ^ 53)
    (hm : m.toInt.natAbs < 2 ^ 53) (h : valueOf (ofInt64 n) = valueOf (ofInt64 m)) : n = m := by
  rw [valueOf_ofInt64 hn, valueOf_ofInt64 hm, Int.cast_inj] at h
  exact Int64.toInt_inj.1 h

end TypedQuery.Decimal
