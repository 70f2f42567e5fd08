import TypedQuery.Decimal.Layout
import TypedQuery.Proofs.Decimal.Rounding

/-!
# The bits of a double

A finite double that is not zero is a sign and a number, and its bits are the fields of both: the
number is found again in the double, and the double is made again from it.

* `ofBits_eq`, `isCanonical_ofBits` -- the number that stands in the bits;
* `unpack_toModel` -- the double is its sign, its digits and its exponent;
* `Binary.toFloat`, `Binary.toNat_toFloat` -- the double of a number, and its bits;
* `Binary.ofBits_toFloat`, `Binary.toFloat_ofBits` -- **the two are inverse**.
-/

namespace TypedQuery.Decimal

open Float.Model Float.Model.UnpackedFloat

/-! ## 1. Fields -/

/-- The exponent as it is stored. -/
def biasedOf (x : Float) : Nat := x.toBits.toNat / 2 ^ 52 % 2 ^ 11

/-- The digits behind the leading one. -/
def fractionOf (x : Float) : Nat := x.toBits.toNat % 2 ^ 52

/-- The sign. -/
def signOf (x : Float) : Sign := if isNegative x then .negative else .positive

theorem toNat_biased (x : Float) : ((x.toBits >>> 52) &&& 0x7FF).toNat = biasedOf x := by
  rw [UInt64.toNat_and, UInt64.toNat_shiftRight]
  show x.toBits.toNat >>> 52 &&& 2 ^ 11 - 1 = _
  rw [Nat.and_two_pow_sub_one_eq_mod, Nat.shiftRight_eq_div_pow]
  rfl

theorem toNat_fraction (x : Float) : (x.toBits &&& 0xFFFFFFFFFFFFF).toNat = fractionOf x := by
  rw [UInt64.toNat_and]
  show x.toBits.toNat &&& 2 ^ 52 - 1 = _
  rw [Nat.and_two_pow_sub_one_eq_mod]
  rfl

theorem ofBits_eq (x : Float) : Binary.ofBits x.toBits =
    if biasedOf x = 0 then ⟨fractionOf x, -1074, false⟩
    else ⟨2 ^ 52 + fractionOf x, (biasedOf x : Int) - 1075,
      fractionOf x == 0 && biasedOf x > 1⟩ := by
  simp only [Binary.ofBits, toNat_biased, toNat_fraction, beq_iff_eq]
  rfl

theorem isFinite_iff (x : Float) : isFinite x = true ↔ biasedOf x ≠ 2047 := by
  rw [← toNat_biased, isFinite, bne_iff_ne, ne_eq, ne_eq, ← UInt64.toNat_inj]
  rfl

theorem isNegative_iff (x : Float) : isNegative x = true ↔ x.toBits.toNat / 2 ^ 63 = 1 := by
  rw [isNegative, beq_iff_eq, ← UInt64.toNat_inj, UInt64.toNat_shiftRight]
  show x.toBits.toNat >>> 63 = 1 ↔ _
  rw [Nat.shiftRight_eq_div_pow]

theorem isCanonical_ofBits {x : Float} (hm : 0 < (Binary.ofBits x.toBits).m) :
    (Binary.ofBits x.toBits).IsCanonical := by
  have hfraction : fractionOf x < 2 ^ 52 := Nat.mod_lt _ (by positivity)
  rw [ofBits_eq] at hm ⊢
  split
  · rename_i hzero
    rw [if_pos hzero] at hm
    exact ⟨hm, by simp only; omega, le_refl _, .inr rfl, by simp⟩
  · rename_i hzero
    refine ⟨by simp only; omega, by simp only; omega, by simp only; omega,
      .inl (by simp only; omega), ?_⟩
    simp only [Bool.and_eq_true, beq_iff_eq, decide_eq_true_eq]
    omega

/-! ## 2. Packing -/

theorem toNat_packComponents (s : Sign) (e : BitVec 11) (f : BitVec 52) :
    (packComponents Format.binary64 s e f).toNat =
      s.toBitVec.toNat * 2 ^ 63 + e.toNat * 2 ^ 52 + f.toNat := by
  show ((s.toBitVec ++ e) ++ f).toNat = _
  rw [BitVec.toNat_append, BitVec.toNat_append, ← Nat.shiftLeft_add_eq_or_of_lt f.isLt,
    ← Nat.shiftLeft_add_eq_or_of_lt e.isLt, Nat.shiftLeft_eq, Nat.shiftLeft_eq]
  ring

theorem toNat_unpackExponent (x : Float) :
    (@unpackExponent Format.binary64 x.toBits.toBitVec).toNat = biasedOf x := by
  simp [unpackExponent, biasedOf, Nat.shiftRight_eq_div_pow]

theorem toNat_unpackMantissa (x : Float) :
    (@unpackMantissa Format.binary64 x.toBits.toBitVec).toNat = fractionOf x := by
  simp [unpackMantissa, fractionOf]

theorem ofBitVec_unpackSign (x : Float) :
    Sign.ofBitVec (@unpackSign Format.binary64 x.toBits.toBitVec) = signOf x := by
  have hlt := x.toBits.toNat_lt
  have hsign : (@unpackSign Format.binary64 x.toBits.toBitVec).toNat =
      x.toBits.toNat / 2 ^ 63 := by
    simp [unpackSign, Nat.shiftRight_eq_div_pow]
    omega
  have hzero : @unpackSign Format.binary64 x.toBits.toBitVec = 0#1 ↔
      ¬ isNegative x = true := by
    rw [← BitVec.toNat_inj, hsign, isNegative_iff, BitVec.toNat_ofNat]
    omega
  unfold Sign.ofBitVec signOf
  by_cases hnegative : isNegative x = true
  · rw [if_pos hnegative, if_neg fun h => hzero.1 h hnegative]
  · rw [if_neg hnegative, if_pos (hzero.2 hnegative)]

/-- **A finite double that is not zero is its sign, its digits and its exponent.** -/
theorem unpack_toModel {x : Float} (hfinite : isFinite x = true)
    (hm : 0 < (Binary.ofBits x.toBits).m) :
    x.toModel.unpack = .finite (signOf x) (Binary.ofBits x.toBits).m
      (Binary.ofBits x.toBits).q hm := by
  have hexponent := toNat_unpackExponent x
  have hmantissa := toNat_unpackMantissa x
  have hones : @unpackExponent Format.binary64 x.toBits.toBitVec ≠ -1#_ := by
    intro h
    rw [h] at hexponent
    exact (isFinite_iff x).1 hfinite hexponent.symm
  have hzero : @unpackExponent Format.binary64 x.toBits.toBitVec = 0#_ ↔
      biasedOf x = 0 := by
    rw [← BitVec.toNat_inj, hexponent]
    rfl
  have hsign := ofBitVec_unpackSign x
  show UnpackedFloat.unpack Format.binary64 x.toBits.toBitVec = _
  unfold UnpackedFloat.unpack
  simp only [if_neg hones, hzero, hexponent, hsign]
  by_cases hbiased : biasedOf x = 0
  · have hfraction : @unpackMantissa Format.binary64 x.toBits.toBitVec ≠ 0#_ := by
      intro h
      rw [h] at hmantissa
      rw [ofBits_eq, if_pos hbiased] at hm
      simp only [← hmantissa] at hm
      exact absurd hm (by decide)
    rw [if_pos hbiased, dif_neg hfraction, UnpackedFloat.finite.injEq]
    rw [ofBits_eq, if_pos hbiased]
    refine ⟨rfl, hmantissa, ?_⟩
    rw [hbiased]
    rfl
  · rw [if_neg hbiased, UnpackedFloat.finite.injEq]
    rw [ofBits_eq, if_neg hbiased]
    refine ⟨rfl, ?_, ?_⟩
    · rw [BitVec.toNat_append, ← Nat.shiftLeft_add_eq_or_of_lt (BitVec.isLt _), hmantissa]
      rfl
    · rfl

namespace Binary

variable {b : Binary}

/-- The double of a number, with a sign. -/
def toFloat (b : Binary) (hb : b.IsCanonical) (s : Sign) : Float :=
  .ofModel (.pack (.finite s b.m b.q hb.pos))

/-- The exponent that is stored for a number. -/
def biased (b : Binary) : Nat := if 2 ^ 52 ≤ b.m then (b.q + 1075).toNat else 0

theorem IsCanonical.biased_lt (hb : b.IsCanonical) (hq : b.q ≤ 971) : b.biased < 2047 := by
  have hleast := hb.le
  unfold biased
  split <;> omega

/-- **The bits of a number and a sign.** -/
theorem toNat_toFloat (hb : b.IsCanonical) (hq : b.q ≤ 971) (s : Sign) :
    (b.toFloat hb s).toBits.toNat =
      s.toBitVec.toNat * 2 ^ 63 + b.biased * 2 ^ 52 + b.m % 2 ^ 52 := by
  have hlt := hb.lt
  have hleast := hb.le
  have hbiased := hb.biased_lt hq
  have hbias : (Format.binary64.exponentBias : Int) = 1023 := rfl
  have hall : Format.binary64.mantissaBits = 53 := rfl
  have hexponent : (b.q + Format.binary64.exponentBias + (52 : Nat)).toNat =
      (b.q + 1075).toNat := by
    rw [hbias]
    omega
  show (UnpackedFloat.pack Format.binary64 _).toNat = _
  unfold UnpackedFloat.pack
  simp only [hexponent, hall]
  rw [if_neg (by omega)]
  unfold biased at hbiased ⊢
  by_cases hfull : 2 ^ 52 ≤ b.m
  · have hlog : b.m.log2 = 52 := (Nat.log2_eq_iff hb.pos.ne').2 ⟨hfull, hlt⟩
    rw [if_pos hfull] at hbiased ⊢
    rw [if_pos (by omega), toNat_packComponents, BitVec.toNat_ofNat, BitVec.toNat_ofNat,
      Nat.mod_eq_of_lt (by omega : (b.q + 1075).toNat < 2 ^ 11)]
  · have hlog : b.m.log2 < 52 := (Nat.log2_lt hb.pos.ne').2 (by omega)
    rw [if_neg hfull, if_neg (by omega), toNat_packComponents, BitVec.toNat_ofNat]
    rfl

/-- **A number is found again in its double.** -/
theorem ofBits_toFloat (hb : b.IsCanonical) (hq : b.q ≤ 971) (s : Sign) :
    isFinite (b.toFloat hb s) = true ∧ signOf (b.toFloat hb s) = s ∧
      ofBits (b.toFloat hb s).toBits = b := by
  have hbits := toNat_toFloat hb hq s
  have hbiased := hb.biased_lt hq
  have hlt := hb.lt
  have hleast := hb.le
  have hfraction : b.m % 2 ^ 52 < 2 ^ 52 := Nat.mod_lt _ (by positivity)
  have hsign : s.toBitVec.toNat < 2 := s.toBitVec.isLt
  have hbiasedOf : biasedOf (b.toFloat hb s) = b.biased := by
    rw [biasedOf, hbits]
    omega
  have hfractionOf : fractionOf (b.toFloat hb s) = b.m % 2 ^ 52 := by
    rw [fractionOf, hbits]
    omega
  refine ⟨?_, ?_, ?_⟩
  · rw [isFinite_iff, hbiasedOf]
    omega
  · have hnegative := isNegative_iff (b.toFloat hb s)
    rw [hbits] at hnegative
    unfold signOf
    cases s with
    | negative =>
        refine if_pos (hnegative.2 ?_)
        simp only [Sign.toBitVec, BitVec.toNat_ofNat]
        omega
    | positive =>
        refine if_neg fun h => ?_
        have hone := hnegative.1 h
        simp only [Sign.toBitVec, BitVec.toNat_ofNat] at hone
        omega
  · have hnarrow := hb.narrow
    have hfull := hb.full
    rw [ofBits_eq, hbiasedOf, hfractionOf]
    obtain ⟨m, q, narrowBelow⟩ := b
    simp only [biased] at *
    by_cases hleading : 2 ^ 52 ≤ m
    · have hdigits : 2 ^ 52 + m % 2 ^ 52 = m := by omega
      have hexponent : ((q + 1075).toNat : Int) - 1075 = q := by omega
      have hgap : (m % 2 ^ 52 == 0 && decide ((q + 1075).toNat > 1)) = narrowBelow := by
        rw [Bool.eq_iff_iff, hnarrow, Bool.and_eq_true, beq_iff_eq, decide_eq_true_eq]
        omega
      rw [if_pos hleading, if_neg (by omega), hdigits, hexponent, hgap]
    · have hdigits : m % 2 ^ 52 = m := Nat.mod_eq_of_lt (by omega)
      have hexponent : q = -1074 := by omega
      have hgap : narrowBelow = false := by
        rw [← Bool.not_eq_true, hnarrow]
        omega
      rw [if_neg hleading, if_pos rfl, hdigits, hexponent, hgap]

theorem exponent_ofBits_le {x : Float} (hfinite : isFinite x = true) :
    (ofBits x.toBits).q ≤ 971 := by
  have hmax := (isFinite_iff x).1 hfinite
  have hbiased : biasedOf x < 2 ^ 11 := Nat.mod_lt _ (by positivity)
  rw [ofBits_eq]
  split
  · show (-1074 : Int) ≤ 971
    decide
  · show (biasedOf x : Int) - 1075 ≤ 971
    omega

/-- **A finite double that is not zero is the double of its number.** -/
theorem toFloat_ofBits {x : Float} (hfinite : isFinite x = true) (hm : 0 < (ofBits x.toBits).m) :
    (ofBits x.toBits).toFloat (isCanonical_ofBits hm) (signOf x) = x := by
  unfold toFloat
  rw [← unpack_toModel hfinite hm]
  exact Float.ofBits_toBits x

/-- What a packed number is unpacked to. -/
theorem unpack_toFloat (hb : b.IsCanonical) (hq : b.q ≤ 971) (s : Sign) :
    (b.toFloat hb s).toModel.unpack = .finite s b.m b.q hb.pos := by
  obtain ⟨hfinite, hsign, hsame⟩ := ofBits_toFloat hb hq s
  have hunpack := unpack_toModel hfinite (by rw [hsame]; exact hb.pos)
  simp only [hsame, hsign] at hunpack
  exact hunpack

theorem neg_toFloat (hb : b.IsCanonical) (hq : b.q ≤ 971) (s : Sign) :
    -b.toFloat hb s = b.toFloat hb (-s) := by
  show Float.ofModel (.pack (b.toFloat hb s).toModel.unpack.neg) = _
  rw [unpack_toFloat hb hq]
  rfl

end Binary

end TypedQuery.Decimal
