import TypedQuery.Proofs.Decimal.Bits
import TypedQuery.Proofs.Decimal.Doubles

/-!
# A fraction is read back

The text of a double that is no whole number has a point, and is read as the double nearest to its
decimal. This is the double again: the decimal is one of the numbers that round to it, and reading
divides digits by a power of ten, which rounds once.

* `Decimal.exists_toFloat_natCast`, `Decimal.holdsPower` -- the doubles that are divided where both
  are exact;
* `Decimal.nearest_eq_of_holds` -- **a decimal is read as the double that holds it**;
* `Decimal.isIntegral`, `Decimal.exponent_decOf_neg_iff` -- whole numbers have no point;
* `Token.ofDouble?_eq_iff` -- **the text of a double is read as the double exactly if it is finite
  and no whole number**.
-/

namespace TypedQuery

namespace Decimal

open Float.Model Float.Model.UnpackedFloat

/-! ## 1. Whole numbers as doubles -/

/-- **A whole number of fifty-three digits is a double.** -/
theorem exists_toFloat_natCast {n : Nat} (hpos : 0 < n) (hlt : n < 2 ^ 53) :
    ∃ (b : Binary) (hb : b.IsCanonical), b.q ≤ 971 ∧ b.value = n ∧
      n.toUInt64.toFloat = b.toFloat hb .positive := by
  have hlog : n.log2 < 53 := (Nat.log2_lt hpos.ne').2 hlt
  have hlower : 2 ^ n.log2 ≤ n := Nat.log2_self_le hpos.ne'
  have hupper : n < 2 ^ (n.log2 + 1) := Nat.lt_log2_self
  obtain ⟨k, hk⟩ : ∃ k, n.log2 + k = 52 := ⟨52 - n.log2, by omega⟩
  have hfull : 2 ^ 52 ≤ n <<< k ∧ n <<< k < 2 ^ 53 := by
    rw [Nat.shiftLeft_eq, ← hk, show 53 = n.log2 + 1 + k by omega, pow_add, pow_add _ _ k]
    exact ⟨Nat.mul_le_mul_right _ hlower, Nat.mul_lt_mul_of_pos_right hupper (by positivity)⟩
  have hb : Binary.IsCanonical ⟨n <<< k, -k, decide (n <<< k = 2 ^ 52)⟩ :=
    ⟨by simp only; omega, hfull.2, by simp only; omega, .inl hfull.1, by
      simp only [decide_eq_true_eq]
      omega⟩
  have hvalue : Binary.value ⟨n <<< k, -k, decide (n <<< k = 2 ^ 52)⟩ = n := by
    simp only [Binary.value, Nat.shiftLeft_eq, Nat.cast_mul, Nat.cast_pow, Nat.cast_ofNat, zpow_neg,
      zpow_natCast]
    field_simp
  refine ⟨_, hb, by simp only; omega, hvalue, ?_⟩
  have hnat : n.toUInt64.toNat = n := UInt64.toNat_ofNat_of_lt (by
    show n < 2 ^ 64
    omega)
  have htarget : target n 0 = -k := by
    rw [target_eq]
    omega
  have hshift : (- -(k : Int)).toNat = k := by omega
  have hround : UnpackedFloat.round Format.binary64 .positive n 0 =
      .finite .positive (n <<< k) (-k) hb.pos := by
    unfold UnpackedFloat.round
    simp only [show Format.binary64.targetExponent (totalExponent n 0) = -k from htarget,
      decreaseExponent, Int.zero_sub, hshift]
    refine roundWithAccuracy_eq hb (Binary.holds_value _) (.exact ?_) (.inr ?_) _
    · rw [Binary.value, mul_div_assoc, div_self (two_zpow_pos _).ne', mul_one]
    · rw [hvalue]
      have hpower : (2 : ℚ) ^ (n.log2 : Int) ≤ n := by exact_mod_cast hlower
      exact (two_zpow_le (by omega)).trans hpower
  have hpositive : compare (n : Int) 0 = .gt := Int.compare_eq_gt.2 (by omega)
  show Float.ofModel (.pack (UnpackedFloat.normalize Format.binary64 (n.toUInt64.toNat : Int) 0
    .positive)) = _
  rw [hnat]
  unfold UnpackedFloat.normalize
  rw [hpositive]
  simp only [Int.toNat_natCast, hround]
  rfl

/-- The fields of a double are those of a power of ten. -/
def HoldsPower (x : Float) (k : Nat) : Prop :=
  isFinite x = true ∧ isNegative x = false ∧ 0 < (Binary.ofBits x.toBits).m ∧
    (Binary.ofBits x.toBits).m * 2 ^ (Binary.ofBits x.toBits).q.toNat =
      10 ^ k * 2 ^ (-(Binary.ofBits x.toBits).q).toNat

theorem HoldsPower.exists_toFloat {x : Float} {k : Nat} (h : HoldsPower x k) :
    ∃ (b : Binary) (hb : b.IsCanonical), b.q ≤ 971 ∧ b.value = 10 ^ k ∧
      x = b.toFloat hb .positive := by
  obtain ⟨hfinite, hpositive, hpos, hproduct⟩ := h
  refine ⟨_, isCanonical_ofBits hpos, Binary.exponent_ofBits_le hfinite, ?_, ?_⟩
  · have hscale : (2 : ℚ) ^ (-(Binary.ofBits x.toBits).q).toNat ≠ 0 := by positivity
    refine mul_right_cancel₀ hscale ?_
    rw [Binary.value_mul_pow]
    exact_mod_cast hproduct
  · have hsign : signOf x = .positive := if_neg (by rw [hpositive]; decide)
    rw [← hsign]
    exact (Binary.toFloat_ofBits hfinite hpos).symm

/-- **The powers of ten that are doubles.** -/
theorem holdsPower (k : Fin Float.exactlyRepresentablePowersOfTen.size) :
    HoldsPower Float.exactlyRepresentablePowersOfTen[k] k := by
  revert k
  unfold HoldsPower
  decide +kernel

/-! ## 2. Reading -/

section

variable {b : Binary} {d : Dec}

/-- What rounds to a double is neither too small nor too large for one. -/
theorem bounds_of_holds (hb : b.IsCanonical) (hq : b.q ≤ 971) {v : ℚ} (h : b.Holds v) :
    (2 : ℚ) ^ (-1075 : Int) ≤ v ∧ v ≤ 2 ^ (1024 : Int) := by
  have hleast := hb.le
  have hone : (1 : ℚ) ≤ b.m := by exact_mod_cast hb.pos
  have hmost : (b.m : ℚ) + 1 ≤ 2 ^ (53 : Int) := by exact_mod_cast hb.lt
  constructor
  · refine le_trans ?_ (h.above.elim le_of_lt fun h => h.2.ge)
    calc (2 : ℚ) ^ (-1075 : Int) ≤ 2 ^ (b.q - 1) := two_zpow_le (by omega)
      _ = 1 / 2 * 2 ^ b.q := by
        rw [zpow_sub_one₀ (by norm_num)]
        ring
      _ ≤ b.low := by
        refine mul_le_mul_of_nonneg_right ?_ (two_zpow_pos _).le
        split <;> linarith
  · refine (h.below.elim le_of_lt fun h => h.2.le).trans ?_
    calc b.high ≤ 2 ^ (53 : Int) * 2 ^ b.q :=
          mul_le_mul_of_nonneg_right (by linarith) (two_zpow_pos _).le
      _ = 2 ^ (53 + b.q) := (zpow_add₀ (by norm_num) _ _).symm
      _ ≤ 2 ^ (1024 : Int) := two_zpow_le (by omega)

/-- The digits of a number and its size. -/
theorem pow_length_toDigits {n : Nat} (h : n ≠ 0) :
    10 ^ ((Nat.toDigits 10 n).length - 1) ≤ n ∧ n < 10 ^ (Nat.toDigits 10 n).length := by
  have hpos : 0 < (Nat.toDigits 10 n).length := Nat.length_toDigits_pos
  refine ⟨?_, (Nat.length_toDigits_le_iff (by decide) hpos).1 (le_refl _)⟩
  by_cases hone : (Nat.toDigits 10 n).length - 1 = 0
  · rw [hone, pow_zero]
    omega
  · have hmore := Nat.length_toDigits_le_iff (n := n) (b := 10) (by decide)
      (Nat.pos_of_ne_zero hone)
    omega

/-- **A decimal stands between the powers that its leading digit tells.** -/
theorem Dec.value_bounds (h : d.digits ≠ 0) :
    (10 : ℚ) ^ ((Nat.toDigits 10 d.digits).length + d.exponent - 1) ≤ d.value ∧
      d.value < 10 ^ ((Nat.toDigits 10 d.digits).length + d.exponent) := by
  obtain ⟨hlower, hupper⟩ := pow_length_toDigits h
  have hpos : 0 < (Nat.toDigits 10 d.digits).length := Nat.length_toDigits_pos
  have hten : (0 : ℚ) < 10 ^ d.exponent := by positivity
  constructor
  · have hexponent : ((Nat.toDigits 10 d.digits).length : Int) + d.exponent - 1 =
        (((Nat.toDigits 10 d.digits).length - 1 : Nat) : Int) + d.exponent := by omega
    rw [hexponent, zpow_add₀ (by norm_num), zpow_natCast]
    exact mul_le_mul_of_nonneg_right (by exact_mod_cast hlower) hten.le
  · rw [zpow_add₀ (by norm_num), zpow_natCast]
    exact mul_lt_mul_of_pos_right (by exact_mod_cast hupper) hten

/-- The leading digit of what rounds to a double is not too far from the point. -/
theorem leading_of_holds (hb : b.IsCanonical) (hq : b.q ≤ 971) (h : b.Holds d.value) :
    d.digits ≠ 0 ∧ -400 < (Nat.toDigits 10 d.digits).length + d.exponent ∧
      (Nat.toDigits 10 d.digits).length + d.exponent ≤ 400 := by
  obtain ⟨hlower, hupper⟩ := bounds_of_holds hb hq h
  have hdigits : d.digits ≠ 0 := by
    intro hzero
    rw [Dec.value, hzero, Nat.cast_zero, zero_mul] at hlower
    exact absurd (two_zpow_pos _) (not_lt.2 hlower)
  obtain ⟨hten, hten'⟩ := Dec.value_bounds hdigits
  have hsmall : (10 : ℚ) ^ (-400 : Int) ≤ 2 ^ (-1075 : Int) := by
    rw [zpow_neg, zpow_neg]
    refine inv_anti₀ (by positivity) ?_
    exact_mod_cast (by decide +kernel : 2 ^ 1075 ≤ 10 ^ 400)
  have hlarge : (2 : ℚ) ^ (1024 : Int) < 10 ^ (400 : Int) := by
    exact_mod_cast (by decide +kernel : 2 ^ 1024 < 10 ^ 400)
  have hlt : ∀ {e f : Int}, (10 : ℚ) ^ e < 10 ^ f → e < f :=
    (zpow_lt_zpow_iff_right₀ (by norm_num : (1 : ℚ) < 10)).1
  have hleft := hlt (lt_of_le_of_lt (hsmall.trans hlower) hten')
  have hright := hlt (lt_of_le_of_lt (hten.trans hupper) hlarge)
  exact ⟨hdigits, hleft, by omega⟩

/-- Digits and a power of ten that are doubles both are divided. -/
theorem ofScientific_of_small (hb : b.IsCanonical) {n k : Nat} (hn : 0 < n) (hlt : n < 2 ^ 53)
    (hk : k < Float.exactlyRepresentablePowersOfTen.size) (h : b.Holds (n / 10 ^ k)) :
    n.toUInt64.toFloat / Float.exactlyRepresentablePowersOfTen[k] = b.toFloat hb .positive := by
  obtain ⟨m, hm, hmq, hmvalue, hmfloat⟩ := exists_toFloat_natCast hn hlt
  obtain ⟨p, hp, hpq, hpvalue, hpfloat⟩ := (holdsPower ⟨k, hk⟩).exists_toFloat
  have hpfloat' : Float.exactlyRepresentablePowersOfTen[k] = p.toFloat hp .positive := hpfloat
  rw [← hmvalue, ← hpvalue] at h
  rw [hmfloat, hpfloat']
  show Float.ofModel (.pack (UnpackedFloat.div Format.binary64
    (m.toFloat hm .positive).toModel.unpack (p.toFloat hp .positive).toModel.unpack)) = _
  rw [Binary.unpack_toFloat hm hmq, Binary.unpack_toFloat hp hpq, div_eq_of_holds hb _ _ h]
  rfl

/-- Others are divided as whole numbers. -/
theorem ofScientific_of_large (hb : b.IsCanonical) {n k : Nat} (hn : n ≠ 0) (hk : k ≠ 0)
    (hrange : k ≤ 2048 + n.log2) (h : b.Holds (n / 10 ^ k)) :
    Float.ofModel (Float.Model.ofScientific n (Int.negOfNat k)) = b.toFloat hb .positive := by
  have hpower : (2 : Int) ^ Format.binary64.exponentBits = 2048 := rfl
  have hdiv : UnpackedFloat.ofScientific Format.binary64 n (-(k : Int)) =
      .finite .positive b.m b.q hb.pos := by
    have hdigits : (-(-(k : Int))).toNat = k := by omega
    unfold UnpackedFloat.ofScientific
    rw [dif_neg hn, if_neg, if_neg, if_neg]
    · simp only [hdigits]
      rw [div_eq_of_holds hb]
      · rfl
      · simpa using h
    all_goals omega
  rw [Int.negOfNat_eq]
  exact congrArg (fun u => Float.ofModel (.pack u)) hdiv

/-- **A decimal below the point is read as the double that holds it.** -/
theorem nearest_eq_of_holds (hb : b.IsCanonical) (hq : b.q ≤ 971) (hexponent : d.exponent < 0)
    (h : b.Holds d.value) : nearest d.digits d.exponent = b.toFloat hb .positive := by
  obtain ⟨hdigits, hleft, hright⟩ := leading_of_holds hb hq h
  obtain ⟨k, hk⟩ : ∃ k : Nat, d.exponent = -(k : Int) := ⟨(-d.exponent).toNat, by omega⟩
  have hread : nearest d.digits d.exponent = Float.ofScientific d.digits true k := by
    have hnot : (d.digits == 0 ||
        decide (((Nat.toDigits 10 d.digits).length : Int) + d.exponent < -400)) = false := by
      simp [hdigits]
      omega
    have hnegative : decide (d.exponent < 0) = true := decide_eq_true hexponent
    unfold nearest
    simp only [hnot, Bool.false_eq_true, if_false, if_neg (Int.not_lt.2 hright), hnegative]
    rw [hk, Int.natAbs_neg, Int.natAbs_natCast]
  have hquotient : d.value = d.digits / 10 ^ k := by
    rw [Dec.value, hk, zpow_neg, zpow_natCast, div_eq_mul_inv]
  rw [hquotient] at h
  rw [hread]
  unfold Float.ofScientific
  split
  · rename_i hsmall
    exact ofScientific_of_small hb (Nat.pos_of_ne_zero hdigits) hsmall.1 _ h
  · -- as many decimal digits as the number has, it has binary digits at least
    have hlength : (Nat.toDigits 10 d.digits).length ≤ d.digits.log2 + 1 := by
      rw [Nat.length_toDigits_le_iff (by decide) (by omega)]
      exact Nat.lt_log2_self.trans_le (Nat.pow_le_pow_left (by decide) _)
    exact ofScientific_of_large hb hdigits (by omega) (by omega) h

end

/-! ## 3. The text of a double -/

/-- **Whether a double is a whole number.** -/
def isIntegral (x : Float) : Bool := (Binary.ofBits x.toBits).isWhole

theorem decOf_of_pos {x : Float} (hm : 0 < (Binary.ofBits x.toBits).m) :
    decOf x = (Binary.ofBits x.toBits).shortest .up :=
  if_neg (by simpa using hm.ne')

/-- **The decimal of a double has places behind the point exactly if the double is no whole
    number.** -/
theorem exponent_decOf_neg_iff (x : Float) :
    (decOf x).exponent < 0 ↔ isIntegral x = false := by
  rw [← Int.not_le, ← Bool.not_eq_true, not_iff_not, isIntegral]
  by_cases hm : (Binary.ofBits x.toBits).m = 0
  · simp [decOf, Binary.isWhole, hm]
  · have hpos := Nat.pos_of_ne_zero hm
    rw [decOf_of_pos hpos,
      Binary.exponent_shortest_nonneg_iff hpos (isCanonical_ofBits hpos).lt .up]

/-- **A fraction is read back**: the double nearest to its decimal is the double. -/
theorem signed_nearest_decOf {x : Float} (hfinite : isFinite x = true)
    (hfraction : isIntegral x = false) :
    signed (isNegative x) (nearest (decOf x).digits (decOf x).exponent) = x := by
  have hexponent := (exponent_decOf_neg_iff x).2 hfraction
  have hpos : 0 < (Binary.ofBits x.toBits).m := by
    refine Nat.pos_of_ne_zero fun hzero => ?_
    simp [isIntegral, Binary.isWhole, hzero] at hfraction
  have hb := isCanonical_ofBits hpos
  have hq := Binary.exponent_ofBits_le hfinite
  rw [decOf_of_pos hpos] at hexponent ⊢
  rw [nearest_eq_of_holds hb hq hexponent (Binary.holds_shortest hpos .up)]
  have hsame := Binary.toFloat_ofBits hfinite hpos
  unfold signOf at hsame
  unfold signed
  by_cases hnegative : isNegative x = true
  · rw [if_pos hnegative] at hsame ⊢
    rw [Binary.neg_toFloat hb hq]
    exact hsame
  · rw [if_neg hnegative] at hsame ⊢
    exact hsame

end Decimal

namespace Token

open Decimal

/-- **The text of a double is read as the double exactly if it is finite and no whole number.** -/
theorem ofDouble?_eq_iff {x : Float} :
    ofDouble? x = some (.float x) ↔ isFinite x = true ∧ isIntegral x = false := by
  have hexponent := exponent_decOf_neg_iff x
  by_cases hfinite : isFinite x = true
  · rw [ofDouble?, if_pos hfinite, ofNumber_render hfinite, and_iff_right hfinite, ← hexponent]
    constructor
    · intro h
      by_contra hwhole
      rw [if_neg hwhole] at h
      obtain ⟨n, -, hn⟩ := Option.map_eq_some_iff.1 h
      cases hn
    · intro hfraction
      rw [if_pos hfraction, signed_nearest_decOf hfinite (hexponent.1 hfraction)]
  · -- what is no number is read as a name, or not at all
    refine iff_of_false (fun h => ?_) fun h => hfinite h.1
    rw [ofDouble?, if_neg hfinite] at h
    split at h
    · cases h
    · split at h <;> cases h

end Token

end TypedQuery
