import TypedQuery.Proofs.Decimal.Interval

/-!
# A quotient rounds to the double that holds it

A number is rounded in two steps: its mantissa is shifted until it has no more digits than a double,
and what falls behind it is told by two bits; then the nearest whole mantissa is taken.

* `Tells` -- **what a mantissa with its two bits tells of a number**; shifting keeps it, and
  `Tells.roundedMantissa_eq` takes the nearest whole number;
* `Binary.IsCanonical`, `Binary.IsCanonical.exponent_of_holds` -- the exponent of the double;
* `roundWithAccuracy_eq` -- **what holds a number is what the number rounds to**;
* `div_eq_of_holds` -- **a quotient of two doubles is the double that holds it**.
-/

namespace TypedQuery.Decimal

open Float.Model Float.Model.UnpackedFloat

/-! ## 1. A number and its mantissa -/

/-- **What a mantissa with its two bits tells of a number**: the whole part, and how the rest
    compares with nothing and with a half. -/
inductive Tells : ExtendedMantissa → ℚ → Prop
  | exact {m : Nat} {r : ℚ} (eq : r = m) : Tells ⟨m, false, false⟩ r
  | belowHalf {m : Nat} {r : ℚ} (gt : m < r) (lt : r < m + 1 / 2) : Tells ⟨m, false, true⟩ r
  | half {m : Nat} {r : ℚ} (eq : r = m + 1 / 2) : Tells ⟨m, true, false⟩ r
  | aboveHalf {m : Nat} {r : ℚ} (gt : m + 1 / 2 < r) (lt : r < m + 1) : Tells ⟨m, true, true⟩ r

variable {em : ExtendedMantissa} {r : ℚ}

theorem Tells.bounds (h : Tells em r) : (em.mantissa : ℚ) ≤ r ∧ r < em.mantissa + 1 := by
  cases h with
  | exact heq | half heq => constructor <;> simp only [heq] <;> linarith
  | belowHalf hgt hlt | aboveHalf hgt hlt => constructor <;> simp only <;> linarith

/-- The last digit of the mantissa becomes its first bit. -/
theorem Tells.shiftRightOne (h : Tells em r) : Tells em.shiftRightOne (r / 2) := by
  have heven : ∀ (k : Nat) (a b : Bool),
      ExtendedMantissa.shiftRightOne ⟨2 * k, a, b⟩ = ⟨k, false, a || b⟩ := by
    intro k a b
    simp [ExtendedMantissa.shiftRightOne]
  have hodd : ∀ (k : Nat) (a b : Bool),
      ExtendedMantissa.shiftRightOne ⟨2 * k + 1, a, b⟩ = ⟨k, true, a || b⟩ := by
    intro k a b
    simp only [ExtendedMantissa.shiftRightOne, ExtendedMantissa.mk.injEq, and_true]
    constructor
    · omega
    · simp [Nat.add_mod]
  obtain ⟨m, a, b⟩ := em
  obtain ⟨k, rfl | rfl⟩ := m.even_or_odd'
  · rw [heven]
    cases h with
    | exact heq =>
        push_cast at heq
        exact .exact (by linarith)
    | belowHalf hgt hlt =>
        push_cast at hgt hlt
        exact .belowHalf (by linarith) (by linarith)
    | half heq =>
        push_cast at heq
        exact .belowHalf (by linarith) (by linarith)
    | aboveHalf hgt hlt =>
        push_cast at hgt hlt
        exact .belowHalf (by linarith) (by linarith)
  · rw [hodd]
    cases h with
    | exact heq =>
        push_cast at heq
        exact .half (by linarith)
    | belowHalf hgt hlt =>
        push_cast at hgt hlt
        exact .aboveHalf (by linarith) (by linarith)
    | half heq =>
        push_cast at heq
        exact .aboveHalf (by linarith) (by linarith)
    | aboveHalf hgt hlt =>
        push_cast at hgt hlt
        exact .aboveHalf (by linarith) (by linarith)

theorem Tells.shiftRight (h : Tells em r) (n : Nat) : Tells (em >>> n) (r / 2 ^ n) := by
  induction n with
  | zero =>
      rw [pow_zero, div_one]
      exact h
  | succ n ih =>
      have hsucc : r / 2 ^ (n + 1) = r / 2 ^ n / 2 := by
        rw [pow_succ, div_div]
      rw [hsucc]
      exact ih.shiftRightOne

theorem eq_of_cast_lt {n m : Nat} (h : (n : ℚ) < m + 1) (h' : (m : ℚ) < n + 1) : n = m := by
  have hle : n < m + 1 := by exact_mod_cast h
  have hge : m < n + 1 := by exact_mod_cast h'
  omega

/-- **A mantissa is rounded to the nearest whole number**, to an even one in the middle. -/
theorem Tells.roundedMantissa_eq (h : Tells em r) {m : Nat}
    (habove : (m : ℚ) - 1 / 2 < r ∨ m % 2 = 0 ∧ r = m - 1 / 2)
    (hbelow : r < m + 1 / 2 ∨ m % 2 = 0 ∧ r = m + 1 / 2) : em.roundedMantissa = m := by
  have hge : (m : ℚ) - 1 / 2 ≤ r := habove.elim le_of_lt fun h => h.2.ge
  have hle : r ≤ m + 1 / 2 := hbelow.elim le_of_lt fun h => h.2.le
  cases h with
  | @exact n _ heq =>
      show n = m
      exact eq_of_cast_lt (by linarith) (by linarith)
  | @belowHalf n _ hgt hlt =>
      show n = m
      exact eq_of_cast_lt (by linarith) (by linarith)
  | @aboveHalf n _ hgt hlt =>
      show n + 1 = m
      exact eq_of_cast_lt (by push_cast; linarith) (by push_cast; linarith)
  | @half n _ heq =>
      show n + n % 2 = m
      by_cases hmod : n % 2 = 0
      · -- the even number below; the one above is odd, so the half is too far from it
        rw [hmod, Nat.add_zero]
        refine eq_of_cast_lt (by linarith) (lt_of_le_of_ne (by linarith) fun hm => ?_)
        have hnat : m = n + 1 := by exact_mod_cast hm
        rcases habove with hgt | ⟨heven, -⟩
        · linarith
        · omega
      · rw [show n % 2 = 1 by omega]
        refine eq_of_cast_lt (lt_of_le_of_ne (by push_cast; linarith) fun hm => ?_)
          (by push_cast; linarith)
        have hnat : n = m := by
          have hcast : n + 1 = m + 1 := by exact_mod_cast hm
          omega
        rcases hbelow with hlt | ⟨heven, -⟩
        · push_cast at hm
          linarith
        · omega

/-- The whole part and the rest of a quotient. -/
theorem tells_quotient (a : Nat) {b : Nat} (hb : 0 < b) :
    Tells (.ofMantissaAndAccuracy (a / b) (accuracyOfFraction (a % b) b)) (a / b : ℚ) := by
  have hpos : (0 : ℚ) < b := by exact_mod_cast hb
  have hlt : ((a % b : Nat) : ℚ) / b < 1 := by
    rw [div_lt_one hpos]
    exact_mod_cast Nat.mod_lt a hb
  have hquotient : (a : ℚ) / b = (a / b : Nat) + ((a % b : Nat) : ℚ) / b := by
    have hcast : (a : ℚ) = b * (a / b : Nat) + (a % b : Nat) := by
      exact_mod_cast (Nat.div_add_mod a b).symm
    rw [eq_comm, ← sub_eq_zero]
    field_simp
    linarith
  rw [hquotient]
  unfold accuracyOfFraction
  by_cases hzero : a % b = 0
  · rw [if_pos hzero, hzero]
    exact .exact (by simp)
  · rw [if_neg hzero]
    have hrest : (0 : ℚ) < ((a % b : Nat) : ℚ) / b := by
      have hcast : (0 : ℚ) < (a % b : Nat) := by exact_mod_cast Nat.pos_of_ne_zero hzero
      positivity
    rcases lt_trichotomy (2 * (a % b)) b with h | h | h
    · rw [Nat.compare_eq_lt.2 h]
      have hhalf : ((a % b : Nat) : ℚ) / b < 1 / 2 := by
        rw [div_lt_iff₀ hpos]
        have hcast : (2 * (a % b : Nat) : ℚ) < b := by exact_mod_cast h
        linarith
      exact .belowHalf (by linarith) (by linarith)
    · rw [Nat.compare_eq_eq.2 h]
      have hhalf : ((a % b : Nat) : ℚ) / b = 1 / 2 := by
        rw [div_eq_iff hpos.ne']
        have hcast : (2 * (a % b : Nat) : ℚ) = b := by exact_mod_cast h
        linarith
      exact .half (by rw [hhalf])
    · rw [Nat.compare_eq_gt.2 h]
      have hhalf : 1 / 2 < ((a % b : Nat) : ℚ) / b := by
        rw [lt_div_iff₀ hpos]
        have hcast : (b : ℚ) < 2 * (a % b : Nat) := by exact_mod_cast h
        linarith
      exact .aboveHalf (by linarith) (by linarith)

/-! ## 2. The exponent -/

/-- **A number that a double is**: fifty-three binary digits, fewer only behind the last place that
    there is. -/
structure Binary.IsCanonical (x : Binary) : Prop where
  pos : 0 < x.m
  lt : x.m < 2 ^ 53
  le : -1074 ≤ x.q
  full : 2 ^ 52 ≤ x.m ∨ x.q = -1074
  narrow : x.narrowBelow = true ↔ x.m = 2 ^ 52 ∧ -1074 < x.q

/-- The exponent that a mantissa is shifted to. -/
def target (m : Nat) (e : Int) : Int := Format.binary64.targetExponent (totalExponent m e)

theorem target_eq (m : Nat) (e : Int) : target m e = max (m.log2 + e - 52) (-1074) := by
  simp only [target, Format.targetExponent, totalExponent, Format.mantissaBits, Format.minExponent]
  omega

theorem two_zpow_pos (e : Int) : (0 : ℚ) < 2 ^ e := by positivity

theorem lt_of_two_zpow_lt {e f : Int} (h : (2 : ℚ) ^ e < 2 ^ f) : e < f :=
  (zpow_lt_zpow_iff_right₀ (by norm_num : (1 : ℚ) < 2)).1 h

theorem two_zpow_le {e f : Int} (h : e ≤ f) : (2 : ℚ) ^ e ≤ 2 ^ f :=
  zpow_le_zpow_right₀ (by norm_num : (1 : ℚ) ≤ 2) h

/-- **A mantissa of enough digits is shifted to fifty-three**, or to the last place that there
    is. -/
theorem target_bounds {m : Nat} {e : Int} {v : ℚ} (hle : (m : ℚ) ≤ v / 2 ^ e)
    (hlt : v / 2 ^ e < m + 1) (hfine : e ≤ -1074 ∨ (2 : ℚ) ^ (e + 52) ≤ v) :
    e ≤ target m e ∧ v < 2 ^ (target m e + 53) ∧
      (target m e = -1074 ∨ (2 : ℚ) ^ (target m e + 52) ≤ v) := by
  have htarget := target_eq m e
  rw [le_div_iff₀ (two_zpow_pos e)] at hle
  rw [div_lt_iff₀ (two_zpow_pos e)] at hlt
  have hupper : v < 2 ^ (target m e + 53) := by
    have hcast : (m : ℚ) + 1 ≤ 2 ^ ((m.log2 : Int) + 1) := by
      exact_mod_cast Nat.succ_le_of_lt (Nat.lt_log2_self (n := m))
    calc v < (m + 1) * 2 ^ e := hlt
      _ ≤ 2 ^ ((m.log2 : Int) + 1) * 2 ^ e :=
          mul_le_mul_of_nonneg_right hcast (two_zpow_pos e).le
      _ = 2 ^ ((m.log2 : Int) + 1 + e) := (zpow_add₀ (by norm_num) _ _).symm
      _ ≤ 2 ^ (target m e + 53) := two_zpow_le (by omega)
  refine ⟨?_, hupper, ?_⟩
  · rcases hfine with hfine | hfine
    · omega
    · have hexponent := lt_of_two_zpow_lt (lt_of_le_of_lt hfine hupper)
      omega
  · by_cases hzero : m = 0
    · subst hzero
      left
      rcases hfine with hfine | hfine
      · have hlog : Nat.log2 0 = 0 := rfl
        omega
      · have hsmall : v < 2 ^ e := by simpa using hlt
        have hexponent := lt_of_two_zpow_lt (lt_of_le_of_lt hfine hsmall)
        omega
    · refine or_iff_not_imp_left.2 fun hne => ?_
      have hcast : (2 : ℚ) ^ (m.log2 : Int) ≤ m := by exact_mod_cast Nat.log2_self_le hzero
      calc (2 : ℚ) ^ (target m e + 52) ≤ 2 ^ ((m.log2 : Int) + e) := two_zpow_le (by omega)
        _ = 2 ^ (m.log2 : Int) * 2 ^ e := zpow_add₀ (by norm_num) _ _
        _ ≤ m * 2 ^ e := mul_le_mul_of_nonneg_right hcast (two_zpow_pos e).le
        _ ≤ v := hle

namespace Binary

variable {x : Binary} {v : ℚ}

/-- **The exponent is that of the double that holds the number**, or one less where the number is
    below it and the gap there is narrow. -/
theorem IsCanonical.exponent_of_holds (hx : x.IsCanonical) (hv : x.Holds v) {t : Int}
    (hleast : -1074 ≤ t) (hlt : v < 2 ^ (t + 53)) (hle : t = -1074 ∨ (2 : ℚ) ^ (t + 52) ≤ v) :
    t = x.q ∨ (t = x.q - 1 ∧ x.narrowBelow = true ∧ v < x.value) := by
  have hpow := two_zpow_pos x.q
  have hlow : x.low ≤ v := hv.above.elim le_of_lt fun h => h.2.ge
  have hhigh : v ≤ x.high := hv.below.elim le_of_lt fun h => h.2.le
  -- the number is below the next power of two
  have hbelow : v < 2 ^ (x.q + 53) := by
    have hcast : (x.m : ℚ) + 1 ≤ 2 ^ 53 := by exact_mod_cast hx.lt
    refine lt_of_le_of_lt hhigh ?_
    rw [high, add_comm x.q, zpow_add₀ (by norm_num)]
    refine mul_lt_mul_of_pos_right ?_ hpow
    norm_num at hcast ⊢
    linarith
  have hle' : t ≤ x.q := by
    by_contra hgt
    rcases hle with hle | hle
    · have hq := hx.le
      omega
    · have hexponent := lt_of_two_zpow_lt (lt_of_le_of_lt hle hbelow)
      omega
  refine (eq_or_lt_of_le hle').imp_right fun hless => ?_
  have hq : -1074 < x.q := by omega
  have hfull : 2 ^ 52 ≤ x.m := hx.full.resolve_right (by omega)
  have hbinade : v < 2 ^ 52 * 2 ^ x.q := by
    rw [← zpow_natCast, ← zpow_add₀ (by norm_num)]
    exact lt_of_lt_of_le hlt (two_zpow_le (by push_cast; omega))
  by_cases hnarrow : x.narrowBelow = true
  · obtain ⟨hm, -⟩ := hx.narrow.1 hnarrow
    have hhalf : (2 : ℚ) ^ (x.q + 51) < 2 ^ (t + 53) := by
      refine lt_of_le_of_lt (le_trans ?_ hlow) hlt
      rw [low, if_pos hnarrow, hm, add_comm, zpow_add₀ (by norm_num)]
      refine mul_le_mul_of_nonneg_right ?_ hpow.le
      norm_num
    have hexponent := lt_of_two_zpow_lt hhalf
    refine ⟨by omega, hnarrow, ?_⟩
    rw [value, hm]
    exact_mod_cast hbinade
  · -- the number below is as far as the one above, and not yet in the binade below
    have hm : 2 ^ 52 + 1 ≤ x.m := by
      have hne : x.m ≠ 2 ^ 52 := fun hm => hnarrow (hx.narrow.2 ⟨hm, hq⟩)
      omega
    have hcast : (2 : ℚ) ^ 52 + 1 ≤ x.m := by exact_mod_cast hm
    have hlarge : (2 : ℚ) ^ 52 * 2 ^ x.q ≤ x.low := by
      rw [low, if_neg hnarrow]
      exact mul_le_mul_of_nonneg_right (by linarith) hpow.le
    linarith

end Binary

/-! ## 3. Rounding -/

theorem shiftToTargetExponent_eq (m : Nat) (e : Int) (acc : Accuracy) (h : e ≤ target m e) :
    shiftToTargetExponent Format.binary64 m e acc =
      (ExtendedMantissa.ofMantissaAndAccuracy m acc >>> (target m e - e).toNat, target m e) := by
  have hsum : e + ((target m e - e).toNat : Int) = target m e := by omega
  exact congrArg (Prod.mk _) hsum

/-- A mantissa that fits is not shifted. -/
theorem shiftToTargetExponent_fits {m : Nat} {e : Int} (hm : m < 2 ^ 53) (he : -1074 ≤ e) :
    shiftToTargetExponent Format.binary64 m e .exact = (⟨m, false, false⟩, e) := by
  have hlog : m.log2 ≤ 52 := by
    by_cases hzero : m = 0
    · subst hzero
      decide
    · exact Nat.le_of_lt_succ ((Nat.log2_lt hzero).2 hm)
  have hshift : (target m e - e).toNat = 0 := by
    rw [target_eq]
    omega
  show (ExtendedMantissa.ofMantissaAndAccuracy m .exact >>> (target m e - e).toNat,
    e + ((target m e - e).toNat : Int)) = _
  rw [hshift, Nat.cast_zero, Int.add_zero]
  rfl

/-- A mantissa that rounding made too large is shifted once. -/
theorem shiftToTargetExponent_carry {e : Int} (he : -1074 ≤ e) :
    shiftToTargetExponent Format.binary64 (2 ^ 53) e .exact = (⟨2 ^ 52, false, false⟩, e + 1) := by
  have hshift : (target (2 ^ 53) e - e).toNat = 1 := by
    rw [target_eq, Nat.log2_two_pow]
    omega
  show (ExtendedMantissa.ofMantissaAndAccuracy (2 ^ 53) .exact >>> (target (2 ^ 53) e - e).toNat,
    e + ((target (2 ^ 53) e - e).toNat : Int)) = _
  rw [hshift]
  rfl

theorem mantissa_ofMantissaAndAccuracy (m : Nat) (acc : Accuracy) :
    (ExtendedMantissa.ofMantissaAndAccuracy m acc).mantissa = m := by
  rcases acc with _ | (_ | _ | _) <;> rfl

section

variable {x : Binary} {v : ℚ}

/-- In units of the last place the number is no more than a half below. -/
theorem Binary.Holds.above_div (h : x.Holds v) :
    (x.m : ℚ) - 1 / 2 < v / 2 ^ x.q ∨ x.m % 2 = 0 ∧ v / 2 ^ x.q = x.m - 1 / 2 := by
  have hpow := two_zpow_pos x.q
  rw [lt_div_iff₀ hpow, div_eq_iff hpow.ne']
  by_cases hnarrow : x.narrowBelow = true
  · left
    have hlow : x.low ≤ v := h.above.elim le_of_lt fun h => h.2.ge
    refine lt_of_lt_of_le ?_ hlow
    rw [Binary.low, if_pos hnarrow]
    exact mul_lt_mul_of_pos_right (by linarith) hpow
  · have habove := h.above
    rwa [Binary.low, if_neg hnarrow] at habove

theorem Binary.Holds.below_div (h : x.Holds v) :
    v / 2 ^ x.q < x.m + 1 / 2 ∨ x.m % 2 = 0 ∧ v / 2 ^ x.q = x.m + 1 / 2 := by
  have hpow := two_zpow_pos x.q
  rw [div_lt_iff₀ hpow, div_eq_iff hpow.ne']
  exact h.below

/-- Below a power of two the units are half as large. -/
theorem Binary.Holds.narrow_div (h : x.Holds v) (hnarrow : x.narrowBelow = true)
    (hbelow : v < x.value) :
    2 * (x.m : ℚ) - 1 / 2 ≤ v / 2 ^ (x.q - 1) ∧ v / 2 ^ (x.q - 1) < 2 * x.m := by
  have hunit : (2 : ℚ) ^ x.q = 2 * 2 ^ (x.q - 1) := by
    rw [zpow_sub_one₀ (by norm_num)]
    ring
  have hpow := two_zpow_pos (x.q - 1)
  have hlow : x.low ≤ v := h.above.elim le_of_lt fun h => h.2.ge
  rw [Binary.low, if_pos hnarrow, hunit] at hlow
  rw [Binary.value, hunit] at hbelow
  rw [le_div_iff₀ hpow, div_lt_iff₀ hpow]
  constructor <;> linarith

end

/-- **What holds a number is what the number rounds to.** -/
theorem roundWithAccuracy_eq {x : Binary} (hx : x.IsCanonical) {v : ℚ} (hv : x.Holds v) {m : Nat}
    {e : Int} {acc : Accuracy} (htells : Tells (.ofMantissaAndAccuracy m acc) (v / 2 ^ e))
    (hfine : e ≤ -1074 ∨ (2 : ℚ) ^ (e + 52) ≤ v) (s : Sign) :
    roundWithAccuracy Format.binary64 s m e acc = .finite s x.m x.q hx.pos := by
  obtain ⟨hle, hlt⟩ := htells.bounds
  rw [mantissa_ofMantissaAndAccuracy] at hle hlt
  obtain ⟨hleast, hupper, hlower⟩ := target_bounds hle hlt hfine
  have hmin : -1074 ≤ target m e := by
    rw [target_eq]
    exact le_max_right _ _
  have hshifted := htells.shiftRight (target m e - e).toNat
  have hunit : v / 2 ^ e / 2 ^ (target m e - e).toNat = v / 2 ^ target m e := by
    rw [div_div, ← zpow_natCast, ← zpow_add₀ (by norm_num)]
    congr 2
    omega
  rw [hunit] at hshifted
  unfold roundWithAccuracy
  rw [shiftToTargetExponent_eq m e acc hleast]
  dsimp only
  rcases hx.exponent_of_holds hv hmin hupper hlower with htarget | ⟨htarget, hnarrow, hbelow⟩
  · rw [htarget] at hshifted ⊢
    rw [hshifted.roundedMantissa_eq hv.above_div hv.below_div,
      shiftToTargetExponent_fits hx.lt hx.le]
    exact dif_neg hx.pos.ne'
  · -- the number rounds up to the power of two, which has one digit too many
    rw [htarget] at hshifted ⊢
    have hleast' : -1074 ≤ x.q - 1 := htarget ▸ hmin
    obtain ⟨hm, -⟩ := hx.narrow.1 hnarrow
    obtain ⟨habove, hbelow⟩ := hv.narrow_div hnarrow hbelow
    have hcast : (2 * x.m : ℚ) = ((2 ^ 53 : Nat) : ℚ) := by
      rw [hm]
      norm_num
    rw [hcast] at habove hbelow
    have hrounded : (ExtendedMantissa.ofMantissaAndAccuracy m acc >>>
        (x.q - 1 - e).toNat).roundedMantissa = 2 ^ 53 :=
      hshifted.roundedMantissa_eq (habove.lt_or_eq.imp_right fun h => ⟨by decide, h.symm⟩)
        (.inl (by linarith))
    rw [hrounded, shiftToTargetExponent_carry hleast']
    have hexponent : x.q - 1 + 1 = x.q := by omega
    simp only [hexponent, hm]
    rfl

/-! ## 4. Quotients -/

section

variable {m₁ m₂ : Nat} {e₁ e₂ : Int}

/-- A quotient is not below half the quotient of the leading digits. -/
theorem two_zpow_lt_quotient (h₁ : 0 < m₁) (h₂ : 0 < m₂) :
    (2 : ℚ) ^ (totalExponent m₁ e₁ - totalExponent m₂ e₂ - 1) <
      m₁ * 2 ^ e₁ / (m₂ * 2 ^ e₂) := by
  have hlower : (2 : ℚ) ^ (m₁.log2 : Int) ≤ m₁ := by exact_mod_cast Nat.log2_self_le h₁.ne'
  have hupper : (m₂ : ℚ) < 2 ^ ((m₂.log2 : Int) + 1) := by exact_mod_cast Nat.lt_log2_self
  have hpos : (0 : ℚ) < m₂ * 2 ^ e₂ := mul_pos (by exact_mod_cast h₂) (two_zpow_pos e₂)
  rw [lt_div_iff₀ hpos]
  calc (2 : ℚ) ^ (totalExponent m₁ e₁ - totalExponent m₂ e₂ - 1) * (m₂ * 2 ^ e₂)
      < 2 ^ (totalExponent m₁ e₁ - totalExponent m₂ e₂ - 1) *
          (2 ^ ((m₂.log2 : Int) + 1) * 2 ^ e₂) :=
        mul_lt_mul_of_pos_left (mul_lt_mul_of_pos_right hupper (two_zpow_pos e₂)) (two_zpow_pos _)
    _ = 2 ^ (m₁.log2 : Int) * 2 ^ e₁ := by
        rw [← zpow_add₀ (by norm_num), ← zpow_add₀ (by norm_num), ← zpow_add₀ (by norm_num)]
        congr 1
        simp only [totalExponent]
        omega
    _ ≤ m₁ * 2 ^ e₁ := mul_le_mul_of_nonneg_right hlower (two_zpow_pos e₁).le

/-- **A quotient is the double that holds it.** -/
theorem div_eq_of_holds {x : Binary} (hx : x.IsCanonical) (h₁ : 0 < m₁) (h₂ : 0 < m₂)
    (hv : x.Holds (m₁ * 2 ^ e₁ / (m₂ * 2 ^ e₂))) (s₁ s₂ : Sign) :
    UnpackedFloat.div Format.binary64 (.finite s₁ m₁ e₁ h₁) (.finite s₂ m₂ e₂ h₂) =
      .finite (s₁ / s₂) x.m x.q hx.pos := by
  have htarget : ∀ t : Int, Format.binary64.targetExponent t = max (t - 53) (-1074) := by
    intro t
    simp only [Format.targetExponent, Format.mantissaBits, Format.minExponent]
    omega
  have hquotient := @two_zpow_lt_quotient m₁ m₂ e₁ e₂ h₁ h₂
  generalize ht : totalExponent m₁ e₁ - totalExponent m₂ e₂ = t at hquotient
  simp only [UnpackedFloat.div, divCore, ht, htarget]
  generalize he : min (e₁ - e₂) (max (t - 53) (-1074)) = e
  refine roundWithAccuracy_eq hx hv ?_ ?_ _
  · have htells := tells_quotient (m₁ <<< (e₁ - e₂ - e).toNat) h₂
    have hvalue : (m₁ * 2 ^ e₁ / (m₂ * 2 ^ e₂) / 2 ^ e : ℚ) =
        ((m₁ <<< (e₁ - e₂ - e).toNat : Nat) : ℚ) / m₂ := by
      have hcast : ((e₁ - e₂ - e).toNat : Int) = e₁ - e₂ - e := by omega
      rw [Nat.shiftLeft_eq, Nat.cast_mul, Nat.cast_pow, ← zpow_natCast, hcast, Nat.cast_ofNat,
        zpow_sub₀ (by norm_num), zpow_sub₀ (by norm_num)]
      field_simp
    rw [hvalue]
    exact htells
  · by_cases hleast : e ≤ -1074
    · exact .inl hleast
    · exact .inr ((two_zpow_le (by omega)).trans hquotient.le)

end

end TypedQuery.Decimal
