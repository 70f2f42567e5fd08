import Mathlib
import TypedQuery.Decimal.Shortest

/-!
# The numbers that round to a double

A decimal is taken for a double if it lies between the halves of the gaps to the doubles around it.
The comparisons of naturals that decide it compare rational numbers.

* `Binary.Holds` -- **the numbers that round to a double**, and `Binary.readsBack_iff`;
* `Binary.holds_shortest` -- **the shortest decimal is one of them**;
* `Binary.value_lt_scale` -- the estimate of the decimal logarithm;
* `Binary.exponent_shortest_nonneg_iff` -- **it has places behind the point exactly if the double is
  no whole number**.
-/

namespace TypedQuery.Decimal

/-! ## 1. Values -/

/-- The number that a decimal writes. -/
def Dec.value (d : Dec) : ℚ := d.digits * 10 ^ d.exponent

/-- The number itself, without its sign. -/
def Binary.value (x : Binary) : ℚ := x.m * 2 ^ x.q

/-- A power with an integer exponent is a quotient of two with natural exponents. -/
theorem zpow_mul_pow_toNat {b : ℚ} (hb : b ≠ 0) (e : Int) :
    b ^ e * b ^ (-e).toNat = b ^ e.toNat := by
  rw [← zpow_natCast, ← zpow_natCast, ← zpow_add₀ hb]
  congr 1
  omega

/-- **The comparison of naturals compares the numbers.** -/
theorem compareScaled_eq (a : Nat) (i : Int) (n : Nat) (j : Int) :
    compareScaled a i n j = compare ((a : ℚ) * 10 ^ i) (n * 2 ^ j) := by
  have hscale : (0 : ℚ) < 10 ^ (-i).toNat * 2 ^ (-j).toNat := by positivity
  have hleft : ((a * Nat.pow 10 i.toNat * Nat.pow 2 (-j).toNat : Nat) : ℚ) =
      a * 10 ^ i * (10 ^ (-i).toNat * 2 ^ (-j).toNat) := by
    have hten := zpow_mul_pow_toNat (b := 10) (by norm_num) i
    simp only [Nat.pow_eq, Nat.cast_mul, Nat.cast_pow, Nat.cast_ofNat]
    rw [← hten]
    ring
  have hright : ((n * Nat.pow 2 j.toNat * Nat.pow 10 (-i).toNat : Nat) : ℚ) =
      n * 2 ^ j * (10 ^ (-i).toNat * 2 ^ (-j).toNat) := by
    have htwo := zpow_mul_pow_toNat (b := 2) (by norm_num) j
    simp only [Nat.pow_eq, Nat.cast_mul, Nat.cast_pow, Nat.cast_ofNat]
    rw [← htwo]
    ring
  unfold compareScaled
  rcases lt_trichotomy ((a : ℚ) * 10 ^ i) (n * 2 ^ j) with h | h | h
  · rw [compare_lt_iff_lt.2 h, Nat.compare_eq_lt, ← Nat.cast_lt (α := ℚ), hleft, hright]
    exact mul_lt_mul_of_pos_right h hscale
  · rw [compare_eq_iff_eq.2 h, Nat.compare_eq_eq, ← Nat.cast_inj (R := ℚ), hleft, hright, h]
  · rw [compare_gt_iff_gt.2 h, Nat.compare_eq_gt, ← Nat.cast_lt (α := ℚ), hleft, hright]
    exact mul_lt_mul_of_pos_right h hscale

/-! ## 2. The interval -/

namespace Binary

/-- Halfway to the number below. -/
def low (x : Binary) : ℚ := (x.m - if x.narrowBelow then 1 / 4 else 1 / 2) * 2 ^ x.q

/-- Halfway to the number above. -/
def high (x : Binary) : ℚ := (x.m + 1 / 2) * 2 ^ x.q

/-- **The numbers that round to the double**: those between the two halves, and the halves
    themselves if `m` is even. -/
structure Holds (x : Binary) (r : ℚ) : Prop where
  above : x.low < r ∨ x.m % 2 = 0 ∧ r = x.low
  below : r < x.high ∨ x.m % 2 = 0 ∧ r = x.high

variable {x : Binary}

theorem value_pos (hm : 0 < x.m) : 0 < x.value := by
  have hcast : (0 : ℚ) < x.m := Nat.cast_pos.2 hm
  unfold value
  positivity

theorem low_lt_value (x : Binary) : x.low < x.value := by
  have hpow : (0 : ℚ) < 2 ^ x.q := by positivity
  refine mul_lt_mul_of_pos_right ?_ hpow
  split <;> linarith

theorem value_lt_high (x : Binary) : x.value < x.high := by
  have hpow : (0 : ℚ) < 2 ^ x.q := by positivity
  exact mul_lt_mul_of_pos_right (by linarith) hpow

theorem holds_value (x : Binary) : x.Holds x.value :=
  ⟨.inl x.low_lt_value, .inl x.value_lt_high⟩

/-- **The check of a decimal decides whether it rounds to the number.** -/
theorem readsBack_iff (hm : 0 < x.m) {d : Dec} : x.readsBack d = true ↔ x.Holds d.value := by
  have hquarter : (2 : ℚ) ^ x.q = 4 * 2 ^ (x.q - 2) := by
    rw [zpow_sub₀ (by norm_num)]
    ring
  have hlow : x.low = ((if x.narrowBelow then 4 * x.m - 1 else 4 * x.m - 2 : Nat) : ℚ) *
      2 ^ (x.q - 2) := by
    rw [low, hquarter]
    split
    · rw [Nat.cast_sub (by omega)]
      push_cast
      ring
    · rw [Nat.cast_sub (by omega)]
      push_cast
      ring
  have hhigh : x.high = ((4 * x.m + 2 : Nat) : ℚ) * 2 ^ (x.q - 2) := by
    rw [high, hquarter]
    push_cast
    ring
  simp only [readsBack, compareScaled_eq, ← hlow, ← hhigh, Bool.and_eq_true, Bool.or_eq_true,
    beq_iff_eq, compare_gt_iff_gt, compare_lt_iff_lt, compare_eq_iff_eq]
  exact ⟨fun h => ⟨h.1, h.2⟩, fun h => ⟨h.above, h.below⟩⟩

end Binary

/-! ## 3. The shortest decimal -/

theorem Dec.value_strip (fuel : Nat) (d : Dec) : (d.strip fuel).value = d.value := by
  induction fuel generalizing d with
  | zero => rfl
  | succ fuel ih =>
      unfold strip
      split
      · rename_i hzero
        obtain ⟨-, hten⟩ := Bool.and_eq_true_iff.1 hzero
        have hdigits : d.digits = d.digits / 10 * 10 := by
          have hmod : d.digits % 10 = 0 := beq_iff_eq.1 hten
          omega
        rw [ih]
        unfold value
        rw [zpow_add_one₀ (by norm_num)]
        conv_rhs => rw [hdigits]
        push_cast
        ring
      · rfl

theorem Dec.exponent_le_strip (fuel : Nat) (d : Dec) :
    d.exponent ≤ (d.strip fuel).exponent := by
  induction fuel generalizing d with
  | zero => exact le_refl _
  | succ fuel ih =>
      unfold strip
      split
      · exact (Int.le_add_one (le_refl _)).trans (ih _)
      · exact le_refl _

namespace Binary

variable {x : Binary} {tie : Tie}

theorem value_exact (x : Binary) : x.exact.value = x.value := by
  unfold exact value Dec.value
  split
  · rename_i hq
    obtain ⟨k, hk⟩ := Int.eq_ofNat_of_zero_le hq
    simp [hk]
  · rename_i hq
    obtain ⟨k, hk⟩ : ∃ k : Nat, x.q = -k := ⟨(-x.q).toNat, by omega⟩
    have hten : (10 : ℚ) ^ k = 5 ^ k * 2 ^ k := by
      rw [← mul_pow]
      norm_num
    simp only [hk, neg_neg, Int.toNat_natCast, Nat.pow_eq, Nat.cast_mul, Nat.cast_pow,
      Nat.cast_ofNat, zpow_neg, zpow_natCast, hten]
    field_simp

/-- What the search takes before the zeros at the end are moved. -/
def found (x : Binary) (tie : Tie) : Option Dec :=
  (List.range 17).findSome? fun (n : Nat) => x.onGrid tie (x.scale - (n + 1 : Nat))

theorem shortest_eq (x : Binary) (tie : Tie) : ∃ fuel,
    x.shortest tie = ((x.found tie).getD x.exact).strip fuel := ⟨_, rfl⟩

/-- **The shortest decimal rounds to the number.** -/
theorem holds_shortest (hm : 0 < x.m) (tie : Tie) : x.Holds (x.shortest tie).value := by
  obtain ⟨fuel, hshortest⟩ := x.shortest_eq tie
  rw [hshortest, Dec.value_strip]
  cases hfound : x.found tie with
  | none =>
      rw [Option.getD_none, value_exact]
      exact x.holds_value
  | some d =>
      obtain ⟨n, -, hgrid⟩ := List.exists_of_findSome?_eq_some hfound
      exact (readsBack_iff hm).1 (readsBack_of_onGrid hgrid)

/-! ## 4. Whole numbers -/

/-- Whether the number is whole. -/
def isWhole (x : Binary) : Bool := x.m % 2 ^ (-x.q).toNat == 0

theorem value_mul_pow (x : Binary) : x.value * 2 ^ (-x.q).toNat = x.m * 2 ^ x.q.toNat := by
  rw [value, mul_assoc, zpow_mul_pow_toNat (by norm_num)]

theorem isWhole_iff (x : Binary) : x.isWhole = true ↔ ∃ n : Nat, x.value = n := by
  have hpow : (2 : ℚ) ^ (-x.q).toNat ≠ 0 := by positivity
  have hvalue := x.value_mul_pow
  rw [isWhole, beq_iff_eq]
  constructor
  · intro hmod
    obtain ⟨c, hc⟩ := Nat.dvd_of_mod_eq_zero hmod
    refine ⟨c * 2 ^ x.q.toNat, mul_right_cancel₀ hpow ?_⟩
    rw [hvalue, hc]
    push_cast
    ring
  · rintro ⟨n, hn⟩
    rw [hn] at hvalue
    have hnat : n * 2 ^ (-x.q).toNat = x.m * 2 ^ x.q.toNat := by exact_mod_cast hvalue
    by_cases hq : 0 ≤ x.q
    · rw [Int.toNat_eq_zero.2 (by omega), pow_zero, Nat.mod_one]
    · rw [Int.toNat_eq_zero.2 (by omega : x.q ≤ 0), pow_zero, mul_one] at hnat
      rw [← hnat, Nat.mul_mod_left]

/-- A decimal logarithm of a power of two. -/
theorem two_pow_le (n : Nat) : 2 ^ n ≤ 10 ^ (n * 30103 / 100000 + 1) := by
  have hbase : 2 ^ 100000 ≤ 10 ^ 30103 := by decide +kernel
  refine (Nat.pow_le_pow_iff_left (by decide : 100000 ≠ 0)).1 ?_
  calc (2 ^ n) ^ 100000 = (2 ^ 100000) ^ n := by rw [← pow_mul, ← pow_mul, Nat.mul_comm]
    _ ≤ (10 ^ 30103) ^ n := Nat.pow_le_pow_left hbase n
    _ = 10 ^ (30103 * n) := (pow_mul _ _ _).symm
    _ ≤ 10 ^ ((n * 30103 / 100000 + 1) * 100000) := Nat.pow_le_pow_right (by decide) (by omega)
    _ = (10 ^ (n * 30103 / 100000 + 1)) ^ 100000 := pow_mul _ _ _

/-- **A number that is not below one is below the power of its scale.** -/
theorem value_lt_scale (hone : 1 ≤ x.value) : x.value < 10 ^ x.scale := by
  -- the binary logarithm is a natural number
  have hlog : x.value < 2 ^ ((x.m.log2 : Int) + 1 + x.q) := by
    rw [value, zpow_add₀ (by norm_num)]
    have hlt : (x.m : ℚ) < 2 ^ ((x.m.log2 : Int) + 1) := by
      exact_mod_cast Nat.lt_log2_self
    exact mul_lt_mul_of_pos_right hlt (by positivity)
  have hnonneg : 0 ≤ (x.m.log2 : Int) + x.q := by
    have hpos : (2 : ℚ) ^ (0 : Int) < 2 ^ ((x.m.log2 : Int) + 1 + x.q) := by
      rw [zpow_zero]
      exact lt_of_le_of_lt hone hlog
    have hexponent := (zpow_lt_zpow_iff_right₀ (by norm_num : (1 : ℚ) < 2)).1 hpos
    omega
  obtain ⟨n, hn⟩ := Int.eq_ofNat_of_zero_le hnonneg
  have hestimate : ((x.m.log2 : Int) + x.q) * 30103 / 100000 = (n * 30103 / 100000 : Nat) := by
    rw [hn]
    rfl
  unfold scale
  rw [hestimate]
  simp only [compareScaled_eq, Nat.cast_one, one_mul, beq_iff_eq, compare_gt_iff_gt]
  split
  · assumption
  · split
    · assumption
    · have hpower : (2 : ℚ) ^ n ≤ 10 ^ (n * 30103 / 100000 + 1) := by exact_mod_cast two_pow_le n
      have hsucc : (x.m.log2 : Int) + 1 + x.q = ((n + 1 : Nat) : Int) := by omega
      rw [hsucc, zpow_natCast] at hlog
      have htwo : ((n * 30103 / 100000 : Nat) : Int) + 2 =
          ((n * 30103 / 100000 + 1 + 1 : Nat) : Int) := by omega
      rw [htwo, zpow_natCast, pow_succ]
      rw [pow_succ] at hlog
      linarith

theorem scale_le_of_neg (hq : x.q < 0) (hm : 0 < x.m) (hlt : x.m < 2 ^ 53) : x.scale ≤ 17 := by
  have hlog : x.m.log2 < 53 := (Nat.log2_lt hm.ne').2 hlt
  unfold scale
  simp only
  split
  · omega
  · split <;> omega

theorem exponent_of_onGrid {e : Int} {d : Dec} (h : x.onGrid tie e = some d) :
    d.exponent = e := by
  unfold onGrid at h
  simp only at h
  split at h
  · cases h
  · cases h
    rfl
  · cases h
    rfl
  · split at h
    · cases h
      rfl
    · cases h
      rfl
    · split at h
      · cases h
        split <;> rfl
      · cases h
        rfl

/-- A whole number is itself on the grid of the whole numbers. -/
theorem isSome_onGrid_zero (hm : 0 < x.m) (hwhole : x.isWhole = true) (tie : Tie) :
    (x.onGrid tie 0).isSome = true := by
  obtain ⟨n, hn⟩ := x.isWhole_iff.1 hwhole
  have hfloor : x.floorAt 0 = n := by
    have hvalue := x.value_mul_pow
    rw [hn] at hvalue
    have hnat : n * 2 ^ (-x.q).toNat = x.m * 2 ^ x.q.toNat := by exact_mod_cast hvalue
    simp only [floorAt, Nat.pow_eq, Int.neg_zero, Int.toNat_zero, pow_zero, mul_one, ← hnat]
    exact Nat.mul_div_cancel n (by positivity)
  have hlower : x.readsBack ⟨n, 0⟩ = true := by
    rw [readsBack_iff hm]
    have hsame : (⟨n, 0⟩ : Dec).value = x.value := by
      rw [hn, Dec.value, zpow_zero, mul_one]
    rw [hsame]
    exact x.holds_value
  have hpos : (n != 0) = true := by
    have hvalue := x.value_pos hm
    rw [hn] at hvalue
    have hn0 : 0 < n := by exact_mod_cast hvalue
    simpa using hn0.ne'
  unfold onGrid
  simp only [hfloor, hlower, hpos, Bool.and_true]
  cases x.readsBack ⟨n + 1, 0⟩ with
  | false => rfl
  | true =>
      simp only
      split
      · rfl
      · rfl
      · split <;> rfl

/-- The search comes to this grid where the number has places before the point. -/
theorem onGrid_pred_scale_ne_none (hm : 0 < x.m) (hwhole : x.isWhole = true)
    (hscale : 1 ≤ x.scale) (tie : Tie) :
    x.onGrid tie (x.scale - (((x.scale - 1).toNat + 1 : Nat) : Int)) ≠ none := by
  have hzero : x.scale - (((x.scale - 1).toNat + 1 : Nat) : Int) = 0 := by omega
  rw [hzero, ← Option.isSome_iff_ne_none]
  exact isSome_onGrid_zero hm hwhole tie

/-- A whole decimal that rounds to a number is the number, which is whole. -/
theorem isWhole_of_holds {n : Nat} (h : x.Holds n) : x.isWhole = true := by
  by_cases hq : 0 ≤ x.q
  · rw [isWhole, Int.toNat_eq_zero.2 (by omega), pow_zero, Nat.mod_one, beq_self_eq_true]
  · -- in units of the last place the two are whole, and half a unit apart at most
    have hpow : (0 : ℚ) < 2 ^ (-x.q).toNat := by positivity
    have hunit : (2 : ℚ) ^ x.q * 2 ^ (-x.q).toNat = 1 := by
      rw [zpow_mul_pow_toNat (by norm_num), Int.toNat_eq_zero.2 (by omega : x.q ≤ 0), pow_zero]
    have hbelow : (x.m : ℚ) - 1 / 2 ≤ n * 2 ^ (-x.q).toNat := by
      have hlow : x.low ≤ n := h.above.elim le_of_lt fun h => h.2.ge
      have hscaled := mul_le_mul_of_nonneg_right hlow hpow.le
      rw [low, mul_assoc, hunit, mul_one] at hscaled
      refine le_trans ?_ hscaled
      split <;> linarith
    have habove : (n : ℚ) * 2 ^ (-x.q).toNat ≤ x.m + 1 / 2 := by
      have hhigh : (n : ℚ) ≤ x.high := h.below.elim le_of_lt fun h => h.2.le
      have hscaled := mul_le_mul_of_nonneg_right hhigh hpow.le
      rwa [high, mul_assoc, hunit, mul_one] at hscaled
    have hbelow' : 2 * x.m ≤ 2 * (n * 2 ^ (-x.q).toNat) + 1 := by
      have hcast : ((2 * x.m : Nat) : ℚ) ≤ (2 * (n * 2 ^ (-x.q).toNat) + 1 : Nat) := by
        push_cast
        linarith
      exact_mod_cast hcast
    have habove' : 2 * (n * 2 ^ (-x.q).toNat) ≤ 2 * x.m + 1 := by
      have hcast : ((2 * (n * 2 ^ (-x.q).toNat) : Nat) : ℚ) ≤ (2 * x.m + 1 : Nat) := by
        push_cast
        linarith
      exact_mod_cast hcast
    have hm : x.m = n * 2 ^ (-x.q).toNat := by omega
    rw [isWhole, hm, Nat.mul_mod_left, beq_self_eq_true]

/-- What is found for a whole number is whole. -/
theorem exponent_found_nonneg (hm : 0 < x.m) (hwhole : x.isWhole = true)
    (hscale : 1 ≤ x.scale) {d : Dec} (h : x.found tie = some d) : 0 ≤ d.exponent := by
  obtain ⟨before, n, after, hrange, hgrid, hnone⟩ := List.findSome?_eq_some_iff.1 h
  rw [exponent_of_onGrid hgrid]
  by_contra hneg
  -- the grid of the whole numbers stands before the one that is taken
  have hmem : (x.scale - 1).toNat ∈ before := by
    have hn : n ∈ List.range 17 := by
      rw [hrange]
      exact List.mem_append_right _ List.mem_cons_self
    have hall : (x.scale - 1).toNat ∈ List.range 17 := by
      rw [List.mem_range] at hn ⊢
      omega
    have hsorted : (before ++ n :: after).Pairwise (· < ·) := hrange ▸ List.pairwise_lt_range
    rw [hrange, List.mem_append, List.mem_cons] at hall
    rcases hall with hall | hall | hall
    · exact hall
    · omega
    · have hlt := (List.pairwise_cons.1 (List.pairwise_append.1 hsorted).2.1).1 _ hall
      omega
  exact onGrid_pred_scale_ne_none hm hwhole hscale tie (hnone _ hmem)

/-- **The shortest decimal of a number is whole exactly if the number is.** -/
theorem exponent_shortest_nonneg_iff (hm : 0 < x.m) (hlt : x.m < 2 ^ 53) (tie : Tie) :
    0 ≤ (x.shortest tie).exponent ↔ x.isWhole = true := by
  constructor
  · intro hexponent
    obtain ⟨k, hk⟩ := Int.eq_ofNat_of_zero_le hexponent
    have hholds := holds_shortest hm tie
    rw [Dec.value, hk] at hholds
    have hnat : ((x.shortest tie).digits : ℚ) * 10 ^ ((k : Nat) : Int) =
        ((x.shortest tie).digits * 10 ^ k : Nat) := by
      push_cast
      rw [zpow_natCast]
    exact isWhole_of_holds (hnat ▸ hholds)
  · intro hwhole
    obtain ⟨n, hn⟩ := x.isWhole_iff.1 hwhole
    have hone : 1 ≤ x.value := by
      have hpos := x.value_pos hm
      rw [hn] at hpos ⊢
      exact_mod_cast hpos
    have hscale : 1 ≤ x.scale := by
      have hlt : (10 : ℚ) ^ (0 : Int) < 10 ^ x.scale := by
        rw [zpow_zero]
        exact lt_of_le_of_lt hone (value_lt_scale hone)
      exact (zpow_lt_zpow_iff_right₀ (by norm_num : (1 : ℚ) < 10)).1 hlt
    obtain ⟨fuel, hshortest⟩ := x.shortest_eq tie
    rw [hshortest]
    refine le_trans ?_ (Dec.exponent_le_strip fuel _)
    cases hfound : x.found tie with
    | some d => exact exponent_found_nonneg hm hwhole hscale hfound
    | none =>
        rw [Option.getD_none, exact]
        split
        · exact le_refl _
        · rename_i hq
          -- a whole number with places behind the point is found on one of the grids
          have hscale' := scale_le_of_neg (Int.not_le.1 hq) hm hlt
          have hmem : (x.scale - 1).toNat ∈ List.range 17 := by
            rw [List.mem_range]
            omega
          exact absurd (List.findSome?_eq_none_iff.1 hfound _ hmem)
            (onGrid_pred_scale_ne_none hm hwhole hscale tie)

end Binary

end TypedQuery.Decimal
