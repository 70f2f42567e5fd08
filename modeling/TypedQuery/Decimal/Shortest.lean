/-!
# The fewest digits that read back

A finite double is a number `m * 2 ^ q`. The reals that round to it form an interval, from halfway
to its lower neighbour to halfway to its upper one, ends included where `m` is even. Its shortest
decimal is the one with the fewest digits in that interval and, among those, the nearest.

All comparisons are exact, between natural numbers. The search tries the value's two neighbours
on the grids of one, two, … digits: `shortest`. Where two candidates are equally near, the writer
decides (`Tie`).
-/

namespace TypedQuery.Decimal

/-! ## 1. The value and its interval -/

/-- A finite number `m * 2 ^ q`, without its sign. -/
structure Binary where
  m : Nat
  q : Int
  /-- The gap to the number below is half the gap to the number above. -/
  narrowBelow : Bool
deriving Repr, DecidableEq

/-- The number that the bits of a finite double stand for, without its sign. -/
def Binary.ofBits (bits : UInt64) : Binary :=
  let biased := ((bits >>> 52) &&& 0x7FF).toNat
  let fraction := (bits &&& 0xFFFFFFFFFFFFF).toNat
  if biased == 0 then ⟨fraction, -1074, false⟩
  else ⟨0x10000000000000 + fraction, (biased : Int) - 1075, fraction == 0 && biased > 1⟩

/-- The number `digits * 10 ^ exponent`. -/
structure Dec where
  digits : Nat
  exponent : Int
deriving Repr, DecidableEq

/-- Compares `a * 10 ^ i` with `n * 2 ^ j`. -/
def compareScaled (a : Nat) (i : Int) (n : Nat) (j : Int) : Ordering :=
  compare (a * Nat.pow 10 i.toNat * Nat.pow 2 (-j).toNat)
    (n * Nat.pow 2 j.toNat * Nat.pow 10 (-i).toNat)

/-- Whether a decimal lies among the reals that round to the number. -/
def Binary.readsBack (x : Binary) (d : Dec) : Bool :=
  let low := if x.narrowBelow then 4 * x.m - 1 else 4 * x.m - 2
  let high := 4 * x.m + 2
  let closed := x.m % 2 == 0
  let atLow := compareScaled d.digits d.exponent low (x.q - 2)
  let atHigh := compareScaled d.digits d.exponent high (x.q - 2)
  (atLow == .gt || (closed && atLow == .eq)) && (atHigh == .lt || (closed && atHigh == .eq))

/-! ## 2. The search -/

/-- Which of two equally near decimals is taken. -/
inductive Tie
  | toEven
  | up
deriving Repr, DecidableEq

/-- The least `k` with `x < 10 ^ k`, for a number that is not zero: the estimate from the binary
    logarithm is low by one at most, or by two. -/
def Binary.scale (x : Binary) : Int :=
  let estimate := ((x.m.log2 : Int) + x.q) * 30103 / 100000
  if compareScaled 1 estimate x.m x.q == .gt then estimate
  else if compareScaled 1 (estimate + 1) x.m x.q == .gt then estimate + 1
  else estimate + 2

/-- The multiple of `10 ^ e` below the number (or at it). -/
def Binary.floorAt (x : Binary) (e : Int) : Nat :=
  (x.m * Nat.pow 2 x.q.toNat * Nat.pow 10 (-e).toNat) /
    (Nat.pow 2 (-x.q).toNat * Nat.pow 10 e.toNat)

/-- The decimal to take on the grid of `10 ^ e`, if one of the two neighbours reads back. -/
def Binary.onGrid (x : Binary) (tie : Tie) (e : Int) : Option Dec :=
  let below := x.floorAt e
  let lower : Dec := ⟨below, e⟩
  let upper : Dec := ⟨below + 1, e⟩
  match x.readsBack lower && below != 0, x.readsBack upper with
  | false, false => none
  | true, false => some lower
  | false, true => some upper
  | true, true =>
    match compareScaled (2 * below + 1) e x.m (x.q + 1) with
    | .gt => some lower
    | .lt => some upper
    | .eq =>
      match tie with
      | .toEven => some (if below % 2 == 0 then lower else upper)
      | .up => some upper

/-- The number itself, digit by digit. -/
def Binary.exact (x : Binary) : Dec :=
  if 0 ≤ x.q then ⟨x.m * Nat.pow 2 x.q.toNat, 0⟩ else ⟨x.m * Nat.pow 5 (-x.q).toNat, x.q⟩

/-- Moves the zeros at the end of the digits into the exponent. -/
def Dec.strip : Nat → Dec → Dec
  | 0, d => d
  | fuel + 1, d => if d.digits != 0 && d.digits % 10 == 0 then
      strip fuel ⟨d.digits / 10, d.exponent + 1⟩ else d

/-- **The shortest decimal of a number that is not zero**: the first grid with a hit, of seventeen
    digits at most. -/
def Binary.shortest (x : Binary) (tie : Tie) : Dec :=
  let k := x.scale
  let found := (List.range 17).findSome? fun (n : Nat) => x.onGrid tie (k - (n + 1 : Nat))
  let d := found.getD x.exact
  d.strip (d.digits.log2 + 1)

/-! ## 3. Laws of the search -/

/-- What a grid gives reads back. -/
theorem Binary.readsBack_of_onGrid {x : Binary} {tie : Tie} {e : Int} {d : Dec}
    (h : x.onGrid tie e = some d) : x.readsBack d = true := by
  unfold onGrid at h
  simp only at h
  split at h
  · cases h
  · rename_i hl _; cases h; exact (Bool.and_eq_true_iff.1 hl).1
  · rename_i hu; cases h; exact hu
  · rename_i hl hu
    have hl' := (Bool.and_eq_true_iff.1 hl).1
    split at h
    · cases h; exact hl'
    · cases h; exact hu
    · split at h
      · cases h; split
        · exact hl'
        · exact hu
      · cases h; exact hu

end TypedQuery.Decimal
