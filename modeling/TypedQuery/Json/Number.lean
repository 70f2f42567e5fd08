import TypedQuery.Decimal.Layout
import TypedQuery.Decimal.Nearest
import TypedQuery.Json.Basic

/-!
# Reading JSON numbers

A number without fraction and exponent is an integer as long as it fits 64 bits, without sign
where it is positive and with sign where it is negative; `-0` is a double, for only a double has
it. Any other number is a double: its digits are taken as far as they fit 64 bits, and the double
nearest to them is multiplied or divided by a power of ten, each step rounded on its own. What
would be infinite is no number.
-/

namespace TypedQuery.Json

/-- The largest number of 64 bits. -/
def wordMax : Nat := 0xFFFFFFFFFFFFFFFF

/-- Appends digits to a number as long as it fits 64 bits; also gives how many it took. -/
def absorb (n : Nat) : List Char → Nat × Nat
  | [] => (n, 0)
  | c :: rest =>
    let next := n * 10 + Decimal.digitValue c
    if wordMax < next then (n, 0)
    else
      let (all, taken) := absorb next rest
      (all, taken + 1)

/-- The double nearest to a power of ten. -/
def powerOfTen (n : Nat) : Float := Decimal.nearest 1 n

/-- A double times a power of ten, one rounding a step; `none` where it would be infinite. -/
def scaleByTen (x : Float) (exponent : Int) : Option Float :=
  if 308 < exponent then if x == 0.0 then some x else none
  else if 0 ≤ exponent then
    let y := x * powerOfTen exponent.toNat
    if Decimal.isFinite y then some y else none
  else if -308 ≤ exponent then some (x / powerOfTen exponent.natAbs)
  else if -616 ≤ exponent then
    some (x / powerOfTen 308 / powerOfTen (exponent + 308).natAbs)
  else some 0.0

/-- A number by its parts: the minus, the digits before the point, those after it, and the
    exponent with its sign. -/
def Number.ofParts (negative : Bool) (whole : List Char) (fraction : List Char)
    (exponent : Option Int) : Option Number :=
  let (before, taken) := absorb 0 whole
  let dropped := whole.length - taken
  if fraction.isEmpty && exponent.isNone && dropped == 0 then
    if !negative then some (.integer before)
    else if before != 0 && before ≤ 0x8000000000000000 then some (.integer (-before))
    else some (.float (-(Float.ofNat before)))
  else
    let (all, after) := absorb before fraction
    (scaleByTen (Float.ofNat all) (dropped - after + exponent.getD 0)).map fun x =>
      .float (Decimal.signed negative x)

end TypedQuery.Json
