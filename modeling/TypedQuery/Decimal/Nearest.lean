/-!
# Reading decimals

The double nearest to a decimal, and the natural number that a run of digits stands for.
-/

namespace TypedQuery.Decimal

/-- Whether a character is one of the ten digits. -/
def isDigit (c : Char) : Bool := '0' ≤ c && c ≤ '9'

/-- The value of a digit. -/
def digitValue (c : Char) : Nat := c.toNat - '0'.toNat

/-- The number that a run of digits stands for. -/
def ofDigits (ds : List Char) : Nat := ds.foldl (fun n c => 10 * n + digitValue c) 0

/-- The double nearest to `digits * 10 ^ exponent`, ties to even, infinite beyond the largest.
    An exponent so far out that the answer is infinite or zero is not worked out. -/
def nearest (digits : Nat) (exponent : Int) : Float :=
  let leading := (Nat.toDigits 10 digits).length + exponent
  if digits == 0 || leading < -400 then 0.0
  else if 400 < leading then 1.0 / 0.0
  else Float.ofScientific digits (exponent < 0) exponent.natAbs

/-- A double with a minus in front, or not. -/
def signed (negative : Bool) (x : Float) : Float := if negative then -x else x

/-- The double nearest to an integer of 64 bits. -/
def ofInt64 (n : Int64) : Float := signed (n.toInt < 0) n.toInt.natAbs.toUInt64.toFloat

/-- The exponent that stands behind its mark: digits, with or without a sign. -/
def exponentOf : List Char → Int
  | '-' :: ds => -(ofDigits ds : Int)
  | '+' :: ds => ofDigits ds
  | ds => ofDigits ds

/-- The double of a decimal without sign: digits with an optional point, an optional exponent;
    or a word for infinity or for no number at all. -/
def magnitudeOf (cs : List Char) : Float :=
  match (String.ofList cs).toLower with
  | "inf" | "infinity" => 1.0 / 0.0
  | "nan" => 0.0 / 0.0
  | _ =>
    let isMark := fun c => c == 'e' || c == 'E'
    let mantissa := cs.takeWhile fun c => !isMark c
    let exponent := exponentOf ((cs.dropWhile fun c => !isMark c).drop 1)
    let whole := mantissa.takeWhile (· != '.')
    let fraction := (mantissa.dropWhile (· != '.')).drop 1
    nearest (ofDigits (whole ++ fraction)) (exponent - fraction.length)

/-- **The double of a decimal in words or digits**, with or without a sign. -/
def ofText (s : String) : Float :=
  match s.toList with
  | '-' :: rest => signed true (magnitudeOf rest)
  | '+' :: rest => magnitudeOf rest
  | cs => magnitudeOf cs

end TypedQuery.Decimal
