import TypedQuery.Decimal.Shortest

/-!
# How a decimal is laid out

A `Layout` says what a writer of doubles decides beyond the digits: which exponents are written
positionally, whether a whole number keeps a `.0`, whether a positive exponent has its sign, which
way ties go, and how the values that are no numbers are spelled. `Layout.render` follows it.
-/

namespace TypedQuery.Decimal

/-- The decisions of a writer of doubles. -/
structure Layout where
  /-- Which of two equally near decimals is taken. -/
  tie : Tie
  /-- Whether a number is written positionally, by the exponent of its leading digit. -/
  positional : Int → Bool
  /-- A whole number that is written positionally ends in `.0`. -/
  pointZero : Bool
  /-- A positive exponent is written with a plus. -/
  signedExponent : Bool
  /-- The spelling of a value that is no number. -/
  notANumber : String
  /-- The spelling of infinity, without its sign. -/
  infinity : String

/-- The digits of a natural number. -/
def digitsOf (n : Nat) : List Char := Nat.toDigits 10 n

/-- The point stands among the digits, or zeros fill the gap to it. -/
def Layout.renderPositional (l : Layout) (ds : List Char) (exponent : Int) : List Char :=
  if 0 ≤ exponent then
    ds ++ List.replicate exponent.toNat '0' ++ (if l.pointZero then ['.', '0'] else [])
  else
    let places := (-exponent).toNat
    if places < ds.length then
      ds.take (ds.length - places) ++ '.' :: ds.drop (ds.length - places)
    else
      '0' :: '.' :: List.replicate (places - ds.length) '0' ++ ds

/-- One digit, the point, the other digits, and the exponent of the first. -/
def Layout.renderScientific (l : Layout) (ds : List Char) (leading : Int) : List Char :=
  let sign := if leading < 0 then ['-'] else if l.signedExponent then ['+'] else []
  let tail := match ds.drop 1 with
    | [] => []
    | more => '.' :: more
  ds.take 1 ++ tail ++ 'e' :: sign ++ digitsOf leading.natAbs

/-- A decimal in the layout. -/
def Layout.renderDec (l : Layout) (d : Dec) : List Char :=
  let ds := digitsOf d.digits
  let leading := d.exponent + ds.length - 1
  if l.positional leading then l.renderPositional ds d.exponent else l.renderScientific ds leading

/-- Whether a double is a number at all, and not infinite. -/
def isFinite (x : Float) : Bool := (x.toBits >>> 52) &&& 0x7FF != 0x7FF

/-- Whether a double has the minus sign; zero may have it. -/
def isNegative (x : Float) : Bool := x.toBits >>> 63 == 1

/-- A double in the layout. -/
def Layout.render (l : Layout) (x : Float) : String :=
  let sign := if isNegative x then ['-'] else []
  if isFinite x then
    let value := Binary.ofBits x.toBits
    let dec : Dec := if value.m == 0 then ⟨0, 0⟩ else value.shortest l.tie
    String.ofList (sign ++ l.renderDec dec)
  else if x.toBits &&& 0xFFFFFFFFFFFFF != 0 then l.notANumber
  else String.ofList (sign ++ l.infinity.toList)

/-! ## Layouts in use -/

/-- Numbers inside GraphQL values: never an exponent, and no point in a whole number. -/
def plain : Layout where
  tie := .up
  positional := fun _ => true
  pointZero := false
  signedExponent := false
  notANumber := "NaN"
  infinity := "inf"

/-- Numbers in a listing of all that a value holds: the point always shows that it is no integer,
    and very large and very small numbers have an exponent. -/
def explicit : Layout where
  tie := .up
  positional := fun e => -4 ≤ e && e < 16
  pointZero := true
  signedExponent := false
  notANumber := "NaN"
  infinity := "inf"

end TypedQuery.Decimal
