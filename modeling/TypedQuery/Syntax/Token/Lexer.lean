import TypedQuery.Decimal.Nearest
import TypedQuery.Syntax.Token
import TypedQuery.Syntax.Token.Quotation

/-!
# From texts to tokens

`Lexeme.scan` cuts a text into tokens and notes where each starts. Between tokens blanks, commas
and comments are skipped. A tab moves eight columns; a carriage return and a byte order mark move
none. At most fifty brackets may be open at once (`maxOpen`), which bounds every nesting in a
document.
-/

namespace TypedQuery

namespace Token

/-! ## 1. Names and numbers -/

/-- The characters that start a name. -/
def startsName (c : Char) : Bool :=
  ('a' ≤ c && c ≤ 'z') || ('A' ≤ c && c ≤ 'Z') || c == '_'

/-- The characters of a name. -/
def inName (c : Char) : Bool := startsName c || Decimal.isDigit c

/-- The characters that end a number. -/
def endsNumber (c : Char) : Bool :=
  " \n\r\t,#!$:=@|&()[]\x7b\x7d".toList.contains c

/-- Digits that write a whole number: no zero stands in front of another digit. -/
def isWhole (ds : List Char) : Bool :=
  match ds with
  | [] => false
  | ['0'] => true
  | '0' :: _ => false
  | ds => ds.all Decimal.isDigit

/-- The integer of a minus and digits, if it fits 64 bits with sign. -/
def intOf (negative : Bool) (ds : List Char) : Option Int64 :=
  if isWhole ds then
    let n : Int := if negative then -Decimal.ofDigits ds else Decimal.ofDigits ds
    if Int64.minValue.toInt ≤ n && n ≤ Int64.maxValue.toInt then some (Int64.ofInt n) else none
  else none

/-- The digits of an exponent with their sign: without a sign the first digit is one of `1` to
    `8`. -/
def exponentOf : List Char → Option Int
  | '+' :: ds => if !ds.isEmpty && ds.all Decimal.isDigit then some (Decimal.ofDigits ds) else none
  | '-' :: ds => if !ds.isEmpty && ds.all Decimal.isDigit then some (-Decimal.ofDigits ds) else none
  | c :: ds =>
    if '1' ≤ c && c ≤ '8' && ds.all Decimal.isDigit then some (Decimal.ofDigits (c :: ds)) else none
  | [] => none

/-- The double of a minus and the text behind it: whole digits, a fraction, an exponent. -/
def floatOf (negative : Bool) (cs : List Char) : Option Float := do
  let whole := cs.takeWhile Decimal.isDigit
  if !isWhole whole then none
  let (fraction, rest) ← match cs.dropWhile Decimal.isDigit with
    | '.' :: rest =>
      let ds := rest.takeWhile Decimal.isDigit
      if ds.isEmpty then none else some (ds, rest.dropWhile Decimal.isDigit)
    | rest => some ([], rest)
  let exponent ← match rest with
    | [] => some 0
    | c :: rest => if c == 'e' || c == 'E' then exponentOf rest else none
  return Decimal.signed negative
    (Decimal.nearest (Decimal.ofDigits (whole ++ fraction)) (exponent - fraction.length))

/-- The token that the text of a number writes. -/
def ofNumber (cs : List Char) : Option Token :=
  let (negative, ds) := match cs with
    | '-' :: ds => (true, ds)
    | ds => (false, ds)
  if ds.any fun c => c == '.' || c == 'e' || c == 'E' then (floatOf negative ds).map .float
  else (intOf negative ds).map .int

end Token

/-! ## 2. One token -/

/-- The first token of a text that starts with one, the place behind it, and the rest. -/
def Token.next (here : Position) (cs : List Char) : Option (Token × Position × List Char) :=
  match cs with
  | [] => none
  | '.' :: '.' :: '.' :: rest => some (.spread, here.forward 3, rest)
  | '"' :: '"' :: '"' :: rest => do
    let (content, after) ← Quotation.spanBlock rest
    return (.string (String.ofList (Quotation.decodeBlock content)),
      (here.forward 3).behind content |>.forward 3, after)
  | '"' :: rest => do
    let (content, after) ← Quotation.span rest
    return (.string (String.ofList (← Quotation.decode content)),
      here.forward (content.length + 2), after)
  | c :: rest =>
    if "()[]\x7b\x7d!$:=@|&".toList.contains c then some (.punctuator c, here.forward 1, rest)
    else if Token.startsName c then
      let word := cs.takeWhile Token.inName
      some (.name (String.ofList word), here.forward word.length, cs.dropWhile Token.inName)
    else if c == '-' || Decimal.isDigit c then
      let word := cs.takeWhile fun d => !Token.endsNumber d
      (Token.ofNumber word).map fun token =>
        (token, here.forward word.length, cs.dropWhile fun d => !Token.endsNumber d)
    else none

/-! ## 3. All tokens -/

namespace Lexeme

/-- How many brackets may be open at once. -/
def maxOpen : Nat := 50

/-- How many brackets are open after a token; `none` if they are too many. -/
def openAfter (opened : Nat) : Token → Option Nat
  | .punctuator c =>
    if c == '(' || c == '[' || c == '\x7b' then
      if opened < maxOpen then some (opened + 1) else none
    else if c == ')' || c == ']' || c == '\x7d' then some (opened - 1)
    else some opened
  | _ => some opened

/-- The place behind a comment, and the text after it: the end of its line is part of it. -/
def skipComment (here : Position) (cs : List Char) : Position × List Char :=
  match cs.dropWhile fun c => c != '\n' && c != '\r' with
  | [] => (here, [])
  | _ :: rest => (here.nextLine, rest)

/-- The tokens of a text. The first argument bounds the steps; each step takes a character at
    least. -/
def scanFrom : Nat → Nat → Position → List Char → Option (List Lexeme)
  | 0, _, _, _ => none
  | _, _, _, [] => some []
  | steps + 1, opened, here, c :: rest =>
    match c with
    | '\uFEFF' => scanFrom steps opened here rest
    | '\r' => scanFrom steps opened here rest
    | '\t' => scanFrom steps opened (here.forward 8) rest
    | '\n' => scanFrom steps opened here.nextLine rest
    | ' ' => scanFrom steps opened (here.forward 1) rest
    | ',' => scanFrom steps opened (here.forward 1) rest
    | '#' =>
      let (there, rest) := skipComment here rest
      scanFrom steps opened there rest
    | c => do
      let (token, there, rest) ← Token.next here (c :: rest)
      let opened ← openAfter opened token
      return ⟨here, token⟩ :: (← scanFrom steps opened there rest)

/-- **The tokens of a text**, or nothing where some characters form no token. -/
def scan (source : String) : Option (List Lexeme) :=
  scanFrom (source.toList.length + 1) 0 .start source.toList

end Lexeme

end TypedQuery
