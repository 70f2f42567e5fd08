import TypedQuery.Json.Number
import TypedQuery.Table

/-!
# JSON texts

A text is read in two steps. `Tree.parse` takes it apart by the grammar of JSON; the tree still
holds what is well written and has no value: a number out of range, a string with half of a
surrogate pair, any depth of nesting. `Tree.read` gives the value, or nothing where one of these
stands. A reader that skips the members it does not know works on the tree, so that it does not
fail for what it skips.
-/

namespace TypedQuery.Json

/-- A JSON text taken apart. -/
inductive Tree
  | null
  | boolean (b : Bool)
  /-- A number; `none` if it is out of range. -/
  | number (value : Option Number)
  /-- A string; `none` if it holds half of a surrogate pair. -/
  | string (value : Option String)
  | array (items : List Tree)
  | object (members : List (Option String × Tree))

/-! ## 1. Characters -/

/-- The four blanks of JSON. -/
def isBlank (c : Char) : Bool := c == ' ' || c == '\t' || c == '\n' || c == '\r'

/-- The text from its first character that is no blank. -/
def skipBlanks (cs : List Char) : List Char := cs.dropWhile isBlank

/-- The value of a hexadecimal digit. -/
def hexValue (c : Char) : Option Nat :=
  if '0' ≤ c && c ≤ '9' then some (c.toNat - '0'.toNat)
  else if 'a' ≤ c && c ≤ 'f' then some (c.toNat - 'a'.toNat + 10)
  else if 'A' ≤ c && c ≤ 'F' then some (c.toNat - 'A'.toNat + 10)
  else none

/-- Four hexadecimal digits. -/
def fourHex (a b c d : Char) : Option Nat := do
  return (((← hexValue a) * 16 + (← hexValue b)) * 16 + (← hexValue c)) * 16 + (← hexValue d)

/-- The code points of a string up to its closing quote, halves of surrogate pairs as they are
    written. -/
def stringBody : List Char → Option (List Nat × List Char)
  | [] => none
  | '"' :: rest => some ([], rest)
  | '\\' :: 'u' :: a :: b :: c :: d :: rest => do
    let code ← fourHex a b c d
    let (more, after) ← stringBody rest
    return (code :: more, after)
  | '\\' :: c :: rest => do
    let code ← match c with
      | '"' => some 0x22
      | '\\' => some 0x5C
      | '/' => some 0x2F
      | 'b' => some 0x08
      | 'f' => some 0x0C
      | 'n' => some 0x0A
      | 'r' => some 0x0D
      | 't' => some 0x09
      | _ => none
    let (more, after) ← stringBody rest
    return (code :: more, after)
  | c :: rest => do
    if c.toNat < 0x20 then none
    let (more, after) ← stringBody rest
    return (c.toNat :: more, after)

/-- Joins the halves of surrogate pairs; half a pair on its own is no character. -/
def joinSurrogates : List Nat → Option (List Char)
  | [] => some []
  | [code] => if 0xD800 ≤ code && code ≤ 0xDFFF then none else some [Char.ofNat code]
  | high :: low :: rest =>
    if 0xD800 ≤ high && high ≤ 0xDBFF then
      if 0xDC00 ≤ low && low ≤ 0xDFFF then
        (joinSurrogates rest).map
          (Char.ofNat (0x10000 + (high - 0xD800) * 0x400 + (low - 0xDC00)) :: ·)
      else none
    else if 0xDC00 ≤ high && high ≤ 0xDFFF then none
    else (joinSurrogates (low :: rest)).map (Char.ofNat high :: ·)

/-- The text that code points stand for. -/
def textOf (codes : List Nat) : Option String := (joinSurrogates codes).map String.ofList

/-- The exponent of a number, if one follows. -/
def exponentPart : List Char → Option (Option Int × List Char)
  | c :: rest =>
    if c == 'e' || c == 'E' then
      let (negative, ds) := match rest with
        | '+' :: ds => (false, ds)
        | '-' :: ds => (true, ds)
        | ds => (false, ds)
      let digits := ds.takeWhile Decimal.isDigit
      if digits.isEmpty then none
      else
        let n : Int := Decimal.ofDigits digits
        some (some (if negative then -n else n), ds.dropWhile Decimal.isDigit)
    else some (none, c :: rest)
  | [] => some (none, [])

/-- The fraction of a number, if one follows. -/
def fractionPart : List Char → Option (List Char × List Char)
  | '.' :: rest =>
    let digits := rest.takeWhile Decimal.isDigit
    if digits.isEmpty then none else some (digits, rest.dropWhile Decimal.isDigit)
  | rest => some ([], rest)

/-- A number: no zero stands in front of another digit. -/
def numberText (cs : List Char) : Option (Option Number × List Char) := do
  let (negative, cs) := match cs with
    | '-' :: rest => (true, rest)
    | rest => (false, rest)
  let whole := cs.takeWhile Decimal.isDigit
  if whole.isEmpty || (whole.head? == some '0' && whole.length != 1) then none
  let (fraction, cs) ← fractionPart (cs.dropWhile Decimal.isDigit)
  let (exponent, cs) ← exponentPart cs
  return (Number.ofParts negative whole fraction exponent, cs)

/-! ## 2. The grammar -/

namespace Tree

mutual

/-- One value. The first argument bounds the steps; a text needs two for each character. -/
def value : Nat → List Char → Option (Tree × List Char)
  | 0, _ => none
  | steps + 1, cs =>
    match skipBlanks cs with
    | '\x7b' :: rest =>
      match skipBlanks rest with
      | '\x7d' :: after => some (.object [], after)
      | rest => (members steps rest).map fun p => (.object p.1, p.2)
    | '[' :: rest =>
      match skipBlanks rest with
      | ']' :: after => some (.array [], after)
      | rest => (items steps rest).map fun p => (.array p.1, p.2)
    | '"' :: rest => (stringBody rest).map fun p => (.string (textOf p.1), p.2)
    | 'n' :: 'u' :: 'l' :: 'l' :: rest => some (.null, rest)
    | 't' :: 'r' :: 'u' :: 'e' :: rest => some (.boolean true, rest)
    | 'f' :: 'a' :: 'l' :: 's' :: 'e' :: rest => some (.boolean false, rest)
    | rest => (numberText rest).map fun p => (.number p.1, p.2)

/-- The items of an array, at least one, with the closing bracket. -/
def items : Nat → List Char → Option (List Tree × List Char)
  | 0, _ => none
  | steps + 1, cs => do
    let (item, rest) ← value steps cs
    match skipBlanks rest with
    | ',' :: rest =>
      let (more, after) ← items steps rest
      return (item :: more, after)
    | ']' :: after => return ([item], after)
    | _ => none

/-- The members of an object, at least one, with the closing brace. -/
def members : Nat → List Char → Option (List (Option String × Tree) × List Char)
  | 0, _ => none
  | steps + 1, cs =>
    match skipBlanks cs with
    | '"' :: rest => do
      let (codes, rest) ← stringBody rest
      match skipBlanks rest with
      | ':' :: rest =>
        let (held, rest) ← value steps rest
        match skipBlanks rest with
        | ',' :: rest =>
          let (more, after) ← members steps rest
          return ((textOf codes, held) :: more, after)
        | '\x7d' :: after => return ([(textOf codes, held)], after)
        | _ => none
      | _ => none
    | _ => none

end

/-- **A whole text**: one value with blanks around it and nothing else. -/
def parse (text : String) : Option Tree :=
  let cs := text.toList
  match value (2 * cs.length + 2) cs with
  | some (tree, rest) => if (skipBlanks rest).isEmpty then some tree else none
  | none => none

/-! ## 3. Values -/

/-- How many arrays and objects may stand inside each other. -/
def maxNesting : Nat := 127

/-- The value of a tree with at most `room` containers inside each other. A repeated key keeps its
    first place and its last value. -/
def read : Nat → Tree → Option Json
  | _, .null => some .null
  | _, .boolean b => some (.boolean b)
  | _, .number n => n.map .number
  | _, .string s => s.map .string
  | room + 1, .array items => (items.mapM (read room)).map .array
  | room + 1, .object members => do
    let entries ← members.mapM fun (p : Option String × Tree) => do
      return (← p.1, ← read room p.2)
    return .object (Entries.collapse entries)
  | 0, .array _ => none
  | 0, .object _ => none

end Tree

/-- **The value of a text.** -/
def parse (text : String) : Option Json := (Tree.parse text).bind (Tree.read Tree.maxNesting)

end TypedQuery.Json
