import TypedQuery.Text.Blank

/-!
# Strings in source texts

Two forms of strings. Between single quotes a string stands on one line and has escapes
(`span`, `decode`). Between triple quotes it spans lines: the lines share an indentation that is
not part of the text, and neither are the blank lines at both ends (`spanBlock`, `decodeBlock`).
-/

namespace TypedQuery.Token.Quotation

/-! ## 1. Strings on one line -/

/-- What stands before the closing quote, escapes as they are written, and what follows it. -/
def span : List Char → Option (List Char × List Char)
  | [] => none
  | '"' :: rest => some ([], rest)
  | '\n' :: _ => none
  | '\\' :: '\n' :: _ => none
  | '\\' :: c :: rest => (span rest).map fun p => ('\\' :: c :: p.1, p.2)
  | c :: rest => (span rest).map fun p => (c :: p.1, p.2)

/-- The value of a hexadecimal digit. -/
def hexValue (c : Char) : Option Nat :=
  if '0' ≤ c && c ≤ '9' then some (c.toNat - '0'.toNat)
  else if 'a' ≤ c && c ≤ 'f' then some (c.toNat - 'a'.toNat + 10)
  else if 'A' ≤ c && c ≤ 'F' then some (c.toNat - 'A'.toNat + 10)
  else none

/-- A hexadecimal number of at least one digit. -/
def hexNumber (cs : List Char) : Option Nat :=
  if cs.isEmpty then none
  else cs.foldlM (fun n c => (hexValue c).map (16 * n + ·)) 0

/-- The character of a four character escape. A plus may stand before the digits; halves of
    surrogate pairs are no characters. -/
def unicode (a b c d : Char) : Option Char := do
  let code ← if a == '+' then hexNumber [b, c, d] else hexNumber [a, b, c, d]
  if 0xD800 ≤ code && code ≤ 0xDFFF then none else some (Char.ofNat code)

/-- The text that a string on one line stands for. -/
def decode : List Char → Option (List Char)
  | [] => some []
  | '\\' :: 'u' :: a :: b :: c :: d :: rest => do return (← unicode a b c d) :: (← decode rest)
  | '\\' :: c :: rest => do
    let held ← match c with
      | '"' => some '"'
      | '\\' => some '\\'
      | '/' => some '/'
      | 'b' => some '\x10'
      | 'f' => some '\x0c'
      | 'n' => some '\n'
      | 'r' => some '\r'
      | 't' => some '\t'
      | _ => none
    return held :: (← decode rest)
  | '\\' :: [] => none
  | c :: rest => (decode rest).map (c :: ·)

/-! ## 2. Block strings -/

/-- What stands before three closing quotes, and what follows them. A backslash before three
    quotes makes them part of the text. -/
def spanBlock : List Char → Option (List Char × List Char)
  | [] => none
  | '\\' :: '"' :: '"' :: '"' :: rest =>
    (spanBlock rest).map fun p => ('\\' :: '"' :: '"' :: '"' :: p.1, p.2)
  | '"' :: '"' :: '"' :: rest => some ([], rest)
  | c :: rest => (spanBlock rest).map fun p => (c :: p.1, p.2)

/-- The lines of a text, without their ends. A carriage return ends a line only before a line
    feed. -/
def lines : List Char → List (List Char)
  | [] => [[]]
  | '\r' :: '\n' :: rest => [] :: lines rest
  | '\n' :: rest => [] :: lines rest
  | c :: rest =>
    match lines rest with
    | [] => [[c]]
    | line :: more => (c :: line) :: more

/-- The number of bytes that characters take. -/
def byteLength : List Char → Nat
  | [] => 0
  | c :: rest => c.utf8Size + byteLength rest

/-- The indentation of a line in bytes; a blank line has none. -/
def indentation? (line : List Char) : Option Nat :=
  if Text.isBlankLine line then none else some (byteLength (line.takeWhile Text.isBlank))

/-- The least indentation of the lines after the first. -/
def commonIndentation (ls : List (List Char)) : Nat :=
  ((ls.drop 1).filterMap indentation?).min?.getD 0

/-- A line without so many bytes at its front. -/
def dropBytes : Nat → List Char → List Char
  | 0, line => line
  | _, [] => []
  | n + 1, c :: rest => dropBytes (n + 1 - c.utf8Size) rest

/-- A line without the common indentation, if it is long enough to have it. -/
def outdent (indentation : Nat) (line : List Char) : List Char :=
  if indentation ≤ byteLength line then dropBytes indentation line else line

/-- Three quotes behind a backslash lose the backslash. -/
def unescapeBlock : List Char → List Char
  | '\\' :: '"' :: '"' :: '"' :: rest => '"' :: '"' :: '"' :: unescapeBlock rest
  | c :: rest => c :: unescapeBlock rest
  | [] => []

/-- The lines without the blank ones at both ends. -/
def trimLines (ls : List (List Char)) : List (List Char) :=
  ((ls.dropWhile Text.isBlankLine).reverse.dropWhile Text.isBlankLine).reverse

/-- The text that a block string stands for. -/
def decodeBlock (content : List Char) : List Char :=
  let ls := lines content
  let indentation := commonIndentation ls
  let outdented := match ls with
    | [] => []
    | first :: more => first :: more.map (outdent indentation)
  ['\n'].intercalate ((trimLines outdented).map unescapeBlock)

end TypedQuery.Token.Quotation
