import TypedQuery.Text.Printable

/-!
# Quoted text

A text in double quotes, on one line and readable: `quote`. The quote and the backslash get a
backslash, four control characters a letter or a zero behind one, every other character that does
not show is written by its number in braces, and all else stands as it is.
-/

namespace TypedQuery.Text

/-- Lower case hexadecimal digits, without leading zeros. -/
def hexDigits (n : Nat) : List Char := Nat.toDigits 16 n

variable [Repertoire]

/-- How one character is written between quotes. -/
def quoteChar (c : Char) : List Char :=
  match c with
  | '"' => ['\\', '"']
  | '\\' => ['\\', '\\']
  | '\t' => ['\\', 't']
  | '\n' => ['\\', 'n']
  | '\r' => ['\\', 'r']
  | '\x00' => ['\\', '0']
  | c =>
    if Repertoire.shows c then [c]
    else ['\\', 'u', '\x7b'] ++ hexDigits c.toNat ++ ['\x7d']

/-- A text in double quotes. -/
def quote (s : String) : String :=
  String.ofList ('"' :: s.toList.flatMap quoteChar ++ ['"'])

/-- Between quotes no character disappears. -/
theorem quoteChar_ne_nil (c : Char) : quoteChar c ≠ [] := by
  unfold quoteChar
  split <;> try simp
  split <;> simp

end TypedQuery.Text
