/-!
# White space

The characters that count as blank at the ends of a line: those of the white space property.
-/

namespace TypedQuery.Text

/-- Whether a character is white space. -/
def isBlank (c : Char) : Bool :=
  let n := c.toNat
  (0x09 ≤ n && n ≤ 0x0D) || n == 0x20 || n == 0x85 || n == 0xA0 || n == 0x1680 ||
    (0x2000 ≤ n && n ≤ 0x200A) || n == 0x2028 || n == 0x2029 || n == 0x202F || n == 0x205F ||
    n == 0x3000

/-- What counts as white space in the seven-bit set counts here. -/
theorem isBlank_of_isWhitespace {c : Char} (h : c.isWhitespace = true) : isBlank c = true := by
  simp only [Char.isWhitespace, Bool.or_eq_true, decide_eq_true_eq] at h
  rcases h with ((rfl | rfl) | rfl) | rfl <;> decide

/-- The text without the blanks at its front. -/
def dropBlanks (line : List Char) : List Char := line.dropWhile isBlank

/-- Whether a line holds blanks only. -/
def isBlankLine (line : List Char) : Bool := line.all isBlank

end TypedQuery.Text
