import TypedQuery.Syntax.Position

/-!
# Tokens

The words of documents and schema texts. Quoted strings and block strings are one kind of token,
for the grammar does not tell them apart; their text is already decoded.
-/

namespace TypedQuery

/-- A word of a source text. -/
inductive Token
  /-- One of the marks that stand alone. -/
  | punctuator (mark : Char)
  /-- Three points. -/
  | spread
  | name (s : String)
  | int (n : Int64)
  | float (x : Float)
  | string (s : String)

/-- A token and the place of its first character. -/
structure Lexeme where
  position : Position
  token : Token

namespace Token

/-- Whether the token is the given mark. -/
def isMark (mark : Char) : Token → Bool
  | .punctuator c => c == mark
  | _ => false

/-- Whether the token is the given name. -/
def isName (s : String) : Token → Bool
  | .name t => t == s
  | _ => false

end Token

end TypedQuery
