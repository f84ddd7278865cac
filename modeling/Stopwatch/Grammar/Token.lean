import Stopwatch.Text

/-!
# Tokens of a Go source

A token knows the bytes it covers and whether a line feed stands somewhere between it and the token
before it: that is all a grammar needs to tell where a statement may end.
-/

namespace Stopwatch

/-- What a token is. -/
inductive Lexeme where
  /-- A keyword, an operator or a bracket. -/
  | word (spelling : String)
  /-- A name. -/
  | name (spelling : Text)
  /-- A number or a rune literal, of the given kind. -/
  | literal (kind : String)
  /-- A string literal in double quotes. -/
  | string
  /-- A raw string literal. -/
  | rawString
  deriving DecidableEq, Repr

/-- A token of a source. -/
structure Token where
  lexeme : Lexeme
  start : Nat
  stop : Nat
  /-- Whether a new row was begun since the token before. -/
  newRow : Bool
  /-- The pieces of a string literal between its quotes: their kinds and lengths. -/
  pieces : List (String × Nat) := []
  deriving DecidableEq, Repr

/-- A comment of a source. -/
structure CommentSpan where
  start : Nat
  stop : Nat
  deriving DecidableEq, Repr

/-- The keywords of the language. -/
def keywords : List String :=
  ["break", "case", "chan", "const", "continue", "default", "defer", "else", "fallthrough", "for",
   "func", "go", "goto", "if", "import", "interface", "map", "package", "range", "return", "select",
   "struct", "switch", "type", "var"]

/-- The operators and brackets, longer ones before their beginnings. -/
def operators : List String :=
  ["&^=", "<<=", ">>=", "...", "&&", "||", "<-", "++", "--", "==", "!=", "<=", ">=", ":=", "+=", "-=",
   "*=", "/=", "%=", "&=", "|=", "^=", "<<", ">>", "&^", "+", "-", "*", "/", "%", "&", "|", "^", "<",
   ">", "=", "!", "(", ")", "[", "]", "\x7b", "\x7d", ",", ";", ".", ":", "~"]

end Stopwatch
