import Stopwatch.Text

/-!
# Go string literals

`encode` writes an interpreted string literal: a backslash, a double quote, a line feed, a carriage
return and a tab are escaped, every other byte stands for itself. `strip` only takes the quotes off, which
is how the path of an import is read.
-/

namespace Stopwatch.Text.Quoted

/-- The double quote. -/
def quote : UInt8 := 34

/-- The backslash. -/
def backslash : UInt8 := 92

/-- The quote of a raw string. -/
def backquote : UInt8 := 96

/-- One byte of a literal's body. -/
def escape (b : UInt8) : Text :=
  if b = backslash then [backslash, backslash]
  else if b = quote then [backslash, quote]
  else if b = 10 then [backslash, 110]
  else if b = 13 then [backslash, 114]
  else if b = 9 then [backslash, 116]
  else [b]

/-- The literal that denotes `t`. -/
def encode (t : Text) : Text := quote :: t.flatMap escape ++ [quote]

/-- A literal without the pair of equal quotes around it; any other text is left as it is. -/
def strip (t : Text) : Text :=
  match t with
  | a :: b :: r =>
    if (b :: r).getLast? = some a ∧ (a = quote ∨ a = backquote) then (b :: r).dropLast else t
  | _ => t

end Stopwatch.Text.Quoted
