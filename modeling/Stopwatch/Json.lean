import Stopwatch.Text

/-!
# JSON

Values and their text with two spaces for each level. Only quotes, backslashes and control characters are
escaped in a string; all other bytes stand for themselves.
-/

namespace Stopwatch

/-- A JSON value. -/
inductive Json where
  | null
  | bool (value : Bool)
  | nat (value : Nat)
  | str (value : Text)
  | arr (values : List Json)
  | obj (fields : List (String × Json))
  deriving Inhabited

namespace Json

/-- The hexadecimal digit of a number below sixteen. -/
def hexDigit (n : UInt8) : UInt8 := if n < 10 then 48 + n else 87 + n

/-- One byte inside a string. -/
def escape (b : UInt8) : Text :=
  if b = 34 then [92, 34]
  else if b = 92 then [92, 92]
  else if b = 8 then utf8 "\\b"
  else if b = 9 then utf8 "\\t"
  else if b = 10 then utf8 "\\n"
  else if b = 12 then utf8 "\\f"
  else if b = 13 then utf8 "\\r"
  else if b < 32 then utf8 "\\u00" ++ [hexDigit (b / 16), hexDigit (b % 16)]
  else [b]

/-- A string between quotes. -/
def quote (t : Text) : Text := 34 :: t.flatMap escape ++ [34]

/-- A new line at a level. -/
def lineAt (level : Nat) : Text := Text.newline :: List.replicate (2 * level) 32

/-- Items between brackets, each on a line of its own one level deeper. -/
def bracketed (opening closing : UInt8) (level : Nat) (items : List Text) : Text :=
  if items.isEmpty then [opening, closing]
  else
    [opening] ++ Text.joinWith [44] (items.map (lineAt (level + 1) ++ ·)) ++ lineAt level ++ [closing]

mutual

/-- The text of a value at a level. -/
def render (level : Nat) : Json → Text
  | null => utf8 "null"
  | bool true => utf8 "true"
  | bool false => utf8 "false"
  | nat n => Text.decimal n
  | str t => quote t
  | arr vs => bracketed 91 93 level (renderAll (level + 1) vs)
  | obj fs => bracketed 123 125 level (renderFields (level + 1) fs)

/-- The texts of values at a level. -/
def renderAll (level : Nat) : List Json → List Text
  | [] => []
  | v :: vs => render level v :: renderAll level vs

/-- The texts of fields at a level. -/
def renderFields (level : Nat) : List (String × Json) → List Text
  | [] => []
  | (k, v) :: fs => (quote (utf8 k) ++ utf8 ": " ++ render level v) :: renderFields level fs

end

/-- The text of a value. -/
def pretty (v : Json) : Text := render 0 v

/-- A value that may be missing. -/
def ofOption (f : α → Json) : Option α → Json
  | some a => f a
  | none => null

/-- A string value. -/
def ofString (s : String) : Json := str (utf8 s)

end Json

end Stopwatch
