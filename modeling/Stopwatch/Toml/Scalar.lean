import Stopwatch.Toml.Value

/-!
# Strings, numbers and dates

The values of a document that hold no others. A reader takes the characters at its place to a value and
the characters behind it.
-/

namespace Stopwatch.Toml

/-- Why a document cannot be read. -/
inductive Fault where
  /-- It does not follow the format. -/
  | malformed
  /-- It has an integer of so many decimal digits, more than are read. -/
  | tooManyDigits (digits : Nat)
  deriving DecidableEq, Repr

/-- A reader of values. -/
abbrev Reader (α : Type) := List Char → Except Fault (α × List Char)

/-- The greatest number of decimal digits that is read as an integer. -/
def digitLimit : Nat := 4300

/-- White space inside a line. -/
def isSpace (c : Char) : Bool := c == ' ' || c == '\t'

/-- White space between the elements of an array. -/
def isSpaceOrNewline (c : Char) : Bool := isSpace c || c == '\n'

/-- Control characters, which strings and comments may not hold; the tab is not among them. -/
def isControl (c : Char) : Bool := (c.toNat < 32 && c != '\t') || c.toNat == 127

/-- The rest of a text behind a beginning that it has. -/
def after? (start : String) (cs : List Char) : Option (List Char) :=
  if start.toList.isPrefixOf cs then some (cs.drop start.length) else none

/-! ## Strings -/

/-- The value of a hexadecimal digit. -/
def hexDigit? (c : Char) : Option Nat :=
  if '0' ≤ c && c ≤ '9' then some (c.toNat - 48)
  else if 'a' ≤ c && c ≤ 'f' then some (c.toNat - 87)
  else if 'A' ≤ c && c ≤ 'F' then some (c.toNat - 55)
  else none

/-- The value of `n` hexadecimal digits, continuing `acc`. -/
def hexValue? : Nat → Nat → List Char → Option (Nat × List Char)
  | 0, acc, cs => some (acc, cs)
  | n + 1, acc, c :: cs => (hexDigit? c).bind fun d => hexValue? n (acc * 16 + d) cs
  | _ + 1, _, [] => none

/-- A character given by its code, which has to be one. -/
def codedChar (digits : Nat) : Reader (List Char) := fun cs =>
  match hexValue? digits 0 cs with
  | some (n, rest) => if n.isValidChar then .ok ([Char.ofNat n], rest) else .error .malformed
  | none => .error .malformed

/-- An escape sequence, behind its backslash. In a string of several lines a backslash at the end of a
line swallows the white space that follows. -/
def escape (multiline : Bool) : Reader (List Char)
  | 'b' :: cs => .ok (['\x08'], cs)
  | 't' :: cs => .ok (['\t'], cs)
  | 'n' :: cs => .ok (['\n'], cs)
  | 'f' :: cs => .ok (['\x0c'], cs)
  | 'r' :: cs => .ok (['\r'], cs)
  | '"' :: cs => .ok (['"'], cs)
  | '\\' :: cs => .ok (['\\'], cs)
  | 'u' :: cs => codedChar 4 cs
  | 'U' :: cs => codedChar 8 cs
  | c :: cs =>
    if multiline && isSpaceOrNewline c then
      match (c :: cs).dropWhile isSpace with
      | [] => .ok ([], [])
      | '\n' :: rest => .ok ([], rest.dropWhile isSpaceOrNewline)
      | _ => .error .malformed
    else .error .malformed
  | [] => .error .malformed

/-- The characters of a basic string up to its closing quotes. The first argument bounds the number of
steps, `done` holds the characters so far, last one first. -/
def basicString (multiline : Bool) : Nat → List Char → Reader (List Char)
  | 0, _, _ => .error .malformed
  | _, _, [] => .error .malformed
  | n + 1, done, '"' :: cs =>
    if !multiline then .ok (done.reverse, cs)
    else
      match after? "\"\"" cs with
      | some rest => .ok (done.reverse, rest)
      | none => basicString multiline n ('"' :: done) cs
  | n + 1, done, '\\' :: cs => do
    let (e, rest) ← escape multiline cs
    basicString multiline n (e.reverse ++ done) rest
  | n + 1, done, c :: cs =>
    if isControl c && !(multiline && c == '\n') then .error .malformed
    else basicString multiline n (c :: done) cs

/-- The characters of a literal string up to the given quotes. -/
def literalString (multiline : Bool) (quotes : String) : List Char → Reader (List Char)
  | _, [] => .error .malformed
  | done, c :: cs =>
    match after? quotes (c :: cs) with
    | some rest => .ok (done.reverse, rest)
    | none =>
      if isControl c && !(multiline && c == '\n') then .error .malformed
      else literalString multiline quotes (c :: done) cs

/-- Up to two more quotes behind the closing quotes of a string of several lines belong to it. -/
def moreQuotes (quote : Char) (s : List Char) (cs : List Char) : String × List Char :=
  match cs with
  | a :: b :: rest =>
    if a == quote && b == quote then (String.ofList (s ++ [quote, quote]), rest)
    else if a == quote then (String.ofList (s ++ [quote]), b :: rest)
    else (String.ofList s, cs)
  | [a] => if a == quote then (String.ofList (s ++ [quote]), []) else (String.ofList s, cs)
  | [] => (String.ofList s, [])

/-- A string of several lines, behind its opening quotes; a line end right there is no part of it. -/
def multilineString (quote : Char) : Reader String := fun cs => do
  let cs := (after? "\n" cs).getD cs
  let (s, rest) ←
    if quote == '"' then basicString true (cs.length + 1) [] cs
    else literalString true "'''" [] cs
  return moreQuotes quote s rest

/-- A string of one line, behind its opening quote. -/
def lineString (quote : Char) : Reader String := fun cs => do
  let (s, rest) ←
    if quote == '"' then basicString false (cs.length + 1) [] cs else literalString false "'" [] cs
  return (String.ofList s, rest)

/-! ## Numbers -/

/-- An ASCII digit. -/
def isDigit (c : Char) : Bool := '0' ≤ c && c ≤ '9'

/-- More digits of a class, each behind at most one underscore: the digits and the rest. -/
def moreDigits (p : Char → Bool) : List Char → List Char × List Char
  | [] => ([], [])
  | c :: cs =>
    if p c then
      let (ds, rest) := moreDigits p cs
      (c :: ds, rest)
    else
      match c == '_', cs with
      | true, d :: ds' =>
        if p d then
          let (ds, rest) := moreDigits p ds'
          (d :: ds, rest)
        else ([], c :: cs)
      | _, _ => ([], c :: cs)

/-- Digits of a class, at least one. -/
def digits? (p : Char → Bool) : List Char → Option (List Char × List Char)
  | c :: cs =>
    if p c then
      let (ds, rest) := moreDigits p cs
      some (c :: ds, rest)
    else none
  | [] => none

/-- The value of digits in a base. -/
def valueOf (base : Nat) (ds : List Char) : Nat :=
  ds.foldl (fun n c => n * base + (hexDigit? c).getD 0) 0

/-- An integer in base two, eight or sixteen. -/
def basedInteger? : List Char → Option (Nat × List Char)
  | '0' :: 'x' :: cs => (digits? (fun c => (hexDigit? c).isSome) cs).map fun (ds, r) => (valueOf 16 ds, r)
  | '0' :: 'b' :: cs => (digits? (fun c => c == '0' || c == '1') cs).map fun (ds, r) => (valueOf 2 ds, r)
  | '0' :: 'o' :: cs => (digits? (fun c => '0' ≤ c && c ≤ '7') cs).map fun (ds, r) => (valueOf 8 ds, r)
  | _ => none

/-- The digits of a decimal integer part: a zero alone, or digits that do not start with one. -/
def integerPart? : List Char → Option (List Char × List Char)
  | '0' :: cs => some (['0'], cs)
  | cs => digits? isDigit cs

/-- The rest behind a fraction, if there is one. -/
def skipFraction (cs : List Char) : List Char :=
  match cs with
  | '.' :: r => ((digits? isDigit r).map Prod.snd).getD cs
  | _ => cs

/-- The rest behind an exponent, if there is one. -/
def skipExponent (cs : List Char) : List Char :=
  match cs with
  | c :: r =>
    if c == 'e' || c == 'E' then
      let r :=
        match r with
        | s :: t => if s == '+' || s == '-' then t else r
        | [] => r
      ((digits? isDigit r).map Prod.snd).getD cs
    else cs
  | [] => cs

/-- A number. -/
def number? (cs : List Char) : Option (Except Fault (Value × List Char)) :=
  match basedInteger? cs with
  | some (n, rest) => some (.ok (.int n, rest))
  | none =>
    let (negative, unsigned) :=
      match cs with
      | '-' :: r => (true, r)
      | '+' :: r => (false, r)
      | _ => (false, cs)
    (integerPart? unsigned).map fun (ds, rest) =>
      let tail := skipExponent (skipFraction rest)
      if tail.length < rest.length then .ok (.float, tail)
      else if digitLimit < ds.length then .error (.tooManyDigits ds.length)
      else
        let n : Int := valueOf 10 ds
        .ok (.int (if negative then -n else n), rest)

/-! ## Dates and times -/

/-- Exactly `n` digits: their value and the rest. -/
def fixedDigits? (n : Nat) (cs : List Char) : Option (Nat × List Char) :=
  let ds := cs.take n
  if ds.length == n && ds.all isDigit then some (valueOf 10 ds, cs.drop n) else none

/-- The number of days of a month. -/
def daysIn (year month : Nat) : Nat :=
  if month == 2 then
    if year % 4 == 0 && (year % 100 != 0 || year % 400 == 0) then 29 else 28
  else if [4, 6, 9, 11].contains month then 30
  else 31

/-- Two digits up to a greatest value. -/
def twoDigits? (greatest : Nat) (cs : List Char) : Option (List Char) :=
  (fixedDigits? 2 cs).bind fun (n, rest) => if n ≤ greatest then some rest else none

/-- A fraction of a second, if there is one. -/
def skipSecondFraction (cs : List Char) : List Char :=
  match cs with
  | '.' :: c :: r => if isDigit c then r.dropWhile isDigit else cs
  | _ => cs

/-- The rest behind a time of day. -/
def time? (cs : List Char) : Option (List Char) := do
  let cs ← twoDigits? 23 cs
  let cs ← after? ":" cs
  let cs ← twoDigits? 59 cs
  let cs ← after? ":" cs
  let cs ← twoDigits? 59 cs
  return skipSecondFraction cs

/-- The rest behind an offset from universal time, if there is one. -/
def skipOffset (cs : List Char) : List Char :=
  match cs with
  | c :: r =>
    if c == 'Z' || c == 'z' then r
    else if c == '+' || c == '-' then
      (do
        let r ← twoDigits? 23 r
        let r ← after? ":" r
        twoDigits? 59 r).getD cs
    else cs
  | [] => cs

/-- A date as it is written: a month and a day out of range are none. -/
def writtenDate? (cs : List Char) : Option ((Nat × Nat × Nat) × List Char) := do
  let (year, cs) ← fixedDigits? 4 cs
  let cs ← after? "-" cs
  let (month, cs) ← fixedDigits? 2 cs
  let cs ← after? "-" cs
  let (day, cs) ← fixedDigits? 2 cs
  if 1 ≤ month && month ≤ 12 && 1 ≤ day && day ≤ 31 then some ((year, month, day), cs) else none

/-- A date, perhaps with a time of day and an offset. A day that its month does not have is a fault. -/
def date? (cs : List Char) : Option (Except Fault (Value × List Char)) :=
  (writtenDate? cs).map fun ((year, month, day), rest) =>
    if year == 0 || daysIn year month < day then .error .malformed
    else
      match rest with
      | c :: r =>
        if c == 'T' || c == 't' || c == ' ' then
          match time? r with
          | some r => .ok (.moment, skipOffset r)
          | none => .ok (.moment, rest)
        else .ok (.moment, rest)
      | [] => .ok (.moment, rest)

/-- A value that is neither a string, an array nor a table. -/
def plain : Reader Value := fun cs =>
  match after? "true" cs, after? "false" cs with
  | some rest, _ => .ok (.bool true, rest)
  | _, some rest => .ok (.bool false, rest)
  | none, none =>
    match date? cs with
    | some found => found
    | none =>
      match time? cs with
      | some rest => .ok (.moment, rest)
      | none =>
        match number? cs with
        | some found => found
        | none =>
          match ["inf", "nan", "-inf", "+inf", "-nan", "+nan"].findSome? fun w => after? w cs with
          | some rest => .ok (.float, rest)
          | none => .error .malformed

end Stopwatch.Toml
