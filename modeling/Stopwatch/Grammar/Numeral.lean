import Stopwatch.Text

/-!
# Numbers

The longest number a text starts with. A matcher takes a text to the rest behind what it matched.
Digits may be parted by single underscores; a number is an integer in one of four bases, a decimal or
hexadecimal floating-point number, or either of them followed by `i`.
-/

namespace Stopwatch.Numeral

/-- A matcher: the rest of the text behind a match at its start. -/
abbrev Matcher := Text → Option Text

/-- One byte of a class. -/
def byte (p : UInt8 → Bool) : Matcher
  | b :: t => if p b then some t else none
  | [] => none

/-- One byte after another matcher. -/
def andThen (m n : Matcher) : Matcher := fun t => (m t).bind n

/-- A matcher that may be left out. -/
def maybe (m : Matcher) : Matcher := fun t => some ((m t).getD t)

/-- The matcher that gets further; the first one when they get equally far. -/
def longer (m n : Matcher) : Matcher := fun t =>
  match m t, n t with
  | some r, some s => some (if s.length < r.length then s else r)
  | some r, none => some r
  | none, s => s

/-- Several matchers one after another. -/
def inTurn : List Matcher → Matcher
  | [] => some
  | m :: ms => andThen m (inTurn ms)

/-- The longest of several matches. -/
def longest : List Matcher → Matcher
  | [] => fun _ => none
  | m :: ms => longer m (longest ms)

/-- More digits, each behind at most one underscore. -/
def moreDigits (p : UInt8 → Bool) : Text → Text
  | [] => []
  | b :: t =>
    if p b then moreDigits p t
    else
      match b == 95, t with
      | true, c :: r => if p c then moreDigits p r else b :: t
      | _, _ => b :: t

/-- Digits, parted by single underscores. -/
def digits (p : UInt8 → Bool) : Matcher := fun t => (byte p t).map (moreDigits p)

/-- Hexadecimal digits. -/
def isHex (b : UInt8) : Bool := Text.isDigit b || (97 ≤ b && b ≤ 102) || (65 ≤ b && b ≤ 70)

/-- Octal digits. -/
def isOctal (b : UInt8) : Bool := 48 ≤ b && b ≤ 55

/-- Binary digits. -/
def isBinary (b : UInt8) : Bool := b == 48 || b == 49

/-- A letter in either case, given in lower case. -/
def letter (lower : UInt8) : Matcher := byte fun b => b == lower || b + 32 == lower

/-- One given byte. -/
def only (b : UInt8) : Matcher := byte (· == b)

/-- Decimal digits. -/
def decimals : Matcher := digits Text.isDigit

/-- An integer. -/
def integer : Matcher := longest [
  only 48,
  andThen (byte fun b => 49 ≤ b && b ≤ 57) (maybe (andThen (maybe (only 95)) decimals)),
  inTurn [only 48, letter 98, maybe (only 95), digits isBinary],
  inTurn [only 48, maybe (letter 111), maybe (only 95), digits isOctal],
  inTurn [only 48, letter 120, maybe (only 95), digits isHex]]

/-- An exponent behind the given letter. -/
def exponent (lower : UInt8) : Matcher :=
  inTurn [letter lower, maybe (byte fun b => b == 43 || b == 45), decimals]

/-- A floating-point number. -/
def floating : Matcher := longest [
  inTurn [decimals, only 46, maybe decimals, maybe (exponent 101)],
  inTurn [decimals, exponent 101],
  inTurn [only 46, decimals, maybe (exponent 101)],
  inTurn [only 48, letter 120, maybe (only 95), digits isHex, only 46, maybe (digits isHex), exponent 112],
  inTurn [only 48, letter 120, maybe (only 95), digits isHex, exponent 112],
  inTurn [only 48, letter 120, only 46, digits isHex, exponent 112]]

/-- An imaginary number. -/
def imaginary : Matcher :=
  longest [andThen decimals (only 105), andThen integer (only 105), andThen floating (only 105)]

/-- The kind and the length of the number a text starts with. -/
def scan (t : Text) : Option (String × Nat) :=
  let found := [("int_literal", integer t), ("float_literal", floating t), ("imaginary_literal", imaginary t)]
  found.foldl
    (fun best (kind, rest) =>
      match rest with
      | none => best
      | some r =>
        let len := t.length - r.length
        match best with
        | some (_, n) => if n < len then some (kind, len) else best
        | none => some (kind, len))
    none

end Stopwatch.Numeral
