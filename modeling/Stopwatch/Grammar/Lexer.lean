import Stopwatch.Grammar.Numeral
import Stopwatch.Grammar.Token
import Stopwatch.Text.Digit
import Stopwatch.Text.Letter
import Stopwatch.Text.Scalar

/-!
# Scanning

`Lexer.scan` cuts a source into tokens and comments, or refuses it. White space is the ASCII one; bytes
outside UTF-8 may occur in comments and literals only. A zero byte is in neither: it is a word of its
own.
-/

namespace Stopwatch

namespace Lexer

/-- A byte order mark. -/
def byteOrderMark : Text := [0xEF, 0xBB, 0xBF]

/-- Whether a code may start a name. -/
def startsName (code : Nat) : Bool := Text.isLetterCode code || code == 95

/-- Whether a code may stand in a name. -/
def inName (code : Nat) : Bool := startsName code || (Text.digitValue? code).isSome

/-- The length of the run of name characters a text starts with. The first argument bounds the number
of characters. -/
def nameLength : Nat → Text → Nat
  | 0, _ => 0
  | _, [] => 0
  | n + 1, b :: t =>
    let (code, more) := Scalar.first b t
    if inName code then 1 + more + nameLength n (t.drop more) else 0

/-- The name or the keyword a text starts with. -/
def name? (t : Text) : Option (Lexeme × Nat) :=
  match t with
  | [] => none
  | b :: r =>
    if startsName (Scalar.first b r).1 then
      let len := nameLength t.length t
      let spelling := t.take len
      match keywords.find? fun k => utf8 k == spelling with
      | some k => some (.word k, len)
      | none => some (.name spelling, len)
    else none

/-- The operator or the bracket a text starts with. -/
def operator? (t : Text) : Option (Lexeme × Nat) :=
  (operators.find? fun o => (utf8 o).isPrefixOf t).map fun o => (.word o, o.length)

/-! ## Strings and runes -/

/-- The length of `n` hexadecimal digits. -/
def hexRun (n : Nat) (t : Text) : Option Nat :=
  if n ≤ (t.takeWhile Numeral.isHex).length then some n else none

/-- The length of an escape sequence in a string, behind its backslash. Any character may follow it
but a line feed; `x`, `u` and `U` ask for hexadecimal digits. -/
def escapeLength (t : Text) : Option Nat :=
  match t with
  | [] => none
  | b :: r =>
    if b = 120 then (hexRun 2 r).map (· + 1)
    else if b = 117 then (hexRun 4 r).map (· + 1)
    else if b = 85 then (hexRun 8 r).map (· + 1)
    else if b = Text.newline || b = 0 then none
    else some (1 + (Scalar.first b r).2)

/-- Add a byte of plain content to the pieces of a string, last piece first. -/
def addContent : List (String × Nat) → List (String × Nat)
  | ("interpreted_string_literal_content", n) :: ps =>
    ("interpreted_string_literal_content", n + 1) :: ps
  | ps => ("interpreted_string_literal_content", 1) :: ps

/-- The pieces of an interpreted string up to its closing quote, and their length. The first argument
bounds the number of steps, `ps` holds the pieces so far, last piece first. -/
def stringPieces : Nat → List (String × Nat) → Nat → Text → Option (List (String × Nat) × Nat)
  | 0, _, _, _ => none
  | _, _, _, [] => none
  | n + 1, ps, len, b :: t =>
    if b = 34 then some (ps.reverse, len)
    else if b = Text.newline || b = 0 then none
    else if b = 92 then
      (escapeLength t).bind fun e =>
        stringPieces n (("escape_sequence", e + 1) :: ps) (len + e + 1) (t.drop e)
    else stringPieces n (addContent ps) (len + 1) t

/-- The length of a raw string's content. -/
def rawLength (t : Text) : Option Nat :=
  let len := (t.takeWhile fun b => b != 96 && b != 0).length
  if (t.drop len).head? = some 96 then some len else none

/-- The length of an escape sequence in a rune, behind its backslash. -/
def runeEscapeLength (t : Text) : Option Nat :=
  match t with
  | [] => none
  | b :: r =>
    if b = 120 then (hexRun 2 r).map (· + 1)
    else if b = 117 then (hexRun 4 r).map (· + 1)
    else if b = 85 then (hexRun 8 r).map (· + 1)
    else if Numeral.isOctal b then
      if 3 ≤ (t.takeWhile Numeral.isOctal).length then some 3 else none
    else if (utf8 "abfnrtv\\'\"").contains b then some 1
    else none

/-- The length of a rune literal, behind its opening quote. -/
def runeLength (t : Text) : Option Nat :=
  match t with
  | [] => none
  | b :: r =>
    let len :=
      if b = 92 then (runeEscapeLength r).map (· + 1)
      else if b = 39 || b = 0 then none
      else some (1 + (Scalar.first b r).2)
    len.bind fun n => if (t.drop n).head? = some 39 then some (n + 1) else none

/-! ## Tokens -/

/-- The token a text starts with: what it is, its length and its pieces. -/
def token? (t : Text) : Option (Lexeme × Nat × List (String × Nat)) :=
  match t with
  | [] => none
  | b :: r =>
    if b = 0 then some (.word "\x00", 1, [])
    else if b = 34 then (stringPieces t.length [] 0 r).map fun (ps, n) => (.string, n + 2, ps)
    else if b = 96 then
      (rawLength r).map fun n =>
        (.rawString, n + 2, if n = 0 then [] else [("raw_string_literal_content", n)])
    else if b = 39 then (runeLength r).map fun n => (.literal "rune_literal", n + 1, [])
    else
      match Numeral.scan t with
      | some (kind, n) => some (.literal kind, n, [])
      | none => ((name? t).or (operator? t)).map fun (l, n) => (l, n, [])

/-- The length of a general comment, behind its opening. -/
def generalCommentLength : Text → Option Nat
  | 42 :: 47 :: _ => some 2
  | 0 :: _ => none
  | _ :: t => (generalCommentLength t).map (· + 1)
  | [] => none

/-- The length of the comment a text starts with; `none` if there is none, `some none` if it has no
end. -/
def comment? : Text → Option (Option Nat)
  | 47 :: 47 :: t => some (some (2 + (t.takeWhile fun b => b != Text.newline && b != 0).length))
  | 47 :: 42 :: t => some ((generalCommentLength t).map (· + 2))
  | _ => none

/-- The tokens and the comments of a source. -/
structure Scanned where
  tokens : List Token := []
  comments : List CommentSpan := []

/-- Scan a text that starts at `offset`. The first argument bounds the number of steps, `newRow` says
whether a row was begun since the last token. -/
def scanFrom : Nat → Nat → Bool → Text → Option Scanned
  | _, _, _, [] => some {}
  | 0, _, _, _ => none
  | n + 1, offset, newRow, b :: t =>
    if Text.isBlank b then scanFrom n (offset + 1) (newRow || b == Text.newline) t
    else
      match comment? (b :: t) with
      | some none => none
      | some (some len) =>
        (scanFrom n (offset + len) newRow ((b :: t).drop len)).map fun s =>
          { s with comments := ⟨offset, offset + len⟩ :: s.comments }
      | none =>
        (token? (b :: t)).bind fun (lexeme, len, pieces) =>
          (scanFrom n (offset + len) false ((b :: t).drop len)).map fun s =>
            { s with tokens := ⟨lexeme, offset, offset + len, newRow, pieces⟩ :: s.tokens }

/-- The tokens and the comments of a source; a byte order mark at its start is passed over. -/
def scan (source : Text) : Option Scanned :=
  if byteOrderMark.isPrefixOf source then scanFrom source.length 3 false (source.drop 3)
  else scanFrom source.length 0 false source

end Lexer

end Stopwatch
