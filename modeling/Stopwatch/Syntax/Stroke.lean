import Stopwatch.Text

/-!
# Strokes

Printing a tree first gives a list of strokes, which do not know how wide a level of indentation is:
start a line at a depth, start a line as it is, extend the last line, or give up. `Stroke.run` carries
them out for a given indentation, in order, and stops at the first one that cannot be.

* `PrintError.message`: the wording of the ways printing can fail.
-/

namespace Stopwatch

/-- Why a tree cannot be printed. -/
inductive PrintError where
  /-- A node that is no declaration stands at the top level. -/
  | topLevel (className : String)
  /-- A node that is no statement stands in a sequence. -/
  | statement (className : String)
  /-- A node that is no expression stands where one is needed. -/
  | expression (className : String)
  /-- There is no line yet that could be extended. -/
  | noLine
  deriving DecidableEq, Repr

/-- The wording of a printing failure. -/
def PrintError.message : PrintError → String
  | .topLevel c => "unexpected top-level node " ++ c
  | .statement c => "unexpected statement node " ++ c
  | .expression c => "unexpected expression node " ++ c
  | .noLine => "list index out of range"

/-- One instruction of the printer. -/
inductive Stroke where
  /-- A new line with this indentation; a line without text is not indented. -/
  | line (depth : Int) (text : Text)
  /-- A new line, taken as it is. -/
  | raw (text : Text)
  /-- More text for the last line. -/
  | extend (text : Text)
  /-- Printing fails here. -/
  | reject (error : PrintError)
  deriving DecidableEq, Repr

namespace Stroke

/-- The text of a line that starts at `depth`. -/
def indented (indent : Text) (depth : Int) (text : Text) : Text :=
  if text = [] then [] else indent.repeated depth ++ text

/-- Carry out strokes after the lines `done`, last line first. -/
def runFrom (indent : Text) : List Text → List Stroke → Except PrintError (List Text)
  | done, [] => .ok done
  | done, .line d t :: rest => runFrom indent (indented indent d t :: done) rest
  | done, .raw t :: rest => runFrom indent (t :: done) rest
  | [], .extend _ :: _ => .error .noLine
  | l :: done, .extend t :: rest => runFrom indent ((l ++ t) :: done) rest
  | _, .reject e :: _ => .error e

/-- The lines a list of strokes gives. -/
def run (indent : Text) (strokes : List Stroke) : Except PrintError (List Text) :=
  (runFrom indent [] strokes).map List.reverse

/-- The first failure in a list of strokes. -/
def firstReject? : List Stroke → Option PrintError
  | [] => none
  | .reject e :: _ => some e
  | _ :: rest => firstReject? rest

end Stroke

/-- Text that may break into lines: it extends the line it is put on, and `rest` follows. -/
structure Phrase where
  head : Text
  rest : List Stroke := []
  deriving DecidableEq, Repr

namespace Phrase

/-- One phrase behind another. -/
def append (p q : Phrase) : Phrase :=
  match p.rest with
  | [] => ⟨p.head ++ q.head, q.rest⟩
  | _ => ⟨p.head, p.rest ++ .extend q.head :: q.rest⟩

instance : Append Phrase := ⟨append⟩

/-- Plain text as a phrase. -/
def ofText (t : Text) : Phrase := ⟨t, []⟩

/-- Phrases with a comma between neighbours. -/
def commaSeparated : List Phrase → Phrase
  | [] => ofText []
  | [p] => p
  | p :: ps => p ++ ofText (utf8 ", ") ++ commaSeparated ps

/-- A phrase on a line of its own. -/
def onLine (depth : Int) (p : Phrase) : List Stroke := .line depth p.head :: p.rest

end Phrase

end Stopwatch
