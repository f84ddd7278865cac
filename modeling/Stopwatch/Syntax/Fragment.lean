import Stopwatch.Text

/-!
# Fragments

A piece of a program that is kept as text: one entry per line, with its indentation replaced by a depth
relative to the piece. A line that starts inside a raw string or a general comment is verbatim, and has
no depth of its own.
-/

namespace Stopwatch

/-- One line of a fragment. -/
structure FragmentLine where
  depth : Int
  text : Text
  verbatim : Bool := false
  deriving DecidableEq, Repr

/-- Program text as lines with relative depths. -/
abbrev Fragment := List FragmentLine

namespace Fragment

/-- A fragment of one line. -/
def single (t : Text) : Fragment := [⟨0, t, false⟩]

/-- The lines joined, without their indentation. -/
def text (f : Fragment) : Text := Text.joinLines (f.map FragmentLine.text)

end Fragment

end Stopwatch
