import Stopwatch.Text

/-!
# Settings

What a user may choose: which functions are left alone, the wording of the report, which files count as
sources, where the support package goes, and how the output is indented.
-/

namespace Stopwatch

/-- The settings of a run. -/
structure Settings where
  /-- Functions whose name starts with this text are skipped; the empty text skips none. -/
  skipPrefix : String := "Test"
  /-- The name proposed for the start variable. -/
  startIdentifier : String := "__start"
  /-- The report; the placeholder for the name stands in braces. -/
  reportTemplate : String := "function \x7bname\x7d took %v"
  /-- The ending of the files a directory run looks at. -/
  sourceExtension : String := ".go"
  /-- The one file name with that ending that a directory run passes over. -/
  reservedFilename : String := "func_trace.go"
  /-- The directory of the support package, below the root of a run. -/
  supportDir : String := "_runtime"
  /-- Whether one tab is one level of indentation. -/
  useTabs : Bool := true
  /-- The number of spaces of one level without tabs. -/
  tabWidth : Int := 4
  deriving DecidableEq, Repr

namespace Settings

/-- One level of indentation. A width that is too large for a text in memory is not told from others. -/
def indent (s : Settings) : Text :=
  if s.useTabs then [9] else List.replicate s.tabWidth.toNat 32

end Settings

end Stopwatch
