import Stopwatch.Syntax.Print
import Stopwatch.Timing.Imports
import Stopwatch.Timing.Instrument

/-!
# Transforming one file

The whole work on a loaded file: time its functions, import what that needs, print the result.
-/

namespace Stopwatch

/-- What a transformation gives. -/
structure Transformed where
  /-- The tree after the transformation. -/
  tree : SourceFile
  /-- The printed tree. -/
  text : Text
  /-- The functions timed, in order. -/
  functions : List TimedFunction
  /-- The imports added, in order. -/
  importsAdded : List Text

/-- The progress lines of a transformation. -/
def Transformed.progress (t : Transformed) : List Text := t.functions.map TimedFunction.progress

/-- Time the functions of a file and print it. -/
def SourceFile.transform (f : SourceFile) (settings : Settings) : Except PrintError Transformed :=
  let (timed, progress) := f.instrument settings.plan ⟨f.identifiers⟩
  let (added, tree) := timed.ensureImports requiredImports
  (tree.render settings.indent).map fun text => ⟨tree, text, progress.timed, added⟩

end Stopwatch
