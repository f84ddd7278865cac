import Stopwatch.Syntax.Node
import Stopwatch.Text.Quoted

/-!
# The timing pair

Two statements time a function: the first stores the time, the second defers a call that prints how
much time has passed since.
-/

namespace Stopwatch

/-- The package that tells the time. -/
def timePackage : Text := utf8 "time"

/-- The package that prints. -/
def fmtPackage : Text := utf8 "fmt"

/-- The two statements that time one function. -/
structure Pair where
  identifier : Text
  start : Node
  report : Node

/-- The placeholder of a report template. -/
def namePlaceholder : Text := utf8 "\x7bname\x7d"

/-- The format string of a report: the template with the function's name put in, and a line feed. -/
def reportFormat (template name : Text) : Text :=
  Text.replaceAll namePlaceholder name template ++ [Text.newline]

namespace Pair

/-- A name of a package. -/
def selector (package name : Text) : Node := .selectorExpr {} (.ident {} package) name

/-- The call that prints the report. -/
def printCall (template name identifier : Text) : Node :=
  .callExpr {} (selector fmtPackage (utf8 "Printf"))
    [.basicLit {} (Text.Quoted.encode (reportFormat template name)),
     .callExpr {} (selector timePackage (utf8 "Since")) [.ident {} identifier]]

/-- The pair for the function `name`, with its start variable called `identifier`. -/
def build (template name identifier : Text) : Pair where
  identifier := identifier
  start :=
    .assignStmt {} [.ident {} identifier] (utf8 ":=")
      [.callExpr {} (selector timePackage (utf8 "Now")) []]
  report :=
    .deferStmt {}
      (.callExpr {} (.funcLit {} ⟨{}, [.exprStmt {} (printCall template name identifier)]⟩) [])

/-- The statements of a pair, in order. -/
def stmts (p : Pair) : List Node := [p.start, p.report]

end Pair

end Stopwatch
