import Stopwatch.Syntax.Visit
import Stopwatch.Timing.Candidates

/-!
# Scanning a tree for functions

A scan is a visit of the whole tree with a hook for functions: it notes each function when it comes to it,
the candidates on one list and the others on a second one.
-/

namespace Stopwatch

/-- The functions noted so far, each list in the order in which the scan came to them. -/
structure Scan where
  candidates : List Site := []
  skipped : List Site := []

namespace Scan

/-- Note the function at a site. -/
def note (skip : Text) (s : Site) (scan : Scan) : Scan :=
  match s.function? with
  | none => scan
  | some f =>
    if f.isCandidate skip then { scan with candidates := scan.candidates ++ [s] }
    else { scan with skipped := scan.skipped ++ [s] }

/-- The hooks of a scan. -/
def hooks (skip : Text) : Hooks Scan where
  enter className :=
    if className = "FuncDecl" then some fun s scan => (true, scan.note skip s) else none

end Scan

/-- The functions of a tree as a scan finds them. -/
def Node.scan (skip : Text) (n : Node) : Scan := (Scan.hooks skip).visitor.visit n.root {}

end Stopwatch
