import Stopwatch.Json
import Stopwatch.Run.Batch

/-!
# Reports as JSON

The fields of a report in their fixed order; what is absent is `null`.
-/

namespace Stopwatch

/-- A path as JSON. -/
def Path.toJson (p : Path) : Json := .ofString p.toString

/-- A timed function as JSON. -/
def TimedFunction.toJson (f : TimedFunction) : Json :=
  .obj [("qualified_name", .str f.qualifiedName), ("identifier", .str f.identifier),
    ("line", .ofOption .nat f.line)]

/-- The report on a file as JSON. -/
def FileReport.toJson (r : FileReport) : Json :=
  .obj [("path", r.path.toJson), ("functions", .arr (r.functions.map TimedFunction.toJson)),
    ("imports_added", .arr (r.importsAdded.map .str))]

/-- The report on a run as JSON. -/
def RunReport.toJson (r : RunReport) : Json :=
  .obj [("root", r.root.toJson), ("mode", .ofString r.scope.text), ("ok", .bool r.ok),
    ("bundle_written", .arr (r.supportWritten.map Path.toJson)),
    ("files", .arr (r.files.map FileReport.toJson)),
    ("error", .ofOption (fun e => .ofString e.message) r.failure),
    ("failed_path", .ofOption (fun e => e.failedPath.toJson) r.failure)]

end Stopwatch
