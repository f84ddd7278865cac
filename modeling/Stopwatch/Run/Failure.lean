import Stopwatch.Disk.Replace
import Stopwatch.Settings.Normal
import Stopwatch.Syntax.Load
import Stopwatch.Syntax.Stroke

/-!
# How a run fails

A `WorkError` ends a run and is told in its report. A `Crash` leaves no report behind: the settings cannot
be read, the links of a file to be written run in circles, a path has a NUL, or a tree cannot be printed.
-/

namespace Stopwatch

/-- A failure that the report of a run tells. -/
inductive WorkError where
  /-- A path that cannot be looked at. -/
  | path (path : Path) (cause : Cause)
  /-- A source that cannot be loaded. -/
  | load (path : Path) (error : LoadError)
  /-- A file that cannot be written. -/
  | write (path : Path) (fault : Fault)
  deriving DecidableEq, Repr

namespace WorkError

/-- The path that a failure is about. -/
def failedPath : WorkError → Path
  | path p _ => p
  | load p _ => p
  | write p _ => p

/-- The wording of a failure. -/
def message : WorkError → String
  | path p c => "invalid path " ++ p.toString ++ ": " ++ c.text
  | load p e => e.message (some p.toString)
  | write p f => "failed to write " ++ p.toString ++ ": " ++ f.message

end WorkError

/-- A failure without a report. -/
inductive Crash where
  | settings (error : SettingsError)
  | print (error : PrintError)
  /-- A write, or the way to it, ended other than by a fault of the disk. -/
  | unwritten (error : WriteError)
  deriving DecidableEq, Repr

/-- What ends the work on a file or on the support package. -/
inductive Failure where
  | work (error : WorkError)
  | crash (crash : Crash)
  deriving DecidableEq, Repr

/-- What a failed write of the file at a path is to a run. -/
def WriteError.toFailure (path : Path) : WriteError → Failure
  | .fault f => .work (.write path f)
  | e => .crash (.unwritten e)

end Stopwatch
