import Stopwatch.Run.Failure
import Stopwatch.Run.Host
import Stopwatch.Timing.Transform

/-!
# One file of a run

A file is read, transformed and written back as a whole. When reading or loading fails it stays as it was.
-/

namespace Stopwatch

/-- What was done to a file. -/
structure FileReport where
  path : Path
  /-- The functions timed, in order. -/
  functions : List TimedFunction := []
  /-- The imports added, in order. -/
  importsAdded : List Text := []

/-- The work on one file: the disk after it, the progress lines, and the report or the failure. -/
structure FileRun where
  disk : Disk
  progress : List Text := []
  result : Except Failure FileReport

namespace Disk

/-- Read and load the source at a path. -/
def load (d : Disk) (p : Path) (host : Host := {}) : Except LoadError SourceFile :=
  match unlessRefused (host.denied.refuses .read p) (d.read p) with
  | .error f => .error (.unreadable f.message)
  | .ok content => SourceFile.ofSource content host.parse

/-- Time the functions of the file at a path. -/
def instrumentFile (d : Disk) (s : Settings) (p : Path) (host : Host := {}) : FileRun :=
  match d.load p host with
  | .error e => { disk := d, result := .error (.work (.load p e)) }
  | .ok source =>
    match source.transform s with
    | .error e => { disk := d, result := .error (.crash (.print e)) }
    | .ok t =>
      let (written, outcome) := d.write p t.text host.denied
      { disk := written
        progress := t.progress
        result :=
          match outcome with
          | .error e => .error (e.toFailure p)
          | .ok () => .ok ⟨p, t.functions, t.importsAdded⟩ }

end Disk

end Stopwatch
