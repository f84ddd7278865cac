import Stopwatch.Command.Arguments
import Stopwatch.Run.Report

/-!
# Carrying out a command

A command changes a disk and ends with an exit code and what it prints. Code 1 says that the path cannot be
worked on, code 2 that the work on it failed.
-/

namespace Stopwatch

/-- How a command ends. -/
structure Ending where
  exit : Nat := 0
  output : Text := []
  errors : Text := []
  deriving DecidableEq, Repr

namespace Command

/-- The exit code for a path that cannot be worked on. -/
def pathCode : Nat := 1

/-- The exit code for work that failed. -/
def failedCode : Nat := 2

/-- Lines of output. -/
def lines (ls : List Text) : Text := ls.flatMap (· ++ [Text.newline])

/-- A path that cannot be worked on, with the reason. -/
def badPath (p : Path) (reason : String) : Ending :=
  { exit := pathCode, errors := lines [utf8 ("invalid path: " ++ p.toString ++ ": " ++ reason)] }

/-- What a finished run prints: the report, or its progress. With a report the errors are in it. -/
def ending (r : Run) (json quiet : Bool) (report : RunReport) : Ending :=
  { exit := if report.ok then 0 else failedCode
    output := lines (if json then [report.toJson.pretty] else if quiet then [] else r.progress)
    errors := lines (if json then [] else r.errors) }

/-- Time the functions below a path. -/
def runInstrument (d : Disk) (path : Path) (settings : Option Path) (json quiet : Bool) (host : Host) :
    Disk × Except Crash Ending :=
  let r := d.instrument path none settings host
  match r.result with
  | .error (.path p c) => (r.disk, .ok (badPath p c.text))
  | .error (.crash c) => (r.disk, .error c)
  | .ok report => (r.disk, .ok (ending r json quiet report))

/-- Bring the support package below a directory up to date. -/
def runSupport (d : Disk) (directory : Path) (settings : Option Path) (denied : Denials) :
    Disk × Except Crash Ending :=
  if !d.isDir directory then (d, .ok (badPath directory "not a directory"))
  else
    match d.settingsFor directory settings denied with
    | .error e => (d, .error (.settings e))
    | .ok s =>
      match Support.ensure d directory s.supportDir denied with
      | (d, .error (.work e)) => (d, .ok { exit := failedCode, errors := lines [utf8 e.message] })
      | (d, .error (.crash c)) => (d, .error c)
      | (d, .ok []) => (d, .ok { output := lines [utf8 "support package already up to date"] })
      | (d, .ok written) =>
        (d, .ok { output := lines (written.map fun p => utf8 ("wrote " ++ p.toString)) })

/-- Carry out a command on a disk. -/
def execute (d : Disk) (c : Command) (host : Host := {}) : Disk × Except Crash Ending :=
  match c with
  | instrument path settings json quiet => runInstrument d path settings json quiet host
  | support directory settings => runSupport d directory settings host.denied

end Command

end Stopwatch
