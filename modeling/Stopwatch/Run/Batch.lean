import Stopwatch.Run.File
import Stopwatch.Run.Support
import Stopwatch.Run.Walk
import Stopwatch.Settings.Read

/-!
# A whole run

A run times one file, or every source below a directory. First the support package is brought up to date,
then the sources are worked off one by one, each before the walk goes on. The first failure ends the run;
what was written before it stays.

* `Disk.instrument` gives a report for every failure that is a `WorkError`, except that the path itself
  cannot be looked at: then there is no run at all.
* The parser, and what the system refuses, come with the `Host`.
-/

namespace Stopwatch

/-- What a run works on. -/
inductive Scope where
  | directory
  | file
  deriving DecidableEq, Repr

/-- The word for a scope. -/
def Scope.text : Scope → String
  | directory => "directory"
  | file => "file"

/-- What a run did. -/
structure RunReport where
  root : Path
  scope : Scope
  /-- The files of the support package that were written. -/
  supportWritten : List Path := []
  /-- The files done, in order. -/
  files : List FileReport := []
  /-- What ended the run before its end. -/
  failure : Option WorkError := none

/-- Did the run come to its end? -/
def RunReport.ok (r : RunReport) : Bool := r.failure.isNone

/-- Why there is no report. -/
inductive NoReport where
  /-- The path cannot be looked at. -/
  | path (path : Path) (cause : Cause)
  | crash (crash : Crash)
  deriving DecidableEq, Repr

/-- A run: the disk after it, its progress and error lines, and the report. -/
structure Run where
  disk : Disk
  progress : List Text := []
  errors : List Text := []
  result : Except NoReport RunReport

namespace Batch

/-- A directory run on its way. -/
structure State where
  disk : Disk
  progress : List Text := []
  files : List FileReport := []

/-- The line that announces a file. -/
def announce (p : Path) : Text := utf8 ("processing file: " ++ p.toString)

/-- Add the work on a file to a state. -/
def State.add (s : State) (lines : List Text) (r : FileRun) : State :=
  { disk := r.disk
    progress := s.progress ++ lines ++ r.progress
    files := s.files ++ r.result.toOption.toList }

/-- The failure of the work on a file. -/
def failure? (r : FileRun) : Option Failure :=
  match r.result with
  | .error e => some e
  | .ok _ => none

/-- Work off the sources that a walk of at most `n` steps finds, each on the disk that the one before it
left behind. -/
def workOff (host : Host) (settings : Settings) : Nat → List Path → State → State × Option Failure
  | 0, _, s => (s, none)
  | n + 1, paths, s =>
    match Walk.step s.disk settings paths host.denied with
    | .finished => (s, none)
    | .passed rest => workOff host settings n rest s
    | .failed dir cause => (s, some (.work (.path dir cause)))
    | .found file rest =>
      let r := s.disk.instrumentFile settings file host
      match failure? r with
      | some e => (s.add [announce file] r, some e)
      | none => workOff host settings n rest (s.add [announce file] r)

/-- Work off all sources below a directory. -/
def directory (host : Host) (settings : Settings) (root : Path) (d : Disk) : State × Option Failure :=
  match Walk.entries d root host.denied with
  | .error c => (⟨d, [], []⟩, some (.work (.path root c)))
  | .ok paths => workOff host settings (Walk.bound d) paths ⟨d, [], []⟩

/-- Work off a single file. -/
def single (host : Host) (settings : Settings) (root : Path) (d : Disk) : State × Option Failure :=
  let r := d.instrumentFile settings root host
  (State.add ⟨d, [], []⟩ [] r, failure? r)

/-- The run of a state that it ended in. -/
def finish (report : RunReport) (s : State) (failure : Option Failure) : Run :=
  match failure with
  | none => { disk := s.disk, progress := s.progress, result := .ok { report with files := s.files } }
  | some (.work e) =>
    { disk := s.disk
      progress := s.progress
      errors := [utf8 ("failed to process " ++ report.scope.text ++ ": " ++ e.message)]
      result := .ok { report with files := s.files, failure := some e } }
  | some (.crash c) => { disk := s.disk, progress := s.progress, result := .error (.crash c) }

end Batch

namespace Disk

/-- The settings for a run below `root`: from the given file, or else from the one beside the sources. A
file that cannot be read counts as missing. -/
def settingsFor (d : Disk) (root : Path) (file : Option Path) (denied : Denials := {}) :
    Except SettingsError Settings :=
  let p := file.getD (root.join Settings.fileName)
  Settings.read (unlessRefused (denied.refuses .read p) (d.read p)).toOption

/-- The directory that gets the support package. -/
def supportRoot (root : Path) : Scope → Path
  | .directory => root
  | .file => root.parent

/-- A run with settings, on a path that was looked at. -/
def instrumentWith (d : Disk) (settings : Settings) (root : Path) (scope : Scope) (host : Host := {}) : Run :=
  match Support.ensure d (supportRoot root scope) settings.supportDir host.denied with
  | (d, .error e) => Batch.finish { root := root, scope := scope } ⟨d, [], []⟩ (some e)
  | (d, .ok written) =>
    let report : RunReport := { root := root, scope := scope, supportWritten := written }
    let (s, failure) :=
      match scope with
      | .directory => Batch.directory host settings root d
      | .file => Batch.single host settings root d
    Batch.finish report s failure

/-- Time the functions of a file, or of all sources below a directory. Without settings they are read from
`settingsFile`, or from beside the sources. A path with a NUL leads nowhere, and is not even looked at. -/
def instrument (d : Disk) (root : Path) (settings : Option Settings) (settingsFile : Option Path)
    (host : Host := {}) : Run :=
  match d.stat root with
  | .error c =>
    { disk := d, result := .error (if root.hasNul then .crash (.unwritten .nul) else .path root c) }
  | .ok e =>
    let scope := if e.isDir then Scope.directory else Scope.file
    match settings with
    | some s => d.instrumentWith s root scope host
    | none =>
      match d.settingsFor (supportRoot root scope) settingsFile host.denied with
      | .error e => { disk := d, result := .error (.crash (.settings e)) }
      | .ok s => d.instrumentWith s root scope host

end Disk

end Stopwatch
