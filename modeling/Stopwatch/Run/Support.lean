import Stopwatch.Disk.Replace
import Stopwatch.Run.Failure

/-!
# The support package

Beside instrumented sources stands a small package for the program that is timed. Its files are written
below the root of a run unless they are there already with the very same bytes, so that a file a user has
changed is put right again and an unchanged one is not touched.
-/

namespace Stopwatch.Support

/-- The lines of the hook that instrumented functions will report to. -/
def traceLines : List String :=
  ["package _runtime",
   "",
   "// GoFunc describes one instrumented function.",
   "type GoFunc struct \x7b",
   "\tId       int",
   "\tPkg      string",
   "\tReceiver Var",
   "\tName     string",
   "\tParams   []*Var",
   "\tResults  []*Var",
   "\x7d",
   "",
   "// Var describes a receiver, parameter or result.",
   "type Var struct \x7b",
   "\tName     string",
   "\tType     string",
   "\tBaseType string",
   "\x7d",
   "",
   "// TraceFunc is the hook instrumented functions will report to.",
   "func TraceFunc(goFuncId int) \x7b",
   "",
   "\x7d"]

/-- The files of the package, under their names. -/
def files : List (String × Text) :=
  [("func_trace.go", traceLines.flatMap fun l => utf8 l ++ [Text.newline])]

/-- Does a path lead to a file with just this content? -/
def isCurrent (d : Disk) (p : Path) (content : Text) : Bool :=
  match d.stat p with
  | .ok (.file _ old) => old == content
  | _ => false

/-- Does a path lead to a file with just this content? A file may be refused to be read. -/
def reads (d : Disk) (p : Path) (content : Text) (denied : Denials := {}) : Except Fault Bool :=
  if d.isFile p then unlessRefused (denied.refuses .read p) (.ok (isCurrent d p content)) else .ok false

/-- Write one file of the package, in a directory that is made if it is missing. -/
def install (d : Disk) (dir target : Path) (content : Text) (denied : Denials := {}) :
    Disk × Except Failure Unit :=
  if dir.hasNul then (d, .error (.crash (.unwritten .nul)))
  else
    match d.ensureDirs dir denied with
    | (d, .error f) => (d, .error (.work (.write target f)))
    | (d, .ok ()) =>
      match d.write target content denied with
      | (d, .error e) => (d, .error (e.toFailure target))
      | (d, .ok ()) => (d, .ok ())

/-- Write the files that are missing or differ, and give their paths; `written` are those before. -/
def ensureFiles (dir : Path) (denied : Denials) :
    List (String × Text) → Disk → List Path → Disk × Except Failure (List Path)
  | [], d, written => (d, .ok written)
  | (name, content) :: files, d, written =>
    match reads d (dir.child name) content denied with
    | .error f => (d, .error (.work (.write (dir.child name) f)))
    | .ok true => ensureFiles dir denied files d written
    | .ok false =>
      match install d dir (dir.child name) content denied with
      | (d, .error e) => (d, .error e)
      | (d, .ok ()) => ensureFiles dir denied files d (written ++ [dir.child name])

/-- Bring the package below a root up to date, and give the paths that were written. -/
def ensure (d : Disk) (root : Path) (supportDir : String) (denied : Denials := {}) :
    Disk × Except Failure (List Path) :=
  ensureFiles (root.join supportDir) denied files d []

end Stopwatch.Support
