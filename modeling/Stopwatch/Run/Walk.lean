import Stopwatch.Disk.Lookup
import Stopwatch.Settings

/-!
# The sources below a directory

A walk goes through a directory in the order of names and into each directory on its way. It keeps the
paths still to be looked at, and one step looks at the first of them, on the disk as it is then. So the
files may be changed between the steps of a walk.

* Links to files count as files; links to directories are not entered.
* `sourceFiles` runs a walk to its end on one disk.
-/

namespace Stopwatch

/-- Is a path, by its name, a source? -/
def Settings.isSource (s : Settings) (p : Path) : Bool :=
  s.sourceExtension.toList.isSuffixOf p.name.toList && p.name != s.reservedFilename

namespace Walk

/-- What one step of a walk gives. -/
inductive Step where
  /-- Nothing is left to be looked at. -/
  | finished
  /-- No source here; these paths are still to be looked at. -/
  | passed (rest : List Path)
  /-- A source, and the paths still to be looked at. -/
  | found (file : Path) (rest : List Path)
  /-- A directory that cannot be listed. -/
  | failed (dir : Path) (cause : Cause)

/-- The paths of the entries of a directory. -/
def entries (d : Disk) (dir : Path) (denied : Denials := {}) : Except Cause (List Path) :=
  (unlessRefused ((denied.refuses .list dir).map Fault.cause) (d.list dir)).map fun names => names.map dir.child

/-- Look at the first of the paths. -/
def step (d : Disk) (s : Settings) (paths : List Path) (denied : Denials := {}) : Step :=
  match paths with
  | [] => .finished
  | p :: rest =>
    if d.isLink p then
      if d.isFile p && s.isSource p then .found p rest else .passed rest
    else if d.isDir p then
      match entries d p denied with
      | .error c => .failed p c
      | .ok paths => .passed (paths ++ rest)
    else if s.isSource p then .found p rest
    else .passed rest

/-- The sources that at most `n` steps find. -/
def collect (d : Disk) (s : Settings) (n : Nat) (paths : List Path) (denied : Denials := {}) :
    Except (Path × Cause) (List Path) :=
  match n with
  | 0 => .ok []
  | n + 1 =>
    match step d s paths denied with
    | .finished => .ok []
    | .passed rest => collect d s n rest denied
    | .found file rest => (collect d s n rest denied).map (file :: ·)
    | .failed dir cause => .error (dir, cause)

/-- More steps than a walk on this disk can take: each looks at another entry. -/
def bound (d : Disk) : Nat := d.root.size + 1

/-- The sources below a directory, in the order of the walk. -/
def sourceFiles (d : Disk) (s : Settings) (root : Path) (denied : Denials := {}) :
    Except (Path × Cause) (List Path) :=
  match entries d root denied with
  | .error c => .error (root, c)
  | .ok paths => collect d s (bound d) paths denied

end Walk

end Stopwatch
