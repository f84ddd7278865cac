import Stopwatch.Command.Execute

/-!
# The program

The outer layer: it copies the part of the file system that a command can reach into a `Disk`, carries the
command out on it, writes back what has changed and prints what the command says. Nothing is decided here.
-/

namespace Stopwatch.Program

/-- How the program is called. -/
def usage : String :=
  "usage: stopwatch instrument PATH [--config FILE] [--json] [--quiet]\n" ++
  "       stopwatch ensure-runtime DIRECTORY [--config FILE]\n"

/-- A place in the file system. -/
def placeOf (p : Path) : IO.FS.DirEntry := ⟨p.parent.toString, if p.name = "" then "." else p.name⟩

/-- Copy the file at a place. -/
def loadFile (here : IO.FS.DirEntry) (p : Path) (d : Disk) : IO Disk := do
  let bytes ← IO.FS.readBinFile here.path
  return d.place p (.file Disk.newFileMode bytes.data.toList)

/-- Copy the link at a place, and the file it leads to. -/
def loadLink (here : IO.FS.DirEntry) (p : Path) (d : Disk) : IO Disk := do
  let target ← try pure (← IO.FS.realPath here.path).toString catch _ => pure p.name
  let d := d.place p (.link target)
  let there := placeOf (Path.ofString target)
  try
    match (← there.path.metadata).type with
    | .file => loadFile there (Path.ofString target) d
    | _ => return d
  catch _ => return d

/-- Copy what stands at a place, but not what a directory holds. -/
def loadEntry (p : Path) (d : Disk) : IO Disk := do
  let here := placeOf p
  try
    match (← here.path.symlinkMetadata).type with
    | .dir => return (d.ensureDirs p).1
    | .file => loadFile here p d
    | .symlink => loadLink here p d
    | .other => return d
  catch _ => return d

/-- Copy the directories and links on the way to a path, and what stands there. -/
def loadWay (p : Path) (d : Disk) : IO Disk :=
  (List.range (p.names.length + 1)).foldlM (fun d n => loadEntry { p with names := p.names.take n } d) d

/-- Copy a whole tree. -/
partial def loadTree (p : Path) (d : Disk) : IO Disk := do
  let d ← loadEntry p d
  if d.isLink p || !d.isDir p then return d
  (← (placeOf p).path.readDir).foldlM (fun d e => loadTree (p.child e.fileName) d) d

/-- Copy the tree below a path that may be a link. -/
def loadBelow (p : Path) (d : Disk) : IO Disk := do
  let d ← loadWay p d
  try
    (← (placeOf p).path.readDir).foldlM (fun d e => loadTree (p.child e.fileName) d) d
  catch _ => return d

/-- Copy what a command can reach. -/
def load (root : Path) (settings : Option Path) : IO Disk := do
  let cwd := Path.ofString (← IO.currentDir).toString
  let empty : Disk := { cwd := cwd.names, stamp := "00000000" }
  let d ← loadBelow root (empty.ensureDirs cwd).1
  let scope := if d.isDir root then Scope.directory else Scope.file
  let base := Disk.supportRoot root scope
  let d ← loadWay (settings.getD (base.join Settings.fileName)) d
  let chosen := (d.settingsFor base settings).toOption.getD {}
  loadBelow (base.join chosen.supportDir) d

/-- Write back what a command has changed. -/
def store (before after : Disk) : IO Unit :=
  after.root.inside.forM fun (place, e) => do
    let here := placeOf ⟨true, place⟩
    match e, before.root.at? place with
    | .dir _, none => IO.FS.createDirAll here.path
    | .file _ new, some (.file _ old) =>
      if new != old then IO.FS.writeBinFile here.path ⟨new.toArray⟩
    | .file _ new, _ => IO.FS.writeBinFile here.path ⟨new.toArray⟩
    | _, _ => pure ()

/-- The wording of a failure without a report. -/
def crashText : Crash → String
  | .settings e => e.message?.getD "the settings are no text"
  | .print e => e.message
  | .unwritten e => e.message

/-- The path and the settings file of a command. -/
def reach : Command → Path × Option Path
  | .instrument path settings _ _ => (path, settings)
  | .support directory settings => (directory, settings)

/-- Carry out a command on the file system. -/
def run (c : Command) : IO UInt32 := do
  let before ← load (reach c).1 (reach c).2
  let (after, result) := c.execute before
  store before after
  match result with
  | .error crash =>
    (← IO.getStderr).putStrLn (crashText crash)
    return 1
  | .ok ending =>
    (← IO.getStdout).write ⟨ending.output.toArray⟩
    (← IO.getStderr).write ⟨ending.errors.toArray⟩
    return ending.exit.toUInt32

end Stopwatch.Program

/-- The program: its arguments are a command. -/
def main (args : List String) : IO UInt32 := do
  match Stopwatch.Command.parse args with
  | .error .help =>
    (← IO.getStdout).putStr Stopwatch.Program.usage
    return 0
  | .error .wrong =>
    (← IO.getStderr).putStr Stopwatch.Program.usage
    return 2
  | .ok c => Stopwatch.Program.run c
