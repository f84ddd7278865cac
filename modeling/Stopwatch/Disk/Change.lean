import Stopwatch.Disk.Lookup

/-!
# Changing a disk

The operations that change a disk: make a directory, create, extend and move a file, set its permission
bits, take an entry away. Each gives the changed disk, or the fault that it ran into.

* A path that ends in `..`, or has no name at all, names no entry of a directory: it can be neither made
  nor replaced.
* `ensureDirs` may fail after it has made some of the directories on the way, so it gives the disk in any
  case.
-/

namespace Stopwatch

/-- The name under which a path's entry stands in its directory. -/
def Path.ownName? (p : Path) : Option String := p.names.getLast?.filter (· != "..")

namespace Disk

/-- The disk with an entry at a location. -/
def put (d : Disk) (place : Location) (e : Entry) : Disk := { d with root := Entry.put e place d.root }

/-- The disk without the entry at a location. -/
def erase (d : Disk) (place : Location) : Disk := { d with root := d.root.erase place }

/-- The directory in which a path names an entry, present or not. -/
def holder (d : Disk) (p : Path) : Except Cause Location :=
  match d.locate true p.parent with
  | .error c => .error c
  | .ok place =>
    match d.root.at? place with
    | some (.dir _) => .ok place
    | some _ => .error .notDirectory
    | none => .error .notFound

/-- The location of a new entry; there must be none yet. -/
def freshSpot (d : Disk) (p : Path) : Except Fault Location :=
  match d.holder p with
  | .error c => .error ⟨c, p, none⟩
  | .ok place =>
    match p.ownName? with
    | none => .error ⟨.alreadyThere, p, none⟩
    | some n =>
      match d.root.at? (place ++ [n]) with
      | some _ => .error ⟨.alreadyThere, p, none⟩
      | none => .ok (place ++ [n])

/-! ## Directories -/

/-- Make one directory. -/
def makeDir (d : Disk) (p : Path) (denied : Denials := {}) : Except Fault Disk :=
  unlessRefused (denied.refuses .makeDir p) ((d.freshSpot p).map fun place => d.put place (.dir []))

/-- Make one directory unless it is there. -/
def ensureDir (d : Disk) (p : Path) (denied : Denials := {}) : Disk × Except Fault Unit :=
  match d.makeDir p denied with
  | .ok made => (made, .ok ())
  | .error f => if f.cause ≠ .notFound && d.isDir p then (d, .ok ()) else (d, .error f)

/-- `ensureDirs` for a path of at most `n` names. -/
def ensureDirsAux (denied : Denials) : Nat → Disk → Path → Disk × Except Fault Unit
  | 0, d, p => d.ensureDir p denied
  | n + 1, d, p =>
    match d.makeDir p denied with
    | .error ⟨.notFound, _, _⟩ =>
      match ensureDirsAux denied n d p.parent with
      | (made, .ok ()) => made.ensureDir p denied
      | failed => failed
    | _ => d.ensureDir p denied

/-- Make a directory, and those above it, unless they are there. -/
def ensureDirs (d : Disk) (p : Path) (denied : Denials := {}) : Disk × Except Fault Unit :=
  ensureDirsAux denied p.names.length d p

/-! ## Files -/

/-- Create an empty file where there is no entry yet. -/
def create (d : Disk) (p : Path) (mode : Nat) : Except Fault Disk :=
  (d.freshSpot p).map fun place => d.put place (.file mode [])

/-- Change the file that a path leads to. -/
def modify (d : Disk) (p : Path) (f : Nat → Text → Entry) : Except Fault Disk :=
  match d.locate true p with
  | .error c => .error ⟨c, p, none⟩
  | .ok place =>
    match d.root.at? place with
    | some (.file mode content) => .ok (d.put place (f mode content))
    | some _ => .error ⟨.isDirectory, p, none⟩
    | none => .error ⟨.notFound, p, none⟩

/-- Write at the end of the file that a path leads to. -/
def append (d : Disk) (p : Path) (chunk : Text) : Except Fault Disk :=
  d.modify p fun mode content => .file mode (content ++ chunk)

/-- Set the permission bits of the file that a path leads to. -/
def setMode (d : Disk) (p : Path) (mode : Nat) : Except Fault Disk :=
  d.modify p fun _ content => .file mode content

/-- Take away the entry that a path names, if there is one. A link is taken away itself. -/
def discard (d : Disk) (p : Path) : Disk :=
  match d.holder p, p.ownName? with
  | .ok place, some n => d.erase (place ++ [n])
  | _, _ => d

/-- Move a file onto a path. An old file or link there goes; a directory stays, and is a fault, worded
apart when the file is inside that directory. -/
def move (d : Disk) (source target : Path) : Except Fault Disk :=
  let fail (c : Cause) : Except Fault Disk := .error ⟨c, source, some target⟩
  match d.holder source, d.holder target with
  | .error c, _ => fail c
  | _, .error c => fail c
  | .ok sourcePlace, .ok targetPlace =>
    match source.ownName?, target.ownName? with
    | some m, some n =>
      match d.root.at? (sourcePlace ++ [m]) with
      | none => fail .notFound
      | some e =>
        match d.root.at? (targetPlace ++ [n]) with
        | some (.dir _) =>
          fail (if (targetPlace ++ [n]).isPrefixOf sourcePlace then .notEmpty else .isDirectory)
        | _ => .ok ((d.erase (sourcePlace ++ [m])).put (targetPlace ++ [n]) e)
    | _, _ => fail .busy

/-- Put an entry in the place that a path names, and make the directories on the way. -/
def place (d : Disk) (p : Path) (e : Entry) : Disk :=
  let d := (d.ensureDirs p.parent).1
  match d.holder p, p.ownName? with
  | .ok place, some n => d.put (place ++ [n]) e
  | _, _ => d

end Disk

end Stopwatch
