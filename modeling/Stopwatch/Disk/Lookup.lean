import Stopwatch.Disk.Entry
import Stopwatch.Disk.Fault

/-!
# Finding entries

A `Disk` is a tree with a working directory. `Disk.locate` follows the names of a path from there: a name
that is a link is replaced by the names of its target, at most `linkLimit` times for one path. What is
asked of an entry (`stat`, `isFile`, `read`, `list`, …) is asked at the location found.

* Following is two nested recursions: `Entry.follow` uses up the names as far as the next link, and
  `Disk.locate` goes from link to link.
* Names and paths may have any length, and looking at an entry is never refused. A name with a NUL is like
  any other here; that no system call takes it is said where a path comes in (`Path.hasNul`).
-/

namespace Stopwatch

/-- A disk, and where on it a run stands. -/
structure Disk where
  /-- The tree. -/
  root : Entry := .dir []
  /-- The working directory. -/
  cwd : Location := []
  /-- The characters that mark the temporary files of this run. -/
  stamp : String := ""
  deriving Inhabited

/-- Where following names comes to a stop. -/
inductive Stop where
  /-- All names are used up. -/
  | arrived (place : Location)
  /-- The next name is a link in the directory `place`, with more names to go. -/
  | link (place : Location) (name target : String) (rest : List String)
  | failed (cause : Cause)

/-- Follow names from a location as far as the next link. -/
def Entry.follow (root : Entry) : Location → List String → Stop
  | place, [] => .arrived place
  | place, n :: rest =>
    match root.at? place with
    | some (.dir es) =>
      if n = "." then follow root place rest
      else if n = ".." then follow root place.dropLast rest
      else
        match Listing.find? es n with
        | some (.link target) => .link place n target rest
        | some _ => follow root (place ++ [n]) rest
        | none => .failed .notFound
    | some _ => .failed .notDirectory
    | none => .failed .notFound

namespace Path

/-- The names that a link stands for. A slash at the end asks for a directory, as a `.` there would. -/
def linkNames (target : String) : List String :=
  namesOf target ++ if target.toList.getLast? == some '/' then ["."] else []

/-- Where the names of a link in the directory `place` start. -/
def linkStart (place : Location) (target : String) : Location :=
  if startsAtRoot target then [] else place

end Path

namespace Disk

/-- So many links are followed for one path. -/
def linkLimit : Nat := 40

/-- Follow names from a location through at most `links` links. The last name is followed, when it is a
link itself, only if `last` says so. -/
def locateFrom (d : Disk) (last : Bool) : Nat → Location → List String → Except Cause Location
  | links, place, names =>
    match d.root.follow place names with
    | .arrived place => .ok place
    | .failed cause => .error cause
    | .link place n target rest =>
      if rest.isEmpty && !last then .ok (place ++ [n])
      else
        match links with
        | 0 => .error .tooManyLinks
        | links + 1 =>
          locateFrom d last links (Path.linkStart place target) (Path.linkNames target ++ rest)

/-- Where the names of a path start. -/
def startOf (d : Disk) (p : Path) : Location := if p.absolute then [] else d.cwd

/-- The location that a path leads to. -/
def locate (d : Disk) (last : Bool) (p : Path) : Except Cause Location :=
  d.locateFrom last linkLimit (d.startOf p) p.names

/-- The entry at a location that a path led to. -/
def entryAt (d : Disk) (place : Location) : Except Cause Entry :=
  match d.root.at? place with
  | some e => .ok e
  | none => .error .notFound

/-- The entry that a path leads to, links followed. The limits of a system on the length of a name and of a
path are left out. -/
def stat (d : Disk) (p : Path) : Except Cause Entry := (d.locate true p).bind d.entryAt

/-- The entry that a path names, which may be a link. -/
def lstat (d : Disk) (p : Path) : Except Cause Entry := (d.locate false p).bind d.entryAt

/-- Does a path lead to a directory? -/
def isDir (d : Disk) (p : Path) : Bool :=
  match d.stat p with
  | .ok e => e.isDir
  | .error _ => false

/-- Does a path lead to a file? A path with a NUL, or one that is too long for the system, leads nowhere; that
is left out as in `stat`. -/
def isFile (d : Disk) (p : Path) : Bool :=
  match d.stat p with
  | .ok e => e.isFile
  | .error _ => false

/-- Does a path name a link? -/
def isLink (d : Disk) (p : Path) : Bool :=
  match d.lstat p with
  | .ok e => e.isLink
  | .error _ => false

/-- The content of the file that a path leads to. -/
def read (d : Disk) (p : Path) : Except Fault Text :=
  match d.stat p with
  | .error c => .error ⟨c, p, none⟩
  | .ok (.file _ content) => .ok content
  | .ok _ => .error ⟨.isDirectory, p, none⟩

/-- The names in the directory that a path leads to, in code order. -/
def list (d : Disk) (p : Path) : Except Cause (List String) :=
  match d.stat p with
  | .error c => .error c
  | .ok (.dir es) => .ok (Listing.sortedNames es)
  | .ok _ => .error .notDirectory

/-! ## Resolving -/

/-- A path from the root with every `..` taken back against the name before it. -/
def lexical (d : Disk) (p : Path) : Path := ⟨true, Path.flatten (d.startOf p ++ p.names)⟩

/-- Follow names, whether they exist or not, and replace each link by what `expand` makes of it. A link
inside its own target is left as it is, with the names after it, and the answer says so. -/
def resolveNames (d : Disk) (entered : List Location)
    (expand : Location → Location → List String → List String × Bool) :
    Location → List String → List String × Bool
  | place, [] => (place, true)
  | place, n :: rest =>
    if n = "." then resolveNames d entered expand place rest
    else if n = ".." then resolveNames d entered expand place.dropLast rest
    else
      match d.root.at? (place ++ [n]) with
      | some (.link target) =>
        if entered.contains (place ++ [n]) then (place ++ n :: rest, false)
        else
          match expand (place ++ [n]) (Path.linkStart place target) (Path.namesOf target) with
          | (found, true) => resolveNames d entered expand found rest
          | (found, false) => (found ++ rest, false)
      | _ => resolveNames d entered expand (place ++ [n]) rest

/-- `resolveNames` with links inside links down to a depth. -/
def resolveFrom (d : Disk) : Nat → List Location → Location → List String → List String × Bool
  | 0, _, place, names => (place ++ names, false)
  | depth + 1, entered, place, names =>
    resolveNames d entered (fun link => resolveFrom d depth (link :: entered)) place names

/-- The path from the root that a path stands for once its links are replaced; it need not exist. No chain
of links is longer than the disk has entries. A path that runs in circles is an error, with the path
where it does. -/
def resolve (d : Disk) (p : Path) : Except Path Path :=
  let names := (d.resolveFrom (d.root.size + 1) [] (d.startOf p) p.names).1
  let target : Path := ⟨true, Path.flatten names⟩
  match d.stat target with
  | .error .tooManyLinks => .error target
  | _ => .ok target

end Disk

end Stopwatch
