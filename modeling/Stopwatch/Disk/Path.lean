/-!
# Paths

A path is a list of names, read from the root or from the working directory. Empty names and `.` vanish
when a path is read; `..` stays, since what it means depends on the links of the disk.

* `Path.ofString` and `Path.toString` read and print a path; `child` and `join` continue one.
* `Path.flatten` takes `..` back name by name, without looking at a disk.
* `Path.hasNul` tells the paths that no system call takes.
-/

namespace Stopwatch

/-- A path as it is written. -/
structure Path where
  /-- Does it start at the root? Otherwise it starts at the working directory. -/
  absolute : Bool := false
  /-- The names between the slashes. -/
  names : List String := []
  deriving DecidableEq, Repr, Inhabited

namespace Path

/-- The pieces between slashes. -/
def pieces : List Char → List (List Char)
  | [] => [[]]
  | c :: cs =>
    if c = '/' then [] :: pieces cs
    else
      match pieces cs with
      | [] => [[c]]
      | p :: ps => (c :: p) :: ps

/-- Does a written path start at the root? -/
def startsAtRoot (s : String) : Bool := s.toList.head? == some '/'

/-- The names of a written path: empty pieces and `.` say nothing. -/
def namesOf (s : String) : List String :=
  ((pieces s.toList).map String.ofList).filter fun n => n != "" && n != "."

/-- A path from its written form. -/
def ofString (s : String) : Path := ⟨startsAtRoot s, namesOf s⟩

/-- The written form: `.` for the working directory itself. -/
def toString (p : Path) : String :=
  let names := "/".intercalate p.names
  if p.absolute then "/" ++ names
  else if p.names.isEmpty then "."
  else names

instance : ToString Path := ⟨toString⟩

/-- The last name, empty for the root and the working directory. -/
def name (p : Path) : String := p.names.getLast?.getD ""

/-- The path without its last name. -/
def parent (p : Path) : Path := { p with names := p.names.dropLast }

/-- The entry of a given name below a path. -/
def child (p : Path) (name : String) : Path := { p with names := p.names ++ [name] }

/-- A written path continued from `p`; one that starts at the root replaces it. -/
def join (p : Path) (s : String) : Path :=
  if startsAtRoot s then ofString s else { p with names := p.names ++ namesOf s }

/-- Has one of the names a NUL? -/
def hasNul (p : Path) : Bool := p.names.any fun n => n.toList.contains '\x00'

/-- Names with every `..` taken back against the name before it, whatever the disk holds. -/
def flatten (names : List String) : List String :=
  names.foldl (fun place n => if n = "." then place else if n = ".." then place.dropLast else place ++ [n]) []

end Path

end Stopwatch
