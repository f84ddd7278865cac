import Stopwatch.Text

/-!
# What a disk holds

A disk is a tree: files with their permission bits and bytes, symbolic links with the path they name, and
directories. A `Location` is the list of names that leads from the root to an entry without passing
through a link.

* `Entry.at?` reads the tree at a location, `Entry.put` and `Entry.erase` change it there.
-/

namespace Stopwatch

/-- An entry of a disk. -/
inductive Entry where
  | file (mode : Nat) (content : Text)
  | link (target : String)
  | dir (entries : List (String × Entry))
  deriving Inhabited

/-- The names from the root to an entry, none of them a link. -/
abbrev Location := List String

/-- The entries of a directory, under their names. -/
abbrev Listing := List (String × Entry)

namespace Listing

/-- The entry of a name. -/
def find? (es : Listing) (n : String) : Option Entry := es.lookup n

/-- The listing with an entry under a name: in the place of the old one, or else last. -/
def set : Listing → String → Entry → Listing
  | [], n, e => [(n, e)]
  | (m, old) :: es, n, e => if m = n then (n, e) :: es else (m, old) :: set es n e

/-- The listing without a name. -/
def erase (es : Listing) (n : String) : Listing := es.filter fun e => e.1 != n

/-- The names of a listing, in code order. -/
def sortedNames (es : Listing) : List String := (es.map Prod.fst).mergeSort fun a b => decide (a ≤ b)

end Listing

namespace Entry

/-- The permission bits of an entry. Directories are made readable for all and writable for their owner. -/
def mode : Entry → Nat
  | file m _ => m
  | link _ => 0o777
  | dir _ => 0o755

/-- Is the entry a directory? -/
def isDir : Entry → Bool
  | dir _ => true
  | _ => false

/-- Is the entry a file? -/
def isFile : Entry → Bool
  | file .. => true
  | _ => false

/-- Is the entry a link? -/
def isLink : Entry → Bool
  | link _ => true
  | _ => false

/-- The entry at a location. -/
def at? : Entry → Location → Option Entry
  | e, [] => some e
  | dir es, n :: ns => (Listing.find? es n).bind fun e => e.at? ns
  | _, _ :: _ => none

/-- The tree with an entry at a location whose directory exists. -/
def put (new : Entry) : Location → Entry → Entry
  | [], _ => new
  | [n], dir es => dir (Listing.set es n new)
  | n :: ns, dir es =>
    match Listing.find? es n with
    | some e => dir (Listing.set es n (put new ns e))
    | none => dir es
  | _ :: _, e => e

/-- The tree without the entry at a location. -/
def erase : Location → Entry → Entry
  | [n], dir es => dir (Listing.erase es n)
  | n :: ns, dir es =>
    match Listing.find? es n with
    | some e => dir (Listing.set es n (erase ns e))
    | none => dir es
  | _, e => e

mutual

/-- The number of entries of a tree, its root included. -/
def size : Entry → Nat
  | dir es => 1 + sizes es
  | _ => 1

/-- The number of entries of the trees of a listing. -/
def sizes : Listing → Nat
  | [] => 0
  | (_, e) :: es => size e + sizes es

end

mutual

/-- The entries inside an entry, each with the names that lead to it. -/
def inside : Entry → List (Location × Entry)
  | dir es => insides es
  | _ => []

/-- The entries of a listing and those inside them. -/
def insides : Listing → List (Location × Entry)
  | [] => []
  | (n, e) :: es => ([n], e) :: (inside e).map (fun p => (n :: p.1, p.2)) ++ insides es

end

end Entry

end Stopwatch
