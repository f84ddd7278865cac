import Stopwatch.Timing.Pair

/-!
# Imports

The packages the inserted statements use have to be imported under their own names. A missing import
goes right after the entry that shares the most leading path segments with it, the first one of those;
declarations with an entry for `"C"` are left alone; without any suitable declaration a new one is made
after the last import, or after the package clause.
-/

namespace Stopwatch

namespace Imports

/-- The number of slashes in the longest common prefix of two paths. -/
def matchLength : Text → Text → Nat
  | a :: s, b :: t => if a = b then (if a = 47 then 1 else 0) + matchLength s t else 0
  | _, _ => 0

/-- The specs among the entries of an import declaration. -/
def specs (entries : List Node) : List ImportSpec := entries.filterMap Node.spec?

/-- Where a new entry may go. -/
inductive Place where
  /-- Nowhere yet. -/
  | nowhere
  /-- First in the declaration at index `decl`, which has no spec. -/
  | first (decl : Nat)
  /-- After the entry `entry` of the declaration `decl`, which matches in `score` segments. -/
  | after (decl entry score : Nat)
  deriving DecidableEq, Repr

/-- Look at the entries of a declaration, from index `entry` on; only a better match moves the place. -/
def searchEntries (path : Text) (decl : Nat) : Nat → List Node → Place → Place
  | _, [], place => place
  | entry, .importSpec _ s :: rest, place =>
    let score := matchLength s.path path
    let better : Bool :=
      match place with
      | .after _ _ best => best < score
      | _ => true
    searchEntries path decl (entry + 1) rest (if better then .after decl entry score else place)
  | entry, _ :: rest, place => searchEntries path decl (entry + 1) rest place

/-- Look at one import declaration. -/
def searchDecl (path : Text) (decl : Nat) (entries : List Node) (place : Place) : Place :=
  if (specs entries).any (·.path == utf8 "C") then place
  else
    let place :=
      match (specs entries).isEmpty, place with
      | true, .after .. => place
      | true, _ => .first decl
      | false, _ => place
    searchEntries path decl 0 entries place

/-- Look at the declarations of a file, from index `decl` on. -/
def search (path : Text) : Nat → List Node → Place → Place
  | _, [], place => place
  | decl, .importDecl _ entries _ :: ds, place =>
    search path (decl + 1) ds (searchDecl path decl entries place)
  | decl, _ :: ds, place => search path (decl + 1) ds place

/-- The index of the last import declaration. -/
def lastImport? (ds : List Node) : Option Nat :=
  ds.zipIdx.reverse.findSome? fun
    | (.importDecl .., i) => some i
    | _ => none

/-- The index of the first package clause. -/
def packageIndex? (ds : List Node) : Option Nat :=
  ds.zipIdx.findSome? fun
    | (.packageClause .., i) => some i
    | _ => none

/-- Put an entry into an import declaration; with more than one entry it is grouped. -/
def insertEntry (entry : Nat) (new : Node) : Node → Node
  | .importDecl m entries grouped =>
    let entries := entries.insertIdx entry new
    .importDecl m entries (grouped || 1 < entries.length)
  | n => n

/-- The spec of a package imported under its own name. -/
def newSpec (path : Text) : ImportSpec := ⟨path, Text.Quoted.encode path, none⟩

/-- The declarations with an import of `path` added. -/
def add (path : Text) (ds : List Node) : List Node :=
  let entry := Node.importSpec {} (newSpec path)
  match search path 0 ds .nowhere with
  | .after decl i _ => ds.modify decl (insertEntry (i + 1) entry)
  | .first decl => ds.modify decl (insertEntry 0 entry)
  | .nowhere =>
    let index :=
      match lastImport? ds with
      | some i => i + 1
      | none => ((packageIndex? ds).map (· + 1)).getD 0
    ds.insertIdx index (.importDecl {} [entry] false)

end Imports

namespace SourceFile

/-- All imports of a file, in order. -/
def imports (f : SourceFile) : List ImportSpec :=
  f.decls.flatMap fun
    | .importDecl _ entries _ => Imports.specs entries
    | _ => []

/-- The paths of the imports. -/
def importPaths (f : SourceFile) : List Text := f.imports.map ImportSpec.path

/-- Whether a package is imported under its own name; aliased, blank and dot imports do not count. -/
def hasImport (f : SourceFile) (path : Text) : Bool :=
  f.imports.any fun s => s.path == path && s.bindsDefaultName

/-- Add an import, present or not. -/
def addImport (f : SourceFile) (path : Text) : SourceFile :=
  { f with decls := Imports.add path f.decls }

/-- Add those of the imports that are missing, in order; the paths added come first. -/
def ensureImports : SourceFile → List Text → List Text × SourceFile
  | f, [] => ([], f)
  | f, path :: paths =>
    if f.hasImport path then f.ensureImports paths
    else
      let (added, f) := (f.addImport path).ensureImports paths
      (path :: added, f)

end SourceFile

/-- The packages an instrumented file needs. -/
def requiredImports : List Text := [timePackage, fmtPackage]

end Stopwatch
