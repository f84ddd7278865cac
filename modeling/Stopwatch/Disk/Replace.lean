import Stopwatch.Disk.Change

/-!
# Replacing a file as a whole

A file is replaced by writing a temporary file beside it and moving that onto it. So the old content stays
until the new one is complete, and when anything fails the temporary file is taken away again.

* `Disk.replaceRefusing` replaces the entry that a path names, a link included, where the system may refuse
  each of the steps; `Disk.replace` is the case where it refuses none.
* `Disk.writeRefusing` and `Disk.write` resolve the path first, so that links stay and what they lead to is
  replaced.
-/

namespace Stopwatch

/-- Why a file is not replaced. -/
inductive WriteError where
  | fault (fault : Fault)
  /-- The writing itself was given up. -/
  | stopped
  /-- The links of the path run in circles. -/
  | circular (path : Path)
  /-- The path has a NUL, so that the system is not even asked. -/
  | nul
  deriving DecidableEq, Repr

/-- The wording of a failed replacement. -/
def WriteError.message : WriteError → String
  | fault f => f.message
  | stopped => "stopped"
  | circular p => "Symlink loop from " ++ Text.quoted p.toString
  | nul => "embedded null byte"

/-- Which steps of a replacement the system refuses, and what it says then. -/
structure Refusals where
  /-- Looking at the entry to be replaced. That there is none is no refusal. -/
  inspect : Option Fault := none
  create : Option Fault := none
  /-- The writing, once the chunks are written. -/
  write : Option WriteError := none
  setMode : Option Fault := none
  move : Option Fault := none

/-- The steps that are refused when the entry at a path is replaced. -/
def Denials.refusals (denied : Denials) (p : Path) : Refusals where
  inspect := denied.refuses .inspect p
  create := denied.refuses .create p
  write := (denied.refuses .write p).map .fault
  setMode := denied.refuses .setMode p
  move := denied.refuses .move p

namespace Disk

/-- The permission bits of a new file. -/
def newFileMode : Nat := 0o644

/-- The permission bits of a temporary file while it is written. -/
def temporaryMode : Nat := 0o600

/-- The temporary file beside the entry that a path names. -/
def temporary (d : Disk) (p : Path) : Path :=
  (d.lexical p.parent).child ("." ++ p.name ++ "." ++ d.stamp ++ ".tmp")

/-- The permission bits that a replaced file is to have: the old ones, if there is anything. -/
def modeFor (d : Disk) (p : Path) : Except Fault Nat :=
  match d.stat p with
  | .ok e => .ok e.mode
  | .error .notFound => .ok newFileMode
  | .error c => .error ⟨c, p, none⟩

/-- Write chunks one after the other at the end of a file. -/
def appendAll (d : Disk) (p : Path) (chunks : List Text) : Except Fault Disk :=
  chunks.foldlM (fun d chunk => d.append p chunk) d

/-- Give the temporary file its permission bits and move it into place. -/
def installRefusing (r : Refusals) (d : Disk) (temporary p : Path) (mode : Nat) :
    Disk × Except WriteError Unit :=
  match unlessRefused r.setMode (d.setMode temporary mode) with
  | .error f => (d.discard temporary, .error (.fault f))
  | .ok d =>
    match unlessRefused r.move (d.move temporary p) with
    | .error f => (d.discard temporary, .error (.fault f))
    | .ok d => (d, .ok ())

/-- Replace the entry that a path names by a file with the given chunks. -/
def replaceRefusing (r : Refusals) (d : Disk) (p : Path) (chunks : List Text) :
    Disk × Except WriteError Unit :=
  match unlessRefused r.inspect (d.modeFor p) with
  | .error f => (d, .error (.fault f))
  | .ok mode =>
    match unlessRefused r.create (d.create (d.temporary p) temporaryMode) with
    | .error f => (d, .error (.fault f))
    | .ok created =>
      match created.appendAll (d.temporary p) chunks with
      | .error f => (created.discard (d.temporary p), .error (.fault f))
      | .ok written =>
        match r.write with
        | some e => (written.discard (d.temporary p), .error e)
        | none => written.installRefusing r (d.temporary p) p mode

/-- Replace the file that a path leads to. -/
def writeRefusing (r : Refusals) (d : Disk) (p : Path) (content : Text) : Disk × Except WriteError Unit :=
  match d.resolve p with
  | .error circle => (d, .error (.circular circle))
  | .ok target => d.replaceRefusing r target [content]

/-- Replace the entry that a path names, where the system refuses nothing. Unless the writing `completes`, it
is given up after the last chunk. -/
def replace (d : Disk) (p : Path) (chunks : List Text) (completes : Bool) : Disk × Except WriteError Unit :=
  d.replaceRefusing { write := if completes then none else some .stopped } p chunks

/-- Replace the file that a path leads to, as far as the system lets it. -/
def write (d : Disk) (p : Path) (content : Text) (denied : Denials := {}) : Disk × Except WriteError Unit :=
  d.writeRefusing (denied.refusals p) p content

end Disk

end Stopwatch
