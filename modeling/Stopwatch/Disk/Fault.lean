import Stopwatch.Disk.Path
import Stopwatch.Text.Printable

/-!
# What goes wrong on a disk

A `Cause` is what an operation on a disk runs into, a `Fault` adds the path, or the two paths of a move,
on which it happened. The wording of both is `Cause.text` and `Fault.message`.

* The disk is not all that an operation depends on: the system may refuse it, for want of a permission or of
  room. `Denials` says which calls it refuses, and what it says then.
-/

namespace Stopwatch

/-- Why an operation on a disk fails. -/
inductive Cause where
  /-- A name on the way does not exist. -/
  | notFound
  /-- The entry cannot be taken away because it is in use. -/
  | busy
  /-- There is an entry of that name already. -/
  | alreadyThere
  /-- A name on the way is no directory. -/
  | notDirectory
  /-- The entry is a directory. -/
  | isDirectory
  /-- The directory holds something. -/
  | notEmpty
  /-- More links than are followed for one path. -/
  | tooManyLinks
  deriving DecidableEq, Repr

namespace Cause

/-- The number of a cause. -/
def code : Cause → Nat
  | notFound => 2
  | busy => 16
  | alreadyThere => 17
  | notDirectory => 20
  | isDirectory => 21
  | notEmpty => 39
  | tooManyLinks => 40

/-- The words for a cause. -/
def text : Cause → String
  | notFound => "No such file or directory"
  | busy => "Device or resource busy"
  | alreadyThere => "File exists"
  | notDirectory => "Not a directory"
  | isDirectory => "Is a directory"
  | notEmpty => "Directory not empty"
  | tooManyLinks => "Too many levels of symbolic links"

end Cause

/-- A cause with the path it arose on, and the second path of a move. -/
structure Fault where
  cause : Cause
  path : Path
  target : Option Path := none
  deriving DecidableEq, Repr

/-- The wording of a fault. -/
def Fault.message (f : Fault) : String :=
  let second :=
    match f.target with
    | some p => " -> " ++ Text.quoted p.toString
    | none => ""
  "[Errno " ++ toString f.cause.code ++ "] " ++ f.cause.text ++ ": " ++
    Text.quoted f.path.toString ++ second

/-! ## Refusals -/

/-- The outcome of a step that may be refused. -/
def unlessRefused {ε α : Type} (refusal : Option ε) (outcome : Except ε α) : Except ε α :=
  match refusal with
  | some e => .error e
  | none => outcome

@[simp] theorem unlessRefused_none {ε α : Type} (outcome : Except ε α) :
    unlessRefused none outcome = outcome := rfl

@[simp] theorem unlessRefused_some {ε α : Type} (e : ε) (outcome : Except ε α) :
    unlessRefused (some e) outcome = .error e := rfl

theorem unlessRefused_eq_ok {ε α : Type} {refusal : Option ε} {outcome : Except ε α} {a : α} :
    unlessRefused refusal outcome = .ok a ↔ refusal = none ∧ outcome = .ok a := by
  cases refusal <;> simp

/-- What the system is asked for about a path, and may refuse. Looking whether there is an entry, and of
which kind, is never refused. -/
inductive SystemCall where
  /-- The names in a directory. -/
  | list
  /-- The content of a file. -/
  | read
  /-- A new directory. -/
  | makeDir
  /-- The permission bits of an entry that is to be replaced. -/
  | inspect
  /-- A temporary file beside it. -/
  | create
  /-- The writing of that. -/
  | write
  /-- The permission bits of that. -/
  | setMode
  /-- The move of that onto the entry. -/
  | move
  deriving DecidableEq, Repr

/-- The calls that the system refuses whatever the disk holds. Which of the causes it gives is its own
choice. -/
structure Denials where
  refuses : SystemCall → Path → Option Fault := fun _ _ => none

end Stopwatch
