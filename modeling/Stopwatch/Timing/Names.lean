import Stopwatch.Text

/-!
# Fresh names

Start variables get names that are spelled nowhere in the file and that no other start variable has.
A base name is tried first as it is, then with the numbers 2, 3, … behind it; the first name not taken
wins, and is taken from then on.

* `Names.fresh`: among one more candidate than there are taken names one is free, so the search ends.
-/

namespace Stopwatch

/-- The names that may not be used any more. -/
structure Names where
  taken : List Text := []
  deriving DecidableEq, Repr

namespace Names

/-- The base name used when nothing of the proposed one is left. -/
def fallback : Text := utf8 "__start"

/-- A proposed name as an ASCII identifier: other characters are dropped, a leading digit gets an
underscore in front, and an empty rest becomes `fallback`. -/
def normalize (proposed : Text) : Text :=
  match proposed.filter Text.isNameByte with
  | [] => fallback
  | b :: t => if Text.isDigit b then 95 :: b :: t else b :: t

/-- The `k`-th name tried for a base: `base`, `base2`, `base3`, … -/
def candidate (base : Text) : Nat → Text
  | 0 => base
  | k + 1 => base ++ Text.decimal (k + 2)

/-- The first candidate for `base` that is not in `taken`. -/
def fresh (taken : List Text) (base : Text) : Text :=
  (((List.range (taken.length + 1)).map (candidate base)).find? fun c => !taken.contains c).getD base

/-- Take a name like the proposed one. -/
def allocate (names : Names) (proposed : Text) : Text × Names :=
  let name := fresh names.taken (normalize proposed)
  (name, ⟨name :: names.taken⟩)

/-- Take names for several proposals in turn. -/
def allocateAll (names : Names) : List Text → List Text × Names
  | [] => ([], names)
  | p :: ps =>
    let (name, names) := names.allocate p
    let (rest, names) := names.allocateAll ps
    (name :: rest, names)

end Names

end Stopwatch
