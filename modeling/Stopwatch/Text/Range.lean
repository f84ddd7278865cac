/-!
# Ranges of code points

A property of code points is given as a list of inclusive ranges, in increasing order.
-/

namespace Stopwatch.Text

/-- Whether `c` lies in one of the ranges; they stand in increasing order, so the search stops at the
first one that ends at or after `c`. -/
def inRanges : List (Nat × Nat) → Nat → Bool
  | [], _ => false
  | (lo, hi) :: rs, c => if c ≤ hi then lo ≤ c else inRanges rs c

/-- The lower end of the range that holds `c`. -/
def rangeStart? : List (Nat × Nat) → Nat → Option Nat
  | [], _ => none
  | (lo, hi) :: rs, c => if c ≤ hi then (if lo ≤ c then some lo else none) else rangeStart? rs c

end Stopwatch.Text
