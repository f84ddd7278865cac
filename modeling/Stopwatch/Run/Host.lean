import Stopwatch.Disk.Fault
import Stopwatch.Grammar.Parse

/-!
# What a run stands on

Besides the disk a run depends on two things that are no part of it: the parser that reads its sources, and
the system that may refuse what it is asked for. Everything about a run is said for any of both.
-/

namespace Stopwatch

/-- The parser and the system of a run. -/
structure Host where
  parse : Parser := Cst.parse
  denied : Denials := {}

end Stopwatch
