import Stopwatch.Syntax.Walk

/-!
# Which functions are timed

A function is a candidate when it has a body and its name does not start with the prefix to be skipped.
The empty prefix skips nothing.
-/

namespace Stopwatch

/-- Whether functions with this head are passed over; a plain comparison of prefixes. -/
def FuncHead.isSkipped (skip : Text) (h : FuncHead) : Bool := !skip.isEmpty && skip.isPrefixOf h.name

/-- Whether a function is timed. -/
def Function.isCandidate (skip : Text) (f : Function) : Bool :=
  !f.head.isSkipped skip && f.body.isSome

/-- The functions of a tree to be timed, in the order of the walk. -/
def Node.candidates (skip : Text) (n : Node) : List Function :=
  n.functions.filter (Function.isCandidate skip)

/-- The other functions of a tree. -/
def Node.skipped (skip : Text) (n : Node) : List Function :=
  n.functions.filter fun f => !f.isCandidate skip

/-- The functions declared at the top level of a file, in order. -/
def SourceFile.topFunctions (f : SourceFile) : List Function :=
  f.decls.filterMap fun
    | .funcDecl m h b => some ⟨m, h, b⟩
    | _ => none

end Stopwatch
