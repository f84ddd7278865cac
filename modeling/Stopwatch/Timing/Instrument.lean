import Stopwatch.Settings
import Stopwatch.Timing.Candidates
import Stopwatch.Timing.Names
import Stopwatch.Timing.Pair

/-!
# Inserting the pairs

`SourceFile.instrument` puts a pair at the top of the body of every candidate, at any depth. Names are
taken in the order of the walk, so an outer function gets its name before the functions inside it.
-/

namespace Stopwatch

/-- How functions are timed. -/
structure Plan where
  skipPrefix : Text := utf8 "Test"
  startIdentifier : Text := utf8 "__start"
  reportTemplate : Text := utf8 "function \x7bname\x7d took %v"
  deriving DecidableEq, Repr

/-- The part of the settings that says how functions are timed. -/
def Settings.plan (s : Settings) : Plan where
  skipPrefix := utf8 s.skipPrefix
  startIdentifier := utf8 s.startIdentifier
  reportTemplate := utf8 s.reportTemplate

/-- A function that was timed: its name, its start variable and its line, counted from one. -/
structure TimedFunction where
  qualifiedName : Text
  identifier : Text
  line : Option Nat
  deriving DecidableEq, Repr

/-- The progress line for a function. -/
def TimedFunction.progress (f : TimedFunction) : Text :=
  utf8 "added timing to function " ++ f.qualifiedName

/-- The line a node starts on, counted from one. -/
def Mark.line? (m : Mark) : Option Nat := m.span.map (·.startRow + 1)

/-- The names still free and the functions timed so far. -/
structure Progress where
  names : Names := {}
  timed : List TimedFunction := []
  deriving DecidableEq, Repr

/-- Time one function: the pair for it, and the progress with its name taken. -/
def Plan.time (plan : Plan) (m : Mark) (h : FuncHead) (p : Progress) : Pair × Progress :=
  let (identifier, names) := p.names.allocate plan.startIdentifier
  (.build plan.reportTemplate h.qualifiedName identifier,
    ⟨names, p.timed ++ [⟨h.qualifiedName, identifier, m.line?⟩]⟩)

mutual

/-- Insert a pair into every candidate of a tree. -/
def Node.instrument (plan : Plan) : Node → Progress → Node × Progress
  | .sourceFile m ds ids, p =>
    let (ds, p) := instrumentAll plan ds p
    (.sourceFile m ds ids, p)
  | .importDecl m ss g, p =>
    let (ss, p) := instrumentAll plan ss p
    (.importDecl m ss g, p)
  | .funcDecl m h (some ⟨bm, ss⟩), p =>
    if h.isSkipped plan.skipPrefix then
      let (ss, p) := instrumentAll plan ss p
      (.funcDecl m h (some ⟨bm, ss⟩), p)
    else
      let (pair, p) := plan.time m h p
      let (ss, p) := instrumentAll plan ss p
      (.funcDecl m h (some ⟨bm, pair.stmts ++ ss⟩), p)
  | .block ⟨bm, ss⟩, p =>
    let (ss, p) := instrumentAll plan ss p
    (.block ⟨bm, ss⟩, p)
  | .selectorExpr m x s, p =>
    let (x, p) := x.instrument plan p
    (.selectorExpr m x s, p)
  | .callExpr m f as, p =>
    let (f, p) := f.instrument plan p
    let (as, p) := instrumentAll plan as p
    (.callExpr m f as, p)
  | .funcLit m ⟨bm, ss⟩, p =>
    let (ss, p) := instrumentAll plan ss p
    (.funcLit m ⟨bm, ss⟩, p)
  | .assignStmt m l t r, p =>
    let (l, p) := instrumentAll plan l p
    let (r, p) := instrumentAll plan r p
    (.assignStmt m l t r, p)
  | .deferStmt m c, p =>
    let (c, p) := c.instrument plan p
    (.deferStmt m c, p)
  | .exprStmt m x, p =>
    let (x, p) := x.instrument plan p
    (.exprStmt m x, p)
  | n@(.funcDecl _ _ none), p => (n, p)
  | n@(.packageClause ..), p => (n, p)
  | n@(.importSpec ..), p => (n, p)
  | n@(.rawStmt ..), p => (n, p)
  | n@(.rawDecl ..), p => (n, p)
  | n@(.comment ..), p => (n, p)
  | n@(.ident ..), p => (n, p)
  | n@(.basicLit ..), p => (n, p)
termination_by structural n => n

/-- `Node.instrument` along a list. -/
def instrumentAll (plan : Plan) : List Node → Progress → List Node × Progress
  | [], p => ([], p)
  | n :: ns, p =>
    let (n, p) := n.instrument plan p
    let (ns, p) := instrumentAll plan ns p
    (n :: ns, p)
termination_by structural ns => ns

end

/-- Insert a pair into every candidate of a file. -/
def SourceFile.instrument (f : SourceFile) (plan : Plan) (names : Names) :
    SourceFile × Progress :=
  let (ds, p) := instrumentAll plan f.decls ⟨names, []⟩
  ({ f with decls := ds }, p)

/-! ## One pair by hand -/

/-- Why a pair cannot be inserted into a chosen function. -/
inductive PairError where
  /-- The function is declared without a body. -/
  | noBody (qualifiedName : Text)
  /-- The file has no such function. -/
  | noFunction
  deriving DecidableEq, Repr

/-- The wording of a refusal to insert a pair. -/
def PairError.message : PairError → Text
  | .noBody name => utf8 "function " ++ name ++ utf8 " has no body"
  | .noFunction => utf8 "list index out of range"

/-- Put statements in front of a body. -/
def Body.prepend (b : Body Node) (stmts : List Node) : Body Node :=
  { b with stmts := stmts ++ b.stmts }

/-- Insert the pair `make` gives into the `k`-th function of a list of declarations; the number of
statements its body has then comes with the new list. -/
def insertPairAt (make : FuncHead → Pair) : Nat → List Node → Except PairError (Nat × List Node)
  | _, [] => .error .noFunction
  | 0, .funcDecl m h body :: ds =>
    match body with
    | none => .error (.noBody h.qualifiedName)
    | some b =>
      let b := b.prepend (make h).stmts
      .ok (b.stmts.length, .funcDecl m h (some b) :: ds)
  | k + 1, d@(.funcDecl ..) :: ds => (insertPairAt make k ds).map fun (n, ds) => (n, d :: ds)
  | k, d :: ds => (insertPairAt make k ds).map fun (n, ds) => (n, d :: ds)

/-- Insert a pair into the `k`-th top-level function of a file. -/
def SourceFile.insertPair (f : SourceFile) (k : Nat) (make : FuncHead → Pair) :
    Except PairError (Nat × SourceFile) :=
  (insertPairAt make k f.decls).map fun (n, ds) => (n, { f with decls := ds })

end Stopwatch
