import Stopwatch.Syntax.Source

/-!
# Concrete trees

The tree a parser gives for a source: every token is a leaf, nodes are known by their kind and by the
bytes they cover, and a node may have a role in its parent (`field`). A place where the source is no
program is a node of kind `ERROR`, or a `missing` one.

* `Cst.leaves`: the visible tokens below a node; line ends that only end a statement are not among them.
* `Cst.firstError?`: the first error, found by descending only where one is announced.
-/

namespace Stopwatch

/-- What is known of a node apart from its children. -/
structure CstInfo where
  kind : String
  start : Nat
  stop : Nat
  named : Bool := false
  missing : Bool := false
  /-- Whether the node is announced to hold an error, with or without cause. -/
  flagged : Bool := false
  field : Option String := none
  deriving DecidableEq, Repr

/-- A concrete tree. -/
inductive Cst where
  | node (info : CstInfo) (children : List Cst)

instance : Inhabited Cst := ⟨.node ⟨"", 0, 0, false, false, false, none⟩ []⟩

/-- What gives a concrete tree for any source. -/
abbrev Parser := Text → Cst

/-- A token of a concrete tree, with the kind of the node directly above it. -/
structure Leaf where
  kind : String
  parent : String
  start : Nat
  stop : Nat
  deriving DecidableEq, Repr

namespace Cst

/-- What is known of a node apart from its children. -/
def info : Cst → CstInfo
  | node i _ => i

/-- The nodes directly below a node. -/
def children : Cst → List Cst
  | node _ cs => cs

/-- The kind of a node. -/
def kind (c : Cst) : String := c.info.kind

/-- The first byte of a node. -/
def start (c : Cst) : Nat := c.info.start

/-- The end of a node. -/
def stop (c : Cst) : Nat := c.info.stop

/-- The children that are more than punctuation. -/
def namedChildren (c : Cst) : List Cst := c.children.filter (·.info.named)

/-- The first child with a given role. -/
def childByField? (name : String) (c : Cst) : Option Cst :=
  c.children.find? fun d => d.info.field == some name

/-- The bytes of a node. -/
def text (source : Source) (c : Cst) : Text := source.slice c.start c.stop

/-- The row a node starts on. -/
def startRow (source : Source) (c : Cst) : Nat := (source.point c.start).row

/-- The row a node ends on; one that ends with a line feed ends on the row before it. -/
def endRow (source : Source) (c : Cst) : Nat :=
  let p := source.point c.stop
  if p.col = 0 ∧ c.startRow source < p.row then p.row - 1 else p.row

/-! ## Leaves -/

/-- Kinds of leaves that only end a statement: a line feed and the end of the file. -/
def isTerminatorKind (kind : String) : Bool := kind == "\n" || kind == "\x00"

mutual

/-- The visible tokens at or below a node, from left to right. -/
def leaves (parent : String) : Cst → List Leaf
  | node i [] =>
    if isTerminatorKind i.kind || i.start == i.stop then [] else [⟨i.kind, parent, i.start, i.stop⟩]
  | node i (c :: cs) => leaves i.kind c ++ leavesAll i.kind cs
termination_by structural c => c

/-- The visible tokens of neighbouring nodes. -/
def leavesAll (parent : String) : List Cst → List Leaf
  | [] => []
  | c :: cs => leaves parent c ++ leavesAll parent cs
termination_by structural cs => cs

end

/-! ## Errors -/

/-- Whether a node itself is an error. -/
def isError (c : Cst) : Bool := c.kind == "ERROR" || c.info.missing

mutual

/-- Whether a node is, holds or announces an error. -/
def hasError : Cst → Bool
  | node i cs => i.flagged || i.kind == "ERROR" || i.missing || anyError cs
termination_by structural c => c

/-- Whether one of several nodes has an error. -/
def anyError : List Cst → Bool
  | [] => false
  | c :: cs => hasError c || anyError cs
termination_by structural cs => cs

end

mutual

/-- The first error of a tree, in the order in which nodes start. -/
def firstError? : Cst → Option Cst
  | c@(node _ cs) =>
    if c.isError then some c else if c.hasError then firstErrorOf? cs else none
termination_by structural c => c

/-- The first error of several trees. -/
def firstErrorOf? : List Cst → Option Cst
  | [] => none
  | c :: cs => (firstError? c).or (firstErrorOf? cs)
termination_by structural cs => cs

end

end Cst

end Stopwatch
