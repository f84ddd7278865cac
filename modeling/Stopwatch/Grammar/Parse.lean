import Stopwatch.Grammar.Go
import Stopwatch.Grammar.Lexer
import Stopwatch.Syntax.Load

/-!
# Parsing

`Cst.parse` is the parser that the program runs with. Comments are put back into the tree the grammar
gives: each becomes a child of the innermost node that has a token on either side of it. A source that
is no program gives a tree that is an error, at its first byte wherever the error is.

* What is said about runs is said about every parser whose trees are sound (`Parser.Sound`); this is one of
  them.
-/

namespace Stopwatch

namespace Cst

/-- The leaf of a comment. -/
def ofComment (c : CommentSpan) : Cst :=
  .node { kind := "comment", start := c.start, stop := c.stop, named := true } []

/-- Whether a comment has something of the node on either side. -/
def surrounds (i : CstInfo) (c : CommentSpan) : Bool := i.start < c.start && c.stop < i.stop

mutual

/-- Put comments into a node: each as deep as it has tokens on either side. -/
def weave (comments : List CommentSpan) : Cst → Cst
  | .node i cs =>
    if comments.isEmpty then .node i cs
    else
      let free := comments.filter fun c => !cs.any fun d => surrounds d.info c
      let children := weaveAll comments cs ++ free.map ofComment
      .node i (children.mergeSort fun a b => a.start ≤ b.start)
termination_by structural c => c

/-- Put comments into the nodes they lie in. -/
def weaveAll (comments : List CommentSpan) : List Cst → List Cst
  | [] => []
  | c :: cs => weave (comments.filter (surrounds c.info)) c :: weaveAll comments cs
termination_by structural cs => cs

end

/-- The tree of a source that is no program. -/
def refused (source : Text) : Cst :=
  .node { kind := "ERROR", start := 0, stop := source.length, named := true } []

/-- How deep the grammar is followed: no construct nests deeper per token. -/
def depthBound (tokens : List Token) : Nat := 256 * (tokens.length + 2)

/-- The root of a file with the given items and comments. -/
def root (source : Text) (items : List Cst) (comments : List CommentSpan) : Cst :=
  let starts := (items.head?.map Cst.start).toList ++ (comments.head?.map CommentSpan.start).toList
  weave comments
    (.node { kind := "source_file", start := starts.min?.getD source.length, stop := source.length,
             named := true } items)

/-- The concrete tree of a source. -/
def parse (source : Text) : Cst :=
  match Lexer.scan source with
  | none => refused source
  | some ⟨tokens, comments⟩ =>
    match Rule.parse Go.rules (depthBound tokens) Go.file .lines tokens with
    | some (o, []) => root source o.nodes comments
    | _ => refused source

end Cst

/-- The model of a source, by the tree that a parser gives for it. -/
def SourceFile.ofSource (source : Text) (parse : Parser := Cst.parse) : Except LoadError SourceFile :=
  SourceFile.ofCst source (parse source)

end Stopwatch
