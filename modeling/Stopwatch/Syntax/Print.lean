import Stopwatch.Settings
import Stopwatch.Syntax.Node
import Stopwatch.Syntax.Stroke

/-!
# Printing

A file is printed with a fixed layout: one level of indentation per nesting, and a single empty line
where the source had at least one between two neighbours. Between top-level declarations that did not
both come from the source there is always an empty line, elsewhere none.

`SourceFile.strokes` is the layout, `SourceFile.render` the text.
-/

namespace Stopwatch

namespace Print

/-- The strokes of a fragment below `depth`. -/
def fragment (depth : Int) (f : Fragment) : List Stroke :=
  f.map fun l => if l.verbatim then .raw l.text else .line (depth + l.depth) l.text

/-- The comment behind a node, on its last line. -/
def trailing (m : Mark) : List Stroke :=
  match m.trailing with
  | some (b :: t) => [.extend (32 :: b :: t)]
  | _ => []

/-- An empty line. -/
def blank (b : Bool) : List Stroke := if b then [.raw []] else []

/-- An import entry without the keyword. -/
def importSpec (s : ImportSpec) : Text :=
  match s.name with
  | some n => n ++ 32 :: s.literal
  | none => s.literal

/-- The braces around a sequence: what extends the line before it, and what follows. -/
def braces (depth : Int) (stmts : List Node) (inner : List Stroke) : Phrase :=
  if stmts.isEmpty then ⟨utf8 "\x7b\x7d", []⟩
  else ⟨utf8 "\x7b", inner ++ [.line depth (utf8 "\x7d")]⟩

mutual

/-- An expression. The arguments of a call are looked at before the function that is called. -/
def expr : Int → Node → Except PrintError Phrase
  | _, .ident _ n => .ok (.ofText n)
  | _, .basicLit _ v => .ok (.ofText v)
  | depth, .selectorExpr _ x sel => do
    let p ← expr depth x
    return p ++ .ofText (46 :: sel)
  | depth, .callExpr _ f args => do
    let ps ← exprs depth args
    let p ← expr depth f
    return p ++ .ofText (utf8 "(") ++ .commaSeparated ps ++ .ofText (utf8 ")")
  | depth, .funcLit _ ⟨_, stmts⟩ =>
    let inner := sequence (depth + 1) none stmts
    match Stroke.firstReject? inner with
    | some e => .error e
    | none => .ok (.ofText (utf8 "func() ") ++ braces depth stmts inner)
  | _, n => .error (.expression n.className)
termination_by structural _ n => n

/-- Expressions from left to right. -/
def exprs : Int → List Node → Except PrintError (List Phrase)
  | _, [] => .ok []
  | depth, n :: ns => do
    let p ← expr depth n
    let ps ← exprs depth ns
    return p :: ps
termination_by structural _ ns => ns

/-- A statement, with the comment behind it. -/
def stmt : Int → Node → List Stroke
  | depth, .rawStmt m _ f => fragment depth f ++ trailing m
  | depth, .comment m f => fragment depth f ++ trailing m
  | depth, .importSpec m s => .line depth (importSpec s) :: trailing m
  | depth, .assignStmt m lhs tok rhs =>
    match exprs depth lhs with
    | .error e => [.reject e]
    | .ok ls =>
      match exprs depth rhs with
      | .error e => [.reject e]
      | .ok rs =>
        (Phrase.commaSeparated ls ++ .ofText (32 :: tok ++ [32]) ++ .commaSeparated rs).onLine depth ++
          trailing m
  | depth, .deferStmt m c =>
    match expr depth c with
    | .error e => [.reject e]
    | .ok p => (Phrase.ofText (utf8 "defer ") ++ p).onLine depth ++ trailing m
  | depth, .exprStmt m x =>
    match expr depth x with
    | .error e => [.reject e]
    | .ok p => p.onLine depth ++ trailing m
  | _, n => [.reject (.statement n.className)]
termination_by structural _ n => n

/-- Statements one below the other, with the empty lines of the source between neighbours. -/
def sequence : Int → Option Mark → List Node → List Stroke
  | _, _, [] => []
  | depth, before, n :: ns =>
    blank ((before.bind (·.blankBetween n.mark)).getD false) ++ stmt depth n ++
      sequence depth (some n.mark) ns
termination_by structural _ _ ns => ns

end

/-- An import declaration: a single entry of an ungrouped declaration stands behind the keyword. -/
def importDecl (specs : List Node) (grouped : Bool) : List Stroke :=
  match grouped, specs with
  | false, [.importSpec m s] => .line 0 (utf8 "import " ++ importSpec s) :: trailing m
  | _, _ => .line 0 (utf8 "import (") :: sequence 1 none specs ++ [.line 0 (utf8 ")")]

/-- The body of a function, on the last line of its signature. -/
def body (b : Body Node) : List Stroke :=
  let p := braces 0 b.stmts (sequence 1 none b.stmts)
  .extend (utf8 " " ++ p.head) :: p.rest

/-- A top-level declaration, with the comment behind it. -/
def decl : Node → List Stroke
  | .packageClause m n => .line 0 (utf8 "package " ++ n) :: trailing m
  | .importDecl m specs grouped => importDecl specs grouped ++ trailing m
  | .funcDecl m h none => fragment 0 h.signature ++ trailing m
  | .funcDecl m h (some b) => fragment 0 h.signature ++ body b ++ trailing m
  | .rawDecl m _ f => fragment 0 f ++ trailing m
  | .comment m f => fragment 0 f ++ trailing m
  | n => [.reject (.topLevel n.className)]

/-- Declarations one below the other; an empty line parts neighbours that are not both from the source. -/
def decls : Option Mark → List Node → List Stroke
  | _, [] => []
  | before, n :: ns =>
    blank (before.any fun m => (m.blankBetween n.mark).getD true) ++ decl n ++ decls (some n.mark) ns

end Print

namespace SourceFile

/-- The layout of a file. -/
def strokes (f : SourceFile) : List Stroke := Print.decls none f.decls

/-- The text of a file: its lines, ended by exactly one line feed. -/
def render (f : SourceFile) (indent : Text) : Except PrintError Text :=
  (Stroke.run indent f.strokes).map fun lines =>
    Text.dropFinalNewlines (Text.joinLines lines) ++ [Text.newline]

end SourceFile

end Stopwatch
