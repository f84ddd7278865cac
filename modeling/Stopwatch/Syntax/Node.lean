import Stopwatch.Syntax.Fragment
import Stopwatch.Text.Scalar

/-!
# The syntax model

The part of a Go program the instrumentation needs to see: the package clause, imports, functions and
the statements of their bodies. Everything else is a `Fragment`. The statements and expressions that an
instrumentation inserts are modelled down to their identifiers.

Every node carries a `Mark`: the source rows it came from, if it was read from a source, and the comment
that follows it on its last row.
-/

namespace Stopwatch

/-- Source rows, counted from zero, both inclusive. -/
structure Span where
  startRow : Nat
  endRow : Nat
  deriving DecidableEq, Repr

/-- Where a node came from and the comment behind it. -/
structure Mark where
  span : Option Span := none
  trailing : Option Text := none
  deriving DecidableEq, Repr

/-- Whether the source had an empty row between two nodes; unknown unless both came from it. -/
def Mark.blankBetween (before after : Mark) : Option Bool :=
  match before.span, after.span with
  | some a, some b => some (a.endRow + 1 < b.startRow)
  | _, _ => none

/-- An imported package: its path, the literal that spells the path, and the name given to it. -/
structure ImportSpec where
  path : Text
  literal : Text
  name : Option Text := none
  deriving DecidableEq, Repr

namespace ImportSpec

/-- The name a package has without an alias: the last element of its path. -/
def defaultName (s : ImportSpec) : Text := s.path.afterLastSlash

/-- Whether the package is known under its default name. -/
def bindsDefaultName (s : ImportSpec) : Bool :=
  match s.name with
  | none => true
  | some n => n == s.defaultName

end ImportSpec

/-- A function before its body. -/
structure FuncHead where
  name : Text
  signature : Fragment
  receiver : Option Text := none
  deriving DecidableEq, Repr

/-- The name of a function with the type it is a method of. -/
def FuncHead.qualifiedName (h : FuncHead) : Text :=
  match h.receiver with
  | some r => r ++ 46 :: h.name
  | none => h.name

/-- A sequence in braces. -/
structure Body (α : Type) where
  mark : Mark := {}
  stmts : List α := []

/-- A node of the model. -/
inductive Node where
  | sourceFile (mark : Mark) (decls : List Node) (identifiers : List Text)
  | packageClause (mark : Mark) (name : Text)
  | importDecl (mark : Mark) (specs : List Node) (grouped : Bool)
  | importSpec (mark : Mark) (spec : ImportSpec)
  | funcDecl (mark : Mark) (head : FuncHead) (body : Option (Body Node))
  | block (body : Body Node)
  | rawStmt (mark : Mark) (kind : String) (fragment : Fragment)
  | rawDecl (mark : Mark) (kind : String) (fragment : Fragment)
  | comment (mark : Mark) (fragment : Fragment)
  | ident (mark : Mark) (name : Text)
  | basicLit (mark : Mark) (value : Text)
  | selectorExpr (mark : Mark) (x : Node) (sel : Text)
  | callExpr (mark : Mark) (func : Node) (args : List Node)
  | funcLit (mark : Mark) (body : Body Node)
  | assignStmt (mark : Mark) (lhs : List Node) (tok : Text) (rhs : List Node)
  | deferStmt (mark : Mark) (call : Node)
  | exprStmt (mark : Mark) (x : Node)

instance : Inhabited Node := ⟨.ident {} []⟩

namespace Node

/-- The name of a node's class. -/
def className : Node → String
  | sourceFile .. => "SourceFile"
  | packageClause .. => "PackageClause"
  | importDecl .. => "ImportDecl"
  | importSpec .. => "ImportSpec"
  | funcDecl .. => "FuncDecl"
  | block .. => "Block"
  | rawStmt .. => "RawStmt"
  | rawDecl .. => "RawDecl"
  | comment .. => "Comment"
  | ident .. => "Ident"
  | basicLit .. => "BasicLit"
  | selectorExpr .. => "SelectorExpr"
  | callExpr .. => "CallExpr"
  | funcLit .. => "FuncLit"
  | assignStmt .. => "AssignStmt"
  | deferStmt .. => "DeferStmt"
  | exprStmt .. => "ExprStmt"

/-- The mark of a node. -/
def mark : Node → Mark
  | sourceFile m .. | packageClause m _ | importDecl m .. | importSpec m _ | funcDecl m .. |
    rawStmt m .. | rawDecl m .. | comment m _ | ident m _ | basicLit m _ | selectorExpr m .. |
    callExpr m .. | funcLit m _ | assignStmt m .. | deferStmt m _ | exprStmt m _ => m
  | block b => b.mark

/-- The same node with another mark. -/
def withMark (m : Mark) : Node → Node
  | sourceFile _ ds ids => sourceFile m ds ids
  | packageClause _ n => packageClause m n
  | importDecl _ ss g => importDecl m ss g
  | importSpec _ s => importSpec m s
  | funcDecl _ h b => funcDecl m h b
  | block b => block { b with mark := m }
  | rawStmt _ k f => rawStmt m k f
  | rawDecl _ k f => rawDecl m k f
  | comment _ f => comment m f
  | ident _ n => ident m n
  | basicLit _ v => basicLit m v
  | selectorExpr _ x s => selectorExpr m x s
  | callExpr _ f as => callExpr m f as
  | funcLit _ b => funcLit m b
  | assignStmt _ l t r => assignStmt m l t r
  | deferStmt _ c => deferStmt m c
  | exprStmt _ x => exprStmt m x

/-- The same node followed by the comment `t`. -/
def withTrailing (t : Text) (n : Node) : Node := n.withMark { n.mark with trailing := some t }

/-- The spec of an import entry; comments between the entries have none. -/
def spec? : Node → Option ImportSpec
  | importSpec _ s => some s
  | _ => none

/-- The nodes directly below a node, in the order of its fields. -/
def children : Node → List Node
  | sourceFile _ ds _ => ds
  | importDecl _ ss _ => ss
  | funcDecl _ _ (some b) => [block b]
  | block b => b.stmts
  | selectorExpr _ x _ => [x]
  | callExpr _ f as => f :: as
  | funcLit _ b => [block b]
  | assignStmt _ l _ r => l ++ r
  | deferStmt _ c => [c]
  | exprStmt _ x => [x]
  | funcDecl _ _ none | packageClause .. | importSpec .. | rawStmt .. | rawDecl .. | comment .. |
    ident .. | basicLit .. => []

@[simp] theorem mark_withMark (m : Mark) (n : Node) : (n.withMark m).mark = m := by
  cases n <;> rfl

end Node

/-- A loaded file: its declarations in order and the identifiers spelled anywhere in it. -/
structure SourceFile where
  mark : Mark := {}
  decls : List Node := []
  identifiers : List Text := []
  deriving Inhabited

namespace SourceFile

/-- The file as the root of its tree. -/
def toNode (f : SourceFile) : Node := .sourceFile f.mark f.decls f.identifiers

/-- The identifiers without repetition, in code order. -/
def identifierSet (f : SourceFile) : List Text := Text.sortedSet f.identifiers

end SourceFile

/-! ## Forgetting positions -/

mutual

/-- The tree below a node with every mark changed by `f`. -/
def Node.mapMarks (f : Mark → Mark) : Node → Node
  | .sourceFile m ds ids => .sourceFile (f m) (mapMarksAll f ds) ids
  | .packageClause m n => .packageClause (f m) n
  | .importDecl m ss g => .importDecl (f m) (mapMarksAll f ss) g
  | .importSpec m s => .importSpec (f m) s
  | .funcDecl m h none => .funcDecl (f m) h none
  | .funcDecl m h (some ⟨bm, ss⟩) => .funcDecl (f m) h (some ⟨f bm, mapMarksAll f ss⟩)
  | .block ⟨m, ss⟩ => .block ⟨f m, mapMarksAll f ss⟩
  | .rawStmt m k fr => .rawStmt (f m) k fr
  | .rawDecl m k fr => .rawDecl (f m) k fr
  | .comment m fr => .comment (f m) fr
  | .ident m n => .ident (f m) n
  | .basicLit m v => .basicLit (f m) v
  | .selectorExpr m x s => .selectorExpr (f m) (x.mapMarks f) s
  | .callExpr m g as => .callExpr (f m) (g.mapMarks f) (mapMarksAll f as)
  | .funcLit m ⟨bm, ss⟩ => .funcLit (f m) ⟨f bm, mapMarksAll f ss⟩
  | .assignStmt m l t r => .assignStmt (f m) (mapMarksAll f l) t (mapMarksAll f r)
  | .deferStmt m c => .deferStmt (f m) (c.mapMarks f)
  | .exprStmt m x => .exprStmt (f m) (x.mapMarks f)
termination_by structural n => n

/-- `Node.mapMarks` along a list. -/
def mapMarksAll (f : Mark → Mark) : List Node → List Node
  | [] => []
  | n :: ns => n.mapMarks f :: mapMarksAll f ns
termination_by structural ns => ns

end

/-- The file as if no node of it had been read from a source. -/
def SourceFile.unplaced (t : SourceFile) : SourceFile :=
  { t with
    mark := { t.mark with span := none }
    decls := mapMarksAll (fun m => { m with span := none }) t.decls }

end Stopwatch
