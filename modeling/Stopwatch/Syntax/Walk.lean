import Stopwatch.Syntax.Node

/-!
# Walking a tree

`Node.walk` lists the events of a depth-first walk: a node is entered, then its children are walked
unless the walk is told not to descend, then it is left. Functions are found by walking, so
`Node.functions` lists them in the order in which they are entered, at any depth.

* `Node.walk_eq`: one equation for all classes of nodes, through `Node.children`.
-/

namespace Stopwatch

/-- A step of a walk. -/
inductive Event where
  | enter (node : Node)
  | leave (node : Node)

/-- The events of a node whose children give `inner`. -/
def Event.around (descend : Node → Bool) (n : Node) (inner : List Event) : List Event :=
  .enter n :: (if descend n then inner else []) ++ [.leave n]

mutual

/-- The events of the walk of a tree that descends below the nodes `descend` admits. -/
def Node.walk (descend : Node → Bool) : Node → List Event
  | n@(.sourceFile _ ds _) => Event.around descend n (walkAll descend ds)
  | n@(.importDecl _ ss _) => Event.around descend n (walkAll descend ss)
  | n@(.funcDecl _ _ (some ⟨bm, ss⟩)) =>
    Event.around descend n (Event.around descend (.block ⟨bm, ss⟩) (walkAll descend ss))
  | n@(.block ⟨_, ss⟩) => Event.around descend n (walkAll descend ss)
  | n@(.selectorExpr _ x _) => Event.around descend n (x.walk descend)
  | n@(.callExpr _ f as) => Event.around descend n (f.walk descend ++ walkAll descend as)
  | n@(.funcLit _ ⟨bm, ss⟩) =>
    Event.around descend n (Event.around descend (.block ⟨bm, ss⟩) (walkAll descend ss))
  | n@(.assignStmt _ l _ r) => Event.around descend n (walkAll descend l ++ walkAll descend r)
  | n@(.deferStmt _ c) => Event.around descend n (c.walk descend)
  | n@(.exprStmt _ x) => Event.around descend n (x.walk descend)
  | n@(.funcDecl _ _ none) => Event.around descend n []
  | n@(.packageClause ..) => Event.around descend n []
  | n@(.importSpec ..) => Event.around descend n []
  | n@(.rawStmt ..) => Event.around descend n []
  | n@(.rawDecl ..) => Event.around descend n []
  | n@(.comment ..) => Event.around descend n []
  | n@(.ident ..) => Event.around descend n []
  | n@(.basicLit ..) => Event.around descend n []
termination_by structural n => n

/-- The walks of a list of trees, one after another. -/
def walkAll (descend : Node → Bool) : List Node → List Event
  | [] => []
  | n :: ns => n.walk descend ++ walkAll descend ns
termination_by structural ns => ns

end

theorem walkAll_eq_flatMap (descend : Node → Bool) (ns : List Node) :
    walkAll descend ns = ns.flatMap (Node.walk descend) := by
  induction ns with
  | nil => rfl
  | cons n ns ih => simp [walkAll, ih]

/-- A walk enters a node, walks its children if it may, and leaves it. -/
theorem Node.walk_eq (descend : Node → Bool) (n : Node) :
    n.walk descend = Event.around descend n (n.children.flatMap (Node.walk descend)) := by
  cases n with
  | funcDecl m h b => cases b <;> simp [Node.walk, Node.children, walkAll_eq_flatMap]
  | _ => simp [Node.walk, Node.children, walkAll_eq_flatMap]

/-- A function of a tree. -/
structure Function where
  mark : Mark
  head : FuncHead
  body : Option (Body Node)

/-- The node a function was found at. -/
def Function.toNode (f : Function) : Node := .funcDecl f.mark f.head f.body

/-- The function an event enters. -/
def Event.function? : Event → Option Function
  | .enter (.funcDecl m h b) => some ⟨m, h, b⟩
  | _ => none

/-- The functions of a tree, in the order of the walk. -/
def Node.functions (n : Node) : List Function := (n.walk fun _ => true).filterMap Event.function?

end Stopwatch
