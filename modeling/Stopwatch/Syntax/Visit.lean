import Stopwatch.Syntax.Walk

/-!
# Visiting a tree

A visitor is told of a node when a visit comes to it and again when the visit is done with it. In between
the visit goes through the nodes below it, unless the visitor wants none of them. A visitor has a state, by
which it remembers what it was told.

The nodes below a node are found in its fields (`Node.fields`), in the order in which its class declares
them. Equal nodes can stand at several places of one tree, so what a visitor is told of is a `Site`: a node
together with the route that leads to it.

* `Visitor.visit` is the visit, and `Visitor.visit_eq` its equation.
* `Hooks.visitor` makes a visitor of hooks for single classes of nodes.
-/

namespace Stopwatch

/-! ## Fields -/

/-- What a field of a node holds: no node, one node, or a list of nodes. -/
inductive Node.Field where
  | plain
  | one (node : Node)
  | many (nodes : List Node)

/-- The nodes in a field, in order. -/
def Node.Field.nodes : Node.Field → List Node
  | plain => []
  | one n => [n]
  | many ns => ns

/-- The fields of a node in the order of their declaration. Every class has the field for the comment
behind a node, and it comes before the fields of its own. -/
def Node.fields : Node → List Node.Field
  -- declarations, path, identifiers
  | sourceFile _ ds _ => [.plain, .many ds, .plain, .plain]
  -- name
  | packageClause .. => [.plain, .plain]
  -- entries, grouped
  | importDecl _ ss _ => [.plain, .many ss, .plain]
  -- path, literal, name
  | importSpec .. => [.plain, .plain, .plain, .plain]
  -- name, signature, receiver, body
  | funcDecl _ _ none => [.plain, .plain, .plain, .plain, .plain]
  | funcDecl _ _ (some b) => [.plain, .plain, .plain, .plain, .one (block b)]
  -- statements
  | block b => [.plain, .many b.stmts]
  -- kind, fragment
  | rawStmt .. | rawDecl .. => [.plain, .plain, .plain]
  -- the fragment, the name, the value
  | comment .. | ident .. | basicLit .. => [.plain, .plain]
  -- operand, selected name
  | selectorExpr _ x _ => [.plain, .one x, .plain]
  -- function, arguments
  | callExpr _ f as => [.plain, .one f, .many as]
  -- body
  | funcLit _ b => [.plain, .one (block b)]
  -- left sides, operator, right sides
  | assignStmt _ l _ r => [.plain, .many l, .plain, .many r]
  -- call
  | deferStmt _ c => [.plain, .one c]
  -- expression
  | exprStmt _ x => [.plain, .one x]

/-- The nodes directly below a node are those in its fields, field by field. -/
theorem Node.children_eq_fields (n : Node) : n.children = n.fields.flatMap Node.Field.nodes := by
  cases n with
  | funcDecl m h b => cases b <;> rfl
  | _ => simp [Node.children, Node.fields, Node.Field.nodes]

theorem Node.sizeOf_lt_of_mem_children {n c : Node} (h : c ∈ n.children) : sizeOf c < sizeOf n := by
  cases n with
  | funcDecl m head b =>
    cases b with
    | none => cases h
    | some b =>
      obtain rfl := List.mem_singleton.mp h
      simp only [block.sizeOf_spec, funcDecl.sizeOf_spec, Option.some.sizeOf_spec]
      omega
  | funcLit m b =>
    obtain rfl := List.mem_singleton.mp h
    obtain ⟨span, trailing⟩ := m
    simp only [block.sizeOf_spec, funcLit.sizeOf_spec, Mark.mk.sizeOf_spec]
    omega
  | callExpr m f as =>
    simp only [callExpr.sizeOf_spec]
    rcases List.mem_cons.mp h with rfl | h
    · omega
    · have hlt := List.sizeOf_lt_of_mem h
      omega
  | assignStmt m l t r =>
    simp only [assignStmt.sizeOf_spec]
    rcases List.mem_append.mp h with h | h
    · have hlt := List.sizeOf_lt_of_mem h
      omega
    · have hlt := List.sizeOf_lt_of_mem h
      omega
  | sourceFile _ ns _ | importDecl _ ns _ =>
    have hlt : sizeOf c < sizeOf ns := List.sizeOf_lt_of_mem h
    simp only [sourceFile.sizeOf_spec, importDecl.sizeOf_spec]
    omega
  | block b =>
    obtain ⟨m, ss⟩ := b
    have hlt : sizeOf c < sizeOf ss := List.sizeOf_lt_of_mem h
    simp only [block.sizeOf_spec, Body.mk.sizeOf_spec]
    omega
  | selectorExpr _ x | deferStmt _ x | exprStmt _ x =>
    obtain rfl := List.mem_singleton.mp h
    simp only [selectorExpr.sizeOf_spec, deferStmt.sizeOf_spec, exprStmt.sizeOf_spec]
    omega
  | packageClause | importSpec | rawStmt | rawDecl | comment | ident | basicLit => cases h

/-! ## Routes and sites -/

/-- The way from a node to one directly below it: the number of the field, and the place in the field. -/
structure Edge where
  field : Nat
  index : Nat
  deriving DecidableEq, Repr

/-- The way from a node down to another. -/
abbrev Route := List Edge

/-- A node and the way to it from the root of its tree. -/
structure Site where
  route : Route
  node : Node

/-- The root of a tree, as a site. -/
def Node.root (n : Node) : Site := ⟨[], n⟩

/-- The function at a site. -/
def Site.function? (s : Site) : Option Function := (Event.enter s.node).function?

/-- The sites directly below a site, field by field. -/
def Site.children (s : Site) : List Site :=
  s.node.fields.zipIdx.flatMap fun (field, i) =>
    field.nodes.zipIdx.map fun (n, j) => ⟨s.route ++ [⟨i, j⟩], n⟩

theorem Site.map_node_children (s : Site) : s.children.map Site.node = s.node.children := by
  have hfield (field : Node.Field) (i : Nat) :
      (field.nodes.zipIdx.map fun (n, j) => (⟨s.route ++ [⟨i, j⟩], n⟩ : Site)).map Site.node =
        field.nodes := by
    rw [List.map_map]
    exact List.zipIdx_map_fst 0 field.nodes
  rw [Site.children, List.map_flatMap, Node.children_eq_fields]
  simp only [hfield]
  rw [← List.flatMap_map Prod.fst, List.zipIdx_map_fst]

theorem Site.sizeOf_lt_of_mem_children {s c : Site} (h : c ∈ s.children) :
    sizeOf c.node < sizeOf s.node := by
  have hmem : c.node ∈ s.node.children := s.map_node_children ▸ List.mem_map_of_mem h
  exact Node.sizeOf_lt_of_mem_children hmem

/-! ## Visitors -/

/-- What can go through a tree: what it does with its state when it comes to a site, with its answer
whether the visit goes on to what is below, and what it does with its state when the visit leaves the
site. -/
structure Visitor (σ : Type u) where
  enter : Site → σ → Bool × σ
  leave : Site → σ → σ

/-- Visit a site and, where the visitor wants it, all below it. -/
def Visitor.visit (v : Visitor σ) (s : Site) (state : σ) : σ :=
  let entered := v.enter s state
  let passed :=
    if entered.1 then s.children.attach.foldl (fun state c => v.visit c.1 state) entered.2
    else entered.2
  v.leave s passed
termination_by sizeOf s.node
decreasing_by exact Site.sizeOf_lt_of_mem_children c.2

theorem Visitor.visit_eq (v : Visitor σ) (s : Site) (state : σ) :
    v.visit s state = v.leave s
      (if (v.enter s state).1 then
        s.children.foldl (fun state c => v.visit c state) (v.enter s state).2
      else (v.enter s state).2) := by
  rw [Visitor.visit, List.foldl_attach (f := fun state c => v.visit c state)]

/-- Hooks for single classes of nodes, found by the name of the class, and hooks for all the others. -/
structure Hooks (σ : Type u) where
  enter : String → Option (Site → σ → Bool × σ) := fun _ => none
  leave : String → Option (Site → σ → σ) := fun _ => none
  genericEnter : Site → σ → Bool × σ := fun _ state => (true, state)
  genericLeave : Site → σ → σ := fun _ state => state

/-- The visitor that calls the hook for the class of a node, if there is one. -/
def Hooks.visitor (h : Hooks σ) : Visitor σ where
  enter s := (h.enter s.node.className).getD h.genericEnter s
  leave s := (h.leave s.node.className).getD h.genericLeave s

end Stopwatch
