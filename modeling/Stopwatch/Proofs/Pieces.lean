import Mathlib
import Stopwatch.Proofs.Loaded

/-!
# The parts of a file that are kept as text

A `Piece` is a run of neighbouring nodes whose source text goes through loading and printing as a
`Fragment`: a declaration other than the package clause and the imports, a signature, a statement, or a
comment with a line of its own. `Load.pieces` lists those of a concrete tree.

* `Print.opens_decls`: a tree without empty fragments can be printed.
* `Load.declFragments_build`: the fragments of a loaded tree are those of the pieces, in the same order.
-/

namespace Stopwatch

/-- Nodes that are printed as text, with the depth they are printed at and the kind of the node above. -/
structure Piece where
  depth : Int
  parent : String
  nodes : List Cst

namespace Piece

/-- The tokens of a piece. -/
def leaves (p : Piece) : List Leaf := Cst.leavesAll p.parent p.nodes

/-- A piece as it is loaded. -/
def fragment (source : Source) (p : Piece) : Int × Fragment :=
  (p.depth, .ofNodes source p.parent p.nodes)

/-- The piece of a single item. -/
def ofItem (depth : Int) (i : Item) : Piece := ⟨depth, i.parent, [i.node]⟩

end Piece

/-! ## The fragments of a tree -/

namespace Print

/-- The fragment of a statement that is kept as text. -/
def stmtFragment? (depth : Int) : Node → Option (Int × Fragment)
  | .rawStmt _ _ f => some (depth, f)
  | .comment _ f => some (depth, f)
  | _ => none

/-- The fragments of a declaration, in the order in which they are printed. -/
def declFragments : Node → List (Int × Fragment)
  | .importDecl _ specs _ => specs.filterMap (stmtFragment? 1)
  | .funcDecl _ h none => [(0, h.signature)]
  | .funcDecl _ h (some b) => (0, h.signature) :: b.stmts.filterMap (stmtFragment? 1)
  | .rawDecl _ _ f => [(0, f)]
  | .comment _ f => [(0, f)]
  | _ => []

/-! ## Trees without empty fragments -/

theorem fragment_ne_nil (depth : Int) {f : Fragment} (h : f ≠ []) : fragment depth f ≠ [] := by
  simpa [fragment] using h

theorem opens_blank (b : Bool) : Stroke.Opens (blank b) := by
  cases b with
  | false => exact Stroke.opens_nil
  | true => exact ⟨fun e h => by simp [blank] at h, fun t rest h => by simp [blank] at h⟩

theorem opens_line (depth : Int) (t : Text) : Stroke.Opens [.line depth t] :=
  ⟨fun e h => by simp at h, fun u rest h => by simp at h⟩

/-- Plain strokes that start with a line of their own stand on their own. -/
theorem opens_of_isPlain {a rest : List Stroke} (ha : Stroke.Opens a) (hne : a ≠ [])
    (hplain : (a ++ rest).all Stroke.isPlain = true) :
    Stroke.Opens (a ++ rest) ∧ a ++ rest ≠ [] := by
  rw [List.all_append, Bool.and_eq_true] at hplain
  exact ⟨ha.append_of_ne_nil hne (Stroke.not_mem_reject_of_isPlain hplain.2), by simp [hne]⟩

theorem opens_fragment_append {depth : Int} {f : Fragment} (hf : f ≠ []) {rest : List Stroke}
    (hplain : (fragment depth f ++ rest).all Stroke.isPlain = true) :
    Stroke.Opens (fragment depth f ++ rest) ∧ fragment depth f ++ rest ≠ [] :=
  opens_of_isPlain (opens_fragment depth f) (fragment_ne_nil depth hf) hplain

theorem opens_line_append {depth : Int} {t : Text} {rest : List Stroke}
    (hplain : (Stroke.line depth t :: rest).all Stroke.isPlain = true) :
    Stroke.Opens (.line depth t :: rest) ∧ Stroke.line depth t :: rest ≠ [] :=
  opens_of_isPlain (opens_line depth t) (by simp) hplain

theorem opens_stmt (depth : Int) {n : Node} (h : n.isStatement = true ∨ n.isEntry = true)
    (hfragment : ∀ p ∈ stmtFragment? depth n, p.2 ≠ []) :
    Stroke.Opens (stmt depth n) ∧ stmt depth n ≠ [] := by
  have hplain := isPlain_stmt depth h
  cases n with
  | rawStmt m k f => exact opens_fragment_append (hfragment _ rfl) hplain
  | comment m f => exact opens_fragment_append (hfragment _ rfl) hplain
  | importSpec m s => exact opens_line_append hplain
  | _ => simp [Node.isStatement, Node.isEntry] at h

theorem opens_sequence (depth : Int) (before : Option Mark) {ns : List Node}
    (h : ∀ n ∈ ns, n.isStatement = true ∨ n.isEntry = true)
    (hfragment : ∀ p ∈ ns.filterMap (stmtFragment? depth), p.2 ≠ []) :
    Stroke.Opens (sequence depth before ns) := by
  induction ns generalizing before with
  | nil => exact Stroke.opens_nil
  | cons n ns ih =>
    rw [sequence]
    have hn := (opens_stmt depth (h n List.mem_cons_self) fun p hp =>
      hfragment p (List.mem_filterMap.mpr ⟨n, List.mem_cons_self, hp⟩)).1
    refine ((opens_blank _).append hn).append (ih _ (fun k hk => h k (List.mem_cons_of_mem n hk)) ?_)
    intro p hp
    obtain ⟨k, hk, hkp⟩ := List.mem_filterMap.mp hp
    exact hfragment p (List.mem_filterMap.mpr ⟨k, List.mem_cons_of_mem n hk, hkp⟩)

theorem importDecl_eq_cons (entries : List Node) (grouped : Bool) :
    ∃ t rest, importDecl entries grouped = .line 0 t :: rest := by
  unfold importDecl
  split
  · exact ⟨_, _, rfl⟩
  · exact ⟨_, _, rfl⟩

/-- A declaration without empty fragments starts with a line of its own. -/
theorem opens_decl {n : Node} (h : n.isDeclaration = true) (hfragment : ∀ p ∈ declFragments n, p.2 ≠ []) :
    Stroke.Opens (decl n) ∧ decl n ≠ [] := by
  have hplain := isPlain_decl h
  cases n with
  | packageClause m name => exact opens_line_append hplain
  | importDecl m entries grouped =>
    obtain ⟨t, rest, heq⟩ := importDecl_eq_cons entries grouped
    rw [decl, heq] at hplain ⊢
    exact opens_line_append hplain
  | funcDecl m head b =>
    have hsignature : head.signature ≠ [] := by
      cases b <;> exact hfragment (0, head.signature) (by simp [declFragments])
    cases b with
    | none => exact opens_fragment_append hsignature hplain
    | some b =>
      rw [decl, List.append_assoc] at hplain ⊢
      exact opens_fragment_append hsignature hplain
  | rawDecl m k f => exact opens_fragment_append (hfragment (0, f) (by simp [declFragments])) hplain
  | comment m f => exact opens_fragment_append (hfragment (0, f) (by simp [declFragments])) hplain
  | _ => simp [Node.isDeclaration] at h

/-- **A tree without empty fragments can be printed.** -/
theorem opens_decls (before : Option Mark) {ns : List Node} (h : ∀ n ∈ ns, n.isDeclaration = true)
    (hfragment : ∀ p ∈ ns.flatMap declFragments, p.2 ≠ []) : Stroke.Opens (decls before ns) := by
  induction ns generalizing before with
  | nil => exact Stroke.opens_nil
  | cons n ns ih =>
    rw [decls]
    rw [List.flatMap_cons, List.forall_mem_append] at hfragment
    refine ((opens_blank _).append (opens_decl (h n List.mem_cons_self) hfragment.1).1).append ?_
    exact ih _ (fun k hk => h k (List.mem_cons_of_mem n hk)) hfragment.2

end Print

/-! ## The pieces of a concrete tree -/

namespace Load

/-- The nodes of a function's signature: those that end where its body starts, or before. -/
def headNodes (c : Cst) : List Cst :=
  match c.childByField? "body" with
  | some b => c.children.filter fun d => d.stop ≤ b.start
  | none => c.children

/-- The items of the list below a declaration. -/
def innerItems (c : Cst) : List Item :=
  if c.kind == "import_declaration" then itemsOf "import_spec_list" c
  else if isFunctionKind c.kind then ((c.childByField? "body").map (itemsOf "statement_list")).getD []
  else []

variable (source : Source)

/-- The pieces of the body of a function: its statements and comments. -/
def bodyPieces (c : Cst) : List Piece :=
  (sortedBlocks source (itemsOf "statement_list" c)).map fun b => .ofItem 1 b.1

/-- The pieces of an import declaration: comments between its entries. -/
def importPieces (c : Cst) : List Piece :=
  ((sortedBlocks source (itemsOf "import_spec_list" c)).filter
    (·.1.node.kind == "comment")).map fun b => .ofItem 1 b.1

/-- The pieces of a top-level item, in order. -/
def itemPieces (i : Item) : List Piece :=
  if i.node.kind == "package_clause" then []
  else if i.node.kind == "import_declaration" then importPieces source i.node
  else if isFunctionKind i.node.kind then
    ⟨0, i.node.kind, headNodes i.node⟩ ::
      ((i.node.childByField? "body").map (bodyPieces source)).getD []
  else [.ofItem 0 i]

/-- **The pieces of a file**, in the order in which they are printed. -/
def pieces (root : Cst) : List Piece :=
  (sortedBlocks source (topItems root)).flatMap fun b => itemPieces source b.1

theorem declFragments_withTrailing (t : Text) (n : Node) :
    Print.declFragments (n.withTrailing t) = Print.declFragments n := by
  cases n with
  | funcDecl m h b => cases b <;> rfl
  | _ => rfl

theorem stmtFragment?_withTrailing (depth : Int) (t : Text) (n : Node) :
    Print.stmtFragment? depth (n.withTrailing t) = Print.stmtFragment? depth n := by
  cases n <;> rfl

theorem declFragments_blockNode (convert : Item → Node) (b : Item × Option Item) :
    Print.declFragments (blockNode source convert b) =
      Print.declFragments (itemNode source convert b.1) := by
  unfold blockNode
  split
  · rfl
  · exact declFragments_withTrailing _ _

theorem stmtFragment?_blockNode (convert : Item → Node) (depth : Int) (b : Item × Option Item) :
    Print.stmtFragment? depth (blockNode source convert b) =
      Print.stmtFragment? depth (itemNode source convert b.1) := by
  unfold blockNode
  split
  · rfl
  · exact stmtFragment?_withTrailing _ _ _

theorem bodyPieces_fragment (c : Cst) :
    (body source c).stmts.filterMap (Print.stmtFragment? 1) =
      (bodyPieces source c).map (Piece.fragment source) := by
  have hitem : ∀ b, Print.stmtFragment? 1 (blockNode source (stmt source) b) =
      some ((Piece.ofItem 1 b.1).fragment source) := by
    intro b
    rw [stmtFragment?_blockNode, itemNode]
    split <;> rfl
  rw [body_eq, bodyPieces, List.filterMap_map, List.map_map]
  exact List.filterMap_eq_map_iff_forall_eq_some.mpr fun b _ => hitem b

theorem importPieces_fragment (c : Cst) :
    Print.declFragments (importDecl source c) =
      (importPieces source c).map (Piece.fragment source) := by
  rw [importDecl_eq, importPieces]
  simp only [Print.declFragments]
  induction sortedBlocks source (itemsOf "import_spec_list" c) with
  | nil => rfl
  | cons b bs ih =>
    have hhead := stmtFragment?_blockNode source (importSpec source) 1 b
    rw [itemNode] at hhead
    cases hkind : b.1.node.kind == "comment" with
    | true =>
      rw [hkind, if_pos rfl] at hhead
      have hsome : Print.stmtFragment? 1 (blockNode source (importSpec source) b) =
          some ((Piece.ofItem 1 b.1).fragment source) := hhead
      rw [List.map_cons, List.filterMap_cons_some hsome, ih, List.filter_cons, hkind, if_pos rfl]
      rfl
    | false =>
      rw [hkind, if_neg (by simp)] at hhead
      have hnone : Print.stmtFragment? 1 (blockNode source (importSpec source) b) = none := hhead
      rw [List.map_cons, List.filterMap_cons_none hnone, ih, List.filter_cons, hkind,
        if_neg (by simp)]

theorem funcDecl_eq (c : Cst) :
    funcDecl source c = .funcDecl (markOf source c)
      { name := ((c.childByField? "name").map (·.text source)).getD []
        signature := .ofNodes source c.kind (headNodes c)
        receiver := receiver? source (c.childByField? "receiver") }
      ((c.childByField? "body").map (body source)) := rfl

theorem itemPieces_fragment (i : Item) :
    Print.declFragments (itemNode source (decl source) i) =
      (itemPieces source i).map (Piece.fragment source) := by
  unfold itemNode itemPieces
  cases hcomment : i.node.kind == "comment" with
  | true =>
    rw [if_pos rfl, beq_iff_eq.mp hcomment]
    rfl
  | false =>
    rw [if_neg (by simp)]
    obtain ⟨hkind, name, h⟩ | ⟨hkind, h⟩ | ⟨hkind, h⟩ | ⟨hp, hi, hf, h⟩ := decl_cases source i
    · rw [h, hkind]
      rfl
    · rw [h, hkind, importPieces_fragment]
      rfl
    · have hp : (i.node.kind == "package_clause") = false := by
        refine beq_eq_false_iff_ne.mpr fun heq => ?_
        rw [heq] at hkind
        exact absurd hkind (by decide)
      have hi : (i.node.kind == "import_declaration") = false := by
        refine beq_eq_false_iff_ne.mpr fun heq => ?_
        rw [heq] at hkind
        exact absurd hkind (by decide)
      rw [h, hp, hi, hkind, funcDecl_eq]
      cases hb : i.node.childByField? "body" with
      | none => rfl
      | some b =>
        simp only [Option.map_some, Print.declFragments, bodyPieces_fragment, Bool.false_eq_true,
          if_false, if_true, Option.getD_some, List.map_cons]
        rfl
    · rw [h, beq_eq_false_iff_ne.mpr hp, beq_eq_false_iff_ne.mpr hi, hf]
      rfl

/-- **The fragments of a loaded tree are its pieces**, in the same order. -/
theorem declFragments_build (root : Cst) :
    (SourceFile.build source root).decls.flatMap Print.declFragments =
      (pieces source root).map (Piece.fragment source) := by
  rw [decls_build, List.flatMap_map, pieces, List.map_flatMap]
  refine List.flatMap_congr fun b _ => ?_
  rw [declFragments_blockNode, itemPieces_fragment]

end Load

end Stopwatch
