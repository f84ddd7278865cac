import Mathlib
import Stopwatch.Proofs.Items
import Stopwatch.Proofs.Lines

/-!
# Loaded trees

Loading makes only some of the nodes there are: statements and declarations that are kept as text,
comments, the package clause, imports and functions. Printing such a tree never gives up, and whatever
it adds to a line that is there already is set off by a space.

* `Load.isDeclaration_of_mem_build`: the declarations of a loaded file.
* `Print.isPlain_decl`: the strokes of such declarations.
-/

namespace Stopwatch

namespace Node

/-- Whether a node is a statement as loading makes them. -/
def isStatement : Node → Bool
  | rawStmt .. | comment .. => true
  | _ => false

/-- Whether a node is an entry of an import declaration as loading makes them. -/
def isEntry : Node → Bool
  | importSpec .. | comment .. => true
  | _ => false

/-- Whether a node is a declaration as loading makes them. -/
def isDeclaration : Node → Bool
  | packageClause .. | rawDecl .. | comment .. | funcDecl _ _ none => true
  | importDecl _ entries _ => entries.all isEntry
  | funcDecl _ _ (some b) => b.stmts.all isStatement
  | _ => false

theorem isStatement_withTrailing (t : Text) (n : Node) :
    (n.withTrailing t).isStatement = n.isStatement := by
  cases n <;> rfl

theorem isEntry_withTrailing (t : Text) (n : Node) : (n.withTrailing t).isEntry = n.isEntry := by
  cases n <;> rfl

theorem isDeclaration_withTrailing (t : Text) (n : Node) :
    (n.withTrailing t).isDeclaration = n.isDeclaration := by
  cases n with
  | funcDecl m h b => cases b <;> rfl
  | _ => rfl

end Node

namespace Load

variable (source : Source)

theorem isStatement_blockNode (b : Item × Option Item) :
    (blockNode source (stmt source) b).isStatement = true := by
  have hitem : (itemNode source (stmt source) b.1).isStatement = true := by
    unfold itemNode
    split <;> rfl
  unfold blockNode
  split
  · exact hitem
  · rwa [Node.isStatement_withTrailing]

theorem isEntry_blockNode (b : Item × Option Item) :
    (blockNode source (importSpec source) b).isEntry = true := by
  have hitem : (itemNode source (importSpec source) b.1).isEntry = true := by
    unfold itemNode
    split <;> rfl
  unfold blockNode
  split
  · exact hitem
  · rwa [Node.isEntry_withTrailing]

theorem isDeclaration_decl (i : Item) : (decl source i).isDeclaration = true := by
  obtain ⟨-, name, h⟩ | ⟨-, h⟩ | ⟨-, h⟩ | ⟨-, -, -, h⟩ := decl_cases source i
  · rw [h]
    rfl
  · rw [h, importDecl_eq]
    refine List.all_eq_true.mpr fun n hn => ?_
    obtain ⟨b, -, rfl⟩ := List.mem_map.mp hn
    exact isEntry_blockNode source b
  · rw [h, funcDecl]
    cases i.node.childByField? "body" with
    | none => rfl
    | some c =>
      rw [Option.map_some, body_eq]
      refine List.all_eq_true.mpr fun n hn => ?_
      obtain ⟨b, -, rfl⟩ := List.mem_map.mp hn
      exact isStatement_blockNode source b
  · rw [h]
    rfl

theorem isDeclaration_blockNode (b : Item × Option Item) :
    (blockNode source (decl source) b).isDeclaration = true := by
  have hitem : (itemNode source (decl source) b.1).isDeclaration = true := by
    unfold itemNode
    split
    · rfl
    · exact isDeclaration_decl source b.1
  unfold blockNode
  split
  · exact hitem
  · rwa [Node.isDeclaration_withTrailing]

theorem isDeclaration_of_mem_build {root : Cst} {n : Node}
    (h : n ∈ (SourceFile.build source root).decls) : n.isDeclaration = true := by
  rw [decls_build] at h
  obtain ⟨b, -, rfl⟩ := List.mem_map.mp h
  exact isDeclaration_blockNode source b

end Load

/-! ## Their strokes -/

namespace Print

theorem isPlain_fragment (depth : Int) (f : Fragment) : (fragment depth f).all Stroke.isPlain = true := by
  refine List.all_eq_true.mpr fun s hs => ?_
  obtain ⟨l, -, rfl⟩ := List.mem_map.mp hs
  split <;> rfl

theorem isPlain_trailing (m : Mark) : (trailing m).all Stroke.isPlain = true := by
  unfold trailing
  split <;> rfl

theorem isPlain_blank (b : Bool) : (blank b).all Stroke.isPlain = true := by
  cases b <;> rfl

theorem isPlain_stmt (depth : Int) {n : Node} (h : n.isStatement = true ∨ n.isEntry = true) :
    (stmt depth n).all Stroke.isPlain = true := by
  cases n with
  | rawStmt m k f => simp [stmt, isPlain_fragment, isPlain_trailing]
  | comment m f => simp [stmt, isPlain_fragment, isPlain_trailing]
  | importSpec m s =>
    rw [stmt, List.all_cons, isPlain_trailing]
    rfl
  | _ => simp [Node.isStatement, Node.isEntry] at h

theorem isPlain_sequence (depth : Int) (before : Option Mark) {ns : List Node}
    (h : ∀ n ∈ ns, n.isStatement = true ∨ n.isEntry = true) :
    (sequence depth before ns).all Stroke.isPlain = true := by
  induction ns generalizing before with
  | nil => rfl
  | cons n ns ih =>
    rw [sequence, List.all_append, List.all_append, isPlain_blank,
      isPlain_stmt depth (h n List.mem_cons_self), ih _ fun k hk => h k (List.mem_cons_of_mem n hk)]
    rfl

theorem isPlain_importDecl {entries : List Node} (grouped : Bool) (h : entries.all Node.isEntry = true) :
    (importDecl entries grouped).all Stroke.isPlain = true := by
  unfold importDecl
  split
  · rw [List.all_cons, isPlain_trailing]
    rfl
  · have hseq := isPlain_sequence 1 none fun n hn => Or.inr (List.all_eq_true.mp h n hn)
    rw [List.all_append, List.all_cons, hseq]
    rfl

theorem isPlain_body {b : Body Node} (h : b.stmts.all Node.isStatement = true) :
    (body b).all Stroke.isPlain = true := by
  have hseq := isPlain_sequence 1 none fun n hn => Or.inl (List.all_eq_true.mp h n hn)
  unfold body braces
  split
  · rfl
  · simp only [List.all_cons, List.all_append, hseq]
    rfl

theorem isPlain_decl {n : Node} (h : n.isDeclaration = true) : (decl n).all Stroke.isPlain = true := by
  cases n with
  | packageClause m name =>
    rw [decl, List.all_cons, isPlain_trailing]
    rfl
  | importDecl m entries grouped =>
    rw [decl, List.all_append, isPlain_importDecl grouped h, isPlain_trailing]
    rfl
  | funcDecl m head b =>
    cases b with
    | none => simp [decl, isPlain_fragment, isPlain_trailing]
    | some b => simp [decl, isPlain_fragment, isPlain_trailing, isPlain_body h]
  | rawDecl m k f => simp [decl, isPlain_fragment, isPlain_trailing]
  | comment m f => simp [decl, isPlain_fragment, isPlain_trailing]
  | _ => simp [Node.isDeclaration] at h

end Print

end Stopwatch
