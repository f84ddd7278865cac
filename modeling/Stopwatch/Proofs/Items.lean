import Mathlib
import Stopwatch.Syntax.Load

/-!
# Items and the comments behind them

`Load.fill` goes through the items of a list once, carrying the node it made last. Read declaratively, it
cuts the sorted items into blocks (`Load.blocks`): an item, and the comment right behind it if that
comment begins and ends on the item's last row. Each block gives one node.

* `Load.fill_eq`: the nodes of a list are those of its blocks, in order.
* `Load.flatMap_blocks`: the blocks hold every item exactly once, in order.
* `Load.ofCst_eq_ok`: which trees are accepted.
-/

namespace Stopwatch

namespace Load

/-- Whether the comment `c` stands on the last row of the item `i`. -/
def follows (source : Source) (i c : Item) : Bool :=
  c.node.kind == "comment" && c.node.startRow source == i.node.endRow source &&
    c.node.startRow source == (source.point c.node.stop).row

/-- Each item with the comment right behind it, if that stands on the item's last row. -/
def blocks (source : Source) : List Item → List (Item × Option Item)
  | [] => []
  | [i] => [(i, none)]
  | i :: c :: rest =>
    if follows source i c then (i, some c) :: blocks source rest
    else (i, none) :: blocks source (c :: rest)

/-- The node of an item, without a comment behind it. -/
def itemNode (source : Source) (convert : Item → Node) (i : Item) : Node :=
  if i.node.kind == "comment" then commentItem source i else convert i

/-- The node of a block. -/
def blockNode (source : Source) (convert : Item → Node) (b : Item × Option Item) : Node :=
  match b.2 with
  | none => itemNode source convert b.1
  | some c => (itemNode source convert b.1).withTrailing (c.node.text source).trimEndWide

/-- The blocks hold every item once, in order. -/
theorem flatMap_blocks (source : Source) (items : List Item) :
    ((blocks source items).flatMap fun b => b.1 :: b.2.toList) = items := by
  fun_induction blocks source items with
  | case1 => rfl
  | case2 i => rfl
  | case3 i c rest _ ih => rw [List.flatMap_cons, ih]; rfl
  | case4 i c rest _ ih => rw [List.flatMap_cons, ih]; rfl

/-- Only comments are kept behind an item. -/
theorem kind_of_mem_blocks (source : Source) (items : List Item) {i c : Item}
    (h : (i, some c) ∈ blocks source items) : c.node.kind = "comment" ∧ follows source i c = true := by
  fun_induction blocks source items with
  | case1 => exact absurd h List.not_mem_nil
  | case2 j => exact absurd h (by simp)
  | case3 j d rest hfollows ih =>
    rcases List.mem_cons.mp h with heq | h
    · obtain ⟨rfl, hd⟩ := Prod.mk.inj heq
      obtain rfl := Option.some.inj hd
      have hkind := hfollows
      simp only [follows, Bool.and_eq_true, beq_iff_eq] at hkind
      exact ⟨hkind.1.1, hfollows⟩
    · exact ih h
  | case4 j d rest _ ih =>
    rcases List.mem_cons.mp h with heq | h
    · exact absurd (Prod.mk.inj heq).2 (by simp)
    · exact ih h

section Fill

variable {source : Source} {convert : Item → Node}

theorem trailing_itemNode (hconvert : ∀ i, (convert i).mark.trailing = none) (i : Item) :
    (itemNode source convert i).mark.trailing = none := by
  unfold itemNode
  split
  · rfl
  · exact hconvert i

/-- The loop of `fill` from a node on that has no comment yet, and from one that has. -/
theorem fillFrom_eq (hconvert : ∀ i, (convert i).mark.trailing = none) (items : List Item) :
    (∀ (i : Item) (done : List Node),
      fillFrom source convert (some (i.node, itemNode source convert i)) done items =
        done.reverse ++ (blocks source (i :: items)).map (blockNode source convert)) ∧
    ∀ (c : Cst) (n : Node) (t : Text) (done : List Node),
      fillFrom source convert (some (c, n.withTrailing t)) done items =
        done.reverse ++ n.withTrailing t :: (blocks source items).map (blockNode source convert) := by
  induction items with
  | nil =>
    refine ⟨fun i done => ?_, fun c n t done => ?_⟩
    · simp [fillFrom, blocks, blockNode]
    · simp [fillFrom, blocks]
  | cons d items ih =>
    obtain ⟨hopen, hclosed⟩ := ih
    refine ⟨fun i done => ?_, fun c n t done => ?_⟩
    · have hattach : (d.node.kind == "comment" &&
          attaches source i.node d.node (itemNode source convert i)) = follows source i d := by
        rw [attaches, trailing_itemNode hconvert i, follows]
        simp [Bool.and_assoc]
      rw [fillFrom, blocks]
      simp only [hattach]
      split
      · rw [hclosed]
        rfl
      · rw [← itemNode, hopen]
        simp [blockNode]
    · have hattach : attaches source c d.node (n.withTrailing t) = false := by
        simp [attaches, Node.withTrailing]
      rw [fillFrom]
      simp only [hattach, Bool.and_false, Bool.false_eq_true, if_false]
      rw [← itemNode, hopen]
      simp

/-- **The nodes of a list are those of its blocks**, in source order. -/
theorem fill_eq (hconvert : ∀ i, (convert i).mark.trailing = none) (items : List Item) :
    fill source convert items =
      (blocks source (inOrder items)).map (blockNode source convert) := by
  unfold fill
  cases inOrder items with
  | nil => rfl
  | cons i items =>
    rw [fillFrom]
    exact (fillFrom_eq hconvert items).1 i []

end Fill

/-! ## The nodes of a file -/

variable (source : Source)

/-- Whether a node declares a function or a method. -/
def isFunctionKind (kind : String) : Bool :=
  kind == "function_declaration" || kind == "method_declaration"

/-- All that a top-level item can become. -/
theorem decl_cases (i : Item) :
    (i.node.kind = "package_clause" ∧
      ∃ name, decl source i = .packageClause (markOf source i.node) name) ∨
    (i.node.kind = "import_declaration" ∧ decl source i = importDecl source i.node) ∨
    (isFunctionKind i.node.kind = true ∧ decl source i = funcDecl source i.node) ∨
    (i.node.kind ≠ "package_clause" ∧ i.node.kind ≠ "import_declaration" ∧
      isFunctionKind i.node.kind = false ∧
      decl source i = .rawDecl (markOf source i.node) i.node.kind
        (.ofNodes source i.parent [i.node])) := by
  simp only [decl]
  split_ifs with hpackage himport hfunction
  · exact Or.inl ⟨beq_iff_eq.mp hpackage, _, rfl⟩
  · exact Or.inr (Or.inl ⟨beq_iff_eq.mp himport, rfl⟩)
  · exact Or.inr (Or.inr (Or.inl ⟨hfunction, rfl⟩))
  · refine Or.inr (Or.inr (Or.inr ⟨?_, ?_, ?_, rfl⟩))
    · exact fun h => hpackage (beq_iff_eq.mpr h)
    · exact fun h => himport (beq_iff_eq.mpr h)
    · exact Bool.eq_false_iff.mpr hfunction

theorem trailing_decl (i : Item) : (decl source i).mark.trailing = none := by
  obtain ⟨-, name, h⟩ | ⟨-, h⟩ | ⟨-, h⟩ | ⟨-, -, -, h⟩ := decl_cases source i <;> rw [h] <;> rfl

theorem trailing_stmt (i : Item) : (stmt source i).mark.trailing = none := rfl

theorem trailing_importSpec (i : Item) : (importSpec source i).mark.trailing = none := rfl

/-- The items at the top level of a file. -/
def topItems (root : Cst) : List Item := root.namedChildren.map (⟨root.kind, ·⟩)

/-- The blocks of a list of items in source order. -/
def sortedBlocks (items : List Item) : List (Item × Option Item) := blocks source (inOrder items)

theorem decls_build (root : Cst) :
    (SourceFile.build source root).decls =
      (sortedBlocks source (topItems root)).map (blockNode source (decl source)) :=
  fill_eq (trailing_decl source) _

theorem body_eq (c : Cst) :
    body source c = ⟨markOf source c,
      (sortedBlocks source (itemsOf "statement_list" c)).map (blockNode source (stmt source))⟩ := by
  rw [body, fill_eq (trailing_stmt source)]
  rfl

theorem importDecl_eq (c : Cst) :
    importDecl source c = .importDecl (markOf source c)
      ((sortedBlocks source (itemsOf "import_spec_list" c)).map
        (blockNode source (importSpec source)))
      (c.namedChildren.any (·.kind == "import_spec_list")) := by
  rw [importDecl, fill_eq (trailing_importSpec source)]
  rfl

theorem mem_inOrder {items : List Item} {i : Item} : i ∈ inOrder items ↔ i ∈ items :=
  (List.mergeSort_perm items _).mem_iff

/-- Items that are in order already stay as they are. -/
theorem inOrder_eq_self {items : List Item}
    (h : items.Pairwise fun a b => a.node.start ≤ b.node.start) : inOrder items = items :=
  List.mergeSort_of_pairwise (h.imp fun hab => by simpa using hab)

/-- Items in order of which none is a comment: nothing is kept behind any of them. -/
theorem sortedBlocks_eq_map {items : List Item}
    (horder : items.Pairwise fun a b => a.node.start ≤ b.node.start)
    (hplain : ∀ i ∈ items, i.node.kind ≠ "comment") :
    sortedBlocks source items = items.map fun i => (i, none) := by
  rw [sortedBlocks, inOrder_eq_self horder]
  induction items with
  | nil => rfl
  | cons i items ih =>
    have ih := ih (List.pairwise_cons.mp horder).2 fun j hj => hplain j (List.mem_cons_of_mem i hj)
    cases items with
    | nil => rfl
    | cons c rest =>
      have hfollows : follows source i c = false := by simp [follows, hplain c (by simp)]
      rw [blocks, hfollows, if_neg (by simp), ih]
      rfl

/-- The item at the head of a block is one of the items. -/
theorem mem_of_mem_sortedBlocks {items : List Item} {b : Item × Option Item}
    (h : b ∈ sortedBlocks source items) : b.1 ∈ items := by
  rw [← mem_inOrder, ← flatMap_blocks source (inOrder items)]
  exact List.mem_flatMap.mpr ⟨b, h, List.mem_cons_self⟩

/-- An item that is no comment heads a block. -/
theorem exists_mem_sortedBlocks {items : List Item} {i : Item} (h : i ∈ items)
    (hkind : i.node.kind ≠ "comment") : ∃ c, (i, c) ∈ sortedBlocks source items := by
  rw [← mem_inOrder, ← flatMap_blocks source (inOrder items)] at h
  obtain ⟨⟨j, c⟩, hb, hi⟩ := List.mem_flatMap.mp h
  rcases List.mem_cons.mp hi with rfl | hi
  · exact ⟨c, hb⟩
  · obtain rfl := Option.mem_toList.mp hi
    exact absurd (kind_of_mem_blocks source _ hb).1 hkind

theorem isPackageClause_withTrailing (t : Text) (n : Node) :
    isPackageClause (n.withTrailing t) = isPackageClause n := by
  cases n <;> rfl

theorem isPackageClause_blockNode (b : Item × Option Item) :
    isPackageClause (blockNode source (decl source) b) = (b.1.node.kind == "package_clause") := by
  have hitem : isPackageClause (itemNode source (decl source) b.1) =
      (b.1.node.kind == "package_clause") := by
    unfold itemNode
    split
    · rename_i h
      rw [beq_iff_eq.mp h]
      rfl
    · obtain ⟨hkind, name, h⟩ | ⟨hkind, h⟩ | ⟨hkind, h⟩ | ⟨hkind, -, -, h⟩ := decl_cases source b.1
      · rw [h, hkind]; rfl
      · rw [h, hkind]; rfl
      · have hne : b.1.node.kind ≠ "package_clause" := by
          intro heq
          rw [heq] at hkind
          exact absurd hkind (by decide)
        rw [h, beq_eq_false_iff_ne.mpr hne]
        rfl
      · rw [h, beq_eq_false_iff_ne.mpr hkind]
        rfl
  unfold blockNode
  split
  · exact hitem
  · rw [isPackageClause_withTrailing, hitem]

/-- A file is accepted as soon as the parser saw no error and there is a package clause. -/
theorem ofCst_eq_ok {text : Text} {root : Cst} (herror : root.hasError = false)
    (hpackage : ∃ c ∈ root.namedChildren, c.kind = "package_clause") :
    SourceFile.ofCst text root = .ok (SourceFile.build (Source.ofText text) root) := by
  obtain ⟨c, hc, hkind⟩ := hpackage
  have hitem : (⟨root.kind, c⟩ : Item) ∈ topItems root := List.mem_map.mpr ⟨c, hc, rfl⟩
  obtain ⟨t, ht⟩ := exists_mem_sortedBlocks (Source.ofText text) hitem (by rw [hkind]; decide)
  have hany : (SourceFile.build (Source.ofText text) root).decls.any isPackageClause = true := by
    rw [decls_build, List.any_map, List.any_eq_true]
    refine ⟨_, ht, ?_⟩
    rw [Function.comp_apply, isPackageClause_blockNode, hkind]
    rfl
  simp [SourceFile.ofCst, herror, hany]

/-- An accepted file is built from its tree and has a package clause. -/
theorem ofCst_ok {text : Text} {root : Cst} {f : SourceFile} (h : SourceFile.ofCst text root = .ok f) :
    f = SourceFile.build (Source.ofText text) root ∧ f.decls.any isPackageClause = true := by
  unfold SourceFile.ofCst at h
  split at h
  · exact absurd h (by simp)
  · simp only at h
    split at h
    · next hpackage =>
      obtain rfl := Except.ok.inj h
      exact ⟨rfl, hpackage⟩
    · exact absurd h (by simp)

theorem ofCst_eq_build {text : Text} {root : Cst} {f : SourceFile}
    (h : SourceFile.ofCst text root = .ok f) : f = SourceFile.build (Source.ofText text) root :=
  (ofCst_ok h).1

end Load

/-! ## A small file -/

namespace Sample

/-- Two imports, and a function with a raw string that goes over two rows. -/
def text : Text :=
  utf8 ("package p\n\nimport (\n\t\"fmt\"\n\t\"time\"\n)\n\n" ++
    "func f() \x7b\n\t__start := `a\nb`\n\x7d\n")

/-- A token. -/
def token (kind : String) (start stop : Nat) : Cst :=
  .node ⟨kind, start, stop, false, false, false, none⟩ []

/-- A token with a role, or one that is more than punctuation. -/
def named (kind : String) (start stop : Nat) (field : Option String) : Cst :=
  .node ⟨kind, start, stop, true, false, false, field⟩ []

/-- A node with other nodes below it. -/
def branch (kind : String) (start stop : Nat) (field : Option String) (cs : List Cst) : Cst :=
  .node ⟨kind, start, stop, true, false, false, field⟩ cs

/-- An import entry. -/
def entry (start stop : Nat) : Cst :=
  branch "import_spec" start stop none
    [named "interpreted_string_literal" start stop (some "path")]

def importDecl : Cst :=
  branch "import_declaration" 11 36 none
    [token "import" 11 17,
      branch "import_spec_list" 18 36 none
        [token "(" 18 19, entry 21 26, token "\n" 26 27, entry 28 34, token "\n" 34 35,
          token ")" 35 36]]

def statement : Cst :=
  branch "short_var_declaration" 50 66 none
    [named "identifier" 50 57 none, token ":=" 58 60, named "raw_string_literal" 61 66 none]

def body : Cst :=
  branch "block" 47 68 (some "body")
    [token "\x7b" 47 48, branch "statement_list" 50 67 none [statement, token "\n" 66 67],
      token "\x7d" 67 68]

def function : Cst :=
  branch "function_declaration" 38 68 none
    [token "func" 38 42, named "identifier" 43 44 (some "name"),
      branch "parameter_list" 44 46 (some "parameters") [token "(" 44 45, token ")" 45 46], body]

def packageClause : Cst :=
  branch "package_clause" 0 9 none [token "package" 0 7, named "package_identifier" 8 9 none]

def tree : Cst :=
  branch "source_file" 0 69 none
    [packageClause, token "\n" 9 10, importDecl, token "\n" 36 37, function, token "\n" 68 69]

theorem ofCst_eq : SourceFile.ofCst text tree = .ok (SourceFile.build (Source.ofText text) tree) :=
  Load.ofCst_eq_ok (by decide) ⟨packageClause, List.mem_cons_self, rfl⟩

end Sample

end Stopwatch
