import Mathlib
import Stopwatch.Proofs.PrintedRows
import Stopwatch.Proofs.Programs

/-!
# The rows of a loaded file

What a loaded file keeps of its source, as far as the rows it is printed as depend on it: which source rows
its nodes cover, and the rows of the fragments. A tree whose texts stand on one row and whose pieces have tokens
in order gives neat nodes.

* `Cst.Spaced`, `Cst.Orderly`: the concrete trees.
* `Node.origin`, `Item.origin`: what a declaration keeps, and what there is to keep of an item.
* `Cst.Orderly.neat_build`, `Cst.Orderly.origins_build`: a loaded file is neat and keeps all of it.
-/

namespace Stopwatch

open Text

/-! ## Trees -/

namespace Load

/-- What is read as the name in a package clause. -/
def packageName (text : Text) (i : Item) : Text :=
  ((i.node.namedChildren.head?).getD i.node).text (Source.ofText text)

/-- What is read as the path of an import entry. -/
def pathLiteral (text : Text) (e : Item) : Text :=
  ((e.node.childByField? "path").getD e.node).text (Source.ofText text)

/-- What is read as the name of an import entry. -/
def entryName? (text : Text) (e : Item) : Option Text :=
  (e.node.childByField? "name").map (·.text (Source.ofText text))

/-- The entries of the import declarations of a file. -/
def importEntries (root : Cst) : List Item :=
  ((topItems root).filter (·.node.kind == "import_declaration")).flatMap fun i =>
    (itemsOf "import_spec_list" i.node).filter (·.node.kind != "comment")

end Load

/-- A concrete tree of tokens in order with white space between them. Every item has one, covers its tokens
exactly, begins with something else than white space and does not end with a line feed; so does the first token
of a row. Package names, import names and import paths stand on one row. -/
structure Cst.Spaced (text : Text) (root : Cst) : Prop where
  tokens : Leaf.Laid (Source.ofText text) (root.leaves "")
  items : ∀ i ∈ Load.allItems root, i.Formed text
  packages : ∀ i ∈ Load.topItems root, i.node.kind = "package_clause" →
    (Load.packageName text i).OneRow
  entries : ∀ e ∈ Load.importEntries root,
    (Load.pathLiteral text e).OneRow ∧ ∀ n ∈ Load.entryName? text e, n.OneRow

instance (text : Text) (root : Cst) : Decidable (root.Spaced text) :=
  decidable_of_iff (Leaf.Laid (Source.ofText text) (root.leaves "") ∧
      (∀ i ∈ Load.allItems root, i.Formed text) ∧
      (∀ i ∈ Load.topItems root, i.node.kind = "package_clause" → (Load.packageName text i).OneRow) ∧
      ∀ e ∈ Load.importEntries root,
        (Load.pathLiteral text e).OneRow ∧ ∀ n ∈ Load.entryName? text e, n.OneRow)
    ⟨fun ⟨htokens, hitems, hpackages, hentries⟩ => ⟨htokens, hitems, hpackages, hentries⟩,
      fun h => ⟨h.tokens, h.items, h.packages, h.entries⟩⟩

/-- Besides, package names and import paths are not empty, and what a function has in front of its body are its
first tokens, of which there is one. -/
structure Cst.Orderly (text : Text) (root : Cst) : Prop extends root.Spaced text where
  named : ∀ i ∈ Load.topItems root, i.node.kind = "package_clause" → Load.packageName text i ≠ []
  paths : ∀ e ∈ Load.importEntries root, Load.pathLiteral text e ≠ []
  heads : ∀ i ∈ Load.topItems root, Load.isFunctionKind i.node.kind = true →
    Load.headLeaves i.node ≠ [] ∧ Load.headLeaves i.node <+: i.leaves

namespace Cst

variable {text : Text} {root : Cst} {i e : Item}

theorem Spaced.laid (h : root.Spaced text) (hi : i ∈ Load.allItems root) :
    Leaf.Laid (Source.ofText text) i.leaves :=
  h.tokens.of_infix (IsProgram.leaves_isInfix hi) (h.items i hi).solid

theorem Orderly.laid_head (h : root.Orderly text) (hi : i ∈ Load.topItems root)
    (hkind : Load.isFunctionKind i.node.kind = true) :
    Leaf.Laid (Source.ofText text) (Load.headLeaves i.node) := by
  obtain ⟨hne, more, hmore⟩ := h.heads i hi hkind
  have hmem := IsProgram.top_mem hi
  refine h.tokens.of_infix (List.IsInfix.trans ⟨[], more, hmore⟩ (IsProgram.leaves_isInfix hmem))
    fun l hl => (h.items i hmem).solid l ?_
  rw [← hmore, List.head?_append_of_ne_nil _ hne, hl]

end Cst

theorem Load.mem_importEntries {root : Cst} {i e : Item} (hi : i ∈ topItems root)
    (hkind : i.node.kind = "import_declaration") (he : e ∈ itemsOf "import_spec_list" i.node)
    (hcomment : e.node.kind ≠ "comment") : e ∈ importEntries root :=
  List.mem_flatMap.mpr ⟨i, List.mem_filter.mpr ⟨hi, by simp [hkind]⟩,
    List.mem_filter.mpr ⟨he, by simpa using hcomment⟩⟩

/-! ## Neat nodes -/

theorem Leaf.Laid.neat_fragment {text : Text} {ls : List Leaf} (h : Laid (Source.ofText text) ls)
    (hne : ls ≠ []) : (fragment text ls).Neat :=
  ⟨h.fragment_ne_nil (List.head?_eq_some_head hne) (List.getLast?_eq_some_getLast hne), h.tidy_fragment hne⟩

namespace Load

variable {text : Text} {root : Cst} {i e : Item} {m : Mark}

/-- The node of a block is that of its item with another mark. -/
theorem exists_blockNode_eq {convert : Item → Node} (hconvert : ∀ i, (convert i).mark.trailing = none)
    {items : List Item} {b : Item × Option Item} (hb : b ∈ sortedBlocks (Source.ofText text) items) :
    ∃ m : Mark, m.comment.OneRow ∧ blockNode (Source.ofText text) convert b =
      (itemNode (Source.ofText text) convert b.1).withMark m := by
  have hinline := newline_notMem_comment hconvert hb
  obtain ⟨i, c⟩ := b
  cases c with
  | none =>
    have htrailing := @trailing_itemNode (Source.ofText text) convert hconvert i
    refine ⟨(itemNode (Source.ofText text) convert i).mark, ?_, ?_⟩
    · rw [Mark.comment, htrailing]
      exact oneRow_nil
    · simp only [blockNode]
      cases itemNode (Source.ofText text) convert i <;> rfl
  | some c =>
    refine ⟨_, ⟨?_, hinline⟩, ?_⟩
    · simp only [blockNode, Node.withTrailing, Node.mark_withMark, Mark.comment]
      split
      · next b t heq =>
        have ht := trimmed_trimEndWide (c.node.text (Source.ofText text))
        rw [Option.some.inj heq] at ht
        exact ht.append (List.cons_ne_nil b t) [32]
      · exact trimmed_nil
    · simp only [blockNode, Node.withTrailing, Node.mark_withMark]

/-- What an item is as text. -/
theorem neat_item (h : root.Spaced text) (hi : i ∈ allItems root) :
    (Fragment.ofNodes (Source.ofText text) i.parent [i.node]).Neat := by
  rw [Fragment.ofNodes_singleton]
  exact (h.laid hi).neat_fragment (h.items i hi).visible

theorem neat_stmt (h : root.Spaced text) (hi : i ∈ allItems root) (hm : m.comment.OneRow) :
    ((itemNode (Source.ofText text) (stmt (Source.ofText text)) i).withMark m).NeatItem := by
  have hfragment := neat_item h hi
  unfold itemNode
  split
  · exact .comment hm hfragment
  · exact .raw _ hm hfragment

theorem neat_entry (h : root.Orderly text) (hi : i ∈ topItems root)
    (hkind : i.node.kind = "import_declaration") (he : e ∈ itemsOf "import_spec_list" i.node)
    (hm : m.comment.OneRow) :
    ((itemNode (Source.ofText text) (importSpec (Source.ofText text)) e).withMark m).NeatItem := by
  by_cases hcomment : e.node.kind = "comment"
  · rw [itemNode, if_pos (by simp [hcomment])]
    exact .comment hm (neat_item h.toSpaced (Cst.IsProgram.entry_mem hi hkind he))
  · have hmem := mem_importEntries hi hkind he hcomment
    obtain ⟨hpath, hname⟩ := h.entries e hmem
    rw [itemNode, if_neg (by simpa using hcomment)]
    exact .entry hm ⟨h.paths e hmem, hpath, fun n hn => (hname n hn).inline⟩

theorem neat_decl (h : root.Orderly text) (hi : i ∈ topItems root) (hm : m.comment.OneRow) :
    ((itemNode (Source.ofText text) (decl (Source.ofText text)) i).withMark m).NeatDecl := by
  have hfragment := neat_item h.toSpaced (Cst.IsProgram.top_mem hi)
  unfold itemNode
  split
  · exact .comment hm hfragment
  obtain ⟨hkind, -, -⟩ | ⟨hkind, heq⟩ | ⟨hkind, heq⟩ | ⟨-, -, -, heq⟩ := decl_cases (Source.ofText text) i
  · rw [decl, if_pos (by simp [hkind])]
    exact .package hm (h.named i hi hkind) (h.packages i hi hkind)
  · rw [heq, importDecl_eq]
    refine .imports _ hm fun n hn => ?_
    obtain ⟨b, hb, rfl⟩ := List.mem_map.mp hn
    obtain ⟨m', hm', hnode⟩ := exists_blockNode_eq (trailing_importSpec _) hb
    rw [hnode]
    exact neat_entry h hi hkind (mem_of_mem_sortedBlocks _ hb) hm'
  · have hsignature := (h.laid_head hi hkind).neat_fragment (h.heads i hi hkind).1
    rw [heq, funcDecl_eq]
    cases hbody : i.node.childByField? "body" with
    | none => exact .bodyless hm hsignature
    | some c =>
      rw [Option.map_some, body_eq]
      refine .function hm hsignature fun n hn => ?_
      obtain ⟨b, hb, rfl⟩ := List.mem_map.mp hn
      obtain ⟨m', hm', hnode⟩ := exists_blockNode_eq (trailing_stmt _) hb
      rw [hnode]
      exact neat_stmt h.toSpaced
        (Cst.IsProgram.stmt_mem hi hkind hbody (mem_of_mem_sortedBlocks _ hb)) hm'
  · rw [heq]
    exact .raw _ hm hfragment

end Load

/-- **The declarations of a loaded file are neat.** -/
theorem Cst.Orderly.neat_build {text : Text} {root : Cst} (h : root.Orderly text) :
    ∀ n ∈ (SourceFile.build (Source.ofText text) root).decls, n.NeatDecl := by
  intro n hn
  rw [Load.decls_build] at hn
  obtain ⟨b, hb, rfl⟩ := List.mem_map.mp hn
  obtain ⟨m, hm, hnode⟩ := Load.exists_blockNode_eq (Load.trailing_decl _) hb
  rw [hnode]
  exact Load.neat_decl h (Load.mem_of_mem_sortedBlocks _ hb) hm

/-! ## Source rows -/

/-- What a declaration keeps of the source: the rows it covers, those that the nodes of its list cover, and the
rows of its fragments. -/
@[ext]
structure Origin where
  span : Option Span
  inner : List Span
  texts : List (List Row)
  deriving DecidableEq

/-- The nodes of the list below a declaration: the entries of an import declaration, or the statements of a
function. -/
def Node.listed : Node → List Node
  | importDecl _ entries _ => entries
  | funcDecl _ _ (some b) => b.stmts
  | _ => []

/-- What a declaration keeps of the source. -/
def Node.origin (n : Node) : Origin where
  span := n.mark.span
  inner := n.listed.filterMap fun k => k.mark.span
  texts := (Print.declFragments n).map fun f => f.2.map FragmentLine.row

/-- The source rows from the first token of an item to its last one. -/
def Item.span? (text : Text) (i : Item) : Option Span :=
  match i.leaves.head?, i.leaves.getLast? with
  | some a, some b => some ⟨(text.point a.start).row, (text.point b.stop).row⟩
  | _, _ => none

/-- What there is of a top-level item in the source: the rows it covers, those that the items of its list
cover, and the rows of its pieces without the white space that is not kept. -/
def Item.origin (text : Text) (i : Item) : Origin where
  span := i.span? text
  inner := (Load.sortedBlocks (Source.ofText text) (Load.innerItems i.node)).filterMap fun b => b.1.span? text
  texts := (Load.itemPieces (Source.ofText text) i).map fun p =>
    Row.squeeze (Leaf.relaidRows (Source.ofText text) p.leaves)

/-- What those declarations that come from the source keep of it. -/
def originsOf (ds : List Node) : List Origin := (ds.map Node.origin).filter fun o => o.span.isSome

namespace Load

variable {text : Text} {root : Cst} {i : Item}

theorem span?_eq (h : root.Spaced text) (hi : i ∈ allItems root) :
    i.span? text = some ⟨i.node.startRow (Source.ofText text), i.node.endRow (Source.ofText text)⟩ := by
  have hformed := h.items i hi
  have hfirst := List.head?_eq_some_head hformed.visible
  have hlast := List.getLast?_eq_some_getLast hformed.visible
  obtain ⟨hlt, hend⟩ := (h.laid hi).bounds _ (List.mem_of_getLast? hlast)
  rw [hformed.startRow_eq hfirst, hformed.endRow_eq hlast hlt hend]
  simp only [Item.span?, hfirst, hlast]

/-- The nodes of a list cover the rows of their items. -/
theorem filterMap_span_blocks (h : root.Spaced text) {convert : Item → Node}
    (hmark : ∀ i, (convert i).mark = markOf (Source.ofText text) i.node) {items : List Item}
    (hitems : ∀ i ∈ items, i ∈ allItems root) :
    ((sortedBlocks (Source.ofText text) items).map (blockNode (Source.ofText text) convert)).filterMap
        (fun k => k.mark.span) =
      (sortedBlocks (Source.ofText text) items).filterMap fun b => b.1.span? text := by
  rw [List.filterMap_map]
  refine List.filterMap_congr fun b hb => ?_
  rw [Function.comp_apply, span_blockNode (mark_itemNode _ hmark),
    span?_eq h (hitems b.1 (mem_of_mem_sortedBlocks _ hb))]

/-- The list below a declaration covers the rows of its items. -/
theorem inner_blockNode (h : root.Spaced text) {b : Item × Option Item} (hi : b.1 ∈ topItems root) :
    (blockNode (Source.ofText text) (decl (Source.ofText text)) b).origin.inner =
      (b.1.origin text).inner := by
  have hlisted : ∀ n : Node, ∀ t, (n.withTrailing t).listed = n.listed := by
    intro n t
    cases n with
    | funcDecl m head body => cases body <;> rfl
    | _ => rfl
  have hblock : (blockNode (Source.ofText text) (decl (Source.ofText text)) b).listed =
      (itemNode (Source.ofText text) (decl (Source.ofText text)) b.1).listed := by
    unfold blockNode
    split
    · rfl
    · exact hlisted _ _
  have hnone : sortedBlocks (Source.ofText text) [] = [] := by
    rw [sortedBlocks, inOrder_eq_self List.Pairwise.nil]
    rfl
  simp only [Node.origin, Item.origin, hblock]
  obtain ⟨i, c⟩ := b
  simp only at hi ⊢
  by_cases hcomment : i.node.kind = "comment"
  · rw [itemNode, if_pos (by simp [hcomment]), innerItems, hcomment, if_neg (by decide), if_neg (by decide),
      hnone]
    rfl
  rw [itemNode, if_neg (by simpa using hcomment)]
  obtain ⟨hkind, name, heq⟩ | ⟨hkind, heq⟩ | ⟨hkind, heq⟩ | ⟨-, himport, hfunction, heq⟩ :=
    decl_cases (Source.ofText text) i
  · rw [heq, innerItems, hkind, if_neg (by decide), if_neg (by decide), hnone]
    rfl
  · rw [heq, importDecl_eq, innerItems, if_pos (by simp [hkind])]
    exact filterMap_span_blocks h (fun _ => rfl) fun e he => Cst.IsProgram.entry_mem hi hkind he
  · have himport : i.node.kind ≠ "import_declaration" := fun heq => by
      rw [heq] at hkind
      exact absurd hkind (by decide)
    rw [heq, funcDecl_eq, innerItems, if_neg (by simpa using himport), if_pos hkind]
    cases hbody : i.node.childByField? "body" with
    | none => rw [Option.map_none, Option.map_none, Option.getD_none, hnone]; rfl
    | some body =>
      rw [Option.map_some, body_eq]
      exact filterMap_span_blocks h (fun _ => rfl) fun e he => Cst.IsProgram.stmt_mem hi hkind hbody he
  · rw [heq, innerItems, if_neg (by simpa using himport), hfunction, if_neg (by simp), hnone]
    rfl

/-- The tokens of a piece are in order. -/
theorem laid_piece (h : root.Orderly text) (hi : i ∈ topItems root) {p : Piece}
    (hp : p ∈ itemPieces (Source.ofText text) i) : Leaf.Laid (Source.ofText text) p.leaves := by
  obtain ⟨depth, j, rfl, hj⟩ | ⟨hkind, rfl⟩ := itemPieces_cases _ hp
  · rw [Piece.leaves_ofItem]
    refine h.laid ?_
    rcases hj with rfl | hj
    · exact Cst.IsProgram.top_mem hi
    · exact List.mem_append_right _ (List.mem_flatMap.mpr ⟨i, hi, hj⟩)
  · exact h.laid_head hi hkind

theorem origin_blockNode (h : root.Orderly text) {b : Item × Option Item} (hi : b.1 ∈ topItems root) :
    (blockNode (Source.ofText text) (decl (Source.ofText text)) b).origin = b.1.origin text := by
  have hspan : (blockNode (Source.ofText text) (decl (Source.ofText text)) b).origin.span =
      (b.1.origin text).span :=
    (span_blockNode (mark_itemNode _ (mark_decl _)) b).trans
      (span?_eq h.toSpaced (Cst.IsProgram.top_mem hi)).symm
  have htexts : (blockNode (Source.ofText text) (decl (Source.ofText text)) b).origin.texts =
      (b.1.origin text).texts := by
    simp only [Node.origin, Item.origin]
    rw [declFragments_blockNode, itemPieces_fragment, List.map_map]
    exact List.map_congr_left fun p hp => Layout.rows_ofPlaced (laid_piece h hi hp)
  exact Origin.ext hspan (inner_blockNode h.toSpaced hi) htexts

end Load

/-- **A loaded file keeps what there is of its items.** -/
theorem Cst.Orderly.origins_build {text : Text} {root : Cst} (h : root.Orderly text) :
    originsOf (SourceFile.build (Source.ofText text) root).decls =
      (Load.sortedBlocks (Source.ofText text) (Load.topItems root)).map fun b => b.1.origin text := by
  have horigins : (SourceFile.build (Source.ofText text) root).decls.map Node.origin =
      (Load.sortedBlocks (Source.ofText text) (Load.topItems root)).map fun b => b.1.origin text := by
    rw [Load.decls_build, List.map_map]
    exact List.map_congr_left fun b hb => Load.origin_blockNode h (Load.mem_of_mem_sortedBlocks _ hb)
  rw [originsOf, horigins, List.filter_eq_self]
  intro o ho
  obtain ⟨b, hb, rfl⟩ := List.mem_map.mp ho
  have hmem := Cst.IsProgram.top_mem (Load.mem_of_mem_sortedBlocks _ hb)
  rw [Item.origin, Load.span?_eq h.toSpaced hmem]
  rfl

end Stopwatch
