import Mathlib
import Stopwatch.Proofs.Leaves
import Stopwatch.Proofs.Pieces
import Stopwatch.Proofs.Rows

/-!
# Where the pieces of a file stand

A piece is an item somewhere in the concrete tree or the signature of a function (`Load.piece_cases`), so
its tokens are found in order among those of the tree. If every piece has a token, no fragment is empty,
and then printing cannot fail.

* `Cst.Readable`: tokens come in order, and every piece has one.
* `Load.opens_strokes`: the layout of a file loaded from such a tree.
-/

namespace Stopwatch

/-! ## Pieces in a tree -/

namespace Cst

theorem Within.trans {a b c : Cst} (hab : a.Within b) (hbc : b.Within c) : a.Within c := by
  induction hbc with
  | self => exact hab
  | child hd _ ih => exact .child hd ih

/-- Tokens below neighbouring nodes stand in order among those of the tree. -/
theorem leavesAll_isInfix {i : CstInfo} {cs : List Cst} {root : Cst} (h : (Cst.node i cs).Within root) :
    leavesAll i.kind cs <:+: root.leaves "" := by
  cases cs with
  | nil => exact List.nil_infix
  | cons c cs =>
    obtain ⟨q, hq⟩ := leaves_isInfix h ""
    exact hq

end Cst

/-- The item `i` stands below a node of its parent's kind in the tree. -/
def Item.In (root : Cst) (i : Item) : Prop :=
  ∃ info cs, (Cst.node info cs).Within root ∧ i.parent = info.kind ∧ i.node ∈ cs

theorem Item.In.within {root : Cst} {i : Item} (h : i.In root) : i.node.Within root := by
  obtain ⟨info, cs, hwithin, -, hmem⟩ := h
  exact (Cst.Within.child hmem .self).trans hwithin

theorem Item.In.leaves_isInfix {root : Cst} {i : Item} (h : i.In root) (depth : Int) :
    (Piece.ofItem depth i).leaves <:+: root.leaves "" := by
  obtain ⟨info, cs, hwithin, hparent, hmem⟩ := h
  have hitem : Cst.leavesAll info.kind [i.node] <:+: Cst.leavesAll info.kind cs := by
    rw [Cst.leavesAll_eq_flatMap, List.flatMap_singleton]
    exact Cst.leaves_isInfix_leavesAll info.kind hmem
  rw [Piece.leaves, Piece.ofItem, hparent]
  exact hitem.trans (Cst.leavesAll_isInfix hwithin)

namespace Load

theorem in_of_mem_topItems {root : Cst} {i : Item} (h : i ∈ topItems root) : i.In root := by
  obtain ⟨c, hc, rfl⟩ := List.mem_map.mp h
  cases root with
  | node info cs => exact ⟨info, cs, .self, rfl, (List.mem_filter.mp hc).1⟩

theorem in_of_mem_itemsOf {root c : Cst} (hc : c.Within root) {list : String} {i : Item}
    (h : i ∈ itemsOf list c) : i.In root := by
  obtain ⟨d, hd, hi⟩ := List.mem_flatMap.mp h
  cases c with
  | node info cs =>
    have hmem : d ∈ cs := (List.mem_filter.mp hd).1
    split at hi
    · obtain ⟨e, he, rfl⟩ := List.mem_map.mp hi
      cases d with
      | node dinfo ds =>
        exact ⟨dinfo, ds, (Cst.Within.child hmem .self).trans hc, rfl, (List.mem_filter.mp he).1⟩
    · obtain rfl := List.mem_singleton.mp hi
      exact ⟨info, cs, hc, rfl, hmem⟩

theorem within_of_childByField? {name : String} {c b root : Cst} (hc : c.Within root)
    (h : c.childByField? name = some b) : b.Within root := by
  cases c with
  | node info cs => exact (Cst.Within.child (List.mem_of_find?_eq_some h) .self).trans hc

theorem in_of_mem_innerItems {root c : Cst} (hc : c.Within root) {i : Item} (h : i ∈ innerItems c) :
    i.In root := by
  unfold innerItems at h
  split at h
  · exact in_of_mem_itemsOf hc h
  split at h
  · cases hbody : c.childByField? "body" with
    | none => simp [hbody] at h
    | some b =>
      rw [hbody] at h
      exact in_of_mem_itemsOf (within_of_childByField? hc hbody) h
  · exact absurd h List.not_mem_nil

/-- A piece of a top-level item is the item itself, one of the list below it, or the signature of a
function. -/
theorem itemPieces_cases (source : Source) {i : Item} {p : Piece} (h : p ∈ itemPieces source i) :
    (∃ depth j, p = .ofItem depth j ∧ (j = i ∨ j ∈ innerItems i.node)) ∨
      isFunctionKind i.node.kind = true ∧ p = ⟨0, i.node.kind, headNodes i.node⟩ := by
  unfold itemPieces at h
  split at h
  · exact absurd h List.not_mem_nil
  split at h
  · next hkind =>
    obtain ⟨e, he, rfl⟩ := List.mem_map.mp h
    refine Or.inl ⟨1, e.1, rfl, Or.inr ?_⟩
    rw [innerItems, if_pos hkind]
    exact mem_of_mem_sortedBlocks source (List.mem_filter.mp he).1
  next himport =>
  split at h
  · next hkind =>
    rcases List.mem_cons.mp h with rfl | h
    · exact Or.inr ⟨hkind, rfl⟩
    · cases hbody : i.node.childByField? "body" with
      | none => simp [hbody] at h
      | some body =>
        rw [hbody] at h
        obtain ⟨e, he, rfl⟩ := List.mem_map.mp h
        refine Or.inl ⟨1, e.1, rfl, Or.inr ?_⟩
        rw [innerItems, if_neg himport, if_pos hkind, hbody]
        exact mem_of_mem_sortedBlocks source he
  · exact Or.inl ⟨0, i, List.mem_singleton.mp h, Or.inl rfl⟩

/-- A piece is an item of the tree or the signature of a function. -/
theorem piece_cases (source : Source) {root : Cst} {p : Piece} (h : p ∈ pieces source root) :
    (∃ depth i, p = .ofItem depth i ∧ i.In root) ∨
      ∃ c ∈ root.namedChildren, isFunctionKind c.kind = true ∧ p = ⟨0, c.kind, headNodes c⟩ := by
  obtain ⟨b, hb, hp⟩ := List.mem_flatMap.mp h
  have htop := mem_of_mem_sortedBlocks source hb
  have hin := in_of_mem_topItems htop
  obtain ⟨depth, j, rfl, rfl | hj⟩ | ⟨hkind, rfl⟩ := itemPieces_cases source hp
  · exact Or.inl ⟨depth, b.1, rfl, hin⟩
  · exact Or.inl ⟨depth, j, rfl, in_of_mem_innerItems hin.within hj⟩
  · obtain ⟨c, hc, hitem⟩ := List.mem_map.mp htop
    rw [← hitem] at hkind ⊢
    exact Or.inr ⟨c, hc, hkind, rfl⟩

end Load

/-! ## Files in which every piece has a token -/

namespace Layout

theorem lines_step_ne_nil (isFirst inside openEnd : Bool) (raw : Text) (row : List PlacedLeaf)
    (s : State) : (step isFirst inside openEnd raw row s).lines ≠ [] := by
  unfold step
  split
  · simp
  · split
    · split
      · next h => simp [h]
      · simp
    · simp

/-- Tokens that end on the row they start on or below it have a line. -/
theorem ofPlaced_ne_nil {rows : List Text} {ls : List PlacedLeaf} {first last : PlacedLeaf}
    (hfirst : ls.head? = some first) (hlast : ls.getLast? = some last)
    (hle : first.first.row ≤ last.last.row) : ofPlaced rows ls ≠ [] := by
  obtain ⟨n, hn⟩ := Nat.exists_eq_add_of_le hle
  have hcount : last.last.row + 1 - first.first.row = n + 1 := by omega
  simp only [ofPlaced, hfirst, hlast, hcount]
  rw [List.range'_1_concat, List.foldl_append, List.foldl_cons, List.foldl_nil]
  exact fun hnil => lines_step_ne_nil _ _ _ _ _ _ (List.reverse_eq_nil_iff.mp hnil)

end Layout

theorem SourceFile.render_of_opens {f : SourceFile} (h : Stroke.Opens f.strokes) (indent : Text) :
    f.render indent = .ok (Text.finished (Stroke.lines indent f.strokes)) := by
  rw [render, h.run_eq]
  rfl

/-- A concrete tree whose tokens come in order, without overlap, and in which every piece has one. -/
structure Cst.Readable (text : Text) (root : Cst) : Prop where
  bounds : ∀ l ∈ root.leaves "", l.start ≤ l.stop
  ordered : (root.leaves "").Pairwise fun a b => a.stop ≤ b.start
  visible : ∀ p ∈ Load.pieces (Source.ofText text) root, p.leaves ≠ []

namespace Load

theorem leaves_sublist {source : Source} {root : Cst} {p : Piece} (h : p ∈ pieces source root) :
    p.leaves.Sublist (root.leaves "") := by
  obtain ⟨depth, i, rfl, hi⟩ | ⟨c, hc, -, rfl⟩ := piece_cases source h
  · exact (hi.leaves_isInfix depth).sublist
  · cases root with
    | node rootInfo rootChildren =>
      cases c with
      | node info cs =>
        have hwithin : (Cst.node info cs).Within (.node rootInfo rootChildren) :=
          .child (List.mem_filter.mp hc).1 .self
        have hnodes : (headNodes (.node info cs)).Sublist cs := by
          unfold headNodes
          split
          · exact List.filter_sublist
          · exact List.Sublist.refl _
        have hleaves := hnodes.flatMap (Cst.leaves info.kind)
        rw [← Cst.leavesAll_eq_flatMap, ← Cst.leavesAll_eq_flatMap] at hleaves
        exact hleaves.trans (Cst.leavesAll_isInfix hwithin).sublist

theorem start_le_stop_of_pairwise {ls : List Leaf} {first last : Leaf}
    (hordered : ls.Pairwise fun a b => a.stop ≤ b.start) (hbounds : ∀ l ∈ ls, l.start ≤ l.stop)
    (hfirst : ls.head? = some first) (hlast : ls.getLast? = some last) : first.start ≤ last.stop := by
  obtain ⟨rest, rfl⟩ := List.head?_eq_some_iff.mp hfirst
  have hmem : last ∈ first :: rest := List.mem_of_getLast? hlast
  rcases List.mem_cons.mp hmem with rfl | hrest
  · exact hbounds last List.mem_cons_self
  · calc first.start ≤ first.stop := hbounds first List.mem_cons_self
      _ ≤ last.start := (List.pairwise_cons.mp hordered).1 last hrest
      _ ≤ last.stop := hbounds last hmem

/-- A piece whose last token ends behind the start of its first one has lines. -/
theorem fragment_ne_nil_of_le {p : Piece} {first last : Leaf} (hfirst : p.leaves.head? = some first)
    (hlast : p.leaves.getLast? = some last) (hle : first.start ≤ last.stop) (text : Text) :
    (p.fragment (Source.ofText text)).2 ≠ [] := by
  have hplace := congrArg (Option.map (Leaf.place (Source.ofText text))) hfirst
  have hplace' := congrArg (Option.map (Leaf.place (Source.ofText text))) hlast
  rw [← List.head?_map] at hplace
  rw [← List.getLast?_map] at hplace'
  refine Layout.ofPlaced_ne_nil hplace hplace' ?_
  have hrow := Text.row_mono hle text
  rwa [← Source.point_ofText, ← Source.point_ofText] at hrow

theorem fragment_ne_nil {text : Text} {root : Cst} (hroot : root.Readable text) {p : Piece}
    (hp : p ∈ pieces (Source.ofText text) root) : (p.fragment (Source.ofText text)).2 ≠ [] := by
  have hsub := leaves_sublist hp
  have hne := hroot.visible p hp
  have hfirst := List.head?_eq_some_head hne
  have hlast := List.getLast?_eq_some_getLast hne
  exact fragment_ne_nil_of_le hfirst hlast (start_le_stop_of_pairwise (hroot.ordered.sublist hsub)
    (fun l hl => hroot.bounds l (hsub.subset hl)) hfirst hlast) text

/-- **A file loaded from a readable tree can be printed**, and the layout starts with a line. -/
theorem opens_strokes {text : Text} {root : Cst} (hroot : root.Readable text) :
    Stroke.Opens (SourceFile.build (Source.ofText text) root).strokes := by
  refine Print.opens_decls none (fun n hn => isDeclaration_of_mem_build _ hn) fun p hp => ?_
  rw [declFragments_build] at hp
  obtain ⟨piece, hpiece, rfl⟩ := List.mem_map.mp hp
  exact fragment_ne_nil hroot hpiece

theorem render_eq {text : Text} {root : Cst} (hroot : root.Readable text) (indent : Text) :
    (SourceFile.build (Source.ofText text) root).render indent =
      .ok (Text.finished
        (Stroke.lines indent (SourceFile.build (Source.ofText text) root).strokes)) :=
  SourceFile.render_of_opens (opens_strokes hroot) indent

end Load

/-! ## The pieces of the small file -/

namespace Sample

open Load

theorem sortedBlocks_top (source : Source) : sortedBlocks source (topItems tree) =
    [(⟨"source_file", packageClause⟩, none), (⟨"source_file", importDecl⟩, none),
      (⟨"source_file", function⟩, none)] := by
  rw [sortedBlocks, inOrder_eq_self (by decide)]
  rfl

theorem sortedBlocks_body (source : Source) : sortedBlocks source (itemsOf "statement_list" body) =
    [(⟨"statement_list", statement⟩, none)] := by
  rw [sortedBlocks, inOrder_eq_self (by decide)]
  rfl

theorem sortedBlocks_imports (source : Source) :
    sortedBlocks source (itemsOf "import_spec_list" importDecl) =
      [(⟨"import_spec_list", entry 21 26⟩, none), (⟨"import_spec_list", entry 28 34⟩, none)] := by
  rw [sortedBlocks, inOrder_eq_self (by decide)]
  rfl

theorem importPieces_eq (source : Source) : importPieces source importDecl = [] := by
  rw [importPieces, sortedBlocks_imports]
  rfl

theorem pieces_eq (source : Source) : pieces source tree =
    [⟨0, "function_declaration", headNodes function⟩, .ofItem 1 ⟨"statement_list", statement⟩] := by
  rw [pieces, sortedBlocks_top]
  have hbody : bodyPieces source body = [.ofItem 1 ⟨"statement_list", statement⟩] := by
    rw [bodyPieces, sortedBlocks_body]
    rfl
  have himport : itemPieces source ⟨"source_file", importDecl⟩ = [] := importPieces_eq source
  have hfunction : itemPieces source ⟨"source_file", function⟩ =
      ⟨0, "function_declaration", headNodes function⟩ :: bodyPieces source body := rfl
  rw [List.flatMap_cons, List.flatMap_cons, List.flatMap_cons, himport, hfunction, hbody]
  rfl

theorem readable : tree.Readable text where
  bounds := by decide
  ordered := by decide
  visible := by
    rw [pieces_eq]
    decide

end Sample

end Stopwatch
