import Mathlib
import Stopwatch.Proofs.RereadDecls

/-!
# The stretches of a printed file

A loaded file is printed in stretches: pieces of the source, comments behind the line above, and what the
layout adds of its own. The latter is spelled out here: the package clause, imports, parentheses and braces,
and empty lines. `Load.stretches` reads them off the concrete tree.

Results:
* `Load.strokes_stretches`: printing a loaded file carries out the strokes of its stretches, and no others.
* `Load.kept_stretches`: each signature, statement, comment and declaration that is kept as text is one
  stretch, in the order of `Load.texts`.
* `Load.pieces_stretches`: those of them with lines of their own are the pieces.
-/

namespace Stopwatch

/-- A comment without the white space at its end. -/
def Item.remark (source : Source) (i : Item) : Text := (i.node.text source).trimEndWide

/-- A stretch of a printed file. -/
inductive Stretch where
  /-- Text of the source, on lines of its own. -/
  | piece (p : Piece)
  /-- A comment behind the line above. The depth is that of the list it comes from. -/
  | comment (depth : Int) (i : Item)
  /-- A line of the layout. -/
  | line (depth : Int) (text : Text)
  /-- An empty line. -/
  | blank
  /-- A brace or two behind the line above. -/
  | brace (text : Text)

namespace Stretch

/-- The strokes of a stretch. -/
def strokes (source : Source) : Stretch → List Stroke
  | piece p => Print.fragment (p.fragment source).1 (p.fragment source).2
  | comment _ i => Print.trailing { trailing := some (i.remark source) }
  | line depth t => [.line depth t]
  | blank => [.raw []]
  | brace t => [.extend t]

/-- The piece on lines of its own. -/
def piece? : Stretch → Option Piece
  | piece p => some p
  | _ => none

/-- What is kept as text, a comment behind a line included. -/
def kept? : Stretch → Option Piece
  | piece p => some p
  | comment depth i => some (.ofItem depth i)
  | _ => none

end Stretch

namespace Load

/-! ## The stretches of a concrete tree -/

section Stretches

variable (text : Text)

/-- An empty line, if there is an empty row between two items. -/
def gapStretches (before : Option Item) (i : Item) : List Stretch :=
  if before.any fun a =>
      a.node.endRow (Source.ofText text) + 1 < i.node.startRow (Source.ofText text) then [.blank]
  else []

/-- The stretches of blocks below each other: `own` is what an item is printed in, without the comment behind
it. -/
def blockStretches (own : Item → List Stretch) (depth : Int) :
    Option Item → List (Item × Option Item) → List Stretch
  | _, [] => []
  | before, b :: bs =>
    gapStretches text before b.1 ++ (own b.1 ++ b.2.toList.map (.comment depth)) ++
      blockStretches own depth (some b.1) bs

/-- The stretches of a list of items. -/
def listStretches (own : Item → List Stretch) (depth : Int) (items : List Item) : List Stretch :=
  blockStretches text own depth none (sortedBlocks (Source.ofText text) items)

/-- An entry of a list of imports, or a comment in it. -/
def entryStretches (i : Item) : List Stretch :=
  if i.node.kind == "comment" then [.piece (.ofItem 1 i)] else [.line 1 (entryText text i)]

/-- The only entry of an import declaration without parentheses, with the comment behind it. -/
def loneEntry? (c : Cst) : Option (Item × Option Item) :=
  match c.namedChildren.any (·.kind == "import_spec_list"),
    sortedBlocks (Source.ofText text) (itemsOf "import_spec_list" c) with
  | false, [b] => if b.1.node.kind == "comment" then none else some b
  | _, _ => none

/-- The stretches of an import declaration: a single line, or a list in parentheses. -/
def importStretches (c : Cst) : List Stretch :=
  match loneEntry? text c with
  | some b => .line 0 (utf8 "import " ++ entryText text b.1) :: b.2.toList.map (.comment 1)
  | none =>
    .line 0 (utf8 "import (") ::
      (listStretches text (entryStretches text) 1 (itemsOf "import_spec_list" c) ++
        [.line 0 (utf8 ")")])

/-- The stretches of the body of a function. -/
def bodyStretches (c : Cst) : List Stretch :=
  if (sortedBlocks (Source.ofText text) (itemsOf "statement_list" c)).isEmpty then
    [.brace (utf8 " \x7b\x7d")]
  else
    .brace (utf8 " \x7b") ::
      (listStretches text (fun i => [.piece (.ofItem 1 i)]) 1 (itemsOf "statement_list" c) ++
        [.line 0 (utf8 "\x7d")])

/-- The stretches of a top-level item. -/
def declStretches (i : Item) : List Stretch :=
  if i.node.kind == "package_clause" then
    [.line 0 (utf8 "package " ++
      ((i.node.namedChildren.head?).getD i.node).text (Source.ofText text))]
  else if i.node.kind == "import_declaration" then importStretches text i.node
  else if isFunctionKind i.node.kind then
    .piece ⟨0, i.node.kind, headNodes i.node⟩ ::
      ((i.node.childByField? "body").map (bodyStretches text)).getD []
  else [.piece (.ofItem 0 i)]

/-- **The stretches of a file.** -/
def stretches (root : Cst) : List Stretch := listStretches text (declStretches text) 0 (topItems root)

end Stretches

/-! ## Their strokes -/

section Strokes

variable {text : Text} {own : Item → List Stretch} {depth : Int}

theorem strokes_gapStretches (before : Option Item) (i : Item) :
    (gapStretches text before i).flatMap (Stretch.strokes (Source.ofText text)) =
      Print.blank (before.any fun a =>
        a.node.endRow (Source.ofText text) + 1 < i.node.startRow (Source.ofText text)) := by
  unfold gapStretches Print.blank
  split <;> rfl

/-- A block is printed as its item and the comment behind it. -/
theorem strokes_block {x : Reading} (hx : x.Faithful) (hown : ∀ i, (own i).flatMap
    (Stretch.strokes (Source.ofText x.text)) = x.print (x.old i)) (b : Item × Option Item) :
    (own b.1 ++ b.2.toList.map (Stretch.comment depth)).flatMap (Stretch.strokes (Source.ofText x.text)) =
      x.print (x.oldBlock b) := by
  obtain ⟨i, c⟩ := b
  rw [List.flatMap_append, hown]
  cases c with
  | none => exact List.append_nil _
  | some c =>
    have htrailing := hx.trailing (Source.ofText x.text) i (c.remark (Source.ofText x.text))
    exact (congrArg _ (List.append_nil _)).trans htrailing.symm

theorem strokes_blockStretches {x : Reading} (hx : x.Faithful) (hown : ∀ i, (own i).flatMap
    (Stretch.strokes (Source.ofText x.text)) = x.print (x.old i)) {before : Option Item}
    {m : Option Mark} (hm : m.map Mark.span = before.map fun i =>
      some ⟨i.node.startRow (Source.ofText x.text), i.node.endRow (Source.ofText x.text)⟩)
    (bs : List (Item × Option Item)) :
    (blockStretches x.text own depth before bs).flatMap (Stretch.strokes (Source.ofText x.text)) =
      Print.spread x.print m (bs.map x.oldBlock) := by
  induction bs generalizing before m with
  | nil => rfl
  | cons b bs ih =>
    have hspan := hx.span_blockNode (Source.ofText x.text) b
    have hblank : ((m.bind (·.blankBetween (x.oldBlock b).mark)).getD false) = before.any fun a =>
        a.node.endRow (Source.ofText x.text) + 1 < b.1.node.startRow (Source.ofText x.text) := by
      rw [Reading.oldBlock]
      cases before with
      | none =>
        rw [Option.map_eq_none_iff.mp hm]
        rfl
      | some a =>
        obtain ⟨k, rfl, hk⟩ := Option.map_eq_some_iff.mp hm
        simp [Mark.blankBetween, hk, hspan]
    have hrest := @ih (some b.1) (some (x.oldBlock b).mark) (congrArg some hspan)
    rw [blockStretches, List.flatMap_append, List.flatMap_append, strokes_gapStretches,
      strokes_block hx hown, hrest, List.map_cons, Print.spread, hblank]

/-- The stretches of a list are printed as its nodes. -/
theorem strokes_listStretches {x : Reading} (hx : x.Faithful) (hown : ∀ i, (own i).flatMap
    (Stretch.strokes (Source.ofText x.text)) = x.print (x.old i)) (items : List Item) :
    (listStretches x.text own depth items).flatMap (Stretch.strokes (Source.ofText x.text)) =
      x.strokes (sortedBlocks (Source.ofText x.text) items) :=
  strokes_blockStretches hx hown rfl _

variable (text)

theorem strokes_piece (i : Item) :
    (Stretch.piece (.ofItem depth i)).strokes (Source.ofText text) =
      Print.fragment depth (Leaf.fragment text i.leaves) := by
  rw [← Fragment.ofNodes_singleton]
  rfl

theorem strokes_entryStretches (i : Item) :
    (entryStretches text i).flatMap (Stretch.strokes (Source.ofText text)) =
      Print.stmt 1 ((Reading.entries text text []).old i) := by
  unfold entryStretches
  split
  · next hkind =>
    rw [List.flatMap_singleton, strokes_piece]
    exact (print_comment text (beq_iff_eq.mp hkind) _ 1).1.symm
  · next hkind =>
    exact (print_entry text (by simpa using hkind) 1).symm

/-- The node of a block whose item is a comment. -/
theorem blockNode_of_comment (source : Source) (convert : Item → Node) {b : Item × Option Item}
    (h : b.1.node.kind = "comment") : ∃ m f, blockNode source convert b = .comment m f := by
  obtain ⟨i, c⟩ := b
  have hitem : itemNode source convert i = commentItem source i := if_pos (by simp [h])
  cases c with
  | none => exact ⟨_, _, hitem⟩
  | some c =>
    rw [blockNode, hitem]
    exact ⟨_, _, rfl⟩

/-- Whether an import declaration is printed on a single line. -/
theorem importDecl_cases (c : Cst) :
    (∃ b, loneEntry? text c = some b ∧
      c.namedChildren.any (·.kind == "import_spec_list") = false ∧
      sortedBlocks (Source.ofText text) (itemsOf "import_spec_list" c) = [b] ∧
      b.1.node.kind ≠ "comment") ∨
    loneEntry? text c = none ∧ ∀ specs : List Node,
      specs = (sortedBlocks (Source.ofText text) (itemsOf "import_spec_list" c)).map
        (blockNode (Source.ofText text) (importSpec (Source.ofText text))) →
      Print.importDecl specs (c.namedChildren.any (·.kind == "import_spec_list")) =
        .line 0 (utf8 "import (") :: (Print.sequence 1 none specs ++ [.line 0 (utf8 ")")]) := by
  unfold loneEntry?
  cases c.namedChildren.any (·.kind == "import_spec_list") with
  | true => exact Or.inr ⟨rfl, fun specs _ => rfl⟩
  | false =>
    match sortedBlocks (Source.ofText text) (itemsOf "import_spec_list" c) with
    | [] => exact Or.inr ⟨rfl, by rintro _ rfl; rfl⟩
    | b :: d :: bs => exact Or.inr ⟨rfl, by rintro _ rfl; simp [Print.importDecl]⟩
    | [b] =>
      by_cases hkind : b.1.node.kind = "comment"
      · refine Or.inr ⟨by simp [hkind], ?_⟩
        rintro _ rfl
        obtain ⟨m, f, hnode⟩ := blockNode_of_comment (Source.ofText text)
          (importSpec (Source.ofText text)) hkind
        rw [List.map_singleton, hnode]
        rfl
      · exact Or.inl ⟨b, by simp [hkind], rfl, rfl, hkind⟩

theorem strokes_importStretches {i : Item} (h : i.node.kind = "import_declaration") :
    (importStretches text i.node).flatMap (Stretch.strokes (Source.ofText text)) =
      Print.decl (itemNode (Source.ofText text) (decl (Source.ofText text)) i) := by
  rw [itemNode_import text h, importStretches]
  obtain ⟨⟨e, c⟩, hlone, hgrouped, hblocks, hkind⟩ | ⟨hlone, hlist⟩ := importDecl_cases text i.node
  · rw [hlone, hgrouped, hblocks, List.map_singleton]
    cases c with
    | none =>
      rw [blockNode, itemNode, if_neg (by simpa using hkind)]
      rfl
    | some c =>
      rw [blockNode, itemNode, if_neg (by simpa using hkind)]
      rfl
  · have hentries : (listStretches text (entryStretches text) 1
        (itemsOf "import_spec_list" i.node)).flatMap (Stretch.strokes (Source.ofText text)) =
          (Reading.entries text text []).strokes _ :=
      strokes_listStretches (Reading.faithful_entries text text []) (strokes_entryStretches text) _
    rw [hlone, Print.decl, hlist _ rfl, Print.sequence_eq_spread]
    simp only [List.flatMap_cons, List.flatMap_append, hentries]
    exact (List.append_nil _).symm

theorem strokes_bodyStretches (c : Cst) :
    (bodyStretches text c).flatMap (Stretch.strokes (Source.ofText text)) =
      Print.braced (sortedBlocks (Source.ofText text) (itemsOf "statement_list" c)).isEmpty
        (Print.spread (Print.stmt 1) none
          ((sortedBlocks (Source.ofText text) (itemsOf "statement_list" c)).map
            (blockNode (Source.ofText text) (stmt (Source.ofText text))))) := by
  have hstmt : ∀ i, [Stretch.piece (.ofItem 1 i)].flatMap (Stretch.strokes (Source.ofText text)) =
      Print.stmt 1 ((Reading.stmts text text []).old i) := by
    intro i
    rw [List.flatMap_singleton, strokes_piece]
    exact (print_stmt text i 1).symm
  have hstmts : (listStretches text (fun i => [.piece (.ofItem 1 i)]) 1
      (itemsOf "statement_list" c)).flatMap (Stretch.strokes (Source.ofText text)) =
        (Reading.stmts text text []).strokes _ :=
    strokes_listStretches (Reading.faithful_stmts text text []) hstmt _
  unfold bodyStretches Print.braced
  split
  · rfl
  · simp only [List.flatMap_cons, List.flatMap_append, hstmts]
    rfl

/-- A top-level item is printed in its stretches. -/
theorem strokes_declStretches (i : Item) :
    (declStretches text i).flatMap (Stretch.strokes (Source.ofText text)) =
      Print.decl (itemNode (Source.ofText text) (decl (Source.ofText text)) i) := by
  unfold declStretches
  split
  · next hkind => exact (print_package text (beq_iff_eq.mp hkind)).symm
  next hpackage =>
  split
  · next hkind => exact strokes_importStretches text (beq_iff_eq.mp hkind)
  next himport =>
  split
  · next hkind =>
    cases hbody : i.node.childByField? "body" with
    | none =>
      rw [print_signature text hkind hbody]
      exact List.append_nil _
    | some b =>
      rw [print_function text hkind hbody, ← strokes_bodyStretches]
      rfl
  · next hkind =>
    rw [print_decl text (by simpa using hpackage) (by simpa using himport) (by simpa using hkind),
      List.flatMap_singleton, strokes_piece]

/-- **A loaded file is printed in its stretches.** -/
theorem strokes_stretches (root : Cst) :
    (SourceFile.build (Source.ofText text) root).strokes =
      (stretches text root).flatMap (Stretch.strokes (Source.ofText text)) := by
  rw [strokes_build]
  exact (strokes_listStretches (Reading.faithful_decls text text []) (strokes_declStretches text)
    (topItems root)).symm

end Strokes

/-! ## What is kept as text -/

section Kept

variable {text : Text} {own : Item → List Stretch} {depth : Int}

theorem kept_gapStretches (before : Option Item) (i : Item) :
    (gapStretches text before i).filterMap Stretch.kept? = [] := by
  unfold gapStretches
  split <;> rfl

/-- What is kept of a list, if a comment is kept as it is. -/
theorem kept_blockStretches {texts : Item → List Piece}
    (hown : ∀ i, (own i).filterMap Stretch.kept? = texts i)
    (hcomment : ∀ i : Item, i.node.kind = "comment" → texts i = [.ofItem depth i])
    (before : Option Item) {bs : List (Item × Option Item)}
    (hbs : ∀ i c, (i, some c) ∈ bs → c.node.kind = "comment") :
    (blockStretches text own depth before bs).filterMap Stretch.kept? =
      (bs.flatMap fun b => b.1 :: b.2.toList).flatMap texts := by
  induction bs generalizing before with
  | nil => rfl
  | cons b bs ih =>
    have hbehind : (b.2.toList.map (Stretch.comment depth)).filterMap Stretch.kept? =
        b.2.toList.flatMap texts := by
      obtain ⟨i, c⟩ := b
      cases c with
      | none => rfl
      | some c =>
        rw [Option.toList_some, List.flatMap_singleton, hcomment c (hbs i c List.mem_cons_self)]
        rfl
    rw [blockStretches, List.filterMap_append, List.filterMap_append, List.filterMap_append,
      kept_gapStretches, hown, hbehind, ih _ fun i c h => hbs i c (List.mem_cons_of_mem b h),
      List.flatMap_cons, List.flatMap_append, List.flatMap_cons, List.nil_append]

theorem kept_listStretches {texts : Item → List Piece}
    (hown : ∀ i, (own i).filterMap Stretch.kept? = texts i)
    (hcomment : ∀ i : Item, i.node.kind = "comment" → texts i = [.ofItem depth i]) (items : List Item) :
    (listStretches text own depth items).filterMap Stretch.kept? = (inOrder items).flatMap texts := by
  have hcomments : ∀ i c, (i, some c) ∈ sortedBlocks (Source.ofText text) items →
      c.node.kind = "comment" := fun i c h => (kind_of_mem_blocks (Source.ofText text) _ h).1
  rw [listStretches, kept_blockStretches hown hcomment none hcomments, sortedBlocks, flatMap_blocks]

variable (text)

theorem kept_entryStretches (i : Item) : (entryStretches text i).filterMap Stretch.kept? =
    if i.node.kind == "comment" then [.ofItem 1 i] else [] := by
  unfold entryStretches
  split <;> rfl

theorem flatMap_ite_singleton {α β : Type} (p : α → Bool) (f : α → β) (l : List α) :
    (l.flatMap fun a => if p a then [f a] else []) = (l.filter p).map f := by
  induction l with
  | nil => rfl
  | cons a l ih =>
    rw [List.flatMap_cons, List.filter_cons, ih]
    split <;> rfl

/-- Of a list of imports the comments are kept. -/
theorem kept_importStretches (c : Cst) : (importStretches text c).filterMap Stretch.kept? =
    ((inOrder (itemsOf "import_spec_list" c)).filter (·.node.kind == "comment")).map (.ofItem 1) := by
  rw [importStretches]
  obtain ⟨⟨e, d⟩, hlone, -, hblocks, hkind⟩ | ⟨hlone, -⟩ := importDecl_cases text c
  · have hitems := flatMap_blocks (Source.ofText text) (inOrder (itemsOf "import_spec_list" c))
    rw [← sortedBlocks, hblocks] at hitems
    rw [hlone, ← hitems]
    cases d with
    | none => simp [hkind, Stretch.kept?]
    | some d =>
      have hmem : (e, some d) ∈ sortedBlocks (Source.ofText text) (itemsOf "import_spec_list" c) := by
        rw [hblocks]
        exact List.mem_cons_self
      simp [hkind, (kind_of_mem_blocks _ _ hmem).1]
      rfl
  · have hentries : (listStretches text (entryStretches text) 1
        (itemsOf "import_spec_list" c)).filterMap Stretch.kept? = _ :=
      kept_listStretches (kept_entryStretches text) (fun i hi => by rw [hi]; rfl) _
    rw [flatMap_ite_singleton] at hentries
    rw [hlone]
    simp only [List.filterMap_cons, List.filterMap_append, hentries, Stretch.kept?, List.filterMap_nil,
      List.append_nil]

/-- Of a body the statements and comments are kept. -/
theorem kept_bodyStretches (c : Cst) : (bodyStretches text c).filterMap Stretch.kept? =
    (inOrder (itemsOf "statement_list" c)).map (.ofItem 1) := by
  have hstmts : (listStretches text (fun i => [.piece (.ofItem 1 i)]) 1
      (itemsOf "statement_list" c)).filterMap Stretch.kept? =
        (inOrder (itemsOf "statement_list" c)).flatMap fun i => [.ofItem 1 i] :=
    kept_listStretches (fun _ => rfl) (fun _ _ => rfl) _
  rw [← List.map_eq_flatMap] at hstmts
  unfold bodyStretches
  split
  · next hempty =>
    have hitems := flatMap_blocks (Source.ofText text) (inOrder (itemsOf "statement_list" c))
    rw [← sortedBlocks, List.isEmpty_iff.mp hempty] at hitems
    rw [← hitems]
    rfl
  · simp only [List.filterMap_cons, List.filterMap_append, hstmts, Stretch.kept?, List.filterMap_nil,
      List.append_nil]

theorem kept_declStretches (i : Item) :
    (declStretches text i).filterMap Stretch.kept? = itemTexts i := by
  unfold declStretches itemTexts innerItems
  split
  · rfl
  split
  · exact kept_importStretches text i.node
  split
  · cases i.node.childByField? "body" with
    | none => simp [inOrder, Stretch.kept?]
    | some b =>
      simp only [Option.map_some, Option.getD_some, List.filterMap_cons, Stretch.kept?,
        kept_bodyStretches]
  · rfl

/-- **All that is kept as text is printed**, each in a stretch of its own. -/
theorem kept_stretches (root : Cst) :
    (stretches text root).filterMap Stretch.kept? = texts root := by
  refine kept_listStretches (kept_declStretches text) (fun i hi => ?_) (topItems root)
  unfold itemTexts
  rw [hi]
  rfl

/-! ### Pieces -/

theorem pieces_blockStretches {pieces : Item → List Piece}
    (hown : ∀ i, (own i).filterMap Stretch.piece? = pieces i) (before : Option Item)
    (bs : List (Item × Option Item)) :
    (blockStretches text own depth before bs).filterMap Stretch.piece? =
      bs.flatMap fun b => pieces b.1 := by
  induction bs generalizing before with
  | nil => rfl
  | cons b bs ih =>
    have hgap : (gapStretches text before b.1).filterMap Stretch.piece? = [] := by
      unfold gapStretches
      split <;> rfl
    have hbehind : (b.2.toList.map (Stretch.comment depth)).filterMap Stretch.piece? = [] := by
      cases b.2 <;> rfl
    rw [blockStretches, List.filterMap_append, List.filterMap_append, List.filterMap_append, hgap, hown,
      hbehind, ih, List.flatMap_cons, List.append_nil, List.nil_append]

theorem pieces_importStretches (c : Cst) :
    (importStretches text c).filterMap Stretch.piece? = importPieces (Source.ofText text) c := by
  have hentry : ∀ i, (entryStretches text i).filterMap Stretch.piece? =
      if i.node.kind == "comment" then [.ofItem 1 i] else [] := by
    intro i
    unfold entryStretches
    split <;> rfl
  rw [importStretches, importPieces]
  obtain ⟨⟨e, d⟩, hlone, -, hblocks, hkind⟩ | ⟨hlone, -⟩ := importDecl_cases text c
  · rw [hlone, hblocks]
    cases d <;> simp [hkind, Stretch.piece?]
  · have hentries : (listStretches text (entryStretches text) 1
        (itemsOf "import_spec_list" c)).filterMap Stretch.piece? = _ :=
      pieces_blockStretches text hentry none _
    rw [flatMap_ite_singleton] at hentries
    rw [hlone]
    simp only [List.filterMap_cons, List.filterMap_append, hentries, Stretch.piece?,
      List.filterMap_nil, List.append_nil]

theorem pieces_bodyStretches (c : Cst) :
    (bodyStretches text c).filterMap Stretch.piece? = bodyPieces (Source.ofText text) c := by
  have hstmts : (listStretches text (fun i => [.piece (.ofItem 1 i)]) 1
      (itemsOf "statement_list" c)).filterMap Stretch.piece? =
        (sortedBlocks (Source.ofText text) (itemsOf "statement_list" c)).flatMap
          fun b => [.ofItem 1 b.1] :=
    pieces_blockStretches text (fun _ => rfl) none _
  rw [← List.map_eq_flatMap] at hstmts
  unfold bodyStretches bodyPieces
  split
  · next hempty =>
    rw [List.isEmpty_iff.mp hempty]
    rfl
  · simp only [List.filterMap_cons, List.filterMap_append, hstmts, Stretch.piece?, List.filterMap_nil,
      List.append_nil]

theorem pieces_declStretches (i : Item) :
    (declStretches text i).filterMap Stretch.piece? = itemPieces (Source.ofText text) i := by
  unfold declStretches itemPieces
  split
  · rfl
  split
  · exact pieces_importStretches text i.node
  split
  · cases i.node.childByField? "body" with
    | none => rfl
    | some b =>
      simp only [Option.map_some, Option.getD_some, List.filterMap_cons, Stretch.piece?,
        pieces_bodyStretches]
  · rfl

/-- The stretches of the source with lines of their own are the pieces. -/
theorem pieces_stretches (root : Cst) :
    (stretches text root).filterMap Stretch.piece? = pieces (Source.ofText text) root :=
  pieces_blockStretches text (pieces_declStretches text) none _

end Kept

end Load

end Stopwatch
