import Mathlib
import Stopwatch.Proofs.RereadItems

/-!
# Reading printed declarations again

The items of a file are of a few sorts: text that is kept as it is, a line that spells its tokens, and a
list between brackets. For each of them, what is printed is read again as it was.

* `Reading.decls`, `Reading.entries`, `Reading.stmts`: the lists of a file, and that their nodes are
  `Faithful`.
* `Rereads.of_fragment`, `Rereads.of_spelled`: text that is kept, and a line.
* `Reading.Bracketed`: the tokens of a list between brackets.
-/

namespace Stopwatch

open Text Layout

/-! ## The comment behind a node -/

namespace Print

/-- The comment behind a node that had none. -/
theorem trailing_with {m : Mark} (h : m.trailing = none) (t : Text) :
    trailing { m with trailing := some t } = trailing m ++ trailing { trailing := some t } := by
  have hnone : trailing m = [] := by rw [trailing, h]
  rw [hnone]
  rfl

theorem stmt_withTrailing (depth : Int) {n : Node} (h : n.isStatement = true ∨ n.isEntry = true)
    (hnone : n.mark.trailing = none) (t : Text) :
    stmt depth (n.withTrailing t) = stmt depth n ++ trailing { trailing := some t } := by
  have hmark := trailing_with hnone t
  cases n with
  | rawStmt m k f => simpa [Node.withTrailing, Node.withMark, stmt, Node.mark] using hmark
  | comment m f => simpa [Node.withTrailing, Node.withMark, stmt, Node.mark] using hmark
  | importSpec m s => simpa [Node.withTrailing, Node.withMark, stmt, Node.mark] using hmark
  | _ => simp [Node.isStatement, Node.isEntry] at h

theorem decl_withTrailing {n : Node} (h : n.isDeclaration = true) (hnone : n.mark.trailing = none)
    (t : Text) : decl (n.withTrailing t) = decl n ++ trailing { trailing := some t } := by
  have hmark := trailing_with hnone t
  cases n with
  | packageClause m name => simpa [Node.withTrailing, Node.withMark, decl, Node.mark] using hmark
  | importDecl m entries grouped => simpa [Node.withTrailing, Node.withMark, decl, Node.mark] using hmark
  | funcDecl m head b =>
    cases b with
    | none => simpa [Node.withTrailing, Node.withMark, decl, Node.mark] using hmark
    | some b => simpa [Node.withTrailing, Node.withMark, decl, Node.mark] using hmark
  | rawDecl m k f => simpa [Node.withTrailing, Node.withMark, decl, Node.mark] using hmark
  | comment m f => simpa [Node.withTrailing, Node.withMark, decl, Node.mark] using hmark
  | _ => simp [Node.isDeclaration] at h

end Print

namespace Load

variable (source : Source)

theorem mark_decl (i : Item) : (decl source i).mark = markOf source i.node := by
  obtain ⟨-, name, h⟩ | ⟨-, h⟩ | ⟨-, h⟩ | ⟨-, -, -, h⟩ := decl_cases source i <;> rw [h] <;> rfl

theorem mark_itemNode {convert : Item → Node} (h : ∀ i, (convert i).mark = markOf source i.node)
    (i : Item) : (itemNode source convert i).mark = markOf source i.node := by
  unfold itemNode
  split
  · rfl
  · exact h i

end Load

/-! ## The lists of a file -/

namespace Reading

variable (text printed indent : Text)

/-- The statements of a body. -/
def stmts : Reading := ⟨text, printed, indent, Load.stmt, Print.stmt 1⟩

/-- The entries of an import declaration. -/
def entries : Reading := ⟨text, printed, indent, Load.importSpec, Print.stmt 1⟩

/-- The declarations of a file. -/
def decls : Reading := ⟨text, printed, indent, Load.decl, Print.decl⟩

theorem faithful_stmts : (stmts text printed indent).Faithful where
  mark source := Load.mark_itemNode source fun _ => rfl
  trailing source i t := Print.stmt_withTrailing 1
    (Or.inl (Load.isStatement_blockNode source (i, none)))
    (Load.trailing_itemNode (Load.trailing_stmt source) i) t

theorem faithful_entries : (entries text printed indent).Faithful where
  mark source := Load.mark_itemNode source fun _ => rfl
  trailing source i t := Print.stmt_withTrailing 1
    (Or.inr (Load.isEntry_blockNode source (i, none)))
    (Load.trailing_itemNode (Load.trailing_importSpec source) i) t

theorem faithful_decls : (decls text printed indent).Faithful where
  mark source := Load.mark_itemNode source (Load.mark_decl source)
  trailing source i t := Print.decl_withTrailing (Load.isDeclaration_blockNode source (i, none))
    (Load.trailing_itemNode (Load.trailing_decl source) i) t

end Reading

/-! ## Text that is kept -/

theorem solidCount_eq_length_flatMap (text : Text) (ls : List Leaf) (row : Leaf → Nat) :
    solidCount text ls = (ls.flatMap fun l => solidRows (row l) (l.word text)).length := by
  rw [List.length_flatMap, solidCount]
  simp only [length_solidRows]

/-- The tokens of a fragment have as many bytes as it is printed with. -/
theorem Leaf.Laid.solidCount_eq {text indent : Text} {ls : List Leaf}
    (h : Leaf.Laid (Source.ofText text) ls) (hne : ls ≠ []) (hindent : ∀ b ∈ indent, isBlank b = true)
    (hclean : newline ∉ indent) (depth : Int) :
    solidCount text ls =
      (solid (joinLines ((Leaf.fragment text ls).printed indent depth))).length := by
  have hrows := h.solidRows_printed (List.head?_eq_some_head hne) (List.getLast?_eq_some_getLast hne)
    hindent hclean depth
  rw [← length_solidRows 0, hrows, ← solidCount_eq_length_flatMap]

theorem Fragment.ofNodes_singleton (text : Text) (i : Item) :
    Fragment.ofNodes (Source.ofText text) i.parent [i.node] = Leaf.fragment text i.leaves := by
  rw [Fragment.ofNodes, Cst.leavesAll_eq_flatMap, List.flatMap_singleton]
  rfl

namespace Reading

variable {x : Reading} {i i' : Item}

/-- **Text that is kept** is read again as it was. -/
theorem Rereads.of_fragment {depth : Int} {ls : List Leaf}
    (hprint : x.print (x.old i) = Print.fragment depth (Leaf.fragment x.text ls))
    (hprint' : x.print (x.new i') = Print.fragment depth (Leaf.fragment x.printed i'.leaves))
    (h : Leaf.Laid (Source.ofText x.text) ls) (h' : Leaf.Laid (Source.ofText x.printed) i'.leaves)
    (hne : ls ≠ []) (hsame : List.Forall₂ (Leaf.Same x.text x.printed) ls i'.leaves)
    (hspans : i'.Spans x.printed) (hindent : ∀ b ∈ x.indent, isBlank b = true)
    (hclean : newline ∉ x.indent) : x.Rereads i i' i'.leaves := by
  have hfirst := List.head?_eq_some_head hne
  have hlast := List.getLast?_eq_some_getLast hne
  have hne' : i'.leaves ≠ [] := fun hnil => hne (by
    rw [hnil] at hsame
    exact List.forall₂_nil_right_iff.mp hsame)
  have hfirst' := List.head?_eq_some_head hne'
  have hlast' := List.getLast?_eq_some_getLast hne'
  have htext : x.itemText i = joinLines ((Leaf.fragment x.text ls).printed x.indent depth) := by
    rw [itemText, hprint, Stroke.text_fragment]
  refine ⟨?_, ?_, ?_, fun {before after front} hpart => ?_⟩
  · rw [hprint]
    exact Print.opens_fragment depth _
  · rw [hprint]
    exact Print.fragment_ne_nil depth (h.fragment_ne_nil hfirst hlast)
  · rw [htext, solidCount_of_same hsame, h.solidCount_eq hne hindent hclean depth]
  · rw [htext] at hpart ⊢
    obtain ⟨hstart, hstop⟩ :=
      h.rows_of_part hfirst hlast h' hsame hindent hclean hpart hfirst' hlast'
    have hagain := h.fragment_reread hfirst hlast h' hsame hindent hclean hpart hfirst' hlast'
    have hbound := h'.bounds _ (List.getLast_mem hne')
    refine ⟨?_, ?_, ?_⟩
    · rw [hspans.startRow_eq hfirst', hstart]
    · rw [hspans.endRow_eq hlast' hbound.1 hbound.2, hstop]
    · rw [hprint', hprint, hagain]

/-! ## Lines that spell their tokens -/

/-- **A line that spells its tokens** is read again as it was. -/
theorem Rereads.of_spelled {depth : Int} {t : Text} (hprint : x.print (x.old i) = [.line depth t])
    (hprint' : x.print (x.new i') = [.line depth t]) (ht : Spelled x.printed t i'.leaves)
    (hne : i'.leaves ≠ []) (h' : Leaf.Laid (Source.ofText x.printed) i'.leaves)
    (hspans : i'.Spans x.printed) (hindent : ∀ b ∈ x.indent, isBlank b = true)
    (hclean : newline ∉ x.indent) : x.Rereads i i' i'.leaves := by
  have hfirst' := List.head?_eq_some_head hne
  have hlast' := List.getLast?_eq_some_getLast hne
  have hword := Leaf.solid_word_ne_nil (h'.head _ hfirst') (h'.bounds _ (List.head_mem hne)).1
  have htne : t ≠ [] := by
    rintro rfl
    have hcount := ht.solidCount_eq
    rw [← List.cons_head_tail hne, solidCount, List.map_cons, List.sum_cons] at hcount
    exact hword (List.eq_nil_of_length_eq_zero (Nat.add_eq_zero_iff.mp hcount).1)
  have htext : x.itemText i = x.indent.repeated depth ++ t := by
    rw [itemText, hprint, Stroke.text_line x.indent depth htne]
  have hspelled := ht.pad (Stroke.padding_repeated hindent hclean depth) hne
  refine ⟨?_, ?_, ?_, fun {before after front} hpart => ?_⟩
  · rw [hprint]
    exact Print.opens_line depth t
  · rw [hprint]
    simp
  · rw [htext, hspelled.solidCount_eq]
  · rw [htext] at hpart ⊢
    obtain ⟨hstart, hstop⟩ := hspelled.rows hpart h' hfirst' hlast'
    have hbound := h'.bounds _ (List.getLast_mem hne)
    refine ⟨?_, ?_, ?_⟩
    · rw [hspans.startRow_eq hfirst', hstart]
    · rw [hspans.endRow_eq hlast' hbound.1 hbound.2, hstop]
    · rw [hprint', hprint]

/-! ## Lists between brackets -/

/-- The lines of a list, below another line. -/
def textBelow (x : Reading) (bs : List (Item × Option Item)) : Text :=
  if bs.isEmpty then [] else newline :: x.listText bs

end Reading

theorem Leaf.beginsSolid_of_word {text w : Text} {l : Leaf} {b : UInt8} (h : l.word text = b :: w)
    (hb : isBlank b = false) : l.beginsSolid (Source.ofText text) = true := by
  have hget : text[l.start]? = some b := by
    have hhead := congrArg List.head? h
    rw [word, List.head?_drop, List.head?_cons] at hhead
    obtain ⟨hlt, hget⟩ := List.getElem?_eq_some_iff.mp hhead
    rw [List.getElem_take] at hget
    rw [List.length_take] at hlt
    exact List.getElem?_eq_some_iff.mpr ⟨by omega, hget⟩
  change (text[l.start]?).any _ = true
  rw [hget]
  simp [hb]

/-- A token with a text of its own. -/
structure Leaf.Reads (text : Text) (l : Leaf) (w : String) : Prop where
  word : l.word text = utf8 w
  solid : l.beginsSolid (Source.ofText text) = true
  bounds : l.start < l.stop ∧ l.stop ≤ text.length

theorem Leaf.Reads.laid {text : Text} {l : Leaf} {w : String} (h : l.Reads text w) :
    Leaf.Laid (Source.ofText text) [l] where
  bounds k hk := by
    rw [List.mem_singleton.mp hk]
    exact h.bounds
  gaps := List.isChain_singleton _
  rows := List.isChain_singleton _
  head k hk := by
    rw [← Option.some.inj hk]
    exact h.solid

theorem Leaf.Reads.spelled {text : Text} {l : Leaf} {w : String} (h : l.Reads text w) :
    Spelled text (utf8 w) [l] := by
  rw [← h.word]
  exact .token text l

namespace Reading

variable {x : Reading} {bs : List (Item × Option Item)} {is : List Item} {ls : List Leaf}

/-- The strokes of a list between two other lines. -/
theorem ReadsAll.text_between (h : x.ReadsAll bs is ls) {a : List Stroke} (ha : Stroke.Opens a)
    (hane : a ≠ []) {c : Text} (hc : c ≠ []) :
    Stroke.text x.indent (a ++ (x.strokes bs ++ [.line 0 c])) =
      Stroke.text x.indent a ++ x.textBelow bs ++ newline :: c := by
  have hline : Stroke.text x.indent [.line 0 c] = c := Stroke.text_line x.indent 0 hc
  have hopens : Stroke.Opens [Stroke.line 0 c] := Print.opens_line 0 c
  cases bs with
  | nil =>
    rw [textBelow, List.isEmpty_nil, if_pos rfl, List.append_nil]
    exact (Stroke.text_append ha hopens hane (by simp) _).trans (by rw [hline])
  | cons b bs =>
    obtain ⟨hstrokes, hne⟩ := h.opens
    rw [textBelow, List.isEmpty_cons, if_neg (by simp),
      Stroke.text_append ha (hstrokes.append hopens) hane (by simp),
      Stroke.text_append hstrokes hopens (hne (by simp)) (by simp), hline, List.append_assoc]
    rfl

theorem ReadsAll.count_textBelow (h : x.ReadsAll bs is ls) :
    solidCount x.printed ls = (solid (x.textBelow bs)).length := by
  rw [h.count, textBelow]
  cases bs with
  | nil => rfl
  | cons b bs =>
    rw [List.isEmpty_cons, if_neg (by simp), solid, solid, List.filter_cons, if_neg (by decide)]

/-- **A list between brackets** is read again as it was. It stands behind the text `a` with the tokens
`as`; the white space `g` and the token `cl` follow it. -/
theorem ReadsAll.between (hx : x.Faithful) (h : x.ReadsAll bs is ls) {a g : Text} {as : List Leaf}
    {cl : Leaf} {c : String} (has : solidCount x.printed as = (solid a).length) (hg : solid g = [])
    (hcl : cl.Reads x.printed c) {before after : Text} {front : List Leaf}
    (hpart : Part x.printed before (a ++ x.textBelow bs ++ (g ++ utf8 c)) after front (as ++ ls ++ [cl])) :
    (∃ after', Part x.printed before a after' front as) ∧
      Print.spread x.print none ((Load.blocks (Source.ofText x.printed) is).map x.newBlock) =
        x.strokes bs ∧
      (x.printed.point cl.stop).row =
        before.count newline + (a ++ x.textBelow bs ++ (g ++ utf8 c)).count newline := by
  have hfront : solidCount x.printed (as ++ ls) = (solid (a ++ x.textBelow bs)).length := by
    rw [solidCount_append, solid_append, List.length_append, has, h.count_textBelow]
  obtain ⟨hopening, hclosing⟩ := hpart.split hfront
  obtain ⟨ha, hlist⟩ := hopening.split has
  refine ⟨⟨_, ha⟩, ?_, ?_⟩
  · cases h with
    | nil => rfl
    | @cons b b' bs is ks ms hb hrest =>
      have hbelow : x.textBelow (b :: bs) = [newline] ++ x.listText (b :: bs) := rfl
      rw [hbelow] at hlist
      exact ((ReadsAll.cons hb hrest).again hx (hlist.skip (by decide))).2
  · have hrow : (x.printed.point cl.stop).row = _ :=
      (hcl.spelled.rows (hclosing.skip hg) hcl.laid rfl rfl).2
    rw [hrow]
    simp only [List.count_append]
    omega

end Reading

/-! ## What items are printed as -/

/-- Statements between braces, on the line that is there and below it. -/
def Print.braced (empty : Bool) (inner : List Stroke) : List Stroke :=
  if empty then [.extend (utf8 " \x7b\x7d")]
  else [.extend (utf8 " \x7b")] ++ (inner ++ [.line 0 (utf8 "\x7d")])

namespace Load

variable (text : Text) {i : Item}

theorem print_comment (h : i.node.kind = "comment") (convert : Item → Node) (depth : Int) :
    Print.stmt depth (itemNode (Source.ofText text) convert i) =
        Print.fragment depth (Leaf.fragment text i.leaves) ∧
      Print.decl (itemNode (Source.ofText text) convert i) =
        Print.fragment 0 (Leaf.fragment text i.leaves) := by
  rw [itemNode, if_pos (by simp [h]), commentItem, Fragment.ofNodes_singleton]
  exact ⟨List.append_nil _, List.append_nil _⟩

theorem print_stmt (i : Item) (depth : Int) :
    Print.stmt depth (itemNode (Source.ofText text) (stmt (Source.ofText text)) i) =
      Print.fragment depth (Leaf.fragment text i.leaves) := by
  by_cases hkind : i.node.kind = "comment"
  · exact (print_comment text hkind _ depth).1
  · rw [itemNode, if_neg (by simpa using hkind), stmt, Fragment.ofNodes_singleton]
    exact List.append_nil _

/-- Declarations that are kept as text. -/
theorem print_decl (hpackage : i.node.kind ≠ "package_clause")
    (himport : i.node.kind ≠ "import_declaration") (hfunction : isFunctionKind i.node.kind = false) :
    Print.decl (itemNode (Source.ofText text) (decl (Source.ofText text)) i) =
      Print.fragment 0 (Leaf.fragment text i.leaves) := by
  by_cases hkind : i.node.kind = "comment"
  · exact (print_comment text hkind _ 0).2
  · rw [itemNode, if_neg (by simpa using hkind), decl, if_neg (by simpa using hpackage),
      if_neg (by simpa using himport)]
    rw [isFunctionKind] at hfunction
    simp only [hfunction, Bool.false_eq_true, if_false]
    rw [Fragment.ofNodes_singleton]
    exact List.append_nil _

/-- An import entry without the keyword. -/
def entryText (text : Text) (i : Item) : Text :=
  Print.importSpec ⟨[], ((i.node.childByField? "path").getD i.node).text (Source.ofText text),
    (i.node.childByField? "name").map (·.text (Source.ofText text))⟩

theorem print_entry (h : i.node.kind ≠ "comment") (depth : Int) :
    Print.stmt depth (itemNode (Source.ofText text) (importSpec (Source.ofText text)) i) =
      [.line depth (entryText text i)] := by
  rw [itemNode, if_neg (by simpa using h)]
  rfl

theorem print_package (h : i.node.kind = "package_clause") :
    Print.decl (itemNode (Source.ofText text) (decl (Source.ofText text)) i) =
      [.line 0 (utf8 "package " ++
        ((i.node.namedChildren.head?).getD i.node).text (Source.ofText text))] := by
  rw [itemNode, if_neg (by simp [h]), decl, if_pos (by simp [h])]
  rfl

theorem itemNode_import (h : i.node.kind = "import_declaration") :
    itemNode (Source.ofText text) (decl (Source.ofText text)) i =
      .importDecl (markOf (Source.ofText text) i.node)
        ((sortedBlocks (Source.ofText text) (itemsOf "import_spec_list" i.node)).map
          (blockNode (Source.ofText text) (importSpec (Source.ofText text))))
        (i.node.namedChildren.any (·.kind == "import_spec_list")) := by
  rw [itemNode, if_neg (by simp [h]), decl, if_neg (by simp [h]), if_pos (by simp [h]), importDecl_eq]

theorem sortedBlocks_singleton (source : Source) (i : Item) :
    sortedBlocks source [i] = [(i, none)] := by
  rw [sortedBlocks, inOrder_eq_self (List.pairwise_singleton _ _)]
  rfl

/-- A single entry behind the keyword. -/
theorem print_import {e : Item} (h : i.node.kind = "import_declaration")
    (hgrouped : i.node.namedChildren.any (·.kind == "import_spec_list") = false)
    (hentry : itemsOf "import_spec_list" i.node = [e]) (he : e.node.kind ≠ "comment") :
    Print.decl (itemNode (Source.ofText text) (decl (Source.ofText text)) i) =
      [.line 0 (utf8 "import " ++ entryText text e)] := by
  rw [itemNode_import text h, hgrouped, hentry, sortedBlocks_singleton, List.map_singleton, blockNode,
    itemNode, if_neg (by simpa using he)]
  rfl

/-- Entries between parentheses. -/
theorem print_imports (h : i.node.kind = "import_declaration")
    (hgrouped : i.node.namedChildren.any (·.kind == "import_spec_list") = true) :
    Print.decl (itemNode (Source.ofText text) (decl (Source.ofText text)) i) =
      [.line 0 (utf8 "import (")] ++ (Print.spread (Print.stmt 1) none
        ((sortedBlocks (Source.ofText text) (itemsOf "import_spec_list" i.node)).map
          (blockNode (Source.ofText text) (importSpec (Source.ofText text)))) ++
        [.line 0 (utf8 ")")]) := by
  rw [itemNode_import text h, hgrouped, ← Print.sequence_eq_spread]
  exact List.append_nil _

theorem blocks_eq_nil_iff (source : Source) {items : List Item} :
    blocks source items = [] ↔ items = [] := by
  cases items with
  | nil => simp [blocks]
  | cons i items =>
    obtain ⟨b, bs, h, -⟩ := blocks_ne_nil source i items
    simp [h]

theorem itemNode_function (source : Source) (h : isFunctionKind i.node.kind = true) :
    itemNode source (decl source) i = funcDecl source i.node := by
  have hkind : ∀ k, isFunctionKind k = false → i.node.kind ≠ k := by
    rintro k hk rfl
    rw [hk] at h
    exact absurd h (by simp)
  rw [itemNode, if_neg (by simpa using hkind "comment" (by decide)), decl,
    if_neg (by simpa using hkind "package_clause" (by decide)),
    if_neg (by simpa using hkind "import_declaration" (by decide))]
  exact if_pos h

/-- The tokens of a function in front of its body. -/
def headLeaves (c : Cst) : List Leaf := Cst.leavesAll c.kind (headNodes c)

theorem print_signature (h : isFunctionKind i.node.kind = true)
    (hbody : i.node.childByField? "body" = none) :
    Print.decl (itemNode (Source.ofText text) (decl (Source.ofText text)) i) =
      Print.fragment 0 (Leaf.fragment text (headLeaves i.node)) := by
  rw [itemNode_function _ h, funcDecl_eq, hbody]
  exact List.append_nil _

/-- A function with a body. -/
theorem print_function {b : Cst} (h : isFunctionKind i.node.kind = true)
    (hbody : i.node.childByField? "body" = some b) :
    Print.decl (itemNode (Source.ofText text) (decl (Source.ofText text)) i) =
      Print.fragment 0 (Leaf.fragment text (headLeaves i.node)) ++
        Print.braced (sortedBlocks (Source.ofText text) (itemsOf "statement_list" b)).isEmpty
          (Print.spread (Print.stmt 1) none
            ((sortedBlocks (Source.ofText text) (itemsOf "statement_list" b)).map
              (blockNode (Source.ofText text) (stmt (Source.ofText text))))) := by
  rw [itemNode_function _ h, funcDecl_eq, hbody, Option.map_some, body_eq]
  generalize sortedBlocks (Source.ofText text) (itemsOf "statement_list" b) = bs
  cases bs with
  | nil =>
    rw [Print.decl_empty _ _ rfl]
    exact List.append_nil _
  | cons b bs =>
    rw [Print.decl_full _ _ (by simp), Print.afterBrace, Print.sequence_eq_spread, List.append_assoc]
    exact congrArg _ (congrArg _ (List.append_nil _))

/-- A file is printed as its declarations, with the empty lines of the source between them. -/
theorem strokes_build (root : Cst) :
    (SourceFile.build (Source.ofText text) root).strokes = Print.spread Print.decl none
      ((sortedBlocks (Source.ofText text) (topItems root)).map
        (blockNode (Source.ofText text) (decl (Source.ofText text)))) := by
  rw [SourceFile.strokes, decls_build]
  refine Print.decls_eq_spread (fun m hm => absurd hm (by simp)) fun n hn => ?_
  obtain ⟨b, -, rfl⟩ := List.mem_map.mp hn
  have hspan := (Reading.faithful_decls text text []).span_blockNode (Source.ofText text) b
  exact Option.isSome_iff_exists.mpr ⟨_, hspan⟩

end Load

/-! ## Imports and functions -/

namespace Reading

variable {text printed indent : Text} {i i' : Item} {ls : List Leaf} {kw o cl : Leaf}

/-- An import declaration with its entries between parentheses. -/
theorem Rereads.of_imports (hkind : i.node.kind = "import_declaration")
    (hkind' : i'.node.kind = "import_declaration")
    (hgrouped : i.node.namedChildren.any (·.kind == "import_spec_list") = true)
    (hgrouped' : i'.node.namedChildren.any (·.kind == "import_spec_list") = true)
    (hlist : (entries text printed indent).ReadsAll
      (Load.sortedBlocks (Source.ofText text) (Load.itemsOf "import_spec_list" i.node))
      (Load.inOrder (Load.itemsOf "import_spec_list" i'.node)) ls)
    (hkw : kw.Reads printed "import") (ho : o.Reads printed "(") (hcl : cl.Reads printed ")")
    (hgap : Leaf.Laid (Source.ofText printed) [kw, o])
    (hfirst : i'.leaves.head? = some kw) (hlast : i'.leaves.getLast? = some cl)
    (hspans : i'.Spans printed) :
    (decls text printed indent).Rereads i i' ([kw, o] ++ ls ++ [cl]) := by
  have hold : (decls text printed indent).print ((decls text printed indent).old i) =
      [.line 0 (utf8 "import (")] ++ ((entries text printed indent).strokes
        (Load.sortedBlocks (Source.ofText text) (Load.itemsOf "import_spec_list" i.node)) ++
        [.line 0 (utf8 ")")]) := Load.print_imports text hkind hgrouped
  have hnew := Load.print_imports printed hkind' hgrouped'
  have hopens : Stroke.Opens [Stroke.line 0 (utf8 "import (")] := Print.opens_line 0 _
  have hline : Stroke.text (entries text printed indent).indent [.line 0 (utf8 "import (")] =
      utf8 "import (" := Stroke.text_line indent 0 (by decide +kernel)
  have htext : (decls text printed indent).itemText i =
      utf8 "import (" ++ (entries text printed indent).textBelow
        (Load.sortedBlocks (Source.ofText text) (Load.itemsOf "import_spec_list" i.node)) ++
        ([newline] ++ utf8 ")") := by
    rw [itemText, hold]
    exact (hlist.text_between hopens (by simp) (by decide +kernel)).trans (by rw [hline]; rfl)
  have hspelled : Spelled printed (utf8 "import (") [kw, o] := by
    have hsplit : utf8 "import (" = utf8 "import" ++ ([32] ++ utf8 "(") := by decide +kernel
    rw [hsplit]
    exact hkw.spelled.append (ho.spelled.pad padding_space (by simp))
  have hcount : solidCount printed [cl] = (solid ([newline] ++ utf8 ")")).length := by
    rw [hcl.spelled.solidCount_eq]
    decide +kernel
  refine ⟨?_, ?_, ?_, fun {before after front} hpart => ?_⟩
  · rw [hold]
    exact hopens.append (hlist.opens.1.append (Print.opens_line 0 _))
  · rw [hold]
    simp
  · rw [htext, solidCount_append, solidCount_append, solid_append, solid_append, List.length_append,
      List.length_append]
    exact congrArg₂ _ (congrArg₂ _ hspelled.solidCount_eq hlist.count_textBelow) hcount
  · rw [htext] at hpart ⊢
    obtain ⟨⟨after', hopening⟩, hagain, hstop⟩ := hlist.between (faithful_entries text printed indent)
      hspelled.solidCount_eq (by decide) hcl hpart
    obtain ⟨hstart, -⟩ := hspelled.rows hopening hgap rfl rfl
    refine ⟨?_, ?_, ?_⟩
    · exact (hspans.startRow_eq hfirst).trans hstart
    · exact (hspans.endRow_eq hlast hcl.bounds.1 hcl.bounds.2).trans hstop
    · rw [hold, ← hagain]
      exact hnew

/-- What stands in front of a closing brace. -/
def braceGap (empty : Bool) : Text := if empty then [] else [newline]

theorem solid_braceGap (empty : Bool) : solid (braceGap empty) = [] := by
  cases empty <;> rfl

theorem opens_braced {x : Reading} {bs : List (Item × Option Item)} {is : List Item}
    (h : x.ReadsAll bs is ls) {a : List Stroke} (ha : Stroke.Opens a) (hane : a ≠ []) :
    Stroke.Opens (a ++ Print.braced bs.isEmpty (x.strokes bs)) := by
  refine ha.append_of_ne_nil hane fun e he => ?_
  unfold Print.braced at he
  split at he
  · simp at he
  · simp only [List.mem_append, List.mem_singleton, reduceCtorEq, false_or, or_false] at he
    exact h.opens.1.sound e he

theorem text_braced {x : Reading} {bs : List (Item × Option Item)} {is : List Item}
    (h : x.ReadsAll bs is ls) {a : List Stroke} (ha : Stroke.Opens a) (hane : a ≠ []) :
    Stroke.text x.indent (a ++ Print.braced bs.isEmpty (x.strokes bs)) =
      Stroke.text x.indent a ++ utf8 " \x7b" ++ x.textBelow bs ++
        (braceGap bs.isEmpty ++ utf8 "\x7d") := by
  have hextend := Stroke.text_extend ha hane x.indent
  cases bs with
  | nil =>
    have hbraces : utf8 " \x7b\x7d" = utf8 " \x7b" ++ utf8 "\x7d" := by decide +kernel
    refine (hextend _).trans ?_
    rw [hbraces]
    simp [textBelow, braceGap]
  | cons b bs =>
    have hopens : Stroke.Opens (a ++ [.extend (utf8 " \x7b")]) := ha.append_of_ne_nil hane (by simp)
    have htext := h.text_between hopens (by simp) (c := utf8 "\x7d") (by decide +kernel)
    rw [hextend, List.append_assoc a] at htext
    exact htext

/-- A function with a body. -/
theorem Rereads.of_function {b b' : Cst} (hkind : Load.isFunctionKind i.node.kind = true)
    (hkind' : Load.isFunctionKind i'.node.kind = true) (hbody : i.node.childByField? "body" = some b)
    (hbody' : i'.node.childByField? "body" = some b')
    (hlist : (stmts text printed indent).ReadsAll
      (Load.sortedBlocks (Source.ofText text) (Load.itemsOf "statement_list" b))
      (Load.inOrder (Load.itemsOf "statement_list" b')) ls)
    (h : Leaf.Laid (Source.ofText text) (Load.headLeaves i.node))
    (h' : Leaf.Laid (Source.ofText printed) (Load.headLeaves i'.node)) (hne : Load.headLeaves i.node ≠ [])
    (hsame : List.Forall₂ (Leaf.Same text printed) (Load.headLeaves i.node) (Load.headLeaves i'.node))
    (ho : o.Reads printed "\x7b") (hcl : cl.Reads printed "\x7d")
    (hfirst : i'.leaves.head? = (Load.headLeaves i'.node).head?)
    (hlast : i'.leaves.getLast? = some cl) (hspans : i'.Spans printed)
    (hindent : ∀ b ∈ indent, isBlank b = true) (hclean : newline ∉ indent) :
    (decls text printed indent).Rereads i i' (Load.headLeaves i'.node ++ [o] ++ ls ++ [cl]) := by
  have hold : (decls text printed indent).print ((decls text printed indent).old i) = _ :=
    Load.print_function text hkind hbody
  have hnew : (decls text printed indent).print ((decls text printed indent).new i') = _ :=
    Load.print_function printed hkind' hbody'
  have hne' : Load.headLeaves i'.node ≠ [] := fun hnil => hne (by
    rw [hnil] at hsame
    exact List.forall₂_nil_right_iff.mp hsame)
  have hhead := List.head?_eq_some_head hne
  have hheadLast := List.getLast?_eq_some_getLast hne
  have hhead' := List.head?_eq_some_head hne'
  have hheadLast' := List.getLast?_eq_some_getLast hne'
  have hopens := Print.opens_fragment 0 (Leaf.fragment text (Load.headLeaves i.node))
  have hopensNe := Print.fragment_ne_nil 0 (h.fragment_ne_nil hhead hheadLast)
  -- The text of the signature, the opening brace, the statements and the closing brace.
  have htext : (decls text printed indent).itemText i = _ :=
    (congrArg (Stroke.text indent) hold).trans (text_braced hlist hopens hopensNe)
  rw [Stroke.text_fragment] at htext
  have hheadCount := (solidCount_of_same hsame).trans (h.solidCount_eq hne hindent hclean 0)
  have hspelled : Spelled printed (utf8 " \x7b") [o] := by
    have hsplit : utf8 " \x7b" = [32] ++ utf8 "\x7b" := by decide +kernel
    rw [hsplit]
    exact ho.spelled.pad padding_space (by simp)
  have hopening : solidCount printed (Load.headLeaves i'.node ++ [o]) =
      (solid (joinLines ((Leaf.fragment text (Load.headLeaves i.node)).printed indent 0) ++
        utf8 " \x7b")).length := by
    rw [solidCount_append, solid_append, List.length_append, hheadCount, hspelled.solidCount_eq]
  refine ⟨?_, ?_, ?_, fun {before after front} hpart => ?_⟩
  · rw [hold]
    exact opens_braced hlist hopens hopensNe
  · rw [hold]
    simp [hopensNe]
  · rw [htext, solidCount_append, solidCount_append, solid_append, solid_append,
      solid_append (braceGap _), solid_braceGap, List.length_append, List.length_append]
    exact congrArg₂ _ (congrArg₂ _ hopening hlist.count_textBelow) hcl.spelled.solidCount_eq
  · rw [htext] at hpart ⊢
    obtain ⟨⟨after', hbrace⟩, hagain, hstop⟩ := hlist.between (faithful_stmts text printed indent)
      hopening (solid_braceGap _) hcl hpart
    obtain ⟨hsignature, -⟩ := hbrace.split hheadCount
    obtain ⟨hstart, -⟩ :=
      h.rows_of_part hhead hheadLast h' hsame hindent hclean hsignature hhead' hheadLast'
    have hsignatureAgain :=
      h.fragment_reread hhead hheadLast h' hsame hindent hclean hsignature hhead' hheadLast'
    refine ⟨?_, ?_, ?_⟩
    · exact (hspans.startRow_eq (hfirst.trans hhead')).trans hstart
    · exact (hspans.endRow_eq hlast hcl.bounds.1 hcl.bounds.2).trans hstop
    · have hempty : (Load.sortedBlocks (Source.ofText printed)
          (Load.itemsOf "statement_list" b')).isEmpty =
            (Load.sortedBlocks (Source.ofText text) (Load.itemsOf "statement_list" b)).isEmpty := by
        rw [Bool.eq_iff_iff, List.isEmpty_iff, List.isEmpty_iff, hlist.eq_nil_iff, Load.sortedBlocks,
          Load.blocks_eq_nil_iff]
      rw [hnew, hold, hsignatureAgain, hempty]
      exact congrArg (fun inner => _ ++ Print.braced _ inner) hagain

end Reading

end Stopwatch
