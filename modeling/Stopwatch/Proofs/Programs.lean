import Mathlib
import Stopwatch.Proofs.RereadDecls

/-!
# Trees of programs

What a concrete tree looks like if its source is a program, as far as loading and printing depend on it:
the items of every list start and end with a token, the package clause, the import declarations and the
functions have the shape the language gives them, and what is read by its role or by its place is a node of
its own.

* `Cst.IsProgram`: a concrete tree with the shape of a program.
* `Bracketed.exists_brackets`: the items of its lists stand in order between their brackets.
-/

namespace Stopwatch

open Text Layout

/-! ## Items -/

/-- An item that has a token, reaches from its first token to its last one, and does not start with white
space. -/
structure Item.Formed (text : Text) (i : Item) : Prop extends i.Spans text where
  visible : i.leaves ≠ []
  solid : ∀ l, i.leaves.head? = some l → l.beginsSolid (Source.ofText text) = true

instance (text : Text) (i : Item) : Decidable (i.Formed text) :=
  decidable_of_iff (i.leaves ≠ [] ∧
      (∀ l ∈ i.leaves.head?, i.node.start = l.start ∧ l.beginsSolid (Source.ofText text) = true) ∧
      ∀ l ∈ i.leaves.getLast?, i.node.stop = l.stop ∧ (l.word text).getLast? ≠ some newline)
    ⟨fun ⟨hvisible, hfirst, hlast⟩ =>
        ⟨⟨fun l hl => (hfirst l hl).1, hlast⟩, hvisible, fun l hl => (hfirst l hl).2⟩,
      fun h => ⟨h.visible, fun l hl => ⟨h.start l hl, h.solid l hl⟩, h.stop⟩⟩

/-- A node that is its tokens, side by side, none of which is a comment. -/
structure Cst.Spells (text : Text) (parent : String) (c : Cst) : Prop where
  text_eq : c.text (Source.ofText text) = (c.leaves parent).flatMap (Leaf.word text)
  visible : c.leaves parent ≠ []
  plain : ∀ l ∈ c.leaves parent, l.kind ≠ "comment"

/-- The tokens of the child with a given role. -/
def Cst.roleLeaves (name : String) (c : Cst) : List Leaf :=
  ((c.childByField? name).map (Cst.leaves c.kind)).getD []

/-- A package clause is the keyword and a name. -/
def Item.IsPackageClause (text : Text) (i : Item) : Prop :=
  ∃ kw name, i.node.namedChildren.head? = some name ∧ name.Spells text i.node.kind ∧
    i.leaves = kw :: name.leaves i.node.kind ∧ kw.word text = utf8 "package"

/-- An entry of an import declaration is a path, perhaps with a name in front of it. -/
structure Item.IsEntry (text : Text) (e : Item) : Prop where
  path : ∃ p, e.node.childByField? "path" = some p ∧ p.Spells text e.node.kind
  name : ∀ n, e.node.childByField? "name" = some n → n.Spells text e.node.kind
  leaves : e.leaves = e.node.roleLeaves "name" ++ e.node.roleLeaves "path"

/-- The tokens `all` are the tokens `front`, and items between two brackets. -/
def Bracketed (text : Text) (all front : List Leaf) (opening closing : String) (items : List Item) :
    Prop :=
  ∃ o cl middle, all = front ++ o :: (middle ++ [cl]) ∧ o.word text = utf8 opening ∧
    cl.word text = utf8 closing ∧ (items.flatMap Item.leaves).Sublist middle

/-- An import declaration is the keyword and either a single entry or entries between parentheses. -/
structure Item.IsImport (text : Text) (i : Item) : Prop where
  entries : ∀ e ∈ Load.itemsOf "import_spec_list" i.node, e.node.kind ≠ "comment" → e.IsEntry text
  keyword : ∃ kw : Leaf, kw.word text = utf8 "import" ∧
    if i.node.namedChildren.any (·.kind == "import_spec_list") then
      Bracketed text i.leaves [kw] "(" ")" (Load.itemsOf "import_spec_list" i.node)
    else ∃ e, Load.itemsOf "import_spec_list" i.node = [e] ∧ e.node.kind ≠ "comment" ∧
      i.leaves = kw :: e.leaves

/-- A function has a token in front of its body, which is statements between braces. -/
structure Item.IsFunction (text : Text) (i : Item) : Prop where
  head : Load.headLeaves i.node ≠ []
  body : ∀ b, i.node.childByField? "body" = some b →
    Bracketed text i.leaves (Load.headLeaves i.node) "\x7b" "\x7d" (Load.itemsOf "statement_list" b)

namespace Load

/-- The items of all lists of a file. -/
def allItems (root : Cst) : List Item :=
  topItems root ++ (topItems root).flatMap fun i => innerItems i.node

end Load

/-- A concrete tree with the shape of a program. -/
structure Cst.IsProgram (text : Text) (root : Cst) : Prop where
  /-- The tokens stand in order, with white space between them, and those that start a row do not start
  with white space. -/
  tokens : Leaf.Laid (Source.ofText text) (root.leaves "")
  items : ∀ i ∈ Load.allItems root, i.Formed text
  packages : ∀ i ∈ Load.topItems root, i.node.kind = "package_clause" → i.IsPackageClause text
  imports : ∀ i ∈ Load.topItems root, i.node.kind = "import_declaration" → i.IsImport text
  functions : ∀ i ∈ Load.topItems root, Load.isFunctionKind i.node.kind = true → i.IsFunction text

instance (source : Source) (ls : List Leaf) : Decidable (Leaf.Laid source ls) :=
  decidable_of_iff ((∀ l ∈ ls, l.start < l.stop ∧ l.stop ≤ source.text.length) ∧
      (ls.IsChain fun a b =>
        a.stop ≤ b.start ∧ ∀ c ∈ source.slice a.stop b.start, isBlank c = true) ∧
      (ls.IsChain fun a b => a.lastRow source < b.firstRow source → b.beginsSolid source = true) ∧
      ∀ l ∈ ls.head?, l.beginsSolid source = true)
    ⟨fun ⟨hbounds, hgaps, hrows, hhead⟩ => ⟨hbounds, hgaps, hrows, hhead⟩,
      fun h => ⟨h.bounds, h.gaps, h.rows, h.head⟩⟩

theorem Leaf.Laid.of_infix {source : Source} {ls ms : List Leaf} (h : Leaf.Laid source ls)
    (hpart : ms <:+: ls) (hhead : ∀ l, ms.head? = some l → l.beginsSolid source = true) :
    Leaf.Laid source ms where
  bounds l hl := h.bounds l (hpart.subset hl)
  gaps := List.IsChain.infix h.gaps hpart
  rows := List.IsChain.infix h.rows hpart
  head := hhead

/-- Tokens do not overlap. -/
theorem Leaf.Laid.ordered {source : Source} {ls : List Leaf} (h : Leaf.Laid source ls) :
    ls.Pairwise fun a b => a.stop ≤ b.start := by
  have hchain : ls.IsChain Cst.WellFormed.Follows :=
    h.gaps.imp_of_mem_imp fun a b _ hb hab => ⟨hab.1, (h.bounds b hb).1.le⟩
  exact (List.isChain_iff_pairwise.mp hchain).imp And.left

theorem Load.in_of_mem_allItems {root : Cst} {i : Item} (h : i ∈ allItems root) : i.In root := by
  rcases List.mem_append.mp h with h | h
  · exact in_of_mem_topItems h
  · obtain ⟨j, hj, hi⟩ := List.mem_flatMap.mp h
    exact in_of_mem_innerItems (in_of_mem_topItems hj).within hi

namespace Cst.IsProgram

variable {text : Text} {root : Cst} {i : Item}

theorem leaves_isInfix (hi : i ∈ Load.allItems root) : i.leaves <:+: root.leaves "" := by
  have h := (Load.in_of_mem_allItems hi).leaves_isInfix 0
  rwa [Piece.leaves_ofItem] at h

theorem laid (h : root.IsProgram text) (hi : i ∈ Load.allItems root) :
    Leaf.Laid (Source.ofText text) i.leaves :=
  h.tokens.of_infix (leaves_isInfix hi) (h.items i hi).solid

theorem top_mem (hi : i ∈ Load.topItems root) : i ∈ Load.allItems root := List.mem_append_left _ hi

theorem entry_mem {e : Item} (hi : i ∈ Load.topItems root) (hkind : i.node.kind = "import_declaration")
    (he : e ∈ Load.itemsOf "import_spec_list" i.node) : e ∈ Load.allItems root := by
  refine List.mem_append_right _ (List.mem_flatMap.mpr ⟨i, hi, ?_⟩)
  rwa [Load.innerItems, if_pos (by simp [hkind])]

theorem stmt_mem {e : Item} {b : Cst} (hi : i ∈ Load.topItems root)
    (hkind : Load.isFunctionKind i.node.kind = true) (hb : i.node.childByField? "body" = some b)
    (he : e ∈ Load.itemsOf "statement_list" b) : e ∈ Load.allItems root := by
  have himport : i.node.kind ≠ "import_declaration" := by
    intro heq
    rw [heq] at hkind
    exact absurd hkind (by decide)
  refine List.mem_append_right _ (List.mem_flatMap.mpr ⟨i, hi, ?_⟩)
  rwa [Load.innerItems, if_neg (by simpa using himport), if_pos hkind, hb]

/-- Tokens that start an item. -/
theorem laid_front (h : root.IsProgram text) (hi : i ∈ Load.allItems root) {front : List Leaf}
    (hne : front ≠ []) (hfront : front <+: i.leaves) :
    Leaf.Laid (Source.ofText text) front ∧ i.leaves.head? = front.head? := by
  obtain ⟨more, hmore⟩ := hfront
  have hfirst : i.leaves.head? = front.head? := by rw [← hmore, List.head?_append_of_ne_nil _ hne]
  refine ⟨h.tokens.of_infix (List.IsInfix.trans ⟨[], more, hmore⟩ (leaves_isInfix hi)) fun l hl => ?_,
    hfirst⟩
  exact (h.items i hi).solid l (hfirst.trans hl)

/-- A token with a known text. -/
theorem reads (h : root.IsProgram text) {l : Leaf} (hl : l ∈ root.leaves "") {w : String}
    (hword : l.word text = utf8 w) (hsolid : ((utf8 w).head?.any fun b => !isBlank b) = true) :
    l.Reads text w := by
  refine ⟨hword, ?_, h.tokens.bounds l hl⟩
  obtain ⟨b, hb, hblank, -⟩ := exists_of_any_solid hsolid
  obtain ⟨rest, hrest⟩ := List.head?_eq_some_iff.mp hb
  exact Leaf.beginsSolid_of_word (hword.trans hrest) hblank

/-- The items of a list are in order. -/
theorem inOrder_eq (h : root.IsProgram text) {items : List Item}
    (hitems : ∀ i ∈ items, i ∈ Load.allItems root)
    (hleaves : (items.flatMap Item.leaves).Sublist (root.leaves "")) : Load.inOrder items = items :=
  Load.inOrder_eq_of_leaves (fun i hi => (h.items i (hitems i hi)).visible)
    (fun i hi => (h.items i (hitems i hi)).start) (h.tokens.pairwise.sublist hleaves)

end Cst.IsProgram

/-- The brackets `o` and `cl` around the items of a list, behind the tokens `front` of an item. -/
structure Brackets (text : Text) (i : Item) (front : List Leaf) (opening closing : String)
    (items : List Item) (o cl : Leaf) : Prop where
  opens : o.Reads text opening
  closes : cl.Reads text closing
  front_prefix : front ++ [o] <+: i.leaves
  last : i.leaves.getLast? = some cl
  order : Load.inOrder items = items
  between : ∀ ls, ls.Sublist (items.flatMap Item.leaves) →
    (front ++ [o] ++ ls ++ [cl]).Sublist i.leaves

theorem Bracketed.exists_brackets {text : Text} {root : Cst} {i : Item} {front : List Leaf}
    {opening closing : String} {items : List Item}
    (hlist : Bracketed text i.leaves front opening closing items) (h : root.IsProgram text)
    (hi : i ∈ Load.topItems root) (hitems : ∀ e ∈ items, e ∈ Load.allItems root)
    (hopening : ((utf8 opening).head?.any fun b => !isBlank b) = true)
    (hclosing : ((utf8 closing).head?.any fun b => !isBlank b) = true) :
    ∃ o cl, Brackets text i front opening closing items o cl := by
  obtain ⟨o, cl, middle, hleaves, ho, hcl, hmiddle⟩ := hlist
  have hroot := Cst.IsProgram.leaves_isInfix (Cst.IsProgram.top_mem hi)
  have hmem : ∀ l ∈ front ++ o :: (middle ++ [cl]), l ∈ root.leaves "" :=
    fun l hl => hroot.subset (hleaves ▸ hl)
  have hbetween : ∀ ls, ls.Sublist (items.flatMap Item.leaves) →
      (front ++ [o] ++ ls ++ [cl]).Sublist i.leaves := fun ls hls => by
    rw [hleaves, List.append_assoc, List.append_assoc]
    exact (((hls.trans hmiddle).append (List.Sublist.refl [cl])).cons_cons o).append_left front
  refine ⟨o, cl, h.reads (hmem o (by simp)) ho hopening, h.reads (hmem cl (by simp)) hcl hclosing, ?_,
    ?_, h.inOrder_eq hitems ?_, hbetween⟩
  · exact ⟨middle ++ [cl], by rw [hleaves, List.append_assoc, List.singleton_append]⟩
  · rw [hleaves, ← List.cons_append, ← List.append_assoc, List.getLast?_concat]
  · refine List.Sublist.trans ?_ ((hbetween _ (List.Sublist.refl _)).trans hroot.sublist)
    exact (List.sublist_append_right _ _).trans (List.sublist_append_left _ _)

end Stopwatch
