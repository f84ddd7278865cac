import Mathlib
import Stopwatch.Proofs.Readable

/-!
# Pieces in source order

Loading sorts the items of a list by where their nodes start. If the items with tokens start in the order in
which they stand, sorting moves only items without tokens, so the tokens of all pieces and comments stay in the
order they have in the tree.

* `Cst.ItemsInOrder`: the items of every list that have tokens start in order.
* `Cst.HeadsInFront`: the signature of a function has the tokens in front of its body.
* `Load.texts`: all that is kept as text, in the order in which it is printed.
* `Load.leaves_texts_sublist`: its tokens, one piece after another, in the tree.
-/

namespace Stopwatch

/-- The tokens of an item. -/
def Item.leaves (i : Item) : List Leaf := i.node.leaves i.parent

theorem Piece.leaves_ofItem (depth : Int) (i : Item) : (Piece.ofItem depth i).leaves = i.leaves := by
  rw [leaves, ofItem, Cst.leavesAll_eq_flatMap, List.flatMap_singleton]
  rfl

theorem sublist_flatMap {α β : Type} {f g : α → List β} {l : List α}
    (h : ∀ a ∈ l, (f a).Sublist (g a)) : (l.flatMap f).Sublist (l.flatMap g) := by
  induction l with
  | nil => exact List.Sublist.refl _
  | cons a l ih =>
    rw [List.flatMap_cons, List.flatMap_cons]
    exact (h a List.mem_cons_self).append (ih fun b hb => h b (List.mem_cons_of_mem a hb))

namespace Load

/-! ## Sorting -/

/-- Items that are in order are not moved against each other. -/
theorem filter_inOrder {items : List Item} {v : Item → Bool}
    (h : (items.filter v).Pairwise fun a b => a.node.start ≤ b.node.start) :
    (inOrder items).filter v = items.filter v := by
  have hsub : (items.filter v).Sublist (inOrder items) := by
    refine List.sublist_mergeSort ?_ ?_ ?_ List.filter_sublist
    · intro a b c hab hbc
      simp only [decide_eq_true_eq] at hab hbc ⊢
      exact hab.trans hbc
    · intro a b
      simp only [Bool.or_eq_true, decide_eq_true_eq]
      exact Nat.le_total _ _
    · exact h.imp fun hab => by simpa using hab
  have hfilter := hsub.filter v
  rw [List.filter_filter] at hfilter
  simp only [Bool.and_self] at hfilter
  have hperm : ((inOrder items).filter v).Perm (items.filter v) :=
    (List.mergeSort_perm items _).filter v
  exact (hfilter.eq_of_length hperm.length_eq.symm).symm

/-- Leaving out the items without tokens leaves all tokens. -/
theorem flatMap_leaves_filter (items : List Item) :
    (items.filter fun i => !i.leaves.isEmpty).flatMap Item.leaves = items.flatMap Item.leaves := by
  induction items with
  | nil => rfl
  | cons i items ih =>
    rw [List.filter_cons, List.flatMap_cons, ← ih]
    split
    · rfl
    · next hempty =>
      have hnil : i.leaves = [] := by simpa using hempty
      rw [hnil, List.nil_append]

/-- The items with tokens start in the order in which they stand. -/
def Ordered (items : List Item) : Prop :=
  (items.filter fun i => !i.leaves.isEmpty).Pairwise fun a b => a.node.start ≤ b.node.start

instance (items : List Item) : Decidable (Ordered items) :=
  inferInstanceAs (Decidable (List.Pairwise _ _))

/-- The item starts where its first token does. -/
def aligned (i : Item) : Prop := ∀ l, i.leaves.head? = some l → i.node.start = l.start

/-- Items that start with their tokens are in order if the tokens are. -/
theorem ordered_of_aligned {items : List Item} (haligned : ∀ i ∈ items, aligned i)
    (hleaves : (items.flatMap Item.leaves).Pairwise fun a b => a.start ≤ b.start) : Ordered items := by
  rw [← flatMap_leaves_filter] at hleaves
  refine (List.pairwise_flatMap.mp hleaves).2.imp_of_mem fun {a b} ha hb hab => ?_
  obtain ⟨hitem, hne⟩ := List.mem_filter.mp ha
  obtain ⟨hitem', hne'⟩ := List.mem_filter.mp hb
  obtain ⟨k, ks, hk⟩ := List.exists_cons_of_ne_nil (by simpa using hne : a.leaves ≠ [])
  obtain ⟨l, ls, hl⟩ := List.exists_cons_of_ne_nil (by simpa using hne' : b.leaves ≠ [])
  rw [haligned a hitem k (by rw [hk]; rfl), haligned b hitem' l (by rw [hl]; rfl)]
  exact hab k (by simp [hk]) l (by simp [hl])

/-- **Sorting does not move tokens.** -/
theorem flatMap_leaves_inOrder {items : List Item} (h : Ordered items) :
    (inOrder items).flatMap Item.leaves = items.flatMap Item.leaves := by
  rw [← flatMap_leaves_filter (inOrder items), filter_inOrder h, flatMap_leaves_filter]

/-- Items that all have tokens are in order already. -/
theorem inOrder_eq_of_leaves {items : List Item} (hvisible : ∀ i ∈ items, i.leaves ≠ [])
    (haligned : ∀ i ∈ items, aligned i)
    (hleaves : (items.flatMap Item.leaves).Pairwise fun a b => a.start ≤ b.start) :
    inOrder items = items := by
  have hsorted := ordered_of_aligned haligned hleaves
  rw [Ordered, List.filter_eq_self.mpr fun i hi => by simpa using hvisible i hi] at hsorted
  exact inOrder_eq_self hsorted

/-! ## The items of a tree -/

theorem leavesAll_children_sublist (parent : String) (c : Cst) :
    (Cst.leavesAll c.kind c.children).Sublist (c.leaves parent) := by
  by_cases h : c.children = []
  · rw [h]
    exact List.nil_sublist _
  · rw [Cst.leaves_of_children_ne_nil parent h]

theorem flatMap_namedChildren_sublist (c : Cst) :
    (c.namedChildren.flatMap (Cst.leaves c.kind)).Sublist (Cst.leavesAll c.kind c.children) := by
  rw [Cst.leavesAll_eq_flatMap]
  exact List.filter_sublist.flatMap _

theorem leaves_topItems_sublist (root : Cst) :
    ((topItems root).flatMap Item.leaves).Sublist (root.leaves "") := by
  rw [topItems, List.flatMap_map]
  exact (flatMap_namedChildren_sublist root).trans (leavesAll_children_sublist "" root)

theorem leaves_itemsOf_sublist (list : String) (c : Cst) (parent : String) :
    ((itemsOf list c).flatMap Item.leaves).Sublist (c.leaves parent) := by
  have hchild : ∀ d ∈ c.namedChildren, ((if d.kind == list then d.namedChildren.map (⟨d.kind, ·⟩)
      else [⟨c.kind, d⟩]).flatMap Item.leaves).Sublist (d.leaves c.kind) := by
    intro d _
    split
    · rw [List.flatMap_map]
      exact (flatMap_namedChildren_sublist d).trans (leavesAll_children_sublist c.kind d)
    · rw [List.flatMap_singleton]
      exact List.Sublist.refl _
  rw [itemsOf, List.flatMap_assoc]
  exact (sublist_flatMap hchild).trans
    ((flatMap_namedChildren_sublist c).trans (leavesAll_children_sublist parent c))

/-- The nodes of a function in front of its body. -/
def frontNodes (c : Cst) : List Cst := c.children.takeWhile fun d => d.info.field != some "body"

/-- Without a body these are all nodes of the function; else the body comes next. -/
theorem children_eq_frontNodes (c : Cst) :
    (c.childByField? "body" = none ∧ frontNodes c = c.children) ∨
      ∃ b rest, c.childByField? "body" = some b ∧ c.children = frontNodes c ++ b :: rest := by
  unfold Cst.childByField? frontNodes
  induction c.children with
  | nil => exact Or.inl ⟨rfl, rfl⟩
  | cons d ds ih =>
    cases hd : d.info.field == some "body" with
    | true => exact Or.inr ⟨d, ds, by simp [hd], by simp [bne, hd]⟩
    | false =>
      rw [List.find?_cons_of_neg (by simp [hd]), List.takeWhile_cons_of_pos (by simp [bne, hd])]
      rcases ih with ⟨hnone, hall⟩ | ⟨b, rest, hb, hsplit⟩
      · exact Or.inl ⟨hnone, by rw [hall]⟩
      · exact Or.inr ⟨b, rest, hb, by rw [List.cons_append, ← hsplit]⟩

end Load

/-- In every list of items, those with tokens start in the order in which they stand. -/
structure Cst.ItemsInOrder (root : Cst) : Prop where
  top : Load.Ordered (Load.topItems root)
  inner : ∀ c ∈ root.namedChildren, Load.Ordered (Load.innerItems c)

/-- The nodes of a function that end before its body have the tokens of those in front of it. -/
def Cst.HeadsInFront (root : Cst) : Prop :=
  ∀ c ∈ root.namedChildren, Load.isFunctionKind c.kind = true →
    Cst.leavesAll c.kind (Load.headNodes c) = Cst.leavesAll c.kind (Load.frontNodes c)

namespace Load

/-- What is kept as text of a top-level item: the comments of an import declaration, the signature of a
function with the statements and comments of its body, and any other item but the package clause. -/
def itemTexts (i : Item) : List Piece :=
  if i.node.kind == "package_clause" then []
  else if i.node.kind == "import_declaration" then
    ((inOrder (innerItems i.node)).filter (·.node.kind == "comment")).map (.ofItem 1)
  else if isFunctionKind i.node.kind then
    ⟨0, i.node.kind, headNodes i.node⟩ :: (inOrder (innerItems i.node)).map (.ofItem 1)
  else [.ofItem 0 i]

/-- What is kept as text of a file, comments behind other items included. -/
def texts (root : Cst) : List Piece := (inOrder (topItems root)).flatMap itemTexts

variable {root c : Cst}

theorem flatMap_leaves_ofItem (depth : Int) (items : List Item) :
    (items.map (Piece.ofItem depth)).flatMap Piece.leaves = items.flatMap Item.leaves := by
  rw [List.flatMap_map]
  exact List.flatMap_congr fun i _ => Piece.leaves_ofItem depth i

theorem not_import_of_isFunctionKind (h : isFunctionKind c.kind = true) :
    (c.kind == "import_declaration") = false := by
  refine beq_eq_false_iff_ne.mpr fun heq => ?_
  rw [heq] at h
  exact absurd h (by decide)

/-- The tokens of a function: those of its signature, then those of its body. -/
theorem leaves_function_sublist (hheads : root.HeadsInFront) (horder : Ordered (innerItems c))
    (hc : c ∈ root.namedChildren) (hkind : isFunctionKind c.kind = true) (parent : String) :
    (Cst.leavesAll c.kind (headNodes c) ++ (inOrder (innerItems c)).flatMap Item.leaves).Sublist
      (c.leaves parent) := by
  have hall := leavesAll_children_sublist parent c
  rw [hheads c hc hkind, flatMap_leaves_inOrder horder, innerItems, not_import_of_isFunctionKind hkind,
    if_neg (by simp), if_pos hkind]
  obtain ⟨hnone, hfront⟩ | ⟨b, rest, hb, hsplit⟩ := children_eq_frontNodes c
  · rw [hnone, hfront]
    simpa using hall
  · have hleaves : Cst.leavesAll c.kind c.children =
        Cst.leavesAll c.kind (frontNodes c) ++ (b.leaves c.kind ++ Cst.leavesAll c.kind rest) := by
      conv_lhs => rw [hsplit]
      simp only [Cst.leavesAll_eq_flatMap, List.flatMap_append, List.flatMap_cons]
    have hbody := leaves_itemsOf_sublist "statement_list" b c.kind
    rw [hleaves] at hall
    rw [hb]
    exact ((List.Sublist.refl _).append (hbody.trans (List.sublist_append_left _ _))).trans hall

/-- The tokens of what is kept of a top-level item. -/
theorem leaves_itemTexts_sublist (hheads : root.HeadsInFront) (horder : root.ItemsInOrder) {i : Item}
    (hi : i ∈ topItems root) : ((itemTexts i).flatMap Piece.leaves).Sublist i.leaves := by
  obtain ⟨c, hc, rfl⟩ := List.mem_map.mp hi
  have hinner := horder.inner c hc
  unfold itemTexts
  split
  · exact List.nil_sublist _
  split
  · next hkind =>
    rw [flatMap_leaves_ofItem]
    refine (List.filter_sublist.flatMap _).trans ?_
    rw [flatMap_leaves_inOrder hinner, innerItems, if_pos hkind]
    exact leaves_itemsOf_sublist "import_spec_list" c root.kind
  split
  · next hkind =>
    rw [List.flatMap_cons, flatMap_leaves_ofItem]
    exact leaves_function_sublist hheads hinner hc hkind root.kind
  · rw [List.flatMap_singleton, Piece.leaves_ofItem]

/-- **The tokens of what is kept as text, one after another, are in the order of the tree.** -/
theorem leaves_texts_sublist (hheads : root.HeadsInFront) (horder : root.ItemsInOrder) :
    ((texts root).flatMap Piece.leaves).Sublist (root.leaves "") := by
  rw [texts, List.flatMap_assoc]
  have hitems : ((inOrder (topItems root)).flatMap fun i => (itemTexts i).flatMap Piece.leaves).Sublist
      ((inOrder (topItems root)).flatMap Item.leaves) :=
    sublist_flatMap fun i hi => leaves_itemTexts_sublist hheads horder (mem_inOrder.mp hi)
  rw [flatMap_leaves_inOrder horder.top] at hitems
  exact hitems.trans (leaves_topItems_sublist root)

end Load

end Stopwatch
