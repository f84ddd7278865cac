import Mathlib
import Stopwatch.Proofs.Items
import Stopwatch.Proofs.Leaves
import Stopwatch.Timing.Imports

/-!
# Comments put into a tree

`Commented s s' c c' starts`: the tree `c'` over the source `s'` is `c` over `s` with comments put among
the children of its inner nodes, at any depth. All other nodes are kept: they may have moved, but their
kind, role and, where no comment was put inside, text are the same. `starts` lists where each kept node
starts in the two sources, in the order of the tree.

What the model of a file says apart from its layout is its `outline`. The loader reads most of it by role
or by kind, which a comment cannot disturb. It reads the name in a package clause and the type behind a
star by their place, as the first child, so there a comment in front gets in the way.

Results:
* `Load.forall₂_inOrder`: lists of items that start in the same order are sorted alike.
* `Commented.outline_ofCst`: comments that stand clear of the names do not change the outline.
* `Commented.package_name_lost`: one before the name of the package does.
-/

namespace Stopwatch

/-! ## What a file declares -/

/-- A declaration without its layout. -/
inductive Outline where
  | package (name : Text)
  | imports (specs : List (Text × Option Text))
  /-- A function with the kinds of the statements of its body. -/
  | function (name : Text) (receiver : Option Text) (body : Option (List String))
  | other (kind : String)
  deriving DecidableEq, Repr

namespace Node

/-- The kind of a statement; comments have none. -/
def stmtKind? : Node → Option String
  | rawStmt _ kind _ => some kind
  | _ => none

/-- The path and the alias of an import; comments have none. -/
def binding? (n : Node) : Option (Text × Option Text) := n.spec?.map fun s => (s.path, s.name)

/-- The outline of a declaration; comments have none. -/
def outline? : Node → Option Outline
  | packageClause _ name => some (.package name)
  | importDecl _ entries _ => some (.imports (entries.filterMap binding?))
  | funcDecl _ h b => some (.function h.name h.receiver (b.map fun b => b.stmts.filterMap stmtKind?))
  | rawDecl _ kind _ => some (.other kind)
  | _ => none

end Node

/-- What a file declares, in order. -/
def SourceFile.outline (f : SourceFile) : List Outline := f.decls.filterMap Node.outline?

/-! ## Trees with comments put in -/

mutual

/-- Whether a node is or holds a comment. -/
def Cst.holdsComment : Cst → Bool
  | .node i cs => i.kind == "comment" || anyHoldsComment cs
termination_by structural c => c

/-- Whether one of several nodes is or holds a comment. -/
def anyHoldsComment : List Cst → Bool
  | [] => false
  | c :: cs => c.holdsComment || anyHoldsComment cs
termination_by structural cs => cs

end

/-- A comment as the grammar puts it anywhere: a token that is named and has no role. -/
def CstInfo.IsComment (i : CstInfo) : Prop := i.kind = "comment" ∧ i.named = true ∧ i.field = none

/-- What a kept node has in both trees. -/
structure CstInfo.Keeps (i i' : CstInfo) : Prop where
  kind : i'.kind = i.kind
  named : i'.named = i.named
  field : i'.field = i.field

mutual

/-- A tree with comments put among the children of its inner nodes. -/
inductive Commented (s s' : Source) : Cst → Cst → List (Nat × Nat) → Prop
  | leaf {i i' : CstInfo} (keeps : i.Keeps i')
      (text : s'.slice i'.start i'.stop = s.slice i.start i.stop) :
      Commented s s' (.node i []) (.node i' []) [(i.start, i'.start)]
  | inner {i i' : CstInfo} {c : Cst} {cs cs' : List Cst} {starts : List (Nat × Nat)}
      (keeps : i.Keeps i') (below : CommentedAll s s' (c :: cs) cs' starts)
      (text : anyHoldsComment cs' = false →
        s'.slice i'.start i'.stop = s.slice i.start i.stop) :
      Commented s s' (.node i (c :: cs)) (.node i' cs') ((i.start, i'.start) :: starts)

/-- Neighbouring nodes, with comments put between them. -/
inductive CommentedAll (s s' : Source) : List Cst → List Cst → List (Nat × Nat) → Prop
  | nil : CommentedAll s s' [] [] []
  | keep {c c' : Cst} {cs cs' : List Cst} {starts starts' : List (Nat × Nat)}
      (head : Commented s s' c c' starts) (tail : CommentedAll s s' cs cs' starts') :
      CommentedAll s s' (c :: cs) (c' :: cs') (starts ++ starts')
  | insert {i : CstInfo} {cs cs' : List Cst} {starts : List (Nat × Nat)} (comment : i.IsComment)
      (tail : CommentedAll s s' cs cs' starts) : CommentedAll s s' cs (.node i [] :: cs') starts

end

/-- Two nodes, the first before the second in their tree, start in the same order before and after. -/
def SameOrder (a b : Nat × Nat) : Prop := b.1 < a.1 ↔ b.2 < a.2

instance : DecidableRel SameOrder := fun a b => inferInstanceAs (Decidable (b.1 < a.1 ↔ b.2 < a.2))

/-! ## Names clear of comments -/

mutual

/-- A node and all nodes below it. -/
def Cst.subtrees : Cst → List Cst
  | c@(.node _ cs) => c :: subtreesAll cs
termination_by structural c => c

/-- Several nodes and all nodes below them. -/
def subtreesAll : List Cst → List Cst
  | [] => []
  | c :: cs => c.subtrees ++ subtreesAll cs
termination_by structural cs => cs

end

/-- No comment is in the way of what the loader reads from the tree. -/
structure NamesClear (root : Cst) : Prop where
  /-- None stands inside a name or a path. -/
  text : ∀ c ∈ root.subtrees, c.info.field = some "name" ∨ c.info.field = some "path" ∨
    c.kind = "type_identifier" → c.holdsComment = false
  /-- None stands before the name of a package. -/
  package : ∀ c ∈ root.subtrees, c.kind = "package_clause" →
    ((c.namedChildren.head?).getD c).holdsComment = false
  /-- None stands between a star and its type. -/
  pointer : ∀ c ∈ root.subtrees, c.kind = "pointer_type" →
    ∀ d ∈ c.namedChildren.head?, d.kind ≠ "comment"
  /-- None stands inside an import without a path, which is read as a whole. -/
  entry : ∀ c ∈ root.subtrees, c.kind = "import_declaration" →
    ∀ i ∈ Load.itemsOf "import_spec_list" c, i.node.kind ≠ "comment" →
      i.node.childByField? "path" = none → i.node.holdsComment = false

theorem Cst.mem_subtrees_self (c : Cst) : c ∈ c.subtrees := by
  cases c
  exact List.mem_cons_self

theorem Cst.kind_ne_of_holdsComment {c : Cst} (h : c.holdsComment = false) : c.kind ≠ "comment" := by
  cases c
  rw [Cst.holdsComment, Bool.or_eq_false_iff] at h
  exact beq_eq_false_iff_ne.mp h.1

theorem subtreesAll_subset {c : Cst} {cs : List Cst} (h : c ∈ cs) :
    c.subtrees ⊆ subtreesAll cs := by
  induction cs with
  | nil => exact absurd h List.not_mem_nil
  | cons d cs ih =>
    rcases List.mem_cons.mp h with rfl | h
    · exact List.subset_append_left _ _
    · exact fun d hd => List.mem_append_right _ (ih h hd)

theorem Cst.subtrees_subset {c d : Cst} (h : d ∈ c.children) : d.subtrees ⊆ c.subtrees := by
  cases c
  exact fun e he => List.mem_cons_of_mem _ (subtreesAll_subset h he)

theorem NamesClear.child {c d : Cst} (h : NamesClear c) (hd : d ∈ c.children) : NamesClear d where
  text := fun e he => h.text e (Cst.subtrees_subset hd he)
  package := fun e he => h.package e (Cst.subtrees_subset hd he)
  pointer := fun e he => h.pointer e (Cst.subtrees_subset hd he)
  entry := fun e he => h.entry e (Cst.subtrees_subset hd he)

/-! ## Kept nodes -/

section Kept

variable {s s' : Source}

/-- A node that is found again with comments put in, all nodes below it starting in the same order. -/
def Kept (s s' : Source) (c c' : Cst) : Prop :=
  ∃ starts, Commented s s' c c' starts ∧ starts.Pairwise SameOrder

theorem Commented.keeps {c c' : Cst} {starts : List (Nat × Nat)} (h : Commented s s' c c' starts) :
    c.info.Keeps c'.info := by
  cases h with
  | leaf keeps _ => exact keeps
  | inner keeps _ _ => exact keeps

theorem Commented.children {c c' : Cst} {starts : List (Nat × Nat)}
    (h : Commented s s' c c' starts) : ∃ starts', starts = (c.start, c'.start) :: starts' ∧
      CommentedAll s s' c.children c'.children starts' := by
  cases h with
  | leaf _ _ => exact ⟨[], rfl, .nil⟩
  | inner _ below _ => exact ⟨_, rfl, below⟩

/-- The children of a node that is found again. -/
theorem Kept.children {c c' : Cst} (h : Kept s s' c c') :
    ∃ starts, CommentedAll s s' c.children c'.children starts ∧ starts.Pairwise SameOrder := by
  obtain ⟨_, h, horder⟩ := h
  obtain ⟨starts, rfl, hchildren⟩ := h.children
  exact ⟨starts, hchildren, (List.pairwise_cons.mp horder).2⟩

theorem Kept.kind_eq {c c' : Cst} (h : Kept s s' c c') : c'.kind = c.kind := by
  obtain ⟨_, h, -⟩ := h
  exact h.keeps.kind

/-- A node keeps its text if no comment was put inside. -/
theorem Kept.text_eq {c c' : Cst} (h : Kept s s' c c') (hclear : c'.holdsComment = false) :
    c'.text s' = c.text s := by
  obtain ⟨_, h, -⟩ := h
  cases h with
  | leaf _ text => exact text
  | inner _ _ text =>
    rw [Cst.holdsComment, Bool.or_eq_false_iff] at hclear
    exact text hclear.2

/-- A child is found again by what is kept of it and no comment has. -/
theorem CommentedAll.find? {v : CstInfo → Bool} (hkeeps : ∀ i i' : CstInfo, i.Keeps i' → v i' = v i)
    (hcomment : ∀ i : CstInfo, i.IsComment → v i = false) :
    ∀ {cs cs' : List Cst} {starts : List (Nat × Nat)}, CommentedAll s s' cs cs' starts →
      starts.Pairwise SameOrder →
      Option.Rel (Kept s s') (cs.find? fun d => v d.info) (cs'.find? fun d => v d.info)
  | _, _, _, .nil, _ => .none
  | _, _, _, .keep head tail, horder => by
    rw [List.pairwise_append] at horder
    rw [List.find?_cons, List.find?_cons, hkeeps _ _ head.keeps]
    split
    · exact .some ⟨_, head, horder.1⟩
    · exact tail.find? hkeeps hcomment horder.2.1
  | _, _, _, .insert comment tail, horder => by
    rw [List.find?_cons_of_neg (by simp [Cst.info, hcomment _ comment])]
    exact tail.find? hkeeps hcomment horder

/-- A child is found again by its role. -/
theorem Kept.childByField? {c c' : Cst} (h : Kept s s' c c') (name : String) :
    Option.Rel (Kept s s') (c.childByField? name) (c'.childByField? name) := by
  obtain ⟨_, below, horder⟩ := h.children
  refine below.find? (v := fun i => i.field == some name) (fun i i' keeps => ?_)
    (fun i comment => ?_) horder
  · rw [keeps.field]
  · rw [comment.2.2]
    rfl

/-- A named child is found again by its kind. -/
theorem Kept.find?_namedChildren {c c' : Cst} (h : Kept s s' c c') (kind : String)
    (hkind : kind ≠ "comment") :
    Option.Rel (Kept s s') (c.namedChildren.find? (·.kind == kind))
      (c'.namedChildren.find? (·.kind == kind)) := by
  obtain ⟨_, below, horder⟩ := h.children
  rw [Cst.namedChildren, Cst.namedChildren, List.find?_filter, List.find?_filter]
  refine below.find? (v := fun i => i.named ∧ (i.kind == kind) = true) (fun i i' keeps => ?_)
    (fun i comment => ?_) horder
  · rw [keeps.named, keeps.kind]
  · simp [comment.1, hkind.symm]

/-- The first named child is found again, unless a comment stands before it. -/
theorem CommentedAll.head?_named : ∀ {cs cs' : List Cst} {starts : List (Nat × Nat)},
    CommentedAll s s' cs cs' starts → starts.Pairwise SameOrder →
    (∀ d ∈ (cs'.filter (·.info.named)).head?, d.kind ≠ "comment") →
    Option.Rel (Kept s s') (cs.filter (·.info.named)).head? (cs'.filter (·.info.named)).head?
  | _, _, _, .nil, _, _ => .none
  | _, _, _, .keep head tail, horder, hfirst => by
    rw [List.pairwise_append] at horder
    rw [List.filter_cons, head.keeps.named] at hfirst
    rw [List.filter_cons, List.filter_cons, head.keeps.named]
    split at hfirst
    · rename_i hnamed
      rw [if_pos hnamed, if_pos hnamed]
      exact .some ⟨_, head, horder.1⟩
    · rename_i hnamed
      rw [if_neg hnamed, if_neg hnamed]
      exact tail.head?_named horder.2.1 hfirst
  | _, _, _, .insert comment tail, _, hfirst => by
    rw [List.filter_cons_of_pos (by exact comment.2.1)] at hfirst
    exact absurd comment.1 (hfirst _ rfl)

theorem Kept.head?_namedChildren {c c' : Cst} (h : Kept s s' c c')
    (hfirst : ∀ d ∈ c'.namedChildren.head?, d.kind ≠ "comment") :
    Option.Rel (Kept s s') c.namedChildren.head? c'.namedChildren.head? := by
  obtain ⟨_, below, horder⟩ := h.children
  exact below.head?_named horder hfirst

end Kept

/-! ## Sorting -/

namespace Load

/-- Sorting puts an item between those of the others that start before it and the rest. -/
theorem inOrder_cons (i : Item) (items : List Item) :
    inOrder items = ((inOrder items).filter fun j => j.node.start < i.node.start) ++
        (inOrder items).filter (fun j => ¬ j.node.start < i.node.start) ∧
      inOrder (i :: items) = ((inOrder items).filter fun j => j.node.start < i.node.start) ++
        i :: (inOrder items).filter fun j => ¬ j.node.start < i.node.start := by
  have htrans : ∀ a b c : Item, decide (a.node.start ≤ b.node.start) = true →
      decide (b.node.start ≤ c.node.start) = true → decide (a.node.start ≤ c.node.start) = true := by
    intro a b c hab hbc
    simp only [decide_eq_true_eq] at hab hbc ⊢
    omega
  have htotal : ∀ a b : Item, (decide (a.node.start ≤ b.node.start) ||
      decide (b.node.start ≤ a.node.start)) = true := by
    intro a b
    simp only [Bool.or_eq_true, decide_eq_true_eq]
    omega
  obtain ⟨before, after, hnew, hold, hbefore⟩ := List.mergeSort_cons htrans htotal i items
  have hsorted := List.pairwise_mergeSort htrans htotal (i :: items)
  rw [hnew] at hsorted
  have hafter := (List.pairwise_cons.mp (List.pairwise_append.mp hsorted).2.1).1
  have hlt : ∀ j ∈ before, j.node.start < i.node.start := fun j hj => by
    have := hbefore j hj
    simp only [Bool.not_eq_true', decide_eq_false_iff_not] at this
    omega
  have hge : ∀ j ∈ after, ¬ j.node.start < i.node.start := fun j hj => by
    have := hafter j hj
    simp only [decide_eq_true_eq] at this
    omega
  have hlow : (before ++ after).filter (fun j => j.node.start < i.node.start) = before := by
    rw [List.filter_append, List.filter_eq_self.mpr (by simpa using hlt),
      List.filter_eq_nil_iff.mpr (by simpa using hge), List.append_nil]
  have hhigh : (before ++ after).filter (fun j => ¬ j.node.start < i.node.start) = after := by
    rw [List.filter_append, List.filter_eq_nil_iff.mpr (by simpa using hlt),
      List.filter_eq_self.mpr (by simpa using hge), List.nil_append]
  rw [inOrder, inOrder, hnew, hold, hlow, hhigh]
  exact ⟨rfl, rfl⟩

/-- Leaving items out and sorting go together. -/
theorem inOrder_filter (v : Item → Bool) (items : List Item) :
    inOrder (items.filter v) = (inOrder items).filter v := by
  induction items with
  | nil => simp [inOrder]
  | cons i items ih =>
    obtain ⟨hold, hnew⟩ := inOrder_cons i items
    rw [hnew, List.filter_append, List.filter_cons, List.filter_cons]
    split
    · rw [(inOrder_cons i _).2, ih]
      simp only [List.filter_filter, Bool.and_comm]
    · rw [ih, ← List.filter_append, ← hold]

theorem forall₂_filter {α β : Type} {R : α → β → Prop} {p : α → Bool} {q : β → Bool} {xs : List α}
    {ys : List β} (h : List.Forall₂ (fun a b => R a b ∧ p a = q b) xs ys) :
    List.Forall₂ R (xs.filter p) (ys.filter q) := by
  induction h with
  | nil => exact .nil
  | cons head _ ih =>
    rw [List.filter_cons, List.filter_cons, head.2]
    split
    · exact .cons head.1 ih
    · exact ih

theorem forall₂_and_of_zipWith {α β γ : Type} {R : α → β → Prop} {g : α → β → γ} {P : γ → Prop}
    {xs : List α} {ys : List β} (h : List.Forall₂ R xs ys) (hP : ∀ c ∈ List.zipWith g xs ys, P c) :
    List.Forall₂ (fun a b => R a b ∧ P (g a b)) xs ys := by
  induction h with
  | nil => exact .nil
  | cons head _ ih =>
    rw [List.zipWith_cons_cons, List.forall_mem_cons] at hP
    exact .cons ⟨head, hP.1⟩ (ih hP.2)

/-- **Lists of items that start in the same order are sorted alike.** -/
theorem forall₂_inOrder {R : Item → Item → Prop} {xs ys : List Item} (h : List.Forall₂ R xs ys)
    (horder : (List.zipWith (fun a b => (a.node.start, b.node.start)) xs ys).Pairwise SameOrder) :
    List.Forall₂ R (inOrder xs) (inOrder ys) := by
  induction xs generalizing ys R with
  | nil =>
    cases h
    simp [inOrder]
  | cons a xs ih =>
    cases h with
    | @cons _ b _ ys head tail =>
      rw [List.zipWith_cons_cons, List.pairwise_cons] at horder
      -- The items behind `a` and `b` fall on the same side of them.
      have hrest := ih (forall₂_and_of_zipWith tail horder.1) horder.2
      rw [(inOrder_cons a xs).2, (inOrder_cons b ys).2]
      refine List.rel_append (forall₂_filter (hrest.imp ?_))
        (.cons head (forall₂_filter (hrest.imp ?_)))
      · exact fun c d h => ⟨h.1, decide_eq_decide.mpr h.2⟩
      · exact fun c d h => ⟨h.1, decide_eq_decide.mpr (not_congr h.2)⟩

/-! ## Items -/

/-- Whether an item is more than a comment. -/
def isContent (i : Item) : Bool := i.node.kind != "comment"

variable {s s' : Source}

/-- Items that are found again, with the places where they start taken from a list. -/
structure KeptItems (s s' : Source) (xs ys : List Item) (starts : List (Nat × Nat)) : Prop where
  kept : List.Forall₂ (fun i j => Kept s s' i.node j.node) xs ys
  starts : (List.zipWith (fun i j => (i.node.start, j.node.start)) xs ys).Sublist starts

namespace KeptItems

theorem append {xs xs' ys ys' : List Item} {starts starts' : List (Nat × Nat)}
    (h : KeptItems s s' xs ys starts) (h' : KeptItems s s' xs' ys' starts') :
    KeptItems s s' (xs ++ xs') (ys ++ ys') (starts ++ starts') where
  kept := List.rel_append h.kept h'.kept
  starts := by
    rw [List.zipWith_append h.kept.length_eq]
    exact h.starts.append h'.starts

theorem nil (starts : List (Nat × Nat)) : KeptItems s s' [] [] starts :=
  ⟨.nil, List.nil_sublist starts⟩

theorem single {c c' : Cst} {starts : List (Nat × Nat)} (h : Commented s s' c c' starts)
    (horder : starts.Pairwise SameOrder) (parent parent' : String) :
    KeptItems s s' ([⟨parent, c⟩].filter isContent) ([⟨parent', c'⟩].filter isContent) starts := by
  have hkind : isContent ⟨parent', c'⟩ = isContent ⟨parent, c⟩ :=
    congrArg (· != "comment") h.keeps.kind
  rw [List.filter_cons, List.filter_cons, hkind]
  split
  · have hkept : Kept s s' c c' := ⟨_, h, horder⟩
    obtain ⟨rest, rfl, -⟩ := h.children
    exact ⟨.cons hkept .nil, List.singleton_sublist.mpr List.mem_cons_self⟩
  · exact nil starts

/-- Neighbouring nodes are found again, each with the items it stands for. -/
theorem of_commentedAll {items items' : Cst → List Item}
    (hkeep : ∀ {c c' starts}, Commented s s' c c' starts → starts.Pairwise SameOrder →
      KeptItems s s' ((items c).filter isContent) ((items' c').filter isContent) starts)
    (hinsert : ∀ {i : CstInfo}, i.IsComment → (items' (.node i [])).filter isContent = []) :
    ∀ {cs cs' : List Cst} {starts : List (Nat × Nat)}, CommentedAll s s' cs cs' starts →
      starts.Pairwise SameOrder →
      KeptItems s s' (((cs.filter (·.info.named)).flatMap items).filter isContent)
        (((cs'.filter (·.info.named)).flatMap items').filter isContent) starts
  | _, _, _, .nil, _ => nil []
  | _, _, _, .keep head tail, horder => by
    rw [List.pairwise_append] at horder
    have hrest := of_commentedAll hkeep hinsert tail horder.2.1
    rw [List.filter_cons, List.filter_cons, head.keeps.named]
    split
    · rw [List.flatMap_cons, List.flatMap_cons, List.filter_append, List.filter_append]
      exact (hkeep head horder.1).append hrest
    · exact ⟨hrest.kept, hrest.starts.trans (List.sublist_append_right _ _)⟩
  | _, _, _, .insert comment tail, horder => by
    rw [List.filter_cons_of_pos (by exact comment.2.1), List.flatMap_cons, List.filter_append,
      hinsert comment, List.nil_append]
    exact of_commentedAll hkeep hinsert tail horder

end KeptItems

theorem filter_isContent_comment {i : CstInfo} (h : i.IsComment) (parent : String) :
    [(⟨parent, .node i []⟩ : Item)].filter isContent = [] := by
  have hkind : isContent ⟨parent, .node i []⟩ = false := by
    rw [isContent, show (Cst.node i []).kind = "comment" from h.1]
    rfl
  rw [List.filter_cons, if_neg (by simp [hkind]), List.filter_nil]

/-- The named children of a node are found again. -/
theorem keptItems_namedChildren {c c' : Cst} {starts : List (Nat × Nat)}
    (h : CommentedAll s s' c.children c'.children starts) (horder : starts.Pairwise SameOrder)
    (parent parent' : String) :
    KeptItems s s' ((c.namedChildren.map (⟨parent, ·⟩)).filter isContent)
      ((c'.namedChildren.map (⟨parent', ·⟩)).filter isContent) starts := by
  rw [List.map_eq_flatMap, List.map_eq_flatMap]
  exact .of_commentedAll (fun h horder => .single h horder parent parent')
    (fun h => filter_isContent_comment h parent') h horder

/-- So are the entries of a declaration and the statements of a body. -/
theorem keptItems_itemsOf {list : String} (hlist : list ≠ "comment") {c c' : Cst}
    {starts : List (Nat × Nat)} (h : CommentedAll s s' c.children c'.children starts)
    (horder : starts.Pairwise SameOrder) :
    KeptItems s s' ((itemsOf list c).filter isContent) ((itemsOf list c').filter isContent)
      starts := by
  refine .of_commentedAll (fun {d d' starts} hd horder => ?_) (fun {i} hi => ?_) h horder
  · rw [show d'.kind = d.kind from hd.keeps.kind]
    split
    · obtain ⟨rest, rfl, hchildren⟩ := hd.children
      have hitems :=
        keptItems_namedChildren hchildren (List.pairwise_cons.mp horder).2 d.kind d.kind
      exact ⟨hitems.kept, hitems.starts.trans (List.sublist_cons_self _ _)⟩
    · exact .single hd horder c.kind c'.kind
  · have hkind : ((Cst.node i []).kind == list) = false := by
      rw [show (Cst.node i []).kind = "comment" from hi.1]
      exact beq_eq_false_iff_ne.mpr hlist.symm
    rw [hkind]
    exact filter_isContent_comment hi c'.kind

/-! ## Nodes -/

/-- The contents of a list are those of its items, in source order. -/
theorem filterMap_fill {α : Type} {source : Source} {convert : Item → Node} {view : Node → Option α}
    (hconvert : ∀ i, (convert i).mark.trailing = none)
    (htrailing : ∀ t n, view (n.withTrailing t) = view n)
    (hcomment : ∀ m f, view (.comment m f) = none) (items : List Item) :
    (fill source convert items).filterMap view =
      (inOrder (items.filter isContent)).filterMap fun i => view (convert i) := by
  have hview : view ∘ blockNode source convert = fun b =>
      if isContent b.1 then view (convert b.1) else none := by
    funext b
    have hblock : view (blockNode source convert b) = view (itemNode source convert b.1) := by
      unfold blockNode
      split
      · rfl
      · exact htrailing _ _
    rw [Function.comp_apply, hblock]
    unfold itemNode isContent
    by_cases h : b.1.node.kind = "comment"
    · simp [h, commentItem, hcomment]
    · simp [h]
  rw [fill_eq hconvert, inOrder_filter, List.filterMap_map, hview, List.filterMap_filter]
  generalize inOrder items = sorted
  fun_induction blocks source sorted with
  | case1 => rfl
  | case2 i => rw [List.filterMap_cons, List.filterMap_cons]; rfl
  | case3 i c rest hfollows ih =>
    have hc : isContent c = false := by
      simp only [follows, Bool.and_eq_true] at hfollows
      simp [isContent, beq_iff_eq.mp hfollows.1.1]
    rw [List.filterMap_cons, ih, List.filterMap_cons, List.filterMap_cons]
    simp only [hc, Bool.false_eq_true, if_false]
  | case4 i c rest _ ih =>
    rw [List.filterMap_cons, ih]
    conv_rhs => rw [List.filterMap_cons]

mutual

/-- The name of a type is found again, whatever stands between its parts. -/
theorem baseTypeName?_eq : ∀ {c c' : Cst} {starts : List (Nat × Nat)},
    Commented s s' c c' starts → NamesClear c' → baseTypeName? s' c' = baseTypeName? s c
  | _, _, _, .leaf keeps text, _ => by
    rw [baseTypeName?, baseTypeName?, keeps.kind, text]
    rfl
  | _, _, _, @Commented.inner _ _ i i' c cs cs' _ keeps below text, hclear => by
    have hbelow := typeFieldName?_eq below fun d hd => hclear.child hd
    rw [baseTypeName?, baseTypeName?, keeps.kind, hbelow]
    split
    · rename_i hkind
      have hnone := hclear.text _ (Cst.mem_subtrees_self _)
        (.inr (.inr (keeps.kind.trans (beq_iff_eq.mp hkind))))
      rw [Cst.holdsComment, Bool.or_eq_false_iff] at hnone
      rw [text hnone.2]
    · rfl

theorem typeFieldName?_eq : ∀ {cs cs' : List Cst} {starts : List (Nat × Nat)},
    CommentedAll s s' cs cs' starts → (∀ c ∈ cs', NamesClear c) →
    typeFieldName? s' cs' = typeFieldName? s cs
  | _, _, _, .nil, _ => rfl
  | _, _, _, .keep head tail, hclear => by
    rw [List.forall_mem_cons] at hclear
    rw [typeFieldName?, typeFieldName?, head.keeps.field, baseTypeName?_eq head hclear.1,
      typeFieldName?_eq tail hclear.2]
  | _, _, _, .insert comment tail, hclear => by
    rw [List.forall_mem_cons] at hclear
    rw [typeFieldName?, show (Cst.node _ []).info.field = none from comment.2.2,
      typeFieldName?_eq tail hclear.2]
    rfl

end

theorem bind_eq_of_rel {α : Type} {R : Cst → Cst → Prop} {o o' : Option Cst} {f g : Cst → Option α}
    (h : Option.Rel R o o') (hfg : ∀ c c', R c c' → o' = some c' → g c' = f c) :
    o'.bind g = o.bind f := by
  cases h with
  | none => rfl
  | some hR => exact hfg _ _ hR rfl

theorem map_eq_of_rel {α : Type} {R : Cst → Cst → Prop} {o o' : Option Cst} {f g : Cst → α}
    (h : Option.Rel R o o') (hfg : ∀ c c', R c c' → o' = some c' → g c' = f c) :
    o'.map g = o.map f := by
  cases h with
  | none => rfl
  | some hR => exact congrArg some (hfg _ _ hR rfl)

theorem text_getD_eq {c c' : Cst} {o o' : Option Cst} (hc : Kept s s' c c')
    (h : Option.Rel (Kept s s') o o') (hclear : (o'.getD c').holdsComment = false) :
    (o'.getD c').text s' = (o.getD c).text s := by
  cases h with
  | none => exact hc.text_eq hclear
  | some hd => exact hd.text_eq hclear

/-- A child with a role has it, and what stands clear in the tree stands clear in the child. -/
theorem clear_of_childByField? {c d : Cst} {name : String} (hclear : NamesClear c)
    (hd : c.childByField? name = some d) : d.info.field = some name ∧ NamesClear d := by
  have hfield := List.find?_some hd
  exact ⟨beq_iff_eq.mp hfield, hclear.child (List.mem_of_find?_eq_some hd)⟩

theorem clear_of_mem_namedChildren {c d : Cst} (hclear : NamesClear c) (hd : d ∈ c.namedChildren) :
    NamesClear d :=
  hclear.child (List.mem_of_mem_filter hd)

/-- The text of a name is found again. -/
theorem text_name_eq {c c' : Cst} (h : Kept s s' c c') (hclear : NamesClear c') :
    (c'.childByField? "name").map (·.text s') = (c.childByField? "name").map (·.text s) := by
  refine map_eq_of_rel (h.childByField? "name") fun d d' hkept hd => hkept.text_eq ?_
  obtain ⟨hfield, hd⟩ := clear_of_childByField? hclear hd
  exact hd.text d' d'.mem_subtrees_self (.inl hfield)

theorem baseTypeName?_of_kept {c c' : Cst} (h : Kept s s' c c') (hclear : NamesClear c') :
    baseTypeName? s' c' = baseTypeName? s c := by
  obtain ⟨_, h, -⟩ := h
  exact baseTypeName?_eq h hclear

theorem receiverType_eq {o o' : Option Cst} (h : Option.Rel (Kept s s') o o')
    (hclear : ∀ d, o' = some d → NamesClear d) : receiverType s' o' = receiverType s o := by
  cases h with
  | none => rfl
  | @some c c' hkept =>
    have hc := hclear c' rfl
    rw [receiverType, receiverType, hkept.kind_eq, baseTypeName?_of_kept hkept hc]
    split
    · rename_i hkind
      have hpointer := hc.pointer c' c'.mem_subtrees_self
        (hkept.kind_eq.trans (beq_iff_eq.mp hkind))
      rw [bind_eq_of_rel (hkept.head?_namedChildren hpointer) fun d d' hd hhead =>
        baseTypeName?_of_kept hd (clear_of_mem_namedChildren hc (List.mem_of_mem_head? hhead))]
    · rfl

/-- The receiver of a method is found again. -/
theorem receiver?_eq {c c' : Cst} (h : Kept s s' c c') (hclear : NamesClear c') :
    receiver? s' (c'.childByField? "receiver") = receiver? s (c.childByField? "receiver") := by
  refine bind_eq_of_rel (h.childByField? "receiver") fun ps ps' hps hparams => ?_
  have hclear := (clear_of_childByField? hclear hparams).2
  refine map_eq_of_rel (hps.find?_namedChildren "parameter_declaration" (by decide))
    fun p p' hp hparam => ?_
  have hclear := clear_of_mem_namedChildren hclear (List.mem_of_find?_eq_some hparam)
  exact receiverType_eq (hp.childByField? "type") fun d hd => (clear_of_childByField? hclear hd).2

/-! ## Declarations -/

/-- An import is found again. -/
theorem binding?_importSpec {i i' : Item} (h : Kept s s' i.node i'.node) (hclear : NamesClear i'.node)
    (hentry : i'.node.childByField? "path" = none → i'.node.holdsComment = false) :
    (importSpec s' i').binding? = (importSpec s i).binding? := by
  have hname := text_name_eq h hclear
  have hnone : ((i'.node.childByField? "path").getD i'.node).holdsComment = false := by
    cases hpath : i'.node.childByField? "path" with
    | none => exact hentry hpath
    | some d =>
      obtain ⟨hfield, hd⟩ := clear_of_childByField? hclear hpath
      exact hd.text d d.mem_subtrees_self (.inr (.inl hfield))
  have hpath := text_getD_eq h (h.childByField? "path") hnone
  simp only [importSpec, Node.binding?, Node.spec?, Option.map_some, hname, hpath]

theorem stmtKind?_stmt {i i' : Item} (h : Kept s s' i.node i'.node) :
    (stmt s' i').stmtKind? = (stmt s i).stmtKind? := by
  rw [stmt, stmt, h.kind_eq]
  rfl

theorem stmtKind?_withTrailing (t : Text) (n : Node) :
    (n.withTrailing t).stmtKind? = n.stmtKind? := by
  cases n <;> rfl

theorem binding?_withTrailing (t : Text) (n : Node) : (n.withTrailing t).binding? = n.binding? := by
  cases n <;> rfl

theorem outline?_withTrailing (t : Text) (n : Node) : (n.withTrailing t).outline? = n.outline? := by
  cases n <;> rfl

theorem filterMap_eq_of_forall₂ {α β γ : Type} {R : α → β → Prop} {f : α → Option γ}
    {g : β → Option γ} {xs : List α} {ys : List β} (h : List.Forall₂ R xs ys)
    (hfg : ∀ a b, b ∈ ys → R a b → g b = f a) : ys.filterMap g = xs.filterMap f := by
  induction h with
  | nil => rfl
  | cons head _ ih =>
    rw [List.filterMap_cons, List.filterMap_cons, hfg _ _ List.mem_cons_self head,
      ih fun a b hb => hfg a b (List.mem_cons_of_mem _ hb)]

/-- Lists of items that are found again in the same order have the same contents. -/
theorem filterMap_fill_eq {α : Type} {convert convert' : Item → Node} {view : Node → Option α}
    (hconvert : ∀ i, (convert i).mark.trailing = none)
    (hconvert' : ∀ i, (convert' i).mark.trailing = none)
    (htrailing : ∀ t n, view (n.withTrailing t) = view n)
    (hcomment : ∀ m f, view (.comment m f) = none) {items items' : List Item}
    {starts : List (Nat × Nat)}
    (h : KeptItems s s' (items.filter isContent) (items'.filter isContent) starts)
    (horder : starts.Pairwise SameOrder)
    (hview : ∀ i i', i' ∈ items' → isContent i' = true → Kept s s' i.node i'.node →
      view (convert' i') = view (convert i)) :
    (fill s' convert' items').filterMap view = (fill s convert items).filterMap view := by
  rw [filterMap_fill hconvert htrailing hcomment, filterMap_fill hconvert' htrailing hcomment]
  refine filterMap_eq_of_forall₂ (forall₂_inOrder h.kept (horder.sublist h.starts)) ?_
  intro i i' hi' hkept
  obtain ⟨hmem, hcontent⟩ := List.mem_filter.mp (mem_inOrder.mp hi')
  exact hview i i' hmem hcontent hkept

/-- The statements of a body are found again. -/
theorem kinds_body {c c' : Cst} (h : Kept s s' c c') :
    (body s' c').stmts.filterMap Node.stmtKind? = (body s c).stmts.filterMap Node.stmtKind? := by
  obtain ⟨_, hchildren, horder⟩ := h.children
  exact filterMap_fill_eq (trailing_stmt s) (trailing_stmt s') stmtKind?_withTrailing
    (fun _ _ => rfl) (keptItems_itemsOf (by decide) hchildren horder) horder
    fun i i' _ _ => stmtKind?_stmt

theorem clear_of_mem_itemsOf {list : String} {c : Cst} {i : Item} (hclear : NamesClear c)
    (hi : i ∈ itemsOf list c) : NamesClear i.node := by
  obtain ⟨d, hd, hi⟩ := List.mem_flatMap.mp hi
  have hdclear := clear_of_mem_namedChildren hclear hd
  split at hi
  · obtain ⟨e, he, rfl⟩ := List.mem_map.mp hi
    exact clear_of_mem_namedChildren hdclear he
  · obtain rfl := List.mem_singleton.mp hi
    exact hdclear

/-- The entries of an import declaration are found again. -/
theorem outline?_importDecl {c c' : Cst} (h : Kept s s' c c') (hclear : NamesClear c')
    (hkind : c'.kind = "import_declaration") :
    (importDecl s' c').outline? = (importDecl s c).outline? := by
  obtain ⟨_, hchildren, horder⟩ := h.children
  refine congrArg (fun specs => some (Outline.imports specs)) ?_
  refine filterMap_fill_eq (trailing_importSpec s) (trailing_importSpec s') binding?_withTrailing
    (fun _ _ => rfl) (keptItems_itemsOf (by decide) hchildren horder) horder
    fun i i' hi' hcontent hkept => ?_
  refine binding?_importSpec hkept (clear_of_mem_itemsOf hclear hi') ?_
  exact hclear.entry c' c'.mem_subtrees_self hkind i' hi' (bne_iff_ne.mp hcontent)

/-- A function is found again. -/
theorem outline?_funcDecl {c c' : Cst} (h : Kept s s' c c') (hclear : NamesClear c') :
    (funcDecl s' c').outline? = (funcDecl s c).outline? := by
  have hbody : ((c'.childByField? "body").map (body s')).map
        (fun b => b.stmts.filterMap Node.stmtKind?) =
      ((c.childByField? "body").map (body s)).map (fun b => b.stmts.filterMap Node.stmtKind?) := by
    rw [Option.map_map, Option.map_map]
    exact map_eq_of_rel (h.childByField? "body") fun b b' hb _ => kinds_body hb
  simp only [funcDecl, Node.outline?, text_name_eq h hclear, receiver?_eq h hclear, hbody]

/-- A declaration is found again. -/
theorem outline?_decl {i i' : Item} (h : Kept s s' i.node i'.node) (hclear : NamesClear i'.node) :
    (decl s' i').outline? = (decl s i).outline? := by
  have hkind := h.kind_eq
  simp only [decl, hkind]
  split_ifs with hpackage himport hfunction
  · have hnone := hclear.package _ i'.node.mem_subtrees_self (hkind.trans (beq_iff_eq.mp hpackage))
    have hhead := h.head?_namedChildren fun d hd => Cst.kind_ne_of_holdsComment (by
      rwa [Option.mem_def.mp hd] at hnone)
    exact congrArg (fun name => some (Outline.package name)) (text_getD_eq h hhead hnone)
  · exact outline?_importDecl h hclear (hkind.trans (beq_iff_eq.mp himport))
  · exact outline?_funcDecl h hclear
  · rfl

theorem outline_build {c c' : Cst} (h : Kept s s' c c') (hclear : NamesClear c') :
    (SourceFile.build s' c').outline = (SourceFile.build s c).outline := by
  obtain ⟨_, hchildren, horder⟩ := h.children
  refine filterMap_fill_eq (trailing_decl s) (trailing_decl s') outline?_withTrailing
    (fun _ _ => rfl) (keptItems_namedChildren hchildren horder c.kind c'.kind) horder
    fun i i' hi' _ hkept => outline?_decl hkept ?_
  obtain ⟨d, hd, rfl⟩ := List.mem_map.mp hi'
  exact clear_of_mem_namedChildren hclear hd

/-- Whether a file has a package clause can be seen from its outline. -/
theorem any_isPackageClause (f : SourceFile) :
    f.decls.any isPackageClause = f.outline.any fun o => o matches .package _ := by
  rw [SourceFile.outline, List.any_filterMap]
  refine congrArg f.decls.any (funext fun n => ?_)
  cases n <;> rfl

end Load

/-- **Comments that stand clear of the names do not change the outline of a file.** -/
theorem Commented.outline_ofCst {text text' : Text} {root root' : Cst} {starts : List (Nat × Nat)}
    (h : Commented (.ofText text) (.ofText text') root root' starts)
    (horder : starts.Pairwise SameOrder) (hclear : NamesClear root')
    (herror : root.hasError = false) (herror' : root'.hasError = false) :
    (SourceFile.ofCst text' root').map SourceFile.outline =
      (SourceFile.ofCst text root).map SourceFile.outline := by
  have houtline := Load.outline_build ⟨_, h, horder⟩ hclear
  have hpackage : (SourceFile.build (.ofText text') root').decls.any Load.isPackageClause =
      (SourceFile.build (.ofText text) root).decls.any Load.isPackageClause := by
    rw [Load.any_isPackageClause, Load.any_isPackageClause, houtline]
  simp only [SourceFile.ofCst, herror, herror', hpackage, Bool.false_eq_true, if_false]
  split
  · exact congrArg Except.ok houtline
  · rfl

namespace Sample

/-- A method with a pointer for a receiver. -/
def methodText : Text := utf8 "package p\n\nfunc (*T) m() \x7b\n\treturn\n\x7d\n"

def clause : Cst :=
  branch "package_clause" 0 9 none [token "package" 0 7, named "package_identifier" 8 9 none]

def receiver : Cst :=
  branch "parameter_list" 16 20 (some "receiver")
    [token "(" 16 17,
      branch "parameter_declaration" 17 19 none
        [branch "pointer_type" 17 19 (some "type")
          [token "*" 17 18, named "type_identifier" 18 19 none]],
      token ")" 19 20]

def parameters (start : Nat) : Cst :=
  branch "parameter_list" start (start + 2) (some "parameters")
    [token "(" start (start + 1), token ")" (start + 1) (start + 2)]

def methodBody : Cst :=
  branch "block" 25 36 (some "body")
    [token "\x7b" 25 26,
      branch "statement_list" 28 35 none
        [branch "return_statement" 28 34 none [token "return" 28 34], token "\n" 34 35],
      token "\x7d" 35 36]

def methodTree : Cst :=
  branch "source_file" 0 37 none
    [clause, token "\n" 9 10,
      branch "method_declaration" 11 36 none
        [token "func" 11 15, receiver, named "field_identifier" 21 22 (some "name"), parameters 22,
          methodBody],
      token "\n" 36 37]

/-- The same method with comments after the package clause, before the receiver and in the body. -/
def remarkedText : Text :=
  utf8 "package p // a\n\nfunc (/* b */ *T) m() \x7b\n\t// c\n\treturn\n\x7d\n"

def remarkedReceiver : Cst :=
  branch "parameter_list" 21 33 (some "receiver")
    [token "(" 21 22, named "comment" 22 29 none,
      branch "parameter_declaration" 30 32 none
        [branch "pointer_type" 30 32 (some "type")
          [token "*" 30 31, named "type_identifier" 31 32 none]],
      token ")" 32 33]

def remarkedBody : Cst :=
  branch "block" 38 55 (some "body")
    [token "\x7b" 38 39, named "comment" 41 45 none,
      branch "statement_list" 47 54 none
        [branch "return_statement" 47 53 none [token "return" 47 53], token "\n" 53 54],
      token "\x7d" 54 55]

def remarkedTree : Cst :=
  branch "source_file" 0 56 none
    [clause, named "comment" 10 14 none, token "\n" 14 15,
      branch "method_declaration" 16 55 none
        [token "func" 16 20, remarkedReceiver, named "field_identifier" 34 35 (some "name"),
          parameters 35, remarkedBody],
      token "\n" 55 56]

theorem namesClear_remarkedTree : NamesClear remarkedTree :=
  ⟨by decide, by decide, by decide, by decide⟩

theorem exists_commented_method : ∃ starts,
    Commented (.ofText methodText) (.ofText remarkedText) methodTree remarkedTree starts ∧
      starts.Pairwise SameOrder := by
  have hclause : Commented (.ofText methodText) (.ofText remarkedText) clause clause _ :=
    .inner ⟨rfl, rfl, rfl⟩
      (.keep (.leaf ⟨rfl, rfl, rfl⟩ (by decide +kernel))
        (.keep (.leaf ⟨rfl, rfl, rfl⟩ (by decide +kernel)) .nil))
      fun _ => by decide +kernel
  have hpointer : Commented (.ofText methodText) (.ofText remarkedText)
      (branch "pointer_type" 17 19 (some "type")
        [token "*" 17 18, named "type_identifier" 18 19 none])
      (branch "pointer_type" 30 32 (some "type")
        [token "*" 30 31, named "type_identifier" 31 32 none]) _ :=
    .inner ⟨rfl, rfl, rfl⟩
      (.keep (.leaf ⟨rfl, rfl, rfl⟩ (by decide +kernel))
        (.keep (.leaf ⟨rfl, rfl, rfl⟩ (by decide +kernel)) .nil))
      fun _ => by decide +kernel
  have hreceiver : Commented (.ofText methodText) (.ofText remarkedText) receiver
      remarkedReceiver _ :=
    .inner ⟨rfl, rfl, rfl⟩
      (.keep (.leaf ⟨rfl, rfl, rfl⟩ (by decide +kernel)) (.insert ⟨rfl, rfl, rfl⟩
        (.keep (.inner ⟨rfl, rfl, rfl⟩ (.keep hpointer .nil) fun _ => by decide +kernel)
          (.keep (.leaf ⟨rfl, rfl, rfl⟩ (by decide +kernel)) .nil))))
      fun h => absurd h (by decide)
  have hparameters : Commented (.ofText methodText) (.ofText remarkedText) (parameters 22)
      (parameters 35) _ :=
    .inner ⟨rfl, rfl, rfl⟩
      (.keep (.leaf ⟨rfl, rfl, rfl⟩ (by decide +kernel))
        (.keep (.leaf ⟨rfl, rfl, rfl⟩ (by decide +kernel)) .nil))
      fun _ => by decide +kernel
  have hreturn : Commented (.ofText methodText) (.ofText remarkedText)
      (branch "return_statement" 28 34 none [token "return" 28 34])
      (branch "return_statement" 47 53 none [token "return" 47 53]) _ :=
    .inner ⟨rfl, rfl, rfl⟩ (.keep (.leaf ⟨rfl, rfl, rfl⟩ (by decide +kernel)) .nil)
      fun _ => by decide +kernel
  have hbody : Commented (.ofText methodText) (.ofText remarkedText) methodBody remarkedBody _ :=
    .inner ⟨rfl, rfl, rfl⟩
      (.keep (.leaf ⟨rfl, rfl, rfl⟩ (by decide +kernel)) (.insert ⟨rfl, rfl, rfl⟩
        (.keep (.inner ⟨rfl, rfl, rfl⟩
            (.keep hreturn (.keep (.leaf ⟨rfl, rfl, rfl⟩ (by decide +kernel)) .nil))
            fun _ => by decide +kernel)
          (.keep (.leaf ⟨rfl, rfl, rfl⟩ (by decide +kernel)) .nil))))
      fun h => absurd h (by decide)
  refine ⟨_, .inner ⟨rfl, rfl, rfl⟩
    (.keep hclause (.insert ⟨rfl, rfl, rfl⟩ (.keep (.leaf ⟨rfl, rfl, rfl⟩ (by decide +kernel))
      (.keep (.inner ⟨rfl, rfl, rfl⟩
          (.keep (.leaf ⟨rfl, rfl, rfl⟩ (by decide +kernel)) (.keep hreceiver
            (.keep (.leaf ⟨rfl, rfl, rfl⟩ (by decide +kernel))
              (.keep hparameters (.keep hbody .nil)))))
          fun h => absurd h (by decide))
        (.keep (.leaf ⟨rfl, rfl, rfl⟩ (by decide +kernel)) .nil)))))
    fun h => absurd h (by decide), ?_⟩
  decide

end Sample

theorem Commented.outline_ofCst_method :
    Sample.methodTree.hasError = false ∧ Sample.remarkedTree.hasError = false ∧
      (SourceFile.ofCst Sample.remarkedText Sample.remarkedTree).map SourceFile.outline =
        (SourceFile.ofCst Sample.methodText Sample.methodTree).map SourceFile.outline := by
  obtain ⟨starts, h, horder⟩ := Sample.exists_commented_method
  exact ⟨by decide, by decide,
    h.outline_ofCst horder Sample.namesClear_remarkedTree (by decide) (by decide)⟩

/-! ## Comments in the way -/

namespace Sample

/-- A package clause, and the same with a comment before the name. -/
def clauseText : Text := utf8 "package p\n"

def clauseTree : Cst :=
  branch "source_file" 0 10 none
    [branch "package_clause" 0 9 none [token "package" 0 7, named "package_identifier" 8 9 none],
      token "\n" 9 10]

def remarkedClauseText : Text := utf8 "package /* c */ p\n"

def remarkedClauseTree : Cst :=
  branch "source_file" 0 18 none
    [branch "package_clause" 0 17 none
        [token "package" 0 7, named "comment" 8 15 none, named "package_identifier" 16 17 none],
      token "\n" 17 18]

end Sample

open Sample in
/-- A comment before the name of the package is taken for the name. -/
theorem Commented.package_name_lost :
    (∃ starts, Commented (.ofText clauseText) (.ofText remarkedClauseText) clauseTree
        remarkedClauseTree starts ∧ starts.Pairwise SameOrder) ∧
      clauseTree.hasError = false ∧ remarkedClauseTree.hasError = false ∧
      (SourceFile.build (.ofText clauseText) clauseTree).outline = [.package (utf8 "p")] ∧
      (SourceFile.build (.ofText remarkedClauseText) remarkedClauseTree).outline =
        [.package (utf8 "/* c */")] := by
  refine ⟨⟨_, .inner ⟨rfl, rfl, rfl⟩
    (.keep (.inner ⟨rfl, rfl, rfl⟩
      (.keep (.leaf ⟨rfl, rfl, rfl⟩ (by decide +kernel)) (.insert ⟨rfl, rfl, rfl⟩
        (.keep (.leaf ⟨rfl, rfl, rfl⟩ (by decide +kernel)) .nil)))
      (fun h => absurd h (by decide)))
    (.keep (.leaf ⟨rfl, rfl, rfl⟩ (by decide +kernel)) .nil))
    (fun h => absurd h (by decide)), by decide⟩, by decide, by decide, ?_, ?_⟩
  · decide +kernel
  · decide +kernel

end Stopwatch
