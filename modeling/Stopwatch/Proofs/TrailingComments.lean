import Mathlib
import Stopwatch.Proofs.SourceOrder

/-!
# Which comments stay behind an item

What `Load.fill` does with the children of a node, without its loop: the children are put in the order of
their first bytes, those that start together staying as they were, and cut into blocks of an item and, at
most, one comment behind it. A child next to an item is that comment exactly if it is a comment on a single
row, the item's last one. Every other child heads a block of its own.

* `Load.Arranged`: how the children are cut, stated so that there is one way only.
* `Load.Made`: the node that a block gives.
* `Load.fill_arranged`: the nodes of a list are those of its blocks.
-/

namespace Stopwatch

theorem mem_iff_of_filter_eq {α : Type} {key : α → Nat} {as bs : List α}
    (h : ∀ n, as.filter (key · == n) = bs.filter (key · == n)) (a : α) : a ∈ as ↔ a ∈ bs := by
  have ha := congrArg (a ∈ ·) (h (key a))
  simpa using ha

/-- A list in the order of its keys is known from its elements with each key, in their order. -/
theorem eq_of_filter_eq {α : Type} {key : α → Nat} {as bs : List α}
    (has : as.Pairwise fun a b => key a ≤ key b) (hbs : bs.Pairwise fun a b => key a ≤ key b)
    (h : ∀ n, as.filter (key · == n) = bs.filter (key · == n)) : as = bs := by
  have hmem := mem_iff_of_filter_eq h
  induction as generalizing bs with
  | nil => exact (List.eq_nil_iff_forall_not_mem.mpr fun b hb => by simpa using (hmem b).mpr hb).symm
  | cons a as ih =>
    cases bs with
    | nil => exact absurd ((hmem a).mp List.mem_cons_self) List.not_mem_nil
    | cons b bs =>
      obtain ⟨hleast, htail⟩ := List.pairwise_cons.mp has
      obtain ⟨hleast', htail'⟩ := List.pairwise_cons.mp hbs
      -- Both heads have the least key, so both are the first element with it.
      have hba : key b ≤ key a := by
        rcases List.mem_cons.mp ((hmem a).mp List.mem_cons_self) with rfl | ha
        · exact le_rfl
        · exact hleast' a ha
      have hab : key a ≤ key b := by
        rcases List.mem_cons.mp ((hmem b).mpr List.mem_cons_self) with rfl | hb
        · exact le_rfl
        · exact hleast b hb
      have hkey : key b = key a := le_antisymm hba hab
      have hself := h (key a)
      rw [List.filter_cons_of_pos (by simp), List.filter_cons_of_pos (by simp [hkey])] at hself
      obtain ⟨rfl, hrest⟩ := List.cons.inj hself
      have hrests : ∀ n, as.filter (key · == n) = bs.filter (key · == n) := by
        intro n
        by_cases hn : key a = n
        · rw [← hn]
          exact hrest
        · have hall := h n
          rwa [List.filter_cons_of_neg (by simpa using hn), List.filter_cons_of_neg (by simpa using hn)]
            at hall
      rw [ih htail htail' hrests (mem_iff_of_filter_eq hrests)]

namespace Load

/-- The children that some blocks hold: each item, followed by the comment behind it if it has one. -/
def reading (bs : List (Item × Option Item)) : List Item := bs.flatMap fun b => b.1 :: b.2.toList

theorem reading_cons (b : Item × Option Item) (bs : List (Item × Option Item)) :
    reading (b :: bs) = b.1 :: (b.2.toList ++ reading bs) := by
  rw [reading, List.flatMap_cons, List.cons_append]
  rfl

/-- The child `c` is a comment on a single row, and the child `i` ends on that row. -/
structure OnLastRow (source : Source) (i c : Item) : Prop where
  comment : c.node.kind = "comment"
  single : c.node.startRow source = (source.point c.node.stop).row
  last : c.node.startRow source = i.node.endRow source

/-- Right behind the item of a block comes a child that is kept with it, or one that is not a comment on
its last row. -/
def Attached (source : Source) (bs : List (Item × Option Item)) : Prop :=
  ∀ before i t after, bs = before ++ (i, t) :: after →
    ∀ c rest, t.toList ++ reading after = c :: rest → (t = some c ↔ OnLastRow source i c)

/-- The blocks of a list of children. -/
structure Arranged (source : Source) (items : List Item) (bs : List (Item × Option Item)) : Prop where
  /-- Each child comes once. -/
  perm : (reading bs).Perm items
  /-- The children are in the order of their first bytes. -/
  sorted : (reading bs).Pairwise fun a b => a.node.start ≤ b.node.start
  /-- Children that start together stay as they were. -/
  stable : ∀ n, (reading bs).filter (·.node.start == n) = items.filter (·.node.start == n)
  attached : Attached source bs

/-- The node of a block: the item converted, or taken as it is with its rows if it is a comment, and the
text of the comment behind it. -/
structure Made (source : Source) (convert : Item → Node) (b : Item × Option Item) (n : Node) : Prop where
  trailing : n.mark.trailing = b.2.map fun c => (c.node.text source).trimEndWide
  item : n.withMark { n.mark with trailing := none } =
    if b.1.node.kind = "comment" then
      .comment ⟨some ⟨b.1.node.startRow source, b.1.node.endRow source⟩, none⟩
        (.ofNodes source b.1.parent [b.1.node])
    else convert b.1

/-! ## One way to cut -/

variable {source : Source}

theorem follows_iff {i c : Item} : follows source i c = true ↔ OnLastRow source i c := by
  constructor
  · intro h
    simp only [follows, Bool.and_eq_true, beq_iff_eq] at h
    exact ⟨h.1.1, h.2, h.1.2⟩
  · intro h
    simp only [follows, Bool.and_eq_true, beq_iff_eq]
    exact ⟨⟨h.comment, h.last⟩, h.single⟩

theorem Attached.tail {b : Item × Option Item} {bs : List (Item × Option Item)}
    (h : Attached source (b :: bs)) : Attached source bs := by
  intro before i t after hsplit
  exact h (b :: before) i t after (by rw [hsplit, List.cons_append])

/-- Blocks that keep exactly the comments on last rows are found by looking at neighbours. -/
theorem Attached.blocks_reading {bs : List (Item × Option Item)} (h : Attached source bs) :
    blocks source (reading bs) = bs := by
  induction bs with
  | nil => rfl
  | cons b bs ih =>
    obtain ⟨i, t⟩ := b
    have hrest := ih h.tail
    have hnext := h [] i t bs rfl
    rw [reading_cons]
    cases t with
    | some c =>
      have hfollows : follows source i c = true := follows_iff.mpr ((hnext c (reading bs) rfl).mp rfl)
      simp only [Option.toList_some, List.singleton_append, blocks, hfollows, if_true, hrest]
    | none =>
      cases hreading : reading bs with
      | nil =>
        rw [hreading] at hrest
        rw [← hrest]
        rfl
      | cons c rest =>
        have hfollows : ¬ follows source i c = true := by
          intro hc
          exact absurd ((hnext c rest hreading).mpr (follows_iff.mp hc)) (by simp)
        rw [hreading] at hrest
        simp only [Option.toList_none, List.nil_append, blocks, hfollows, hrest]
        rfl

theorem attached_blocks (source : Source) (items : List Item) : Attached source (blocks source items) := by
  fun_induction blocks source items with
  | case1 =>
    intro before i t after hsplit
    simp at hsplit
  | case2 j =>
    intro before i t after hsplit c rest hc
    cases before with
    | nil =>
      obtain ⟨hhead, rfl⟩ := List.cons.inj hsplit
      obtain ⟨rfl, rfl⟩ := Prod.mk.inj hhead
      simp [reading] at hc
    | cons b before => simp at hsplit
  | case3 j d rest hfollows ih =>
    intro before i t after hsplit c more hc
    cases before with
    | nil =>
      obtain ⟨hhead, rfl⟩ := List.cons.inj hsplit
      obtain ⟨rfl, rfl⟩ := Prod.mk.inj hhead
      obtain ⟨rfl, -⟩ := List.cons.inj hc
      exact ⟨fun _ => follows_iff.mp hfollows, fun _ => rfl⟩
    | cons b before => exact ih before i t after (List.cons.inj hsplit).2 c more hc
  | case4 j d rest hfollows ih =>
    intro before i t after hsplit c more hc
    cases before with
    | nil =>
      obtain ⟨hhead, rfl⟩ := List.cons.inj hsplit
      obtain ⟨rfl, rfl⟩ := Prod.mk.inj hhead
      have hreading : reading (blocks source (d :: rest)) = d :: rest := flatMap_blocks source _
      rw [hreading] at hc
      obtain ⟨rfl, -⟩ := List.cons.inj hc
      exact ⟨fun hsome => absurd hsome (by simp), fun hon => absurd (follows_iff.mpr hon) hfollows⟩
    | cons b before => exact ih before i t after (List.cons.inj hsplit).2 c more hc

/-! ## The order of the children -/

theorem pairwise_inOrder (items : List Item) :
    (inOrder items).Pairwise fun a b => a.node.start ≤ b.node.start := by
  refine (List.pairwise_mergeSort ?_ ?_ items).imp fun hab => by simpa using hab
  · intro a b c hab hbc
    simp only [decide_eq_true_eq] at hab hbc ⊢
    exact hab.trans hbc
  · intro a b
    simpa using Nat.le_total a.node.start b.node.start

theorem filter_start_inOrder (items : List Item) (n : Nat) :
    (inOrder items).filter (·.node.start == n) = items.filter (·.node.start == n) := by
  refine filter_inOrder (List.pairwise_of_forall_mem_list fun a ha b hb => ?_)
  have hstart : a.node.start = n := by simpa using (List.mem_filter.mp ha).2
  have hstart' : b.node.start = n := by simpa using (List.mem_filter.mp hb).2
  exact (hstart.trans hstart'.symm).le

/-- **There is one way to arrange a list of children.** -/
theorem arranged_iff {items : List Item} {bs : List (Item × Option Item)} :
    Arranged source items bs ↔ bs = sortedBlocks source items := by
  constructor
  · intro h
    have horder : reading bs = inOrder items :=
      eq_of_filter_eq h.sorted (pairwise_inOrder items) fun n =>
        (h.stable n).trans (filter_start_inOrder items n).symm
    rw [sortedBlocks, ← horder, h.attached.blocks_reading]
  · rintro rfl
    have hreading : reading (sortedBlocks source items) = inOrder items := flatMap_blocks source _
    refine ⟨?_, ?_, ?_, attached_blocks source _⟩
    · rw [hreading]
      exact List.mergeSort_perm items _
    · rw [hreading]
      exact pairwise_inOrder items
    · rw [hreading]
      exact filter_start_inOrder items

/-! ## The nodes of the blocks -/

theorem withMark_withMark (m m' : Mark) (n : Node) : (n.withMark m').withMark m = n.withMark m := by
  cases n <;> rfl

theorem withMark_mark (n : Node) : n.withMark n.mark = n := by
  cases n <;> rfl

theorem made_blockNode {convert : Item → Node} (hconvert : ∀ i, (convert i).mark.trailing = none)
    (b : Item × Option Item) : Made source convert b (blockNode source convert b) := by
  obtain ⟨i, t⟩ := b
  have hitem : itemNode source convert i =
      if i.node.kind = "comment" then
        .comment ⟨some ⟨i.node.startRow source, i.node.endRow source⟩, none⟩
          (.ofNodes source i.parent [i.node])
      else convert i := by
    unfold itemNode
    by_cases hkind : i.node.kind = "comment"
    · rw [if_pos (beq_iff_eq.mpr hkind), if_pos hkind]
      rfl
    · rw [if_neg (by simpa using hkind), if_neg hkind]
  have hnone := @trailing_itemNode source _ hconvert i
  have hself : (itemNode source convert i).withMark
      { (itemNode source convert i).mark with trailing := none } = itemNode source convert i := by
    have hmark : ({ (itemNode source convert i).mark with trailing := none } : Mark) =
        (itemNode source convert i).mark := by rw [← hnone]
    rw [hmark, withMark_mark]
  cases t with
  | none => exact ⟨hnone, hself.trans hitem⟩
  | some c =>
    refine ⟨by simp [blockNode, Node.withTrailing], ?_⟩
    simp only [blockNode, Node.withTrailing, Node.mark_withMark, withMark_withMark]
    exact hself.trans hitem

/-- **No child of a list is lost or doubled.** The children can be arranged in one way only, and the nodes of
the list are made from the blocks of this arrangement, in order. -/
theorem fill_arranged (source : Source) {convert : Item → Node}
    (hconvert : ∀ i, (convert i).mark.trailing = none) (items : List Item) :
    ∃ bs, (∀ bs', Arranged source items bs' ↔ bs' = bs) ∧
      List.Forall₂ (Made source convert) bs (fill source convert items) := by
  refine ⟨sortedBlocks source items, fun bs' => arranged_iff, ?_⟩
  rw [fill_eq hconvert, sortedBlocks, List.forall₂_map_right_iff, List.forall₂_same]
  intro b _
  exact made_blockNode hconvert b

/-! ## Four comments -/

/-- A statement with three comments on its row, and one on the next row. -/
def remarksText : Text := utf8 "a /* b */ /* c */ // d \n// e\n"

/-- A child of a statement list. -/
def remarksItem (kind : String) (start stop : Nat) : Item :=
  ⟨"statement_list", Sample.named kind start stop none⟩

/-- The children, not in order. -/
def remarks : List Item :=
  [remarksItem "comment" 24 28, remarksItem "comment" 2 9, remarksItem "expression_statement" 0 1,
    remarksItem "comment" 18 23, remarksItem "comment" 10 17]

/-- The second comment on the row comes too late for the statement, and takes the third one. -/
def remarksBlocks : List (Item × Option Item) :=
  [(remarksItem "expression_statement" 0 1, some (remarksItem "comment" 2 9)),
    (remarksItem "comment" 10 17, some (remarksItem "comment" 18 23)),
    (remarksItem "comment" 24 28, none)]

theorem fill_arranged_remarks :
    (∀ i, (stmt (Source.ofText remarksText) i).mark.trailing = none) ∧
    Arranged (Source.ofText remarksText) remarks remarksBlocks ∧
    List.Forall₂ (Made (Source.ofText remarksText) (stmt (Source.ofText remarksText))) remarksBlocks
      (fill (Source.ofText remarksText) (stmt (Source.ofText remarksText)) remarks) := by
  have hconvert := trailing_stmt (Source.ofText remarksText)
  have horder : inOrder remarks =
      [remarksItem "expression_statement" 0 1, remarksItem "comment" 2 9, remarksItem "comment" 10 17,
        remarksItem "comment" 18 23, remarksItem "comment" 24 28] := by cbv
  have harranged : Arranged (Source.ofText remarksText) remarks remarksBlocks := by
    rw [arranged_iff, sortedBlocks, horder]
    rfl
  obtain ⟨bs, hbs, hmade⟩ := fill_arranged (Source.ofText remarksText) hconvert remarks
  rw [← (hbs remarksBlocks).mp harranged] at hmade
  exact ⟨hconvert, harranged, hmade⟩

end Load

end Stopwatch
