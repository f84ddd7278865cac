import Mathlib
import Stopwatch.Syntax.Load

/-!
# The tokens of a concrete tree

`Cst.Within c root`: the node `c` stands at or below `root`. The visible tokens of a node that has
children stand together among those of the whole tree (`leaves_isInfix`), and every visible token of the
tree is found, however deep it stands (`mem_leaves_of_within`).
-/

namespace Stopwatch

namespace Cst

/-- The node `c` is `root` or stands somewhere below it. -/
inductive Within (c : Cst) : Cst → Prop
  | self : Within c c
  | child {i : CstInfo} {cs : List Cst} {d : Cst} (hd : d ∈ cs) (h : Within c d) :
      Within c (.node i cs)

theorem leavesAll_eq_flatMap (parent : String) (cs : List Cst) :
    leavesAll parent cs = cs.flatMap (leaves parent) := by
  induction cs with
  | nil => rfl
  | cons c cs ih => rw [leavesAll, ih, List.flatMap_cons]

/-- The tokens of a node with children are theirs, whatever stands above the node. -/
theorem leaves_of_children_ne_nil (parent : String) {c : Cst} (h : c.children ≠ []) :
    c.leaves parent = leavesAll c.kind c.children := by
  cases c with
  | node i cs =>
    cases cs with
    | nil => exact absurd rfl h
    | cons d ds => rfl

theorem leaves_isInfix_leavesAll (parent : String) {c : Cst} {cs : List Cst} (h : c ∈ cs) :
    c.leaves parent <:+: leavesAll parent cs := by
  obtain ⟨before, after, rfl⟩ := List.append_of_mem h
  refine ⟨leavesAll parent before, leavesAll parent after, ?_⟩
  simp only [leavesAll_eq_flatMap, List.flatMap_append, List.flatMap_cons, List.append_assoc]

/-- The tokens of a node stand together among the tokens of the tree. -/
theorem leaves_isInfix {c root : Cst} (h : c.Within root) (p : String) :
    ∃ q, c.leaves q <:+: root.leaves p := by
  induction h generalizing p with
  | self => exact ⟨p, List.infix_rfl⟩
  | @child i cs d hd _ ih =>
    obtain ⟨q, hq⟩ := ih i.kind
    have hne : (Cst.node i cs).children ≠ [] := List.ne_nil_of_mem hd
    refine ⟨q, hq.trans ?_⟩
    rw [leaves_of_children_ne_nil p hne]
    exact leaves_isInfix_leavesAll i.kind hd

/-- **No visible token is passed over**, at any depth. -/
theorem mem_leaves_of_within {i : CstInfo} {root : Cst} (h : (Cst.node i []).Within root)
    (hkind : isTerminatorKind i.kind = false) (hne : i.start ≠ i.stop) (p : String) :
    ∃ q, (⟨i.kind, q, i.start, i.stop⟩ : Leaf) ∈ root.leaves p := by
  obtain ⟨q, hq⟩ := leaves_isInfix h p
  refine ⟨q, hq.subset ?_⟩
  simp [leaves, hkind, hne]

end Cst

end Stopwatch
