import Mathlib
import Stopwatch.Proofs.Brackets
import Stopwatch.Proofs.Items

/-!
# The depth of a row, from its brackets

The layout carries levels from row to row. Here the depth of a row is said without them: it is the number
of rows above that opened a bracket which is still open, of each row the innermost of those it left open at
its end (`Layout.bracketBase`). The two agree for any tokens whose rows do not decrease, however their
brackets are balanced (`Fragment.ofNodes_eq_bracketLines`).

* `PlacedBy`: what the layout carries at a row, in terms of the brackets open there.
* `placedBy_visit`: one row; `exists_shown`: all rows, by induction.
-/

namespace Stopwatch.Layout

variable (ls : List PlacedLeaf)

/-- The tokens that start above a row. -/
def above (r : Nat) : List PlacedLeaf := ls.filter fun l => l.first.row < r

/-- The tokens that start on a row. -/
def onRow (r : Nat) : List PlacedLeaf := ls.filter fun l => l.first.row == r

/-- The row on which the token `i` starts. -/
def rowOf (i : Nat) : Nat := (ls.map fun l => l.first.row).getD i 0

/-- Whether a row starts inside a token. -/
def startsInside (r : Nat) : Bool := ls.any fun l => l.first.row < r && r ≤ l.last.row

/-- Whether a row ends inside a token. -/
def endsInside (r : Nat) : Bool := ls.any fun l => l.first.row ≤ r && r < l.last.row

/-- The rows do not decrease from token to token. -/
def RowsInOrder : Prop := ls.Pairwise fun l m => l.first.row ≤ m.first.row

/-- The innermost of the brackets that a row opens and leaves open at its end. -/
def ownOpener? (r : Nat) : Option Nat :=
  (openBefore (kinds ls) (above ls (r + 1)).length).find? fun i => rowOf ls i == r

/-- The number of tokens up to the closing brackets that lead a row, these included. -/
def untilText (r : Nat) : Nat := (above ls r).length + (leadingClosers (onRow ls r)).length

/-- The number of rows above a row that left a bracket of their own open, of which the innermost one is not
closed above the row or by the closing brackets that lead it. -/
def bracketBase (r : Nat) : Nat :=
  (List.range r).countP fun r' =>
    (ownOpener? ls r').any fun i => !isClosed (kinds ls) (untilText ls r) i

/-- Whether a token stands one level further out. -/
def outdents (l : PlacedLeaf) : Bool := l.kind == "case" || l.kind == "default" || l.isLabel

/-- Whether the last token above a row is an operator after which a row goes on. -/
def continues (r : Nat) : Bool := (above ls r).getLast?.any fun l => continuations.contains l.kind

/-- The depth of a row that starts with the token `l`, where `start` is the first row. -/
def bracketDepth (start r : Nat) (l : PlacedLeaf) : Int :=
  if r = start then
    if outdents l then -1 else 0
  else
    max 0 (if outdents l then bracketBase ls r - 1
      else if continues ls r then bracketBase ls r + 1
      else bracketBase ls r)

/-- The first row of some tokens. -/
def startRow : Nat := (ls.head?.map fun l => l.first.row).getD 0

/-- Where the last of some tokens ends. -/
def stopPoint : Point := (ls.getLast?.map PlacedLeaf.last).getD ⟨0, 0⟩

/-- The rows of some tokens. -/
def fragmentRows : List Nat := List.range' (startRow ls) ((stopPoint ls).row + 1 - startRow ls)

/-- A row up to the end of the last token. -/
def cutRow (rows : List Text) (r : Nat) : Text :=
  if r == (stopPoint ls).row then (rows.getD r []).take (stopPoint ls).col else rows.getD r []

/-- What is kept of a row, or of the rest of it: all of it if the row ends inside a token. -/
def keptRest (openEnd : Bool) (t : Text) : Text := if openEnd then t else t.trimEnd

/-- The line for a row. -/
def bracketLine (rows : List Text) (r : Nat) : FragmentLine :=
  if startsInside ls r then ⟨0, keptRest (endsInside ls r) (cutRow ls rows r), true⟩
  else
    match onRow ls r with
    | [] => ⟨0, [], false⟩
    | l :: _ =>
      ⟨bracketDepth ls (startRow ls) r l,
        keptRest (endsInside ls r) ((cutRow ls rows r).drop l.first.col), false⟩

instance : Decidable (RowsInOrder ls) := inferInstanceAs (Decidable (List.Pairwise _ _))

/-- Whether there is something on a row. -/
def isShown (r : Nat) : Bool := startsInside ls r || !(onRow ls r).isEmpty

/-- What an open bracket counts: one if it is the innermost of those that its row left open. -/
def weight (i : Nat) : Nat := if ownOpener? ls (rowOf ls i) = some i then 1 else 0

variable {ls} {r i : Nat}

/-! ## Tokens in the order of their rows -/

/-- The tokens that do not start above a row. -/
def notAbove (ls : List PlacedLeaf) (r : Nat) : List PlacedLeaf := ls.filter fun l => r ≤ l.first.row

theorem above_append_notAbove {ls : List PlacedLeaf} (h : RowsInOrder ls) (r : Nat) :
    above ls r ++ notAbove ls r = ls := by
  induction ls with
  | nil => rfl
  | cons l ls ih =>
    obtain ⟨hl, hls⟩ := List.pairwise_cons.mp h
    have ih := ih hls
    rw [above, notAbove] at ih ⊢
    by_cases hlt : l.first.row < r
    · rw [List.filter_cons_of_pos (by simpa using hlt), List.filter_cons_of_neg (by simpa using hlt),
        List.cons_append, ih]
    · have hge := Nat.not_lt.mp hlt
      have habove : ls.filter (fun l => l.first.row < r) = [] :=
        List.filter_eq_nil_iff.mpr fun m hm => by simpa using hge.trans (hl m hm)
      rw [habove, List.nil_append] at ih
      rw [List.filter_cons_of_neg (by simpa using hge), List.filter_cons_of_pos (by simpa using hge),
        habove, ih, List.nil_append]

theorem startRow_le (h : RowsInOrder ls) {l : PlacedLeaf} (hl : l ∈ ls) : startRow ls ≤ l.first.row := by
  cases ls with
  | nil => cases hl
  | cons m ls =>
    rcases List.mem_cons.mp hl with rfl | hl
    · exact Nat.le_refl _
    · exact (List.pairwise_cons.mp h).1 l hl

/-- There is nothing above the first row. -/
theorem startRow_le_of_isShown (h : RowsInOrder ls) (hr : isShown ls r = true) : startRow ls ≤ r := by
  rcases Bool.or_eq_true .. ▸ hr with hinside | hrow
  · obtain ⟨l, hl, hlr⟩ := List.any_eq_true.mp hinside
    have hlt : l.first.row < r ∧ r ≤ l.last.row := by simpa using hlr
    exact (startRow_le h hl).trans (Nat.le_of_lt hlt.1)
  · obtain ⟨l, hl⟩ := List.exists_mem_of_ne_nil (onRow ls r) (by simpa using hrow)
    obtain ⟨hmem, hlr⟩ := List.mem_filter.mp hl
    exact (startRow_le h hmem).trans_eq (by simpa using hlr)

/-- The tokens of a row follow those above it. -/
theorem above_succ (h : RowsInOrder ls) (r : Nat) : above ls (r + 1) = above ls r ++ onRow ls r := by
  have horder : RowsInOrder (above ls (r + 1)) := h.filter _
  rw [← above_append_notAbove horder r]
  congr 1
  · rw [above, above, above, List.filter_filter]
    refine List.filter_congr fun l _ => ?_
    rw [← Bool.decide_and, decide_eq_decide]
    omega
  · rw [notAbove, above, onRow, List.filter_filter]
    refine List.filter_congr fun l _ => ?_
    rw [beq_eq_decide, ← Bool.decide_and, decide_eq_decide]
    omega

theorem exists_split (h : RowsInOrder ls) (r : Nat) : ∃ post, above ls r ++ onRow ls r ++ post = ls := by
  rw [← above_succ h]
  exact ⟨_, above_append_notAbove h (r + 1)⟩

/-- The tokens above a row are the first ones. -/
theorem rowOf_lt_iff (h : RowsInOrder ls) (hi : i < ls.length) :
    rowOf ls i < r ↔ i < (above ls r).length := by
  have hsplit := above_append_notAbove h r
  have hrow : rowOf ls i = ls[i].first.row := by simp [rowOf, hi]
  rw [hrow]
  constructor
  · intro hlt
    by_contra hge
    have hge := Nat.not_lt.mp hge
    have hget : ls[i] ∈ notAbove ls r := by
      rw [List.getElem_of_eq hsplit.symm hi, List.getElem_append_right hge]
      exact List.getElem_mem _
    exact absurd hlt (by simpa using (List.mem_filter.mp hget).2)
  · intro hlt
    have hget : ls[i] ∈ above ls r := by
      rw [List.getElem_of_eq hsplit.symm hi, List.getElem_append_left hlt]
      exact List.getElem_mem _
    simpa using (List.mem_filter.mp hget).2

/-- A bracket is one of the tokens. -/
theorem lt_length_of_isOpener (h : isOpener ((kinds ls).getD i "") = true) : i < ls.length := by
  by_contra hge
  rw [kinds, List.getD_eq_default _ _ (by simpa using hge)] at h
  cases h

theorem mem_open_row {n : Nat} (h : RowsInOrder ls) (hi : i ∈ openBefore (kinds ls) n) :
    rowOf ls i < r ↔ i < (above ls r).length :=
  rowOf_lt_iff h (lt_length_of_isOpener (mem_openBefore.mp hi).2.1)

/-! ## The brackets that a row leaves open -/

theorem ownOpener?_eq_some (hown : ownOpener? ls r = some i) :
    i ∈ openBefore (kinds ls) (above ls (r + 1)).length ∧ rowOf ls i = r :=
  ⟨List.mem_of_find?_eq_some hown, by simpa using List.find?_some hown⟩

/-- If a row leaves a bracket open, then the innermost bracket that is open at its end is its own. -/
theorem ownOpener?_eq_head? (h : RowsInOrder ls)
    (hi : i ∈ openBefore (kinds ls) (above ls (r + 1)).length) (hrow : rowOf ls i = r) :
    ownOpener? ls r = (openBefore (kinds ls) (above ls (r + 1)).length).head? := by
  have hpairwise := pairwise_openBefore (kinds ls) (above ls (r + 1)).length
  have hrows : ∀ j ∈ openBefore (kinds ls) (above ls (r + 1)).length, i ≤ j → rowOf ls j = r := by
    intro j hj hij
    have hlow : ¬ rowOf ls j < r := by
      intro hlt
      have hir : rowOf ls i < r := (mem_open_row h hi).mpr (hij.trans_lt ((mem_open_row h hj).mp hlt))
      exact Nat.lt_irrefl r (hrow ▸ hir)
    have hhigh : rowOf ls j < r + 1 := (mem_open_row h hj).mpr (mem_openBefore.mp hj).1
    omega
  rw [ownOpener?]
  generalize openBefore (kinds ls) (above ls (r + 1)).length = is at hi hpairwise hrows ⊢
  cases is with
  | nil => cases hi
  | cons top rest =>
    have htop : i ≤ top := by
      rcases List.mem_cons.mp hi with rfl | hi
      · exact Nat.le_refl _
      · exact Nat.le_of_lt ((List.pairwise_cons.mp hpairwise).1 i hi)
    rw [List.find?_cons_of_pos (by simpa using hrows top (List.mem_cons_self ..) htop), List.head?_cons]

/-- The brackets that are open where a row has its text come from rows above it. -/
theorem mem_open_text (h : RowsInOrder ls) (hi : i ∈ openBefore (kinds ls) (untilText ls r)) :
    i < (above ls r).length := by
  obtain ⟨post, hsplit⟩ := exists_split h r
  have hsuffix := openBefore_leadingClosers (above ls r) (onRow ls r) post
  rw [hsplit, List.length_append] at hsuffix
  exact (mem_openBefore.mp (hsuffix.subset hi)).1

theorem openLevels_map_weight (ls : List PlacedLeaf) (is : List Nat) :
    openLevels (is.map (weight ls)) =
      (is.filter fun i => ownOpener? ls (rowOf ls i) == some i).length := by
  induction is with
  | nil => rfl
  | cons i is ih =>
    rw [openLevels] at ih ⊢
    rw [List.map_cons, List.foldr_cons, ih, weight, List.filter_cons]
    by_cases hi : ownOpener? ls (rowOf ls i) = some i
    · rw [if_pos hi, if_pos (beq_iff_eq.mpr hi), List.length_cons]
      exact Nat.add_comm _ _
    · rw [if_neg hi, if_neg (by simpa using hi)]
      exact Nat.zero_add _

/-- **The levels that are open at the text of a row** are the rows above of which the innermost bracket is
still open: a row has at most one bracket that counts, and the row tells which. -/
theorem openLevels_eq_bracketBase (h : RowsInOrder ls) (r : Nat) :
    openLevels ((openBefore (kinds ls) (untilText ls r)).map (weight ls)) = bracketBase ls r := by
  rw [openLevels_map_weight, bracketBase, List.countP_eq_length_filter, ← List.length_map (rowOf ls)]
  refine List.Perm.length_eq ((List.perm_ext_iff_of_nodup ?_ ?_).mpr fun r' => ?_)
  · refine List.Nodup.map_on ?_ ((nodup_openBefore _ _).filter _)
    intro i hi j hj hij
    have hi := beq_iff_eq.mp (List.mem_filter.mp hi).2
    have hj := beq_iff_eq.mp (List.mem_filter.mp hj).2
    rw [hij, hj] at hi
    exact (Option.some.inj hi).symm
  · exact List.nodup_range.filter _
  · simp only [List.mem_map, List.mem_filter, List.mem_range, Option.any_eq_true, Bool.not_eq_true',
      beq_iff_eq]
    constructor
    · rintro ⟨i, ⟨hi, hown⟩, rfl⟩
      exact ⟨(mem_open_row h hi).mpr (mem_open_text h hi), i, hown, (mem_openBefore.mp hi).2.2⟩
    · rintro ⟨hr', i, hown, hclosed⟩
      obtain ⟨hi, rfl⟩ := ownOpener?_eq_some hown
      have hlt := (mem_open_row h hi).mp hr'
      exact ⟨i, ⟨mem_openBefore.mpr
        ⟨hlt.trans_le (Nat.le_add_right _ _), (mem_openBefore.mp hi).2.1, hclosed⟩, hown⟩, rfl⟩

/-! ## One row -/

/-- The levels where a row has its text, and those at its end. -/
theorem levels_row (h : RowsInOrder ls) (r : Nat) :
    let levels := (openBefore (kinds ls) (above ls r).length).map (weight ls)
    closeLeading levels (onRow ls r) =
        ((openBefore (kinds ls) (untilText ls r)).map (weight ls), behindClosers (onRow ls r)) ∧
      advance levels (onRow ls r) =
        (openBefore (kinds ls) (above ls (r + 1)).length).map (weight ls) ∧
      advance (closeLeading levels (onRow ls r)).1 (behindClosers (onRow ls r)) =
        (openBefore (kinds ls) (above ls (r + 1)).length).map (weight ls) := by
  intro levels
  obtain ⟨post, hsplit⟩ := exists_split h r
  have hclose := closeLeading_openBefore (above ls r) (onRow ls r) post (weight ls)
  rw [hsplit, List.length_append] at hclose
  have hown : ∀ i ∈ openBefore (kinds ls) (above ls (r + 1)).length, (above ls r).length ≤ i →
      weight ls i =
        if (openBefore (kinds ls) (above ls (r + 1)).length).head? = some i then 1 else 0 := by
    intro i hi hge
    have hlow : ¬ rowOf ls i < r := fun hlt => Nat.not_lt.mpr hge ((mem_open_row h hi).mp hlt)
    have hhigh : rowOf ls i < r + 1 := (mem_open_row h hi).mpr (mem_openBefore.mp hi).1
    have hrow : rowOf ls i = r := by omega
    rw [weight, hrow, ownOpener?_eq_head? h hi hrow]
  refine ⟨hclose, ?_, ?_⟩
  · have hadvance := @advance_openBefore (above ls r) (onRow ls r) post (weight ls) (above ls r).length
    rw [hsplit, ← above_succ h] at hadvance
    exact hadvance (fun i hi => (mem_openBefore.mp hi).1) (Nat.le_refl _) hown
  · have hrow : leadingClosers (onRow ls r) ++ behindClosers (onRow ls r) = onRow ls r :=
      List.takeWhile_append_dropWhile
    have hpre : above ls r ++ leadingClosers (onRow ls r) ++ behindClosers (onRow ls r) =
        above ls (r + 1) := by
      rw [List.append_assoc, hrow, above_succ h]
    have hadvance := @advance_openBefore (above ls r ++ leadingClosers (onRow ls r))
      (behindClosers (onRow ls r)) post (weight ls) (above ls r).length
    rw [hpre, above_succ h, hsplit, ← above_succ h, List.length_append] at hadvance
    rw [show (closeLeading levels (onRow ls r)).1 = _ from congrArg Prod.fst hclose]
    exact hadvance (fun i hi => mem_open_text h hi) (Nat.le_add_right _ _) hown

/-- What the layout carries at a row: the brackets open there, and the last token above. -/
structure PlacedBy (ls : List PlacedLeaf) (r : Nat) (s : State) : Prop where
  levels : s.levels = (openBefore (kinds ls) (above ls r).length).map (weight ls)
  previous : s.previous = (above ls r).getLast?.map PlacedLeaf.kind

/-- What `ofPlaced` does with a row. -/
def visit (rows : List Text) (ls : List PlacedLeaf) (s : State) (r : Nat) : State :=
  step (r == startRow ls) (startsInside ls r) (endsInside ls r) (cutRow ls rows r) (onRow ls r) s

theorem ofPlaced_eq_foldl (rows : List Text) {ls : List PlacedLeaf} (hne : ls ≠ []) :
    ofPlaced rows ls = ((fragmentRows ls).foldl (visit rows ls) {}).lines.reverse := by
  have hl : ls.head? = some (ls.head hne) := List.head?_eq_some_head hne
  have hm : ls.getLast? = some (ls.getLast hne) := List.getLast?_eq_some_getLast hne
  generalize ls.head hne = l at hl
  generalize ls.getLast hne = m at hm
  have hstart : startRow ls = l.first.row := by rw [startRow, hl]; rfl
  have hstop : stopPoint ls = m.last := by rw [stopPoint, hm]; rfl
  unfold ofPlaced
  rw [hl, hm]
  simp only [fragmentRows, hstart, hstop]
  congr 3
  funext s r
  rw [visit, cutRow, hstart, hstop]
  rfl

theorem lastKind_onRow (h : RowsInOrder ls) (r : Nat) :
    lastKind ((above ls r).getLast?.map PlacedLeaf.kind) (onRow ls r) =
      (above ls (r + 1)).getLast?.map PlacedLeaf.kind := by
  rw [above_succ h, List.getLast?_append, lastKind]
  cases (onRow ls r).getLast? <;> rfl

/-- The depth that the layout gives a row. -/
theorem depthOf_eq_bracketDepth (h : RowsInOrder ls) (r : Nat) (l : PlacedLeaf) :
    depthOf (r == startRow ls) ((openBefore (kinds ls) (untilText ls r)).map (weight ls))
      ((above ls r).getLast?.map PlacedLeaf.kind) l = bracketDepth ls (startRow ls) r l := by
  have hcontinues : ((above ls r).getLast?.map PlacedLeaf.kind).any continuations.contains =
      continues ls r := by
    rw [continues, Option.any_map]
  have houtdents : ∀ a b : Int,
      (if l.kind == "case" || l.kind == "default" then a else if l.isLabel then a else b) =
        if outdents l then a else b := by
    intro a b
    rw [outdents]
    cases l.kind == "case" || l.kind == "default" <;> rfl
  rw [depthOf, bracketDepth, openLevels_eq_bracketBase h, hcontinues, houtdents]
  by_cases hr : r = startRow ls
  · simp [hr]
  · simp only [beq_eq_false_iff_ne.mpr hr, if_neg hr, Bool.not_false, Bool.true_and,
      Bool.false_eq_true, if_false, Int.ofNat_eq_natCast, decide_eq_true_eq]
    omega

/-- **One row**: what is carried stays as the brackets say, and a row with something on it adds its line. -/
theorem placedBy_visit (h : RowsInOrder ls) (rows : List Text) {s : State} (hs : PlacedBy ls r s) :
    PlacedBy ls (r + 1) (visit rows ls s r) ∧
      ((visit rows ls s r).lines = bracketLine ls rows r :: s.lines ∨
        isShown ls r = false ∧ (visit rows ls s r).lines = s.lines) := by
  obtain ⟨hclose, hinside, htext⟩ := levels_row h r
  have hlast := lastKind_onRow h r
  obtain ⟨hlevels, hprevious⟩ := hs
  rw [visit, step.eq_def, bracketLine, isShown]
  rw [← hlevels] at hclose hinside htext
  cases startsInside ls r with
  | true =>
    rw [if_pos rfl, if_pos rfl]
    exact ⟨⟨hinside, hprevious ▸ hlast⟩, .inl rfl⟩
  | false =>
    rw [if_neg Bool.false_ne_true, if_neg Bool.false_ne_true]
    cases hrow : onRow ls r with
    | nil =>
      have habove : above ls (r + 1) = above ls r := by rw [above_succ h, hrow, List.append_nil]
      have hsame : PlacedBy ls (r + 1) s := ⟨habove ▸ hlevels, habove ▸ hprevious⟩
      dsimp only
      split
      · exact ⟨hsame, .inr ⟨rfl, rfl⟩⟩
      · exact ⟨⟨hsame.levels, hsame.previous⟩, .inl rfl⟩
    | cons l more =>
      have hdepth := depthOf_eq_bracketDepth h r l
      rw [hrow] at hclose htext hlast
      rw [hclose] at htext
      dsimp only
      rw [hclose]
      refine ⟨⟨htext, hprevious ▸ hlast⟩, .inl ?_⟩
      rw [hprevious, hdepth]
      rfl

/-! ## All rows -/

theorem placedBy_start (h : RowsInOrder ls) : PlacedBy ls (startRow ls) {} := by
  have habove : above ls (startRow ls) = [] := by
    rw [above, List.filter_eq_nil_iff]
    intro l hl
    simpa using startRow_le h hl
  constructor
  · rw [habove]
    rfl
  · rw [habove]
    rfl

/-- **The rows one after another**: those that are shown give the lines, in their order. -/
theorem exists_shown (h : RowsInOrder ls) (rows : List Text) (n : Nat) :
    let s := (List.range' (startRow ls) n).foldl (visit rows ls) {}
    PlacedBy ls (startRow ls + n) s ∧
      ∃ shown : List Nat, shown.Sublist (List.range' (startRow ls) n) ∧
        (∀ r ∈ List.range' (startRow ls) n, isShown ls r = true → r ∈ shown) ∧
        s.lines.reverse = shown.map (bracketLine ls rows) := by
  induction n with
  | zero => exact ⟨placedBy_start h, [], .refl _, by simp, rfl⟩
  | succ n ih =>
    obtain ⟨hs, shown, hsub, hshown, hlines⟩ := ih
    obtain ⟨hnext, hline⟩ := placedBy_visit h rows hs
    rw [List.range'_1_concat, List.foldl_append, List.foldl_cons, List.foldl_nil]
    refine ⟨hnext, ?_⟩
    rcases hline with hline | ⟨hhidden, hline⟩
    · refine ⟨shown ++ [startRow ls + n], hsub.append (.refl _), ?_, ?_⟩
      · intro r hr hrow
        rcases List.mem_append.mp hr with hr | hr
        · exact List.mem_append_left _ (hshown r hr hrow)
        · exact List.mem_append_right _ hr
      · rw [hline, List.reverse_cons, hlines, List.map_append]
        rfl
    · refine ⟨shown, hsub.trans (List.sublist_append_left ..), ?_, hline ▸ hlines⟩
      intro r hr hrow
      rcases List.mem_append.mp hr with hr | hr
      · exact hshown r hr hrow
      · obtain rfl := List.mem_singleton.mp hr
        rw [hhidden] at hrow
        cases hrow

end Stopwatch.Layout

namespace Stopwatch.Fragment

open Layout

/-- **The lines of a fragment are those its brackets say.** Take any nodes whose tokens come in the order of
their rows. Then some of the rows up to the end of the last token are shown, among them every row on which a
token starts and every row inside a token, and the lines are those of the rows that are shown. -/
theorem ofNodes_eq_bracketLines (source : Source) (parent : String) (nodes : List Cst)
    (horder : RowsInOrder ((Cst.leavesAll parent nodes).map (Leaf.place source))) :
    ∃ shown : List Nat, shown.Sublist (fragmentRows ((Cst.leavesAll parent nodes).map (Leaf.place source))) ∧
      (∀ r ≤ (stopPoint ((Cst.leavesAll parent nodes).map (Leaf.place source))).row,
        isShown ((Cst.leavesAll parent nodes).map (Leaf.place source)) r = true → r ∈ shown) ∧
      ofNodes source parent nodes =
        shown.map (bracketLine ((Cst.leavesAll parent nodes).map (Leaf.place source)) source.rows) := by
  rw [ofNodes]
  generalize (Cst.leavesAll parent nodes).map (Leaf.place source) = ls at horder ⊢
  by_cases hne : ls = []
  · subst hne
    exact ⟨[], List.nil_sublist _, fun _ _ hr => absurd hr Bool.false_ne_true, rfl⟩
  · obtain ⟨-, shown, hsub, hshown, hlines⟩ :=
      exists_shown horder source.rows ((stopPoint ls).row + 1 - startRow ls)
    refine ⟨shown, hsub, fun r hr hrow => hshown r ?_ hrow, ?_⟩
    · rw [List.mem_range'_1]
      have := startRow_le_of_isShown horder hrow
      omega
    · rw [ofPlaced_eq_foldl _ hne]
      exact hlines

/-- A call whose brackets are not balanced: a row closes one bracket of two, a row inside a token opens one,
and the last bracket closes it although it is of another kind. -/
def unevenCall : Text := utf8 "f(g(\n1 +\n2), `a\nb`, [\nc\n\x7d\n"

/-- The tokens of that call. -/
def unevenTokens : List Cst :=
  [Sample.token "identifier" 0 1, Sample.token "(" 1 2, Sample.token "identifier" 2 3,
    Sample.token "(" 3 4, Sample.token "int_literal" 5 6, Sample.token "+" 7 8,
    Sample.token "int_literal" 9 10, Sample.token ")" 10 11, Sample.token "," 11 12,
    Sample.token "raw_string_literal" 13 18, Sample.token "," 18 19, Sample.token "[" 20 21,
    Sample.token "identifier" 22 23, Sample.token "\x7d" 24 25]

theorem ofNodes_eq_bracketLines_uneven :
    let ls := (Cst.leavesAll "call" unevenTokens).map (Leaf.place (Source.ofText unevenCall))
    RowsInOrder ls ∧
      ∃ shown : List Nat, shown.Sublist (fragmentRows ls) ∧
        (∀ r ≤ (stopPoint ls).row, isShown ls r = true → r ∈ shown) ∧
        ofNodes (Source.ofText unevenCall) "call" unevenTokens =
          shown.map (bracketLine ls (Source.ofText unevenCall).rows) :=
  have horder : RowsInOrder
      ((Cst.leavesAll "call" unevenTokens).map (Leaf.place (Source.ofText unevenCall))) := by decide
  ⟨horder, ofNodes_eq_bracketLines _ _ _ horder⟩

example : (ofNodes (Source.ofText unevenCall) "call" unevenTokens).map (fun l => (l.depth, l.verbatim)) =
    [(0, false), (1, false), (2, false), (0, true), (1, false), (0, false)] := by decide

end Stopwatch.Fragment
