import Mathlib
import Stopwatch.Proofs.Cuts
import Stopwatch.Proofs.Depths
import Stopwatch.Proofs.Rereading

/-!
# The layout of tokens that move

Two sources have the same text up to a place `e` and the same text from a place on, which is `q` in the one
and `q'` in the other. A token of either part is laid out as its counterpart is (`Moved`). The rows come in
three parts: in front of the stretch between the places, in it, and behind it.

* `step_congr`: what a step reads of a row.
* `Moved.order`: where a token stands to a row, and `visit_eq` for two rows that belong together.
* `visit_front`, `visit_skipped`, `visit_behind`: one row of each part.
* `ofPlaced_front`, `ofPlaced_behind`, `ofPlaced_over`: fragments that end in front of the stretch, begin
  behind it, or go over it.
-/

namespace Stopwatch.Layout

open Text

/-! ## One row of two sources -/

theorem depthOf_bare (isFirst : Bool) (levels : Levels) (previous : Option String) (l : PlacedLeaf) :
    depthOf isFirst levels previous l = depthOf isFirst levels previous (.ofKinds l.kinds) := rfl

/-- **A step does not look at columns**, only at what is kept of the row from its first token on. -/
theorem step_congr {isFirst inside openEnd : Bool} {raw raw' : Text} {row row' : List PlacedLeaf}
    (hinside : inside = true → keptRest openEnd raw = keptRest openEnd raw')
    (hrow : List.Forall₂ (fun l l' => l.kinds = l'.kinds ∧
      keptRest openEnd (raw.drop l.first.col) = keptRest openEnd (raw'.drop l'.first.col)) row row')
    (s : State) : step isFirst inside openEnd raw row s = step isFirst inside openEnd raw' row' s := by
  have hbare : bare row = bare row' := by
    induction hrow with
    | nil => rfl
    | cons hhead _ ih => exact congrArg₂ List.cons (congrArg PlacedLeaf.ofKinds hhead.1) ih
  have hadvance : ∀ stack, advance stack row = advance stack row' := fun stack => by
    rw [← advance_bare, hbare, advance_bare]
  have hlast : ∀ previous, lastKind previous row = lastKind previous row' := fun previous => by
    rw [← lastKind_bare, hbare, lastKind_bare]
  cases inside with
  | true =>
    have htext := hinside rfl
    rw [keptRest, keptRest] at htext
    simp only [step, if_true, hadvance, hlast, htext]
  | false =>
    cases hrow with
    | nil => rfl
    | @cons l l' more more' hhead _ =>
      obtain ⟨hkinds, htext⟩ := hhead
      have hclose : ∀ stack, (closeLeading stack (l :: more)).1 = (closeLeading stack (l' :: more')).1 ∧
          ∀ levels, advance levels (closeLeading stack (l :: more)).2 =
            advance levels (closeLeading stack (l' :: more')).2 := by
        intro stack
        have h := closeLeading_bare stack (l :: more)
        rw [hbare, closeLeading_bare] at h
        obtain ⟨hlevels, hrest⟩ := Prod.mk.inj h
        refine ⟨hlevels.symm, fun levels => ?_⟩
        rw [← advance_bare, ← hrest, advance_bare]
      have hdepth : ∀ levels previous,
          depthOf isFirst levels previous l = depthOf isFirst levels previous l' := by
        intro levels previous
        rw [depthOf_bare, hkinds, ← depthOf_bare]
      rw [keptRest, keptRest] at htext
      simp only [step, Bool.false_eq_true, if_false, hclose, hlast, hdepth, htext]

/-- A row without tokens. -/
def skipRow (s : State) : State := step false false false [] [] s

theorem step_nil (isFirst openEnd : Bool) (raw : Text) (s : State) :
    step isFirst false openEnd raw [] s = skipRow s := rfl

theorem skipRow_skipRow (s : State) : skipRow (skipRow s) = skipRow s := by
  obtain ⟨levels, previous, lines⟩ := s
  cases lines with
  | nil => rfl
  | cons l lines =>
    obtain ⟨depth, text, verbatim⟩ := l
    cases text <;> cases verbatim <;> rfl

/-- Several rows without tokens are like one. -/
theorem foldl_skipRow {visit : State → Nat → State} {is : List Nat} (hne : is ≠ [])
    (h : ∀ i ∈ is, ∀ s, visit s i = skipRow s) (s : State) : is.foldl visit s = skipRow s := by
  induction is generalizing s with
  | nil => exact absurd rfl hne
  | cons i is ih =>
    rw [List.foldl_cons, h i List.mem_cons_self]
    cases is with
    | nil => rfl
    | cons j js =>
      rw [ih (List.cons_ne_nil j js) (fun k hk => h k (List.mem_cons_of_mem i hk)), skipRow_skipRow]

/-! ## Tokens that stay and tokens that move -/

/-- A token up to the place `e`, which stays, or one of the text that begins at the place `q` of one source
and at the place `q'` of the other. -/
inductive Moved (e q q' : Point) : PlacedLeaf → PlacedLeaf → Prop
  | stays (l : PlacedLeaf) (hfirst : e.UpTo l.first) (hlast : e.UpTo l.last) (hq : e.row < q.row)
      (hq' : e.row < q'.row) : Moved e q q' l l
  | moves (l : PlacedLeaf) : Moved e q q' (l.behind q) (l.behind q')

section Moved

variable {e q q' : Point} {R R' : List Text} {ls ls' : List PlacedLeaf} {r r' : Nat}

theorem Moved.kinds {l l' : PlacedLeaf} (h : Moved e q q' l l') : l.kinds = l'.kinds := by
  cases h <;> rfl

theorem ne_nil_of_moved (hmoved : List.Forall₂ (Moved e q q') ls ls') (hne : ls ≠ []) : ls' ≠ [] := by
  rintro rfl
  exact hne (List.forall₂_nil_right_iff.mp hmoved)

theorem exists_start (hmoved : List.Forall₂ (Moved e q q') ls ls') (hne : ls ≠ []) :
    ∃ l l', Moved e q q' l l' ∧ startRow ls = l.first.row ∧ startRow ls' = l'.first.row := by
  cases hmoved with
  | nil => exact absurd rfl hne
  | @cons l l' _ _ hhead _ => exact ⟨l, l', hhead, rfl, rfl⟩

theorem exists_stop (hmoved : List.Forall₂ (Moved e q q') ls ls') (hne : ls ≠ []) :
    ∃ l l', Moved e q q' l l' ∧ stopPoint ls = l.last ∧ stopPoint ls' = l'.last := by
  have hne' := ne_nil_of_moved hmoved hne
  have hl := List.getLast?_eq_some_getLast hne
  have hl' := List.getLast?_eq_some_getLast hne'
  refine ⟨_, _, Leaf.forall₂_getLast? hmoved hl hl', ?_, ?_⟩
  · rw [stopPoint, hl]
    rfl
  · rw [stopPoint, hl']
    rfl

theorem forall₂_filter {α β : Type} {S : α → β → Prop} {p : α → Bool} {p' : β → Bool} {as : List α}
    {bs : List β} (h : List.Forall₂ S as bs) (hp : ∀ a b, S a b → p a = p' b) :
    List.Forall₂ (fun a b => S a b ∧ p a = true) (as.filter p) (bs.filter p') := by
  induction h with
  | nil => exact .nil
  | @cons a b _ _ hhead _ ih =>
    rw [List.filter_cons, List.filter_cons, ← hp a b hhead]
    split
    case isTrue ha => exact .cons ⟨hhead, ha⟩ ih
    case isFalse => exact ih

theorem exists_of_mem {α β : Type} {S : α → β → Prop} {as : List α} {bs : List β} {a : α}
    (h : List.Forall₂ S as bs) (ha : a ∈ as) : ∃ b, S a b := by
  induction h with
  | nil => cases ha
  | cons hhead _ ih =>
    rcases List.mem_cons.mp ha with rfl | ha
    · exact ⟨_, hhead⟩
    · exact ih ha

/-! ## Rows that belong together -/

/-- A row in front of the stretch and itself, or a row behind the stretch and the same one in the other
source. -/
inductive RowPair (e q q' : Point) : Nat → Nat → Prop
  | front (r : Nat) (hr : r ≤ e.row) (hq : e.row < q.row) (hq' : e.row < q'.row) : RowPair e q q' r r
  | behind (j : Nat) : RowPair e q q' (q.row + j) (q'.row + j)

/-- A token begins and ends above, on or below a row as its counterpart does in the other source. -/
theorem Moved.order {l l' : PlacedLeaf} (h : Moved e q q' l l') (hr : RowPair e q q' r r') :
    (l.first.row < r ↔ l'.first.row < r') ∧ (l.first.row = r ↔ l'.first.row = r') ∧
      (l.last.row < r ↔ l'.last.row < r') ∧ (l.last.row = r ↔ l'.last.row = r') := by
  cases h with
  | stays _ hfirst hlast hq hq' =>
    have hfirst := hfirst.row_le
    have hlast := hlast.row_le
    cases hr with
    | front => exact ⟨.rfl, .rfl, .rfl, .rfl⟩
    | behind j => omega
  | moves l =>
    simp only [PlacedLeaf.behind_first_row, PlacedLeaf.behind_last_row]
    cases hr with
    | front _ hr hq hq' => omega
    | behind j => omega

variable (hmoved : List.Forall₂ (Moved e q q') ls ls')

include hmoved

theorem startsInside_eq (hr : RowPair e q q' r r') : startsInside ls r = startsInside ls' r' := by
  refine Leaf.any_eq_of_forall₂ (hmoved.imp fun l l' hl => ?_)
  have horder := hl.order hr
  rw [Bool.eq_iff_iff, Bool.and_eq_true, Bool.and_eq_true]
  simp only [decide_eq_true_eq]
  omega

theorem endsInside_eq (hr : RowPair e q q' r r') : endsInside ls r = endsInside ls' r' := by
  refine Leaf.any_eq_of_forall₂ (hmoved.imp fun l l' hl => ?_)
  have horder := hl.order hr
  rw [Bool.eq_iff_iff, Bool.and_eq_true, Bool.and_eq_true]
  simp only [decide_eq_true_eq]
  omega

theorem isFirst_eq (hne : ls ≠ []) (hr : RowPair e q q' r r') :
    (r == startRow ls) = (r' == startRow ls') := by
  obtain ⟨l, l', hl, hstart, hstart'⟩ := exists_start hmoved hne
  have horder := hl.order hr
  rw [hstart, hstart', Bool.eq_iff_iff, beq_iff_eq, beq_iff_eq]
  omega

theorem onRow_moved (hr : RowPair e q q' r r') :
    List.Forall₂ (fun l l' => Moved e q q' l l' ∧ l.first.row = r) (onRow ls r) (onRow ls' r') := by
  refine (forall₂_filter hmoved fun l l' hl => ?_).imp fun l l' hl => ⟨hl.1, beq_iff_eq.mp hl.2⟩
  rw [Bool.eq_iff_iff, beq_iff_eq, beq_iff_eq]
  exact (hl.order hr).2.1

/-- **Two rows that belong together** are laid out alike if the same is kept of them, from each token on that
starts there. -/
theorem visit_eq (hne : ls ≠ []) (hr : RowPair e q q' r r')
    (hinside : startsInside ls r = true →
      keptRest (endsInside ls r) (cutRow ls R r) = keptRest (endsInside ls r) (cutRow ls' R' r'))
    (hrest : ∀ l l', Moved e q q' l l' → l.first.row = r →
      keptRest (endsInside ls r) ((cutRow ls R r).drop l.first.col) =
        keptRest (endsInside ls r) ((cutRow ls' R' r').drop l'.first.col))
    (s : State) : visit R ls s r = visit R' ls' s r' := by
  rw [visit, visit, ← startsInside_eq hmoved hr, ← endsInside_eq hmoved hr, ← isFirst_eq hmoved hne hr]
  exact step_congr hinside
    ((onRow_moved hmoved hr).imp fun l l' hl => ⟨hl.1.kinds, hrest l l' hl.1 hl.2⟩) s

omit hmoved

/-! ## The rows in front of the stretch -/

/-- The rest of a row behind the place `e` is white space. -/
def BlankBehind (e : Point) (R : List Text) : Prop := ∀ b ∈ (R.getD e.row []).drop e.col, isBlank b = true

/-- Nothing goes on below the row of `e`. -/
theorem endsInside_row (hmoved : List.Forall₂ (Moved e q q') ls ls') (hq : e.row < q.row) :
    endsInside ls e.row = false := by
  rw [endsInside, List.any_eq_false]
  intro l hl
  obtain ⟨l', hmove⟩ := exists_of_mem hmoved hl
  cases hmove with
  | stays _ _ hlast =>
    have hle := hlast.row_le
    simp [Nat.not_lt.mpr hle]
  | moves l =>
    have h : ¬ q.row + l.first.row ≤ e.row := by omega
    simp [h]

theorem trimEnd_drop_of_blank {t t' : Text} {k : Nat} (hsame : t.take k = t'.take k)
    (hblank : ∀ b ∈ t.drop k, isBlank b = true) (hblank' : ∀ b ∈ t'.drop k, isBlank b = true)
    (c : Nat) : trimEnd (t.drop c) = trimEnd (t'.drop c) := by
  have hdrop : ∀ u : Text, (∀ b ∈ u.drop k, isBlank b = true) →
      trimEnd (u.drop c) = trimEnd ((u.take k).drop c) := by
    intro u hu
    have hsplit : u.drop c = (u.take k).drop c ++ (u.drop k).drop (c - (u.take k).length) := by
      rw [← List.drop_append, List.take_append_drop]
    rw [hsplit, trimEnd_append_blank fun b hb => hu b (List.mem_of_mem_drop hb)]
  rw [hdrop t hblank, hdrop t' hblank', hsame]

/-- **The text that is kept of a row in front of the stretch.** On the row where the stretch begins, either
the fragment ends or white space follows. -/
theorem rest_front (hmoved : List.Forall₂ (Moved e q q') ls ls') (hne : ls ≠ []) (hq : e.row < q.row)
    (hq' : e.row < q'.row) (hrows : SameFront e R R') (hr : r ≤ e.row)
    (htail : r = e.row → (stopPoint ls).row = e.row ∨ BlankBehind e R ∧ BlankBehind e R') (c : Nat) :
    keptRest (endsInside ls r) ((cutRow ls R r).drop c) =
      keptRest (endsInside ls r) ((cutRow ls' R' r).drop c) := by
  obtain ⟨l, l', hlast, hstop, hstop'⟩ := exists_stop hmoved hne
  have horder := hlast.order (.front r hr hq hq')
  rw [cutRow, cutRow, hstop, hstop']
  by_cases hcut : r = l.last.row
  · rw [if_pos (beq_iff_eq.mpr hcut), if_pos (beq_iff_eq.mpr (horder.2.2.2.mp hcut.symm).symm)]
    cases hlast with
    | moves l =>
      rw [PlacedLeaf.behind_last_row] at hcut
      omega
    | stays _ _ hlast =>
      -- what is cut off begins in front of the stretch
      rcases Nat.lt_or_eq_of_le hr with hlt | rfl
      · rw [hrows.above r hlt]
      · have hcol := hlast.col_le hcut.symm
        have hhere := congrArg (List.take l.last.col) hrows.here
        rw [List.take_take, List.take_take, Nat.min_eq_left hcol] at hhere
        rw [hhere]
  · have hcut' : ¬ r = l'.last.row := fun h => hcut (horder.2.2.2.mpr h.symm).symm
    rw [if_neg (by simpa using hcut), if_neg (by simpa using hcut')]
    rcases Nat.lt_or_eq_of_le hr with hlt | rfl
    · rw [hrows.above r hlt]
    · obtain ⟨hblank, hblank'⟩ := (htail rfl).resolve_left fun h => hcut (hstop ▸ h.symm)
      rw [endsInside_row hmoved hq]
      exact trimEnd_drop_of_blank hrows.here hblank hblank' c

/-- **A row in front of the stretch.** -/
theorem visit_front (hmoved : List.Forall₂ (Moved e q q') ls ls') (hne : ls ≠ []) (hq : e.row < q.row)
    (hq' : e.row < q'.row) (hrows : SameFront e R R') (hr : r ≤ e.row)
    (htail : r = e.row → (stopPoint ls).row = e.row ∨ BlankBehind e R ∧ BlankBehind e R') (s : State) :
    visit R ls s r = visit R' ls' s r := by
  have hrest := rest_front hmoved hne hq hq' hrows hr htail
  refine visit_eq hmoved hne (.front r hr hq hq') (fun _ => hrest 0) (fun l l' hl hrow => ?_) s
  cases hl with
  | stays => exact hrest l.first.col
  | moves l =>
    rw [PlacedLeaf.behind_first_row] at hrow
    omega

/-! ## The rows in the stretch -/

/-- **A row in the stretch** has no tokens. -/
theorem visit_skipped (hmoved : List.Forall₂ (Moved e q q') ls ls') (hlow : e.row < r) (hhigh : r < q.row)
    (s : State) : visit R ls s r = skipRow s := by
  have hoff : ∀ l ∈ ls, l.first.row ≠ r ∧ ¬ (l.first.row < r ∧ r ≤ l.last.row) := by
    intro l hl
    obtain ⟨l', hmove⟩ := exists_of_mem hmoved hl
    cases hmove with
    | stays _ hfirst hlast =>
      have hfirst := hfirst.row_le
      have hlast := hlast.row_le
      omega
    | moves l =>
      rw [PlacedLeaf.behind_first_row]
      omega
  have hinside : startsInside ls r = false := by
    rw [startsInside, List.any_eq_false]
    intro l hl
    simpa using (hoff l hl).2
  have hrow : onRow ls r = [] := by
    rw [onRow, List.filter_eq_nil_iff]
    intro l hl
    simpa using (hoff l hl).1
  rw [visit, hinside, hrow, step_nil]

/-! ## The rows behind the stretch -/

/-- **The text of a row behind the stretch**, from a place on it. -/
theorem rest_behind (hmoved : List.Forall₂ (Moved e q q') ls ls') (hne : ls ≠ [])
    (hrows : SameBehind q q' R R') (j c : Nat) :
    (cutRow ls R (q.row + j)).drop (q.behind ⟨j, c⟩).col =
      (cutRow ls' R' (q'.row + j)).drop (q'.behind ⟨j, c⟩).col := by
  obtain ⟨l, l', hlast, hstop, hstop'⟩ := exists_stop hmoved hne
  have horder := hlast.order (.behind j)
  have hdrop : (R.getD (q.row + j) []).drop (q.behind ⟨j, c⟩).col =
      (R'.getD (q'.row + j) []).drop (q'.behind ⟨j, c⟩).col := by
    cases j with
    | zero =>
      have hhere := congrArg (List.drop c) hrows.here
      rwa [List.drop_drop, List.drop_drop] at hhere
    | succ j => exact congrArg (List.drop c) (hrows.below j)
  rw [cutRow, cutRow, hstop, hstop']
  by_cases hcut : q.row + j = l.last.row
  · rw [if_pos (beq_iff_eq.mpr hcut), if_pos (beq_iff_eq.mpr (horder.2.2.2.mp hcut.symm).symm),
      List.drop_take, List.drop_take, hdrop]
    cases hlast with
    | stays _ _ hlast hq =>
      have hlast := hlast.row_le
      omega
    | moves l =>
      obtain rfl : j = l.last.row := Nat.add_left_cancel hcut
      have hcols : ∀ p : Point,
          (p.behind l.last).col - (p.behind ⟨l.last.row, c⟩).col = l.last.col - c := by
        intro p
        simp only [Point.behind]
        split <;> omega
      exact congrArg (List.take · _) ((hcols q).trans (hcols q').symm)
  · have hcut' : ¬ q'.row + j = l'.last.row := fun h => hcut (horder.2.2.2.mpr h.symm).symm
    rw [if_neg (by simpa using hcut), if_neg (by simpa using hcut'), hdrop]

/-- **A row behind the stretch.** -/
theorem visit_behind (hmoved : List.Forall₂ (Moved e q q') ls ls') (hne : ls ≠ [])
    (hrows : SameBehind q q' R R') (j : Nat) (s : State) :
    visit R ls s (q.row + j) = visit R' ls' s (q'.row + j) := by
  have hrest := rest_behind hmoved hne hrows j
  refine visit_eq hmoved hne (.behind j) (fun h => ?_) (fun l l' hl hrow => ?_) s
  · -- only a row below the one where the text behind the stretch begins can start inside a token
    cases j with
    | zero =>
      obtain ⟨l, hl, hlow⟩ := List.any_eq_true.mp h
      obtain ⟨l', hmove⟩ := exists_of_mem hmoved hl
      have hlow : l.first.row < q.row ∧ q.row ≤ l.last.row := by simpa using hlow
      cases hmove with
      | stays _ _ hlast hq _ =>
        have hlast := hlast.row_le
        omega
      | moves l =>
        rw [PlacedLeaf.behind_first_row] at hlow
        omega
    | succ j => exact congrArg (keptRest _) (hrest 0)
  · cases hl with
    | stays _ hfirst _ hq =>
      have hfirst := hfirst.row_le
      omega
    | moves l =>
      obtain rfl : l.first.row = j := Nat.add_left_cancel hrow
      exact congrArg (keptRest _) (hrest l.first.col)

/-! ## All rows -/

/-- The fragment ends in front of the stretch. -/
theorem ofPlaced_front (hmoved : List.Forall₂ (Moved e q q') ls ls') (hne : ls ≠ []) (hq : e.row < q.row)
    (hq' : e.row < q'.row) (hrows : SameFront e R R') (hstop : (stopPoint ls).row ≤ e.row) :
    ofPlaced R ls = ofPlaced R' ls' := by
  have hne' := ne_nil_of_moved hmoved hne
  have hsame : stopPoint ls = stopPoint ls' := by
    obtain ⟨l, l', hlast, hl, hl'⟩ := exists_stop hmoved hne
    rw [hl] at hstop
    cases hlast with
    | stays => rw [hl, hl']
    | moves l =>
      have hle : q.row + l.last.row ≤ e.row := hstop
      omega
  have hrange : fragmentRows ls = fragmentRows ls' := by
    obtain ⟨l, l', hfirst, hl, hl'⟩ := exists_start hmoved hne
    rw [fragmentRows, fragmentRows, ← hsame, hl, hl']
    cases hfirst with
    | stays => rfl
    | moves l =>
      -- nothing lies between a first token behind the stretch and a last one in front of it
      have h : (stopPoint ls).row + 1 - (q.row + l.first.row) = 0 := by omega
      have h' : (stopPoint ls).row + 1 - (q'.row + l.first.row) = 0 := by omega
      simp only [PlacedLeaf.behind_first_row, h, h']
      rfl
  rw [ofPlaced_eq_foldl R hne, ofPlaced_eq_foldl R' hne', ← hrange]
  congr 2
  refine List.foldl_ext _ _ _ fun s r hr => ?_
  have hr := List.mem_range'_1.mp hr
  have hle : r ≤ (stopPoint ls).row := by omega
  exact visit_front hmoved hne hq hq' hrows (hle.trans hstop)
    (fun h => .inl (Nat.le_antisymm hstop (h ▸ hle))) s

theorem foldl_behind (hmoved : List.Forall₂ (Moved e q q') ls ls') (hne : ls ≠ [])
    (hrows : SameBehind q q' R R') (j n : Nat) (s : State) :
    (List.range' (q.row + j) n).foldl (visit R ls) s =
      (List.range' (q'.row + j) n).foldl (visit R' ls') s := by
  rw [List.range'_eq_map_range, List.range'_eq_map_range, List.foldl_map, List.foldl_map]
  refine List.foldl_ext _ _ _ fun s k _ => ?_
  rw [Nat.add_assoc, Nat.add_assoc]
  exact visit_behind hmoved hne hrows _ s

/-- The fragment begins behind the stretch. -/
theorem ofPlaced_behind (hmoved : List.Forall₂ (Moved e q q') ls ls') (hne : ls ≠ [])
    (hrows : SameBehind q q' R R') (hstart : q.row ≤ (startRow ls)) : ofPlaced R ls = ofPlaced R' ls' := by
  have hne' := ne_nil_of_moved hmoved hne
  obtain ⟨f, f', hfirst, hf, hf'⟩ := exists_start hmoved hne
  obtain ⟨l, l', hlast, hl, hl'⟩ := exists_stop hmoved hne
  rw [ofPlaced_eq_foldl R hne, ofPlaced_eq_foldl R' hne', fragmentRows, fragmentRows, hl, hl', hf']
  rw [hf] at hstart ⊢
  cases hfirst with
  | stays _ hfirst _ hq =>
    have hle := hfirst.row_le
    omega
  | moves f =>
    have hcount : l.last.row + 1 - (q.row + f.first.row) = l'.last.row + 1 - (q'.row + f.first.row) := by
      cases hlast with
      | stays _ _ hlast hq hq' =>
        have hle := hlast.row_le
        omega
      | moves l =>
        simp only [PlacedLeaf.behind_last_row]
        omega
    have hfold := foldl_behind hmoved hne hrows f.first.row (l.last.row + 1 - (q.row + f.first.row)) {}
    rw [hcount] at hfold
    simp only [PlacedLeaf.behind_first_row, hcount, hfold]

/-- The rows from one in front of the stretch to one behind it. -/
theorem range'_split {a b m n : Nat} (ham : a ≤ m) (hmn : m < n) :
    List.range' a (n + b + 1 - a) =
      List.range' a (m + 1 - a) ++ List.range' (m + 1) (n - (m + 1)) ++ List.range' n (b + 1) := by
  have hfront : a + (m + 1 - a) = m + 1 := by omega
  have hmiddle : a + (m + 1 - a + (n - (m + 1))) = n := by omega
  have hcount : m + 1 - a + (n - (m + 1)) + (b + 1) = n + b + 1 - a := by omega
  rw [← hcount, ← List.range'_append_1, ← List.range'_append_1, hfront, hmiddle]

/-- The rows in the stretch are like one row without tokens, or there are none. -/
theorem foldl_skipped (R : List Text) (hmoved : List.Forall₂ (Moved e q q') ls ls') (hq : e.row < q.row)
    (s : State) : (List.range' (e.row + 1) (q.row - (e.row + 1))).foldl (visit R ls) s =
      if q.row = e.row + 1 then s else skipRow s := by
  split
  case isTrue hone =>
    rw [hone, Nat.sub_self]
    rfl
  case isFalse hone =>
    refine foldl_skipRow (by rw [Ne, List.range'_eq_nil_iff]; omega) (fun r hr => ?_) s
    have hr := List.mem_range'_1.mp hr
    exact visit_skipped hmoved (by omega) (by omega)

theorem Moved.symm {l l' : PlacedLeaf} (h : Moved e q q' l l') : Moved e q' q l' l := by
  cases h with
  | stays _ hfirst hlast hq hq' => exact .stays l hfirst hlast hq' hq
  | moves l => exact .moves l

/-- **The fragment goes over the stretch.** -/
theorem ofPlaced_over (hmoved : List.Forall₂ (Moved e q q') ls ls') (hne : ls ≠ []) (hq : e.row < q.row)
    (hq' : e.row < q'.row) (hblank : q.row = e.row + 1 ↔ q'.row = e.row + 1)
    (hfront : SameFront e R R') (htail : BlankBehind e R ∧ BlankBehind e R')
    (hbehind : SameBehind q q' R R') (hstart : startRow ls < q.row) (hstop : e.row < (stopPoint ls).row) :
    ofPlaced R ls = ofPlaced R' ls' := by
  have hne' := ne_nil_of_moved hmoved hne
  obtain ⟨f, f', hfirst, hf, hf'⟩ := exists_start hmoved hne
  obtain ⟨l, l', hlast, hl, hl'⟩ := exists_stop hmoved hne
  rw [ofPlaced_eq_foldl R hne, ofPlaced_eq_foldl R' hne', fragmentRows, fragmentRows, hl, hl', hf']
  rw [hf] at hstart ⊢
  rw [hl] at hstop
  cases hfirst with
  | moves f =>
    have hlt : q.row + f.first.row < q.row := hstart
    omega
  | stays _ hfirst =>
    cases hlast with
    | stays _ _ hlast => exact absurd hstop (Nat.not_lt.mpr hlast.row_le)
    | moves l =>
      simp only [PlacedLeaf.behind_last_row]
      rw [range'_split hfirst.row_le hq, range'_split hfirst.row_le hq', List.foldl_append, List.foldl_append,
        List.foldl_append, List.foldl_append]
      have hrows : (List.range' f.first.row (e.row + 1 - f.first.row)).foldl (visit R ls) {} =
          (List.range' f.first.row (e.row + 1 - f.first.row)).foldl (visit R' ls') {} := by
        refine List.foldl_ext _ _ _ fun s r hr => ?_
        have hr := List.mem_range'_1.mp hr
        exact visit_front hmoved hne hq hq' hfront (by omega) (fun _ => .inr htail) s
      have hmoved' : List.Forall₂ (Moved e q' q) ls' ls := (hmoved.imp fun _ _ h => h.symm).flip
      rw [hrows, foldl_skipped R hmoved hq, foldl_skipped R' hmoved' hq', if_congr hblank rfl rfl]
      exact congrArg (fun s => (State.lines s).reverse) (foldl_behind hmoved hne hbehind 0 (l.last.row + 1) _)

end Moved

end Stopwatch.Layout
