import Mathlib
import Stopwatch.Proofs.Relaying

/-!
# Both sides of a cut

A text is cut in two. The places, rows and tokens in front of the cut are those of the first part
(`point_append_left`, `rows_append_left`). Those behind it are the places, rows and tokens of the second
part, moved down to the row of the cut, and on that row moved to the right (`point_append`,
`rows_append_right`).

* `SameFront`, `SameBehind`: what the rows of two texts share that begin alike, or end alike.
* `Leaf.place_front`, `Leaf.place_shift`: the places of a token on either side.
-/

namespace Stopwatch

/-- The place `p` of a text that begins at the place `q` of a longer one. -/
def Point.behind (q p : Point) : Point := ⟨q.row + p.row, if p.row = 0 then q.col + p.col else p.col⟩

/-- A place that is not behind the place `e`. -/
def Point.UpTo (e p : Point) : Prop := p.row < e.row ∨ p.row = e.row ∧ p.col ≤ e.col

theorem Point.UpTo.row_le {e p : Point} (h : e.UpTo p) : p.row ≤ e.row := by
  rcases h with h | h
  · exact Nat.le_of_lt h
  · exact Nat.le_of_eq h.1

theorem Point.UpTo.col_le {e p : Point} (h : e.UpTo p) (hrow : p.row = e.row) : p.col ≤ e.col := by
  rcases h with h | h
  · exact absurd hrow h.ne
  · exact h.2

namespace Text

theorem pointFrom_eq_behind (q : Point) (n : Nat) (t : Text) : pointFrom q n t = q.behind (point t n) := by
  have hrow : (pointFrom q n t).row = (q.behind (point t n)).row := by
    rw [pointFrom_row, Point.behind, point_row]
  have hcol : (pointFrom q n t).col = (q.behind (point t n)).col := by
    rw [pointFrom_col, Point.behind, point, pointFrom_row, pointFrom_col, Nat.zero_add, Nat.zero_add]
    by_cases h : newline ∈ t.take n
    · have hcount : (t.take n).count newline ≠ 0 := (List.count_pos_iff.mpr h).ne'
      simp only [if_pos h, if_neg hcount]
    · simp only [if_neg h, List.count_eq_zero_of_not_mem h, if_true]
  generalize pointFrom q n t = a at hrow hcol ⊢
  generalize q.behind (point t n) = b at hrow hcol ⊢
  cases a
  cases b
  exact congrArg₂ Point.mk hrow hcol

theorem pointFrom_append (p : Point) (a b : Text) (m : Nat) :
    pointFrom p (a.length + m) (a ++ b) = pointFrom (pointFrom p a.length a) m b := by
  induction a generalizing p with
  | nil => simp [pointFrom]
  | cons c a ih =>
    rw [List.length_cons, Nat.add_right_comm, List.cons_append, pointFrom, pointFrom]
    exact ih _

/-- The places behind a cut. -/
theorem point_append (a b : Text) (m : Nat) :
    point (a ++ b) (a.length + m) = (point a a.length).behind (point b m) := by
  rw [point, pointFrom_append, pointFrom_eq_behind]
  rfl

/-- The places in front of a cut. -/
theorem point_append_left {a : Text} {n : Nat} (h : n ≤ a.length) (b : Text) :
    point (a ++ b) n = point a n := by
  have htake := point_take h (a ++ b)
  rw [List.take_left] at htake
  exact htake.symm

theorem upTo_point {a : Text} {n : Nat} (h : n ≤ a.length) : (point a a.length).UpTo (point a n) := by
  rcases (row_mono h a).lt_or_eq with hlt | heq
  · exact .inl hlt
  · exact .inr ⟨heq, col_mono h heq⟩

/-- The rows in front of a cut. -/
theorem rows_append_left (a b : Text) :
    (∀ r < (point a a.length).row, (splitLines (a ++ b)).getD r [] = (splitLines a).getD r []) ∧
      ((splitLines (a ++ b)).getD (point a a.length).row []).take (point a a.length).col =
        (splitLines a).getD (point a a.length).row [] := by
  have htake := splitLines_take (a ++ b) a.length
  have hlt := row_lt_length (a ++ b) a.length
  rw [point_append_left (Nat.le_refl _)] at htake hlt
  rw [List.take_left] at htake
  have hlength : ((splitLines (a ++ b)).take (point a a.length).row).length = (point a a.length).row := by
    rw [List.length_take, Nat.min_eq_left hlt.le]
  rw [htake]
  constructor
  · intro r hr
    rw [List.getD_append _ _ _ _ (by rw [hlength]; exact hr), List.getD_eq_getElem?_getD,
      List.getD_eq_getElem?_getD, List.getElem?_take_of_lt hr]
  · rw [List.getD_append_right _ _ _ _ hlength.le, hlength, Nat.sub_self]
    rfl

/-- The rows behind a cut. -/
theorem rows_append_right (a b : Text) :
    ((splitLines (a ++ b)).getD (point a a.length).row []).drop (point a a.length).col =
        (splitLines b).getD 0 [] ∧
      ∀ j, (splitLines (a ++ b)).getD ((point a a.length).row + (j + 1)) [] =
        (splitLines b).getD (j + 1) [] := by
  have hdrop := splitLines_drop (a ++ b) a.length
  rw [point_append_left (Nat.le_refl _), List.drop_left] at hdrop
  rw [hdrop]
  constructor
  · rfl
  · intro j
    rw [List.getD_cons_succ, List.getD_eq_getElem?_getD, List.getD_eq_getElem?_getD, List.getElem?_drop,
      Nat.add_assoc, Nat.add_comm 1 j]

/-- The rows of two texts that begin with the same text, which ends at the place `e`. -/
structure SameFront (e : Point) (R R' : List Text) : Prop where
  above : ∀ r < e.row, R.getD r [] = R'.getD r []
  here : (R.getD e.row []).take e.col = (R'.getD e.row []).take e.col

theorem sameFront_append (t u u' : Text) :
    SameFront (point t t.length) (splitLines (t ++ u)) (splitLines (t ++ u')) := by
  obtain ⟨habove, hhere⟩ := rows_append_left t u
  obtain ⟨habove', hhere'⟩ := rows_append_left t u'
  exact ⟨fun r hr => (habove r hr).trans (habove' r hr).symm, hhere.trans hhere'.symm⟩

/-- The rows of two texts that end with the same text, which begins at the places `q` and `q'`. -/
structure SameBehind (q q' : Point) (R R' : List Text) : Prop where
  here : (R.getD q.row []).drop q.col = (R'.getD q'.row []).drop q'.col
  below : ∀ j, R.getD (q.row + (j + 1)) [] = R'.getD (q'.row + (j + 1)) []

theorem sameBehind_append (t t' u : Text) :
    SameBehind (point t t.length) (point t' t'.length) (splitLines (t ++ u)) (splitLines (t' ++ u)) := by
  obtain ⟨hhere, hbelow⟩ := rows_append_right t u
  obtain ⟨hhere', hbelow'⟩ := rows_append_right t' u
  exact ⟨hhere.trans hhere'.symm, fun j => (hbelow j).trans (hbelow' j).symm⟩

end Text

/-! ## Tokens -/

open Text

/-- A token of a text, seen from a text that has `n` bytes more in front. -/
def Leaf.shift (n : Nat) (l : Leaf) : Leaf := { l with start := n + l.start, stop := n + l.stop }

/-- A token of a text that begins at the place `q` of a longer one. -/
def PlacedLeaf.behind (q : Point) (l : PlacedLeaf) : PlacedLeaf :=
  ⟨l.kind, l.parent, q.behind l.first, q.behind l.last⟩

@[simp] theorem PlacedLeaf.behind_first_row (q : Point) (l : PlacedLeaf) :
    (l.behind q).first.row = q.row + l.first.row := rfl

@[simp] theorem PlacedLeaf.behind_last_row (q : Point) (l : PlacedLeaf) :
    (l.behind q).last.row = q.row + l.last.row := rfl

variable {t u : Text} {l : Leaf}

/-- A token in front of a cut. -/
theorem Leaf.place_front (hstart : l.start ≤ t.length) (hstop : l.stop ≤ t.length) (u : Text) :
    l.place (Source.ofText (t ++ u)) = l.place (Source.ofText t) ∧
      (point t t.length).UpTo (l.place (Source.ofText t)).first ∧
      (point t t.length).UpTo (l.place (Source.ofText t)).last := by
  rw [point_place, point_place, point_append_left hstart, point_append_left hstop]
  exact ⟨rfl, upTo_point hstart, upTo_point hstop⟩

/-- A token behind a cut. -/
theorem Leaf.place_shift (t u : Text) (l : Leaf) :
    (l.shift t.length).place (Source.ofText (t ++ u)) =
      (l.place (Source.ofText u)).behind (point t t.length) := by
  rw [point_place, point_place, Leaf.shift, PlacedLeaf.behind, point_append, point_append]

end Stopwatch
