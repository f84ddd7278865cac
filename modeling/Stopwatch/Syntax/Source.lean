import Stopwatch.Text

/-!
# Sources and places in them

A `Source` is a text together with its rows, which are cut once. A `Point` is a place in it.

* `Text.point`: the row and the column of a byte. The row counts the line feeds before it (`point_row`),
  the column the bytes since the last of them (`point_col`).
* `Source.point` finds the same place from the lengths of the rows: `point_ofText`.
-/

namespace Stopwatch

/-- A place in a source: row and column, counted from zero, the column in bytes. -/
structure Point where
  row : Nat
  col : Nat
  deriving DecidableEq, Repr

/-- The place behind a byte. -/
def Point.next (p : Point) (b : UInt8) : Point :=
  if b = Text.newline then ⟨p.row + 1, 0⟩ else ⟨p.row, p.col + 1⟩

/-- A place on the row `row` moved to the right; any other place stays. -/
def Point.shift (p : Point) (row col : Nat) : Point := if p.row = row then ⟨row, p.col + col⟩ else p

theorem Point.shift_zero (p : Point) (row : Nat) : p.shift row 0 = p := by
  unfold shift
  split
  · next h => cases p; simp_all
  · rfl

theorem Point.shift_shift (p : Point) (row a b : Nat) :
    (p.shift row a).shift row b = p.shift row (a + b) := by
  unfold shift
  by_cases h : p.row = row <;> simp [h, Nat.add_assoc]

namespace Text

/-- The place reached from `p` behind `n` bytes of a text. -/
def pointFrom (p : Point) : Nat → Text → Point
  | 0, _ => p
  | _ + 1, [] => p
  | n + 1, b :: t => pointFrom (p.next b) n t

/-- The place of the byte at `offset`. -/
def point (source : Text) (offset : Nat) : Point := pointFrom ⟨0, 0⟩ offset source

theorem pointFrom_row (p : Point) (n : Nat) (t : Text) :
    (pointFrom p n t).row = p.row + (t.take n).count newline := by
  induction t generalizing p n with
  | nil => cases n <;> simp [pointFrom]
  | cons b t ih =>
    cases n with
    | zero => simp [pointFrom]
    | succ n =>
      rw [pointFrom, ih, List.take_succ_cons, List.count_cons]
      by_cases h : b = newline
      · simp [Point.next, h]; omega
      · simp [Point.next, h]

/-- The row of a byte is the number of line feeds before it. -/
theorem point_row (source : Text) (offset : Nat) :
    (source.point offset).row = (source.take offset).count newline := by
  rw [point, pointFrom_row]; simp

/-- A text without a line feed is its own first row. -/
theorem takeWhile_row : ∀ t : Text, newline ∉ t → t.takeWhile (· != newline) = t
  | [], _ => rfl
  | b :: t, h => by
    have hb : b ≠ newline := fun e => h (by simp [e])
    have ih := takeWhile_row t fun hm => h (List.mem_cons_of_mem b hm)
    simp [hb, ih]

/-- What follows a text with a line feed does not change its first row. -/
theorem takeWhile_row_append : ∀ t u : Text, newline ∈ t →
    (t ++ u).takeWhile (· != newline) = t.takeWhile (· != newline)
  | [], _, h => by simp at h
  | b :: t, u, h => by
    by_cases hb : b = newline
    · simp [hb]
    · have ih := takeWhile_row_append t u ((List.mem_cons.mp h).resolve_left fun e => hb e.symm)
      simp [hb, ih]

theorem pointFrom_col (p : Point) (n : Nat) (t : Text) :
    (pointFrom p n t).col =
      if newline ∈ t.take n then ((t.take n).reverse.takeWhile (· != newline)).length
      else p.col + (t.take n).length := by
  induction t generalizing p n with
  | nil => cases n <;> simp [pointFrom]
  | cons b t ih =>
    cases n with
    | zero => simp [pointFrom]
    | succ n =>
      rw [pointFrom, ih, List.take_succ_cons, List.reverse_cons]
      by_cases hin : newline ∈ t.take n
      · rw [takeWhile_row_append _ _ (List.mem_reverse.mpr hin)]
        simp [hin]
      · by_cases h : b = newline
        · have hrow := takeWhile_row _ fun hm => hin (List.mem_reverse.mp hm)
          rw [List.takeWhile_append, hrow]
          simp [hin, h, Point.next]
        · have hb : ¬ newline = b := fun e => h e.symm
          simp [hin, hb, h, Point.next]; omega

/-- The column of a byte is the number of bytes since the last line feed before it. -/
theorem point_col (source : Text) (offset : Nat) :
    (source.point offset).col = ((source.take offset).reverse.takeWhile (· != newline)).length := by
  rw [point, pointFrom_col]
  by_cases h : newline ∈ source.take offset
  · rw [if_pos h]
  · rw [if_neg h, takeWhile_row _ fun hm => h (List.mem_reverse.mp hm)]; simp

end Text

/-- A text and its rows. -/
structure Source where
  text : Text
  rows : List Text
  /-- The lengths of the rows. -/
  widths : List Nat

namespace Source

/-- A text as a source. -/
def ofText (t : Text) : Source := ⟨t, t.splitLines, t.splitLines.map List.length⟩

/-- The bytes from one offset to another. -/
def slice (s : Source) (start stop : Nat) : Text := (s.text.drop start).take (stop - start)

/-- The place at an offset behind the start of the row `row`, whose length and those of the rows below it
are given. An offset behind the last row stands for its end. -/
def pointIn : Nat → List Nat → Nat → Point
  | row, [], _ => ⟨row, 0⟩
  | row, [width], offset => ⟨row, min offset width⟩
  | row, width :: widths, offset =>
    if offset ≤ width then ⟨row, offset⟩ else pointIn (row + 1) widths (offset - width - 1)

/-- The place of the byte at `offset`. -/
def point (s : Source) (offset : Nat) : Point := pointIn 0 s.widths offset

/-- No place lies above the row that the search starts on. -/
theorem le_row_pointIn : ∀ (widths : List Nat) (row offset : Nat), row ≤ (pointIn row widths offset).row
  | [], row, _ => Nat.le_refl row
  | [_], row, _ => Nat.le_refl row
  | width :: w :: ws, row, offset => by
    simp only [pointIn]
    split
    · exact Nat.le_refl row
    · exact Nat.le_of_succ_le (le_row_pointIn (w :: ws) (row + 1) _)

/-- A longer first row shifts the places on it and no others. -/
theorem pointIn_succ (row width : Nat) (widths : List Nat) (offset : Nat) :
    pointIn row ((width + 1) :: widths) (offset + 1) =
      (pointIn row (width :: widths) offset).shift row 1 := by
  cases widths with
  | nil => simp [pointIn, Point.shift]
  | cons w ws =>
    simp only [pointIn]
    by_cases h : offset ≤ width
    · simp [h, Point.shift]
    · have hne : (pointIn (row + 1) (w :: ws) (offset - width - 1)).row ≠ row := by
        have := le_row_pointIn (w :: ws) (row + 1) (offset - width - 1); omega
      simp [h, hne, Point.shift]

/-- Both ways of finding a place agree; a start inside the first row shifts the places on it. -/
theorem pointFrom_eq_pointIn (t : Text) : ∀ row col offset : Nat,
    Text.pointFrom ⟨row, col⟩ offset t =
      (pointIn row (t.splitLines.map List.length) offset).shift row col := by
  induction t with
  | nil =>
    intro row col offset
    cases offset <;> simp [Text.pointFrom, Text.splitLines, pointIn, Point.shift]
  | cons b t ih =>
    intro row col offset
    obtain ⟨l, ls, hl⟩ := List.exists_cons_of_ne_nil (Text.splitLines_ne_nil t)
    rw [hl] at ih
    by_cases hb : b = Text.newline
    · have hsplit : Text.splitLines (b :: t) = [] :: l :: ls := by simp [Text.splitLines, hb, hl]
      rw [hsplit]
      cases offset with
      | zero => simp [Text.pointFrom, pointIn, Point.shift]
      | succ n =>
        have hrow := le_row_pointIn (l.length :: ls.map List.length) (row + 1) n
        have hne : (pointIn (row + 1) (l.length :: ls.map List.length) n).row ≠ row := by omega
        rw [Text.pointFrom, Point.next, if_pos hb, ih, Point.shift_zero]
        simp [pointIn, Point.shift, hne]
    · have hsplit : Text.splitLines (b :: t) = (b :: l) :: ls := by simp [Text.splitLines, hb, hl]
      rw [hsplit]
      cases offset with
      | zero => cases ls <;> simp [Text.pointFrom, pointIn, Point.shift]
      | succ n =>
        rw [Text.pointFrom, Point.next, if_neg hb, ih, List.map_cons, List.map_cons, List.length_cons,
          pointIn_succ, Point.shift_shift, Nat.add_comm 1 col]

/-- The place of a byte of a source is its place in the text. -/
theorem point_ofText (t : Text) (offset : Nat) : (ofText t).point offset = t.point offset := by
  rw [Text.point, pointFrom_eq_pointIn, Point.shift_zero]; rfl

end Source

end Stopwatch
