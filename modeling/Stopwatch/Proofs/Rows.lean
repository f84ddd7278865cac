import Mathlib
import Stopwatch.Syntax.Source

/-!
# Rows and places

How the rows of a part of a text come from the rows of the whole. A place splits the rows of a text in
two: the row it is on is cut at its column, and the rows above and below stay as they are.

* `splitLines_joinLines`: lines without line feeds are found again.
* `splitLines_finished`: the lines of a text whose last line is ended.
* `splitLines_take`, `splitLines_drop`: the rows in front of a place, and from it on.
* `splitLines_slice`: the rows between two places.
-/

namespace Stopwatch

namespace Text

theorem splitLines_newline (t : Text) : splitLines (newline :: t) = [] :: splitLines t := by
  simp [splitLines]

theorem splitLines_cons {b : UInt8} {t l : Text} {ls : List Text} (hb : b ≠ newline)
    (h : splitLines t = l :: ls) : splitLines (b :: t) = (b :: l) :: ls := by
  simp [splitLines, hb, h]

/-- The rows of a text hold nothing else than its bytes, and no line feed. -/
theorem mem_of_mem_splitLines {t l : Text} (h : l ∈ splitLines t) {b : UInt8} (hb : b ∈ l) :
    b ∈ t ∧ b ≠ newline := by
  induction t generalizing l with
  | nil =>
    obtain rfl := List.mem_singleton.mp h
    exact absurd hb List.not_mem_nil
  | cons c t ih =>
    obtain ⟨k, ks, hk⟩ := List.exists_cons_of_ne_nil (splitLines_ne_nil t)
    by_cases hc : c = newline
    · rw [hc, splitLines_newline] at h
      rcases List.mem_cons.mp h with rfl | h
      · exact absurd hb List.not_mem_nil
      · exact ⟨List.mem_cons_of_mem c (ih h hb).1, (ih h hb).2⟩
    · rw [splitLines_cons hc hk] at h
      rw [hk] at ih
      rcases List.mem_cons.mp h with rfl | h
      · rcases List.mem_cons.mp hb with rfl | hb
        · exact ⟨List.mem_cons_self, hc⟩
        · obtain ⟨hmem, hne⟩ := ih List.mem_cons_self hb
          exact ⟨List.mem_cons_of_mem c hmem, hne⟩
      · obtain ⟨hmem, hne⟩ := ih (List.mem_cons_of_mem k h) hb
        exact ⟨List.mem_cons_of_mem c hmem, hne⟩

theorem splitLines_of_notMem {l : Text} (h : newline ∉ l) : splitLines l = [l] := by
  induction l with
  | nil => rfl
  | cons b l ih =>
    obtain ⟨hb, hl⟩ := not_or.mp fun hmem => h (List.mem_cons.mpr hmem)
    exact splitLines_cons (Ne.symm hb) (ih hl)

theorem splitLines_append_of_notMem {p t l : Text} {ls : List Text} (hp : newline ∉ p)
    (ht : splitLines t = l :: ls) : splitLines (p ++ t) = (p ++ l) :: ls := by
  induction p with
  | nil => exact ht
  | cons b p ih =>
    obtain ⟨hb, hp⟩ := not_or.mp fun hmem => hp (List.mem_cons.mpr hmem)
    exact splitLines_cons (Ne.symm hb) (ih hp)

theorem splitLines_append_newline {l : Text} (h : newline ∉ l) (t : Text) :
    splitLines (l ++ newline :: t) = l :: splitLines t := by
  rw [splitLines_append_of_notMem h (splitLines_newline t), List.append_nil]

/-- The last row of a text that does not end with a line feed ends like the text. -/
theorem exists_splitLines_concat {b : UInt8} (hb : b ≠ newline) (t : Text) :
    ∃ rows last, splitLines (t ++ [b]) = rows ++ [last ++ [b]] := by
  induction t with
  | nil => exact ⟨[], [], splitLines_cons hb rfl⟩
  | cons c t ih =>
    obtain ⟨rows, last, h⟩ := ih
    by_cases hc : c = newline
    · exact ⟨[] :: rows, last, by rw [hc, List.cons_append, splitLines_newline, h]; rfl⟩
    · cases rows with
      | nil => exact ⟨[], c :: last, by rw [List.cons_append, splitLines_cons hc h]; rfl⟩
      | cons r rows => exact ⟨(c :: r) :: rows, last, by rw [List.cons_append, splitLines_cons hc h]; rfl⟩

/-- Lines that hold no line feed are found again after joining. -/
theorem splitLines_joinLines {ls : List Text} (hne : ls ≠ []) (h : ∀ l ∈ ls, newline ∉ l) :
    splitLines (joinLines ls) = ls := by
  induction ls with
  | nil => exact absurd rfl hne
  | cons l ls ih =>
    have hl : newline ∉ l := h l List.mem_cons_self
    cases ls with
    | nil => exact splitLines_of_notMem hl
    | cons m ms =>
      have hrest : splitLines (joinLines (m :: ms)) = m :: ms :=
        ih (by simp) fun k hk => h k (List.mem_cons_of_mem l hk)
      rw [joinLines, splitLines_append_newline hl, hrest]
      exact List.cons_ne_nil m ms

/-- Lines that hold no line feed are not split. -/
theorem flatMap_splitLines {ls : List Text} (h : ∀ l ∈ ls, newline ∉ l) : ls.flatMap splitLines = ls := by
  induction ls with
  | nil => rfl
  | cons l ls ih =>
    rw [List.flatMap_cons, splitLines_of_notMem (h l List.mem_cons_self),
      ih fun k hk => h k (List.mem_cons_of_mem l hk)]
    rfl

theorem newline_notMem_flatMap_splitLines {ls : List Text} :
    ∀ l ∈ ls.flatMap splitLines, newline ∉ l := by
  intro l hl hnewline
  obtain ⟨line, -, hmem⟩ := List.mem_flatMap.mp hl
  exact (mem_of_mem_splitLines hmem hnewline).2 rfl

/-- Copies of a text hold only its bytes. -/
theorem mem_of_mem_repeated {t : Text} {n : Int} {b : UInt8} (h : b ∈ t.repeated n) : b ∈ t := by
  obtain ⟨u, hu, hb⟩ := List.mem_flatten.mp h
  rwa [List.eq_of_mem_replicate hu] at hb

theorem joinLines_cons {ls : List Text} (hne : ls ≠ []) (l : Text) :
    joinLines (l :: ls) = l ++ newline :: joinLines ls := by
  obtain ⟨m, ms, rfl⟩ := List.exists_cons_of_ne_nil hne
  rfl

theorem joinLines_append {ks ls : List Text} (hk : ks ≠ []) (hl : ls ≠ []) :
    joinLines (ks ++ ls) = joinLines ks ++ newline :: joinLines ls := by
  induction ks with
  | nil => exact absurd rfl hk
  | cons k ks ih =>
    cases ks with
    | nil => exact joinLines_cons hl k
    | cons m ms =>
      calc joinLines (k :: ((m :: ms) ++ ls))
          = k ++ newline :: joinLines ((m :: ms) ++ ls) := rfl
        _ = k ++ newline :: (joinLines (m :: ms) ++ newline :: joinLines ls) := by
          rw [ih (by simp)]
        _ = joinLines (k :: m :: ms) ++ newline :: joinLines ls := by simp [joinLines]

/-- Lines next to each other stand next to each other in the text. -/
theorem joinLines_isInfix {ks ls : List Text} (h : ks <:+: ls) : joinLines ks <:+: joinLines ls := by
  obtain ⟨before, after, rfl⟩ := h
  cases hk : ks with
  | nil => exact List.nil_infix
  | cons k ks' =>
    have hne : k :: ks' ≠ [] := by simp
    have hfront : joinLines (k :: ks') <:+: joinLines (before ++ k :: ks') := by
      cases before with
      | nil => exact List.infix_rfl
      | cons b bs =>
        rw [joinLines_append (by simp) hne]
        exact ⟨joinLines (b :: bs) ++ [newline], [], by simp⟩
    refine hfront.trans ?_
    cases after with
    | nil => rw [List.append_nil]
    | cons a as =>
      have hne' : before ++ k :: ks' ≠ [] := by simp
      rw [joinLines_append hne' (by simp)]
      exact ⟨[], newline :: joinLines (a :: as), by simp⟩

theorem joinLines_cons_append (p l : Text) (ls : List Text) :
    joinLines ((p ++ l) :: ls) = p ++ joinLines (l :: ls) := by
  cases ls with
  | nil => rfl
  | cons m ms => simp [joinLines]

theorem joinLines_concat_append (ls : List Text) (l q : Text) :
    joinLines (ls ++ [l ++ q]) = joinLines (ls ++ [l]) ++ q := by
  cases ls with
  | nil => rfl
  | cons m ms =>
    rw [joinLines_append (by simp) (by simp), joinLines_append (by simp) (by simp)]
    simp [joinLines]

/-! ## Empty lines at the end -/

/-- Lines that hold line feeds may as well be split first. -/
theorem joinLines_flatMap_splitLines (ls : List Text) :
    joinLines (ls.flatMap splitLines) = joinLines ls := by
  induction ls with
  | nil => rfl
  | cons l ls ih =>
    cases ls with
    | nil => simp [joinLines, joinLines_splitLines]
    | cons m ms =>
      have hne : (m :: ms).flatMap splitLines ≠ [] := by
        rw [List.flatMap_cons]
        exact List.append_ne_nil_of_left_ne_nil (splitLines_ne_nil m) _
      rw [List.flatMap_cons, joinLines_append (splitLines_ne_nil l) hne, ih, joinLines_splitLines]
      rfl

theorem joinLines_append_replicate {ls : List Text} (hne : ls ≠ []) (n : Nat) :
    joinLines (ls ++ List.replicate n []) = joinLines ls ++ List.replicate n newline := by
  induction n with
  | zero => simp
  | succ n ih =>
    have hlines : ls ++ List.replicate n [] ≠ [] := by simp [hne]
    rw [List.replicate_succ', ← List.append_assoc, joinLines_append hlines (by simp), ih,
      List.replicate_succ', List.append_assoc]
    rfl

theorem dropFinalNewlines_append_replicate {t : Text} (h : t.getLast? ≠ some newline) (n : Nat) :
    dropFinalNewlines (t ++ List.replicate n newline) = t := by
  have hself : t.reverse.dropWhile (· == newline) = t.reverse := by
    cases ht : t.reverse with
    | nil => rfl
    | cons b u =>
      rw [List.getLast?_eq_head?_reverse, ht] at h
      exact List.dropWhile_cons_of_neg (by simpa using h)
  rw [dropFinalNewlines, List.reverse_append, List.reverse_replicate,
    List.dropWhile_append_of_pos fun b hb => by simp [List.eq_of_mem_replicate hb], hself,
    List.reverse_reverse]

/-- The text of a file with the given lines: empty lines at its end are left out, and it ends with one
line feed. -/
def finished (lines : List Text) : Text := dropFinalNewlines (joinLines lines) ++ [newline]

/-- There are `n` empty lines at the end, apart from a first one. -/
def EndsEmpty (n : Nat) (lines : List Text) : Prop :=
  ∃ init last, (last ≠ [] ∨ init = []) ∧ lines = init ++ [last] ++ List.replicate n []

theorem EndsEmpty.succ {n : Nat} {lines : List Text} (h : EndsEmpty n lines) :
    EndsEmpty (n + 1) (lines ++ [[]]) := by
  obtain ⟨init, last, hlast, rfl⟩ := h
  exact ⟨init, last, hlast, by rw [List.replicate_succ', List.append_assoc]⟩

theorem exists_endsEmpty {lines : List Text} (hne : lines ≠ []) : ∃ n, EndsEmpty n lines := by
  induction lines using List.reverseRecOn with
  | nil => exact absurd rfl hne
  | append_singleton init last ih =>
    by_cases hlast : last ≠ [] ∨ init = []
    · exact ⟨0, init, last, hlast, by simp⟩
    · obtain ⟨hempty, hinit⟩ := not_or.mp hlast
      obtain ⟨n, hn⟩ := ih hinit
      rw [not_not.mp hempty]
      exact ⟨n + 1, hn.succ⟩

/-- How many empty lines there are does not depend on what stands before a line that is not empty. -/
theorem exists_endsEmpty_append (after : List Text) :
    ∃ n, ∀ (before : List Text) {line : Text}, line ≠ [] → EndsEmpty n (before ++ line :: after) := by
  induction after using List.reverseRecOn with
  | nil => exact ⟨0, fun before line hline => ⟨before, line, Or.inl hline, by simp⟩⟩
  | append_singleton after last ih =>
    by_cases hlast : last = []
    · obtain ⟨n, hn⟩ := ih
      refine ⟨n + 1, fun before line hline => ?_⟩
      rw [hlast, ← List.cons_append, ← List.append_assoc]
      exact (hn before hline).succ
    · exact ⟨0, fun before line _ => ⟨before ++ line :: after, last, Or.inl hlast, by simp⟩⟩

/-- **The lines of a finished text** are those given, less the empty ones at the end; behind the line feed
that ends it there is one more, which is empty. -/
theorem splitLines_finished {n : Nat} {lines : List Text} (h : EndsEmpty n lines)
    (hclean : ∀ l ∈ lines, newline ∉ l) :
    splitLines (finished lines) ++ List.replicate n [] = lines ++ [[]] := by
  obtain ⟨init, last, hlast, rfl⟩ := h
  have hne : init ++ [last] ≠ [] := by simp
  have hend : (joinLines (init ++ [last])).getLast? ≠ some newline := by
    intro hnewline
    refine hclean last (by simp) ?_
    rcases hlast with hlast | rfl
    · have hjoin := joinLines_concat_append init [] last
      rw [List.nil_append] at hjoin
      rw [hjoin, List.getLast?_append_of_ne_nil _ hlast] at hnewline
      exact List.mem_of_getLast? hnewline
    · exact List.mem_of_getLast? hnewline
  have hdrop : dropFinalNewlines (joinLines (init ++ [last] ++ List.replicate n [])) =
      joinLines (init ++ [last]) := by
    rw [joinLines_append_replicate hne, dropFinalNewlines_append_replicate hend]
  have hjoin : joinLines (init ++ [last]) ++ [newline] = joinLines (init ++ [last] ++ [[]]) := by
    rw [joinLines_append hne (by simp)]
    rfl
  have hsplit : splitLines (joinLines (init ++ [last] ++ [[]])) = init ++ [last] ++ [[]] := by
    refine splitLines_joinLines (by simp) fun l hl => ?_
    rcases List.mem_append.mp hl with hl | hl
    · exact hclean l (List.mem_append_left _ hl)
    · rw [List.mem_singleton.mp hl]
      exact List.not_mem_nil
  have hswap : [[]] ++ List.replicate n ([] : Text) = List.replicate n [] ++ [[]] := by
    rw [← List.replicate_succ', List.replicate_succ]
    rfl
  rw [finished, hdrop, hjoin, hsplit, List.append_assoc, List.append_assoc _ (List.replicate n _), hswap]

/-! ## Places -/

theorem pointFrom_succ_row (r c n : Nat) (t : Text) :
    pointFrom ⟨r + 1, c⟩ n t = ⟨(pointFrom ⟨r, c⟩ n t).row + 1, (pointFrom ⟨r, c⟩ n t).col⟩ := by
  induction t generalizing r c n with
  | nil => cases n <;> rfl
  | cons b t ih =>
    cases n with
    | zero => rfl
    | succ n =>
      by_cases hb : b = newline
      · simp only [pointFrom, Point.next, if_pos hb]
        exact ih (r + 1) 0 n
      · simp only [pointFrom, Point.next, if_neg hb]
        exact ih r (c + 1) n

theorem point_newline (n : Nat) (t : Text) :
    point (newline :: t) (n + 1) = ⟨(point t n).row + 1, (point t n).col⟩ :=
  pointFrom_succ_row 0 0 n t

theorem point_cons {b : UInt8} (hb : b ≠ newline) (n : Nat) (t : Text) :
    point (b :: t) (n + 1) = (point t n).shift 0 1 := by
  have hpoint : point (b :: t) (n + 1) = pointFrom ⟨0, 1⟩ n t := by
    simp only [point, pointFrom, Point.next, if_neg hb]
  rw [hpoint, Source.pointFrom_eq_pointIn, point, Source.pointFrom_eq_pointIn, Point.shift_zero]

/-- A place in front of a cut is the same without what is cut off. -/
theorem point_take {a b : Nat} (h : a ≤ b) (t : Text) : point (t.take b) a = point t a := by
  unfold point
  generalize (⟨0, 0⟩ : Point) = p
  induction t generalizing a b p with
  | nil => rw [List.take_nil]
  | cons c t ih =>
    cases a with
    | zero => simp [pointFrom]
    | succ a =>
      cases b with
      | zero => exact absurd h (by omega)
      | succ b =>
        rw [List.take_succ_cons, pointFrom, pointFrom]
        exact ih (by omega) _

theorem row_mono {a b : Nat} (h : a ≤ b) (t : Text) : (point t a).row ≤ (point t b).row := by
  rw [point_row, point_row]
  exact (List.take_sublist_take_left h).count_le newline

/-- On one row, columns grow with the bytes. -/
theorem col_mono {a b : Nat} (h : a ≤ b) {t : Text} (hrow : (point t a).row = (point t b).row) :
    (point t a).col ≤ (point t b).col := by
  induction t generalizing a b with
  | nil => cases a <;> cases b <;> simp [point, pointFrom]
  | cons c t ih =>
    cases a with
    | zero => simp [point, pointFrom]
    | succ a =>
      cases b with
      | zero => exact absurd h (by omega)
      | succ b =>
        by_cases hc : c = newline
        · rw [hc, point_newline, point_newline] at hrow ⊢
          exact ih (by omega) (by simpa using hrow)
        · rw [point_cons hc, point_cons hc] at hrow ⊢
          have heq : (point t a).row = (point t b).row := by
            unfold Point.shift at hrow
            split at hrow <;> split at hrow <;> simp_all
          have hle := ih (by omega) heq
          unfold Point.shift
          rw [heq]
          split <;> simpa using hle

/-- The row of a place is one of the rows. -/
theorem row_lt_length (t : Text) (n : Nat) : (point t n).row < (splitLines t).length := by
  induction t generalizing n with
  | nil => cases n <;> simp [point, pointFrom, splitLines]
  | cons b t ih =>
    obtain ⟨l, ls, hl⟩ := List.exists_cons_of_ne_nil (splitLines_ne_nil t)
    cases n with
    | zero => exact List.length_pos_of_ne_nil (splitLines_ne_nil _)
    | succ n =>
      have hlt := ih n
      by_cases hb : b = newline
      · rw [hb, point_newline, splitLines_newline]
        simpa using hlt
      · rw [point_cons hb, splitLines_cons hb hl, Point.shift]
        rw [hl] at hlt
        split
        · simp
        · exact hlt

/-! ## The rows of a part -/

/-- The rows in front of a place. -/
theorem splitLines_take (t : Text) (n : Nat) :
    splitLines (t.take n) = (splitLines t).take (point t n).row ++
      [((splitLines t).getD (point t n).row []).take (point t n).col] := by
  induction t generalizing n with
  | nil => cases n <;> rfl
  | cons b t ih =>
    obtain ⟨l, ls, hl⟩ := List.exists_cons_of_ne_nil (splitLines_ne_nil t)
    cases n with
    | zero => simp [point, pointFrom, splitLines]
    | succ n =>
      have ih := ih n
      rw [List.take_succ_cons]
      by_cases hb : b = newline
      · rw [hb, splitLines_newline, splitLines_newline, point_newline, ih]
        simp
      · rw [point_cons hb, splitLines_cons hb hl, Point.shift]
        rw [hl] at ih
        cases hrow : (point t n).row with
        | zero =>
          rw [hrow] at ih
          rw [splitLines_cons hb ih]
          simp
        | succ r =>
          rw [hrow, List.take_succ_cons, List.cons_append] at ih
          rw [splitLines_cons hb ih]
          simp [hrow]

/-- The rows from a place on. -/
theorem splitLines_drop (t : Text) (n : Nat) :
    splitLines (t.drop n) = ((splitLines t).getD (point t n).row []).drop (point t n).col ::
      (splitLines t).drop ((point t n).row + 1) := by
  induction t generalizing n with
  | nil => cases n <;> rfl
  | cons b t ih =>
    obtain ⟨l, ls, hl⟩ := List.exists_cons_of_ne_nil (splitLines_ne_nil t)
    cases n with
    | zero =>
      obtain ⟨k, ks, hk⟩ := List.exists_cons_of_ne_nil (splitLines_ne_nil (b :: t))
      simp [point, pointFrom, hk]
    | succ n =>
      have ih := ih n
      rw [List.drop_succ_cons, ih]
      by_cases hb : b = newline
      · rw [hb, splitLines_newline, point_newline]
        simp
      · rw [point_cons hb, splitLines_cons hb hl, hl, Point.shift]
        cases hrow : (point t n).row with
        | zero => simp
        | succ r => simp [hrow]

end Text

/-- The row `i` of a text, cut at the places `first` and `last` if these are on it. -/
def rowCut (rows : List Text) (first last : Point) (i : Nat) : Text :=
  let raw := rows.getD i []
  let raw := if i = last.row then raw.take last.col else raw
  if i = first.row then raw.drop first.col else raw

namespace Text

theorem splitLines_take_eq_map (t : Text) (n : Nat) :
    splitLines (t.take n) = (List.range ((point t n).row + 1)).map fun i =>
      if i = (point t n).row then ((splitLines t).getD i []).take (point t n).col
      else (splitLines t).getD i [] := by
  have hlt := row_lt_length t n
  rw [splitLines_take]
  refine List.ext_getElem? fun i => ?_
  rcases Nat.lt_trichotomy i (point t n).row with hi | rfl | hi
  · have hne : i ≠ (point t n).row := by omega
    have hlen : i < (List.take (point t n).row (splitLines t)).length := by
      rw [List.length_take]
      omega
    rw [List.getElem?_append_left hlen, List.getElem?_take_of_lt hi, List.getElem?_map,
      List.getElem?_range (by omega), Option.map_some, if_neg hne, List.getD_eq_getElem?_getD,
      List.getElem?_eq_getElem (by omega), Option.getD_some]
  · rw [List.getElem?_append_right (by rw [List.length_take]; omega), List.length_take,
      Nat.min_eq_left hlt.le, Nat.sub_self, List.getElem?_map, List.getElem?_range (by omega)]
    simp
  · rw [List.getElem?_eq_none (by simp; omega), List.getElem?_eq_none (by simp; omega)]

/-- **The rows between two places** are the rows of the text, cut at both. -/
theorem splitLines_slice {a b : Nat} (h : a ≤ b) (t : Text) :
    splitLines ((t.take b).drop a) =
      (List.range' (point t a).row ((point t b).row + 1 - (point t a).row)).map
        (rowCut (splitLines t) (point t a) (point t b)) := by
  have hrow := row_mono h t
  rw [splitLines_drop, point_take h, splitLines_take_eq_map]
  have hcount : (point t b).row + 1 - (point t a).row =
      (point t b).row - (point t a).row + 1 := by omega
  rw [hcount, List.range'_succ, List.map_cons]
  refine List.cons_eq_cons.mpr ⟨?_, ?_⟩
  · rw [List.getD_eq_getElem?_getD, List.getElem?_map, List.getElem?_range (by omega)]
    simp [rowCut]
  · rw [← List.map_drop, List.range_eq_range', List.drop_range']
    have hcount' : (point t b).row + 1 - ((point t a).row + 1) =
        (point t b).row - (point t a).row := by omega
    rw [hcount', Nat.zero_add, Nat.mul_one]
    refine List.map_congr_left fun i hi => ?_
    have hlt : (point t a).row < i := (List.mem_range'_1.mp hi).1
    simp [rowCut, hlt.ne']

/-- There is no line feed between two places on one row. -/
theorem newline_notMem_slice {a b : Nat} {t : Text} (h : (point t a).row = (point t b).row) :
    newline ∉ (t.take b).drop a := by
  rcases Nat.le_total a b with hab | hba
  · have hcount : (point t b).row + 1 - (point t a).row = 1 := by omega
    have hrows := splitLines_slice hab t
    rw [hcount, List.range'_one, List.map_singleton] at hrows
    have htext := joinLines_splitLines ((t.take b).drop a)
    rw [hrows] at htext
    intro hmem
    rw [← htext] at hmem
    exact (mem_of_mem_splitLines (by rw [hrows]; exact List.mem_singleton_self _) hmem).2 rfl
  · rw [List.drop_eq_nil_of_le ((List.length_take_le b t).trans hba)]
    exact List.not_mem_nil

end Text

end Stopwatch
