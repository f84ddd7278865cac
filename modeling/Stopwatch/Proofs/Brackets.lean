import Mathlib
import Stopwatch.Syntax.Layout

/-!
# Matching brackets

A closing bracket is matched with the innermost opening bracket before it that is still open; with
nothing open it is matched with nothing (`Layout.matching`). Nothing here keeps a stack. That the brackets
still open behave like one is what the first part proves; the second part follows the levels of the layout
through a row, where `w` says what each open bracket counts.

* `openBefore`: the brackets open before a token, innermost first.
* `openBefore_of_opener`, `openBefore_of_closer`, `openBefore_of_other`: what a token does to them.
* `openAfter_openBefore`, `closeLeading_openBefore`, `advance_openBefore`: the same for the tokens of a row.
-/

namespace Stopwatch.Layout

/-- The opening brackets among the first `n` tokens that none of the pairs closes, the last one first. -/
def unmatched (ks : List String) (pairs : List (Nat × Nat)) (n : Nat) : List Nat :=
  (List.range n).reverse.filter fun i => isOpener (ks.getD i "") && !pairs.any fun p => p.1 == i

/-- The pairs of an opening bracket and its closing one among the first `n` tokens. -/
def matching (ks : List String) : Nat → List (Nat × Nat)
  | 0 => []
  | n + 1 =>
    if isCloser (ks.getD n "") then
      match (unmatched ks (matching ks n) n).head? with
      | some i => (i, n) :: matching ks n
      | none => matching ks n
    else matching ks n

/-- Whether one of the first `n` tokens closes the bracket `i`. -/
def isClosed (ks : List String) (n i : Nat) : Bool := (matching ks n).any fun p => p.1 == i

/-- The brackets that are open before the token `n`, innermost first. -/
def openBefore (ks : List String) (n : Nat) : List Nat := unmatched ks (matching ks n) n

/-! ## One token -/

section Token

variable {ks : List String} {n i : Nat}

theorem isOpener_of_isCloser {kind : String} (h : isCloser kind = true) : isOpener kind = false := by
  simp only [isCloser, Bool.or_eq_true, beq_iff_eq] at h
  rcases h with (rfl | rfl) | rfl <;> rfl

theorem mem_openBefore :
    i ∈ openBefore ks n ↔ i < n ∧ isOpener (ks.getD i "") = true ∧ isClosed ks n i = false := by
  rw [openBefore, unmatched, List.mem_filter, List.mem_reverse, List.mem_range, Bool.and_eq_true,
    Bool.not_eq_true', isClosed]

theorem pairwise_openBefore (ks : List String) (n : Nat) : (openBefore ks n).Pairwise (· > ·) :=
  (List.pairwise_reverse.mpr List.pairwise_lt_range).filter _

theorem nodup_openBefore (ks : List String) (n : Nat) : (openBefore ks n).Nodup :=
  (pairwise_openBefore ks n).imp fun h => Nat.ne_of_gt h

theorem lt_of_mem_matching {p : Nat × Nat} (h : p ∈ matching ks n) : p.1 < n := by
  induction n with
  | zero => cases h
  | succ n ih =>
    rw [matching] at h
    split at h
    · split at h
      case h_1 i hi =>
        rcases List.mem_cons.mp h with rfl | h
        · exact Nat.lt_succ_of_lt (mem_openBefore.mp (List.mem_of_mem_head? hi)).1
        · exact Nat.lt_succ_of_lt (ih h)
      case h_2 => exact Nat.lt_succ_of_lt (ih h)
    · exact Nat.lt_succ_of_lt (ih h)

/-- No token closes a bracket that is not there yet. -/
theorem isClosed_self (ks : List String) (n : Nat) : isClosed ks n n = false := by
  rw [isClosed, List.any_eq_false]
  intro p hp
  simpa using (lt_of_mem_matching hp).ne

theorem unmatched_succ (ks : List String) (pairs : List (Nat × Nat)) (n : Nat) :
    unmatched ks pairs (n + 1) =
      if isOpener (ks.getD n "") && !pairs.any (fun p => p.1 == n) then n :: unmatched ks pairs n
      else unmatched ks pairs n := by
  rw [unmatched, List.range_succ, List.reverse_append, List.reverse_singleton, List.singleton_append,
    List.filter_cons]
  rfl

/-- An opening bracket is the innermost one behind it. -/
theorem openBefore_of_opener (h : isOpener (ks.getD n "") = true) :
    openBefore ks (n + 1) = n :: openBefore ks n := by
  have hcloser : ¬ isCloser (ks.getD n "") = true := by
    intro hc
    rw [isOpener_of_isCloser hc] at h
    cases h
  have hself := isClosed_self ks n
  rw [isClosed] at hself
  rw [openBefore, matching, if_neg hcloser, unmatched_succ, h, hself]
  rfl

/-- A closing bracket takes the innermost open bracket away, if there is one. -/
theorem openBefore_of_closer (h : isCloser (ks.getD n "") = true) :
    openBefore ks (n + 1) = (openBefore ks n).tail := by
  rw [openBefore, unmatched_succ, isOpener_of_isCloser h, Bool.false_and, if_neg Bool.false_ne_true,
    matching, if_pos h]
  have hnodup := nodup_openBefore ks n
  rw [openBefore] at hnodup ⊢
  split
  case h_1 i hi =>
    obtain ⟨rest, hrest⟩ := List.head?_eq_some_iff.mp hi
    have hmem : i ∉ rest := (List.nodup_cons.mp (hrest ▸ hnodup)).1
    -- only the bracket `i` is closed now that was not closed before
    have hunmatched : unmatched ks ((i, n) :: matching ks n) n =
        (unmatched ks (matching ks n) n).filter fun j => i != j := by
      rw [unmatched, unmatched, List.filter_filter]
      refine List.filter_congr fun j _ => ?_
      rw [List.any_cons, Bool.not_or, Bool.and_left_comm]
      rfl
    rw [hunmatched, hrest, List.filter_cons_of_neg (by simp), List.tail_cons, List.filter_eq_self]
    intro j hj
    simpa using fun hij : i = j => hmem (hij ▸ hj)
  case h_2 hnone =>
    rw [List.head?_eq_none_iff.mp hnone]
    rfl

/-- Any other token leaves the open brackets as they are. -/
theorem openBefore_of_other (hopener : isOpener (ks.getD n "") = false)
    (hcloser : isCloser (ks.getD n "") = false) : openBefore ks (n + 1) = openBefore ks n := by
  rw [openBefore, unmatched_succ, hopener, matching, hcloser]
  rfl

end Token

/-! ## The tokens of a row -/

section Row

variable (pre row post : List PlacedLeaf) {w : Nat → Nat} {start : Nat}

/-- The kinds of some tokens. -/
def kinds (ls : List PlacedLeaf) : List String := ls.map PlacedLeaf.kind

theorem getD_kinds (l : PlacedLeaf) :
    (kinds (pre ++ [l] ++ row ++ post)).getD pre.length "" = l.kind := by
  simp [kinds]

/-- The brackets open before a row, in numbers: those that are not its own. -/
def olds (start : Nat) (is : List Nat) : Nat := is.countP (· < start)

theorem olds_eq_length {is : List Nat} (h : ∀ i ∈ is, i < start) : olds start is = is.length :=
  List.countP_eq_length.mpr fun i hi => decide_eq_true (h i hi)

theorem olds_cons_of_le {i : Nat} (h : start ≤ i) (is : List Nat) : olds start (i :: is) = olds start is :=
  List.countP_cons_of_neg (by simpa using h)

/-- An old bracket is closed only when none of the row is open. -/
theorem min_olds_cons {i : Nat} {is : List Nat} (h : (i :: is).Pairwise (· > ·)) :
    min (olds start (i :: is)) is.length = olds start is := by
  rcases Nat.lt_or_ge i start with hi | hi
  · have his : ∀ j ∈ is, j < start := fun j hj => ((List.pairwise_cons.mp h).1 j hj).trans hi
    have hall : ∀ j ∈ i :: is, j < start := List.forall_mem_cons.mpr ⟨hi, his⟩
    rw [olds_eq_length hall, olds_eq_length his, List.length_cons]
    exact Nat.min_eq_right (Nat.le_succ _)
  · rw [olds_cons_of_le hi]
    exact Nat.min_eq_left List.countP_le_length

/-- **What the tokens of a row do to the levels.** As long as the brackets of the row count nothing, the
levels are what the open brackets count, and the fewest that were open on the way are those that were open
before the row and still are. -/
theorem openAfter_openBefore (hw : ∀ i, start ≤ i → w i = 0) (hstart : start ≤ pre.length) :
    openAfter ((openBefore (kinds (pre ++ row ++ post)) pre.length).map w)
        (olds start (openBefore (kinds (pre ++ row ++ post)) pre.length)) row =
      ((openBefore (kinds (pre ++ row ++ post)) (pre ++ row).length).map w,
        olds start (openBefore (kinds (pre ++ row ++ post)) (pre ++ row).length)) := by
  induction row generalizing pre with
  | nil => simp [openAfter]
  | cons l row ih =>
    have hkind := getD_kinds pre row post l
    have hlength : (pre ++ [l]).length = pre.length + 1 := by simp
    have hrest := ih (pre ++ [l]) (by omega)
    rw [List.append_cons]
    generalize kinds (pre ++ [l] ++ row ++ post) = ks at hkind hrest ⊢
    rw [hlength] at hrest
    rw [openAfter.eq_def]
    dsimp only
    split
    case isTrue hopener =>
      have hopen := openBefore_of_opener (hkind ▸ hopener)
      rw [hopen, List.map_cons, hw _ hstart, olds_cons_of_le hstart] at hrest
      exact hrest
    case isFalse hopener =>
      split
      case isTrue hcloser =>
        have hopen := openBefore_of_closer (hkind ▸ hcloser)
        have hpairwise := pairwise_openBefore ks pre.length
        cases hbefore : openBefore ks pre.length with
        | nil =>
          rw [hopen, hbefore] at hrest
          exact hrest
        | cons i rest =>
          rw [hbefore] at hopen hpairwise
          rw [hopen, List.tail_cons] at hrest
          have holds : min (olds start (i :: rest)) (rest.map w).length = olds start rest := by
            rw [List.length_map, min_olds_cons hpairwise]
          rw [List.map_cons]
          exact (congrArg (openAfter (rest.map w) · row) holds).trans hrest
      case isFalse hcloser =>
        have hopen := openBefore_of_other (hkind ▸ Bool.eq_false_iff.mpr hopener)
          (hkind ▸ Bool.eq_false_iff.mpr hcloser)
        rw [hopen] at hrest
        exact hrest

/-- The closing brackets that lead a row. -/
def leadingClosers (row : List PlacedLeaf) : List PlacedLeaf := row.takeWhile fun l => isCloser l.kind

/-- The tokens of a row behind the closing brackets that lead it. -/
def behindClosers (row : List PlacedLeaf) : List PlacedLeaf := row.dropWhile fun l => isCloser l.kind

/-- The closing brackets that lead a row take away the levels of the brackets that they close. -/
theorem closeLeading_openBefore (w : Nat → Nat) :
    closeLeading ((openBefore (kinds (pre ++ row ++ post)) pre.length).map w) row =
      ((openBefore (kinds (pre ++ row ++ post)) (pre ++ leadingClosers row).length).map w,
        behindClosers row) := by
  induction row generalizing pre with
  | nil => simp [closeLeading, leadingClosers, behindClosers]
  | cons l row ih =>
    have hkind := getD_kinds pre row post l
    have hlength : (pre ++ [l]).length = pre.length + 1 := by simp
    have hrest := ih (pre ++ [l])
    rw [closeLeading, List.append_cons, leadingClosers, behindClosers, List.takeWhile_cons, List.dropWhile_cons]
    split
    case isTrue hcloser =>
      have hopen := openBefore_of_closer (hkind ▸ hcloser)
      rw [hlength, hopen, List.map_tail, List.append_assoc pre [l] (leadingClosers row)] at hrest
      exact hrest
    case isFalse hcloser => rw [List.append_nil]

/-- The closing brackets that lead a row open nothing: what is open behind them was open before the row. -/
theorem openBefore_leadingClosers :
    openBefore (kinds (pre ++ row ++ post)) (pre ++ leadingClosers row).length <:+
      openBefore (kinds (pre ++ row ++ post)) pre.length := by
  induction row generalizing pre with
  | nil => simp [leadingClosers]
  | cons l row ih =>
    have hkind := getD_kinds pre row post l
    have hlength : (pre ++ [l]).length = pre.length + 1 := by simp
    have hrest := ih (pre ++ [l])
    rw [List.append_cons, leadingClosers, List.takeWhile_cons]
    split
    case isTrue hcloser =>
      have hopen := openBefore_of_closer (hkind ▸ hcloser)
      rw [hlength, hopen, List.append_assoc pre [l] (leadingClosers row)] at hrest
      exact hrest.trans (List.tail_suffix _)
    case isFalse hcloser => simp

/-- **What a row leaves open counts as one level.** The brackets from `start` on are those of the row. Behind
the row, the innermost bracket counts one if it is one of these, and the others of these count nothing. -/
theorem advance_openBefore
    (hold : ∀ i ∈ openBefore (kinds (pre ++ row ++ post)) pre.length, i < start)
    (hstart : start ≤ pre.length)
    (hown : ∀ i ∈ openBefore (kinds (pre ++ row ++ post)) (pre ++ row).length, start ≤ i →
      w i = if (openBefore (kinds (pre ++ row ++ post)) (pre ++ row).length).head? = some i then 1 else 0) :
    advance ((openBefore (kinds (pre ++ row ++ post)) pre.length).map w) row =
      (openBefore (kinds (pre ++ row ++ post)) (pre ++ row).length).map w := by
  -- while the row is read, its own brackets count nothing
  let v := fun i => if i < start then w i else 0
  have hv : ∀ i, start ≤ i → v i = 0 := fun i hi => if_neg (Nat.not_lt.mpr hi)
  have hmap : (openBefore (kinds (pre ++ row ++ post)) pre.length).map w =
      (openBefore (kinds (pre ++ row ++ post)) pre.length).map v :=
    List.map_congr_left fun i hi => (if_pos (hold i hi)).symm
  have hafter := openAfter_openBefore pre row post hv hstart
  have hpairwise := pairwise_openBefore (kinds (pre ++ row ++ post)) (pre ++ row).length
  rw [olds_eq_length hold] at hafter
  rw [advance, hmap, List.length_map, hafter]
  generalize openBefore (kinds (pre ++ row ++ post)) (pre ++ row).length = after at hown hpairwise ⊢
  cases after with
  | nil => rfl
  | cons top rest =>
    have htop := (List.pairwise_cons.mp hpairwise).1
    have hrest : ∀ i ∈ rest, v i = w i := by
      intro i hi
      by_cases his : i < start
      · exact if_pos his
      · have hne : ¬ top = i := Nat.ne_of_gt (htop i hi)
        rw [hv i (Nat.not_lt.mp his), hown i (List.mem_cons_of_mem _ hi) (Nat.not_lt.mp his),
          List.head?_cons, if_neg (by simpa using hne)]
    have hlength : (rest.map v).length + 1 = (top :: rest).length := by simp
    simp only [List.map_cons, hlength]
    by_cases hts : top < start
    · have hall : ∀ i ∈ top :: rest, i < start :=
        List.forall_mem_cons.mpr ⟨hts, fun i hi => (htop i hi).trans hts⟩
      rw [olds_eq_length hall, if_neg (Nat.lt_irrefl _), List.map_congr_left hrest]
      exact congrArg (· :: rest.map w) (if_pos hts)
    · have hfewer : olds start (top :: rest) < (top :: rest).length := by
        rw [olds_cons_of_le (Nat.not_lt.mp hts)]
        exact Nat.lt_succ_of_le List.countP_le_length
      have hone := hown top (List.mem_cons_self ..) (Nat.not_lt.mp hts)
      rw [List.head?_cons, if_pos rfl] at hone
      rw [if_pos hfewer, List.map_congr_left hrest, hone]

end Row

end Stopwatch.Layout
