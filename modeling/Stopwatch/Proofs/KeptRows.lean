import Mathlib
import Stopwatch.Proofs.WholeTokens

/-!
# The rows that are kept

The layout of a fragment does not look at columns: a row enters it as what is left of it without white
space and as the kinds of the tokens that start on it, a `BareRow` (`Layout.step_eq`). Of several empty rows
next to each other only the first one is kept. Leaving out the others beforehand changes nothing, and then
every row gives one line (`layRows_keptRows`).

* `keptRows`: the rows that are kept, and `rank` the number of the line that such a row becomes.
* `Leaf.bareRow`, `Layout.ofPlaced_eq_layRows`: the rows of some tokens, and the fragment made from them.
-/

namespace Stopwatch

open Text

/-- A row without the white space that is not kept, and the tokens that start on it: of each its kind and
the kind of the node above it. -/
structure BareRow where
  row : Row
  tokens : List (String × String)

/-- A token without its place. -/
def PlacedLeaf.ofKinds (k : String × String) : PlacedLeaf := ⟨k.1, k.2, ⟨0, 0⟩, ⟨0, 0⟩⟩

/-- What a token has besides its place. -/
def PlacedLeaf.kinds (l : PlacedLeaf) : String × String := (l.kind, l.parent)

namespace Layout

/-! ## Columns -/

/-- Tokens without their places. -/
def bare (row : List PlacedLeaf) : List PlacedLeaf := row.map fun l => .ofKinds l.kinds

theorem openAfter_bare (stack : Levels) (low : Nat) (ls : List PlacedLeaf) :
    openAfter stack low (bare ls) = openAfter stack low ls := by
  induction ls generalizing stack low with
  | nil => rfl
  | cons l ls ih =>
    have hkind : (PlacedLeaf.ofKinds l.kinds).kind = l.kind := rfl
    rw [bare, List.map_cons, ← bare]
    cases stack with
    | nil => simp only [openAfter, hkind, ih]
    | cons level stack => simp only [openAfter, hkind, ih]

theorem advance_bare (stack : Levels) (row : List PlacedLeaf) :
    advance stack (bare row) = advance stack row := by
  rw [advance, advance, openAfter_bare]

theorem closeLeading_bare (stack : Levels) (row : List PlacedLeaf) :
    closeLeading stack (bare row) =
      ((closeLeading stack row).1, bare (closeLeading stack row).2) := by
  induction row generalizing stack with
  | nil => rfl
  | cons l row ih =>
    have hkind : (PlacedLeaf.ofKinds l.kinds).kind = l.kind := rfl
    rw [bare, List.map_cons, ← bare, closeLeading, closeLeading, hkind]
    split
    · exact ih stack.tail
    · rfl

theorem lastKind_bare (previous : Option String) (row : List PlacedLeaf) :
    lastKind previous (bare row) = lastKind previous row := by
  rw [lastKind, lastKind, bare, List.getLast?_map]
  cases row.getLast? <;> rfl

/-- One row, given without the white space that is not kept. -/
def stepRow (isFirst : Bool) (x : BareRow) (s : State) : State :=
  step isFirst x.row.verbatim true x.row.text (x.tokens.map .ofKinds) s

/-- **A step does not look at columns.** -/
theorem step_eq (isFirst inside openEnd : Bool) (raw cut : Text) (row : List PlacedLeaf) (s : State)
    (hinside : inside = true → raw = cut)
    (htokens : inside = false → ∀ l ls, row = l :: ls → ∃ b rest, raw.drop l.first.col = b :: rest ∧
      isBlank b = false ∧ cut.dropWhile isBlank = b :: rest) :
    step isFirst inside openEnd raw row s =
      stepRow isFirst ⟨Row.relaid inside openEnd cut, row.map PlacedLeaf.kinds⟩ s := by
  have hbare : (row.map PlacedLeaf.kinds).map .ofKinds = bare row := List.map_map
  rw [stepRow, hbare]
  cases inside with
  | true =>
    obtain rfl := hinside rfl
    simp only [step, Row.relaid, if_true, advance_bare, lastKind_bare]
  | false =>
    cases row with
    | nil => rfl
    | cons l ls =>
      obtain ⟨b, rest, hraw, -, hcut⟩ := htokens rfl l ls rfl
      have hclose := closeLeading_bare s.levels (l :: ls)
      have hlast := lastKind_bare s.previous (l :: ls)
      have hcons : bare (l :: ls) = .ofKinds l.kinds :: bare ls := rfl
      rw [hcons] at hclose hlast ⊢
      simp only [step, Row.relaid, Bool.false_eq_true, if_false, if_true, hclose, hlast, advance_bare,
        hraw, hcut]
      rfl

/-! ## Empty rows -/

/-- Whether the last line so far is empty. -/
def State.endsEmpty (s : State) : Bool := (s.lines.head?).any fun l => l.row.isGap

/-- An empty row behind an empty line changes nothing. -/
theorem stepRow_of_endsEmpty {s : State} (h : s.endsEmpty = true) (isFirst : Bool) {x : BareRow}
    (hverbatim : x.row.verbatim = false) (htokens : x.tokens = []) : stepRow isFirst x s = s := by
  rw [stepRow, hverbatim, htokens]
  obtain ⟨l, hl, hgap⟩ := (Option.any_eq_true _ _).mp h
  obtain ⟨ls, hlines⟩ := List.head?_eq_some_iff.mp hl
  obtain ⟨depth, text, verbatim⟩ := l
  simp only [FragmentLine.row, Row.isGap, Bool.and_eq_true, Bool.not_eq_true', List.isEmpty_iff] at hgap
  obtain ⟨rfl, rfl⟩ := hgap
  simp [step, hlines]

/-- Any other row adds a line. -/
theorem lines_stepRow (isFirst : Bool) {x : BareRow} {s : State}
    (hgap : x.row.verbatim = false → x.tokens = [] → x.row.isGap = true)
    (hkept : x.row.isGap = true → s.endsEmpty = false) :
    ∃ l, (stepRow isFirst x s).lines = l :: s.lines ∧ l.row = x.row := by
  obtain ⟨⟨verbatim, text⟩, tokens⟩ := x
  cases verbatim with
  | true => exact ⟨_, rfl, rfl⟩
  | false =>
    cases tokens with
    | cons k ks => exact ⟨_, rfl, rfl⟩
    | nil =>
      have hisGap : Row.isGap ⟨false, text⟩ = true := hgap rfl rfl
      obtain rfl : text = [] := by simpa [Row.isGap] using hisGap
      have hend := hkept hisGap
      refine ⟨⟨0, [], false⟩, ?_, rfl⟩
      cases hlines : s.lines with
      | nil => simp [stepRow, step, hlines]
      | cons l ls =>
        obtain ⟨depth, text, verbatim⟩ := l
        cases text <;> cases verbatim <;>
          simp_all [stepRow, step, State.endsEmpty, FragmentLine.row, Row.isGap]

/-! ## The rows that are kept -/

/-- The row `i` is not an empty row behind another one. -/
def kept (spec : Nat → BareRow) (i : Nat) : Bool := !((spec i).row.isGap && (spec (i - 1)).row.isGap)

/-- The kept ones among the first `n` rows from `a` on. -/
def keptRows (spec : Nat → BareRow) (a n : Nat) : List Nat := (List.range' a n).filter (kept spec)

/-- The line that the row `i` becomes, counted from the row `a` on. -/
def rank (spec : Nat → BareRow) (a i : Nat) : Nat := (keptRows spec a (i - a)).length

/-- The layout of some rows, of which `a` is the first one. -/
def layRows (spec : Nat → BareRow) (a : Nat) (is : List Nat) : State :=
  is.foldl (fun s i => stepRow (i == a) (spec i) s) {}

variable {spec : Nat → BareRow} {a n i j : Nat}

theorem keptRows_succ (spec : Nat → BareRow) (a n : Nat) :
    keptRows spec a (n + 1) = keptRows spec a n ++ if kept spec (a + n) then [a + n] else [] := by
  rw [keptRows, List.range'_1_concat, List.filter_append, List.filter_cons, List.filter_nil]
  rfl

/-- **Leaving out empty rows beforehand changes nothing**, and each of the others gives one line. -/
theorem layRows_keptRows (hfirst : (spec a).row.isGap = false)
    (hgap : ∀ i, a ≤ i → i < a + n →
      ((spec i).row.isGap = true ↔ (spec i).row.verbatim = false ∧ (spec i).tokens = [])) :
    layRows spec a (keptRows spec a n) = layRows spec a (List.range' a n) ∧
    (layRows spec a (List.range' a n)).lines.reverse.map FragmentLine.row =
      (keptRows spec a n).map fun i => (spec i).row := by
  -- The empty line at the end, if there is one, belongs to the last row.
  suffices hall : layRows spec a (keptRows spec a n) = layRows spec a (List.range' a n) ∧
      (layRows spec a (List.range' a n)).lines.reverse.map FragmentLine.row =
        (keptRows spec a n).map (fun i => (spec i).row) ∧
      (0 < n → (layRows spec a (List.range' a n)).endsEmpty = (spec (a + n - 1)).row.isGap) from
    ⟨hall.1, hall.2.1⟩
  induction n with
  | zero => exact ⟨rfl, rfl, fun h => absurd h (by omega)⟩
  | succ n ih =>
    obtain ⟨hsame, hlines, hend⟩ := ih fun i hlow hhigh => hgap i hlow (by omega)
    have hlast : layRows spec a (List.range' a (n + 1)) =
        stepRow (a + n == a) (spec (a + n)) (layRows spec a (List.range' a n)) := by
      rw [layRows, List.range'_1_concat, List.foldl_append]
      rfl
    have hgapn := hgap (a + n) (by omega) (by omega)
    rw [keptRows_succ, hlast, Nat.add_succ_sub_one]
    cases hkept : kept spec (a + n) with
    | true =>
      obtain ⟨l, hl, hrow⟩ := lines_stepRow (a + n == a) (s := layRows spec a (List.range' a n))
        (fun hv ht => hgapn.mpr ⟨hv, ht⟩) fun hisGap => by
          cases n with
          | zero => exact absurd hisGap (by rw [Nat.add_zero, hfirst]; simp)
          | succ n =>
            rw [hend (by omega)]
            simpa [kept, hisGap] using hkept
      refine ⟨?_, ?_, fun _ => ?_⟩
      · rw [if_pos rfl, ← hsame, layRows, List.foldl_append]
        rfl
      · rw [hl, List.reverse_cons, List.map_append, hlines, List.map_append, if_pos rfl, List.map_singleton,
          List.map_singleton, hrow]
      · rw [State.endsEmpty, hl]
        exact congrArg Row.isGap hrow
    | false =>
      have hboth : (spec (a + n)).row.isGap = true ∧ (spec (a + n - 1)).row.isGap = true := by
        simpa [kept] using hkept
      obtain ⟨hverbatim, htokens⟩ := hgapn.mp hboth.1
      cases n with
      | zero => exact absurd hboth.1 (by rw [Nat.add_zero, hfirst]; simp)
      | succ n =>
        have hends := (hend (by omega)).trans hboth.2
        rw [if_neg (by simp), List.append_nil, stepRow_of_endsEmpty hends _ hverbatim htokens]
        exact ⟨hsame, hlines, fun _ => by rw [hends, hboth.1]⟩

/-! ## Ranks -/

theorem rank_self (spec : Nat → BareRow) (a : Nat) : rank spec a a = 0 := by
  rw [rank, Nat.sub_self]
  rfl

/-- A kept row is followed by the next line. -/
theorem rank_succ (hlow : a ≤ i) (hkept : kept spec i = true) :
    rank spec a (i + 1) = rank spec a i + 1 := by
  obtain ⟨n, rfl⟩ := Nat.exists_eq_add_of_le hlow
  have hcount : a + n + 1 - a = n + 1 := by omega
  rw [rank, rank, hcount, keptRows_succ, Nat.add_sub_cancel_left, hkept, List.length_append]
  rfl

theorem rank_mono (spec : Nat → BareRow) (a : Nat) (h : i ≤ j) : rank spec a i ≤ rank spec a j := by
  have hsub : (keptRows spec a (i - a)).Sublist (keptRows spec a (j - a)) := by
    refine List.Sublist.filter _ ?_
    obtain ⟨k, hk⟩ := Nat.exists_eq_add_of_le (Nat.sub_le_sub_right h a)
    rw [hk, ← List.range'_append_1]
    exact List.sublist_append_left _ _
  exact hsub.length_le

/-- Lines are in the order of the kept rows they come from. -/
theorem rank_lt_iff (hlow : a ≤ i) (hkept : kept spec i = true) : rank spec a i < rank spec a j ↔ i < j := by
  constructor
  · intro h
    by_contra hle
    exact absurd (rank_mono spec a (not_lt.mp hle)) (by omega)
  · intro h
    have hle := rank_mono spec a (Nat.succ_le_of_lt h)
    rw [rank_succ hlow hkept] at hle
    omega

theorem rank_inj (hi : a ≤ i) (hj : a ≤ j) (hkepti : kept spec i = true) (hkeptj : kept spec j = true) :
    rank spec a i = rank spec a j ↔ i = j := by
  refine ⟨fun h => ?_, fun h => by rw [h]⟩
  have hij := rank_lt_iff (j := j) hi hkepti
  have hji := rank_lt_iff (j := i) hj hkeptj
  omega

/-- The kept rows have the lines one after another. -/
theorem map_rank_keptRows (spec : Nat → BareRow) (a n : Nat) :
    (keptRows spec a n).map (rank spec a) = List.range' 0 (keptRows spec a n).length := by
  induction n with
  | zero => rfl
  | succ n ih =>
    rw [keptRows_succ]
    split
    · rw [List.map_append, ih, List.length_append, List.length_singleton, List.range'_1_concat,
        List.map_singleton, rank, Nat.add_sub_cancel_left, Nat.zero_add]
    · rw [List.append_nil, ih]

theorem kept_of_not_isGap (h : (spec i).row.isGap = false) : kept spec i = true := by
  simp [kept, h]

/-- Rows next to each other that are not empty become lines next to each other. -/
theorem rank_add (hlow : a ≤ i) {k : Nat} (hgap : ∀ j < k, (spec (i + j)).row.isGap = false) :
    rank spec a (i + k) = rank spec a i + k := by
  induction k with
  | zero => rfl
  | succ k ih =>
    have hkept := kept_of_not_isGap (hgap k (by omega))
    rw [← Nat.add_assoc, rank_succ (by omega) hkept, ih fun j hj => hgap j (by omega), Nat.add_assoc]

end Layout

/-! ## The rows of some tokens -/

namespace Leaf

open Layout

/-- The row `i` of the tokens `ls`, without its columns. -/
def bareRow (text : Text) (ls : List Leaf) (first last : Leaf) (i : Nat) : BareRow :=
  ⟨relaidRow text ls first last i,
    (ls.filter fun l => (text.point l.start).row == i).map fun l => (l.kind, l.parent)⟩

variable {text : Text} {ls : List Leaf} {first last l : Leaf} {i : Nat}

theorem bareRow_tokens_eq_nil_iff :
    (bareRow text ls first last i).tokens = [] ↔ tokensOn text ls i = [] := by
  rw [bareRow, tokensOn, List.map_eq_nil_iff, List.map_eq_nil_iff]

section Laid

variable (h : Laid (Source.ofText text) ls) (hfirst : ls.head? = some first)
  (hlast : ls.getLast? = some last)

include h hfirst hlast

/-- A row is empty if it starts outside every token and has none. -/
theorem Laid.isGap_bareRow_iff (hlow : (text.point first.start).row ≤ i)
    (hhigh : i ≤ (text.point last.stop).row) :
    (bareRow text ls first last i).row.isGap = true ↔
      (bareRow text ls first last i).row.verbatim = false ∧
        (bareRow text ls first last i).tokens = [] := by
  obtain ⟨-, hempty, htokens⟩ := fits h hfirst hlast hlow hhigh
  rw [bareRow_tokens_eq_nil_iff]
  have hverbatim : (bareRow text ls first last i).row.verbatim =
      anyInside (Source.ofText text) ls i := rfl
  rw [hverbatim]
  cases hinside : anyInside (Source.ofText text) ls i with
  | true => simp [bareRow, relaidRow, Row.relaid, Row.isGap, hinside]
  | false =>
    cases hrow : tokensOn text ls i with
    | nil =>
      have hcut := List.dropWhile_eq_nil_iff.mpr (hempty hinside hrow)
      simp [bareRow, relaidRow, Row.relaid, Row.isGap, hinside, hcut, trimEnd]
    | cons l more =>
      obtain ⟨b, rest, -, hb, hcut⟩ := htokens hinside l more hrow
      have hne := trimEnd_cons_ne_nil hb rest
      simp only [bareRow, relaidRow, Row.relaid, Row.isGap, hinside, hcut, Bool.false_eq_true, if_false]
      split <;> simp [hne]

/-- None of the rows of a token is empty. -/
theorem Laid.isGap_bareRow (hl : l ∈ ls) (hlow : (text.point l.start).row ≤ i)
    (hhigh : i ≤ (text.point l.stop).row) : (bareRow text ls first last i).row.isGap = false := by
  have hstart := row_mono (h.first_start_le hfirst hl) text
  have hstop := row_mono (h.stop_le_last hl hlast) text
  refine Bool.eq_false_iff.mpr fun hgap => ?_
  obtain ⟨hverbatim, htokens⟩ := (h.isGap_bareRow_iff hfirst hlast (by omega) (by omega)).mp hgap
  rcases hlow.eq_or_lt with rfl | hlow
  · rw [bareRow, List.map_eq_nil_iff, List.filter_eq_nil_iff] at htokens
    exact htokens l hl (by simp)
  · rw [bareRow, relaidRow, Row.relaid, anyInside_of_mem hl hlow hhigh] at hverbatim
    exact absurd hverbatim (by simp)

/-- **The fragment of some tokens**, from their rows without columns. -/
theorem Laid.ofPlaced_eq_layRows :
    ofPlaced (Source.ofText text).rows (ls.map (Leaf.place (Source.ofText text))) =
      (layRows (bareRow text ls first last) (text.point first.start).row
        (List.range' (text.point first.start).row
          ((text.point last.stop).row + 1 - (text.point first.start).row))).lines.reverse := by
  rw [ofPlaced_eq hfirst hlast, layRows]
  congr 2
  refine List.foldl_ext _ _ _ fun s i hi => ?_
  obtain ⟨hlow, hhigh⟩ := List.mem_range'_1.mp hi
  obtain ⟨hinside, -, htokens⟩ := fits h hfirst hlast hlow (by omega)
  rw [step_eq _ _ _ _ _ _ s hinside htokens, tokensOn, List.map_map]
  rfl

end Laid

end Leaf

end Stopwatch
